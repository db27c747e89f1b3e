import FileIndex.Error

/-!
# Absolute paths

A path is a list of names from the leaf upwards, so that dropping the first name goes up a level.

* `Path.parse`, `Path.render`: reading and writing `/a/b/c`.
* `Path.split`: the pieces of a byte string between slashes.
-/

namespace FileIndex.Path

/-- The byte that separates names. -/
def slash : UInt8 := 0x2F

/-- The pieces between slashes; there is one piece at least. -/
def split : Bytes → List Bytes
  | [] => [[]]
  | b :: bs =>
    if b = slash then [] :: split bs
    else match split bs with
      | [] => [[b]]
      | piece :: pieces => (b :: piece) :: pieces

/-- Writes a path given by its names from the leaf upwards. -/
def render : List Bytes → Bytes
  | [] => []
  | name :: above => render above ++ slash :: name

/-- Reads an absolute path without empty names, and answers its names from the leaf upwards. -/
def parse (url : Bytes) : Except Error (List Bytes) :=
  if url.head? ≠ some slash ∨ url.getLast? = some slash then .error .notAbsolute
  else if (split url.tail).contains [] then .error .emptyComponent
  else .ok (split url.tail).reverse

end FileIndex.Path
