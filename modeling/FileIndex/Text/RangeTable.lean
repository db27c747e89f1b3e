/-!
# Tables of code points

A table lists ranges of code points in ascending order, each with the values that belong to it. It
is written as text: ranges are separated by blanks or line ends, code points are hexadecimal, and
values follow an equals sign, as in `41-5A=61 C0=41,300`.

* `RangeTable.ofText`: reading such a text.
* `RangeTable.find?`, `RangeTable.contains`: the range that a character is in.
* `RangeTable.image?`: what a character maps to. A range with one value maps to a run of
  consecutive code points that begins with it.
-/

namespace FileIndex

/-- Consecutive code points and the values that belong to them. -/
structure Range where
  first : Nat
  last : Nat
  values : List Nat
  deriving Repr, Inhabited

/-- Ranges in ascending order. -/
abbrev RangeTable := Array Range

/-- The number that hexadecimal digits denote. -/
def ofHex (s : String) : Nat :=
  s.foldl (fun n c => 16 * n + if c.isDigit then c.toNat - 0x30 else c.toNat - 0x37) 0

/-- Reads a range. -/
def Range.ofText (s : String) : Range :=
  let sides := s.splitOn "="
  let ends := (sides.headD "").splitOn "-"
  { first := ofHex (ends.headD "")
    last := ofHex (ends.getLastD "")
    values := (sides.tail.flatMap (·.splitOn ",")).map ofHex }

namespace RangeTable

/-- Reads a table. -/
def ofText (s : String) : RangeTable :=
  let words := (s.splitOn "\n").flatMap (·.splitOn " ")
  ((words.filter (!·.isEmpty)).map Range.ofText).toArray

/-- The range of a code point among those with an index from `low` up to `high`. -/
def findBetween (t : RangeTable) (code low high : Nat) : Option Range :=
  if low < high then
    match t[(low + high) / 2]? with
    | none => none
    | some r =>
      if code < r.first then findBetween t code low ((low + high) / 2)
      else if r.last < code then findBetween t code ((low + high) / 2 + 1) high
      else some r
  else none
termination_by high - low

/-- The range of a character. -/
def find? (t : RangeTable) (c : Char) : Option Range := t.findBetween c.toNat 0 t.size

/-- Whether a character is in the table. -/
def contains (t : RangeTable) (c : Char) : Bool := (t.find? c).isSome

/-- What a character maps to. -/
def image? (t : RangeTable) (c : Char) : Option (List Char) :=
  (t.find? c).map fun r =>
    match r.values with
    | [v] => [Char.ofNat (v + (c.toNat - r.first))]
    | vs => vs.map Char.ofNat

end RangeTable
end FileIndex
