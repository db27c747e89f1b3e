import FileIndex.Encoding.Varint

/-!
# Id lists

A strictly ascending list of ids is stored as its first id and then the distance of each id to
the one before it, each as a numeral of variable length. The empty list has no bytes.

* `IdList.encode`, `IdList.decode`: writing and reading a list.
-/

namespace FileIndex.IdList

/-- Writes the distances of `ids`, the first of them to `previous`. -/
def encodeAfter (previous : DocId) : List DocId → Bytes
  | [] => []
  | id :: ids => Varint.encode (id - previous) ++ encodeAfter id ids

/-- Writes a list of ids. -/
def encode (ids : List DocId) : Bytes := encodeAfter 0 ids

/-- Reads the ids that follow `previous`: no distance is 0 and no id is beyond 64 bits. -/
def decodeAfter (previous : DocId) (bs : Bytes) : Except Malformed (List DocId) :=
  if bs.isEmpty then .ok []
  else match _h : Varint.decode bs with
    | .error cause => .error cause
    | .ok (gap, rest) =>
      if gap = 0 then .error .repeatedId
      else if previous.toNat + gap.toNat < UInt64.size then
        (decodeAfter (previous + gap) rest).map ((previous + gap) :: ·)
      else .error .idTooLarge
termination_by bs.length
decreasing_by exact Varint.decode_shortens _h

/-- Reads a list of ids. -/
def decode (bs : Bytes) : Except Malformed (List DocId) :=
  if bs.isEmpty then .ok []
  else match Varint.decode bs with
    | .error cause => .error cause
    | .ok (first, rest) => (decodeAfter first rest).map (first :: ·)

end FileIndex.IdList
