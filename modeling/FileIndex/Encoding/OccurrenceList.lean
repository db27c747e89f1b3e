import FileIndex.Encoding.Varint

/-!
# Occurrence lists

Where a term occurs is a list of documents, ascending by id, each with the ascending positions of
the term in it. Stored are the number of documents and then, for each document, the distance of
its id to the one before it, the number of positions and the distance of each position to the one
before it, all as numerals of variable length.

* `Occurrence`: one document of such a list.
* `OccurrenceList.encode`, `OccurrenceList.decode`: writing and reading a list.
-/

namespace FileIndex

/-- The positions of a term in one document. -/
structure Occurrence where
  id : DocId
  positions : List UInt32 := []
  deriving DecidableEq, Repr, Inhabited

namespace OccurrenceList

/-- Writes the distances of `positions`, the first of them to `previous`. -/
def encodePositions (previous : UInt32) : List UInt32 → Bytes
  | [] => []
  | p :: ps => Varint.encode (p - previous).toUInt64 ++ encodePositions p ps

/-- Writes the documents of a list whose ids follow `previous`. -/
def encodeAfter (previous : DocId) : List Occurrence → Bytes
  | [] => []
  | o :: os =>
    Varint.encode (o.id - previous) ++ Varint.encode (UInt64.ofNat o.positions.length) ++
      encodePositions 0 o.positions ++ encodeAfter o.id os

/-- Writes an occurrence list. -/
def encode (os : List Occurrence) : Bytes :=
  Varint.encode (UInt64.ofNat os.length) ++ encodeAfter 0 os

/-- Reads `count` positions that follow `previous`. -/
def decodePositions : (count : Nat) → (previous : UInt32) → Bytes →
    Except Malformed (List UInt32 × Bytes)
  | 0, _, bs => .ok ([], bs)
  | count + 1, previous, bs => do
    let (gap, bs) ← Varint.decode bs
    if gap.toNat < UInt32.size then
      if previous.toNat + gap.toNat < UInt32.size then
        let (ps, bs) ← decodePositions count (previous + gap.toUInt32) bs
        return ((previous + gap.toUInt32) :: ps, bs)
      else throw .positionTooLarge
    else throw .gapTooLarge

/-- Reads `count` documents whose ids follow `previous`. -/
def decodeAfter : (count : Nat) → (previous : DocId) → Bytes →
    Except Malformed (List Occurrence × Bytes)
  | 0, _, bs => .ok ([], bs)
  | count + 1, previous, bs => do
    let (gap, bs) ← Varint.decode bs
    if previous.toNat + gap.toNat < UInt64.size then
      let (size, bs) ← Varint.decode bs
      let (ps, bs) ← decodePositions size.toNat 0 bs
      let (os, bs) ← decodeAfter count (previous + gap) bs
      return (⟨previous + gap, ps⟩ :: os, bs)
    else throw .entryIdTooLarge

/-- Reads an occurrence list; without bytes the list is empty. -/
def decode (bs : Bytes) : Except Malformed (List Occurrence) :=
  if bs.isEmpty then .ok []
  else do
    let (count, bs) ← Varint.decode bs
    let (os, bs) ← decodeAfter count.toNat 0 bs
    if bs.isEmpty then return os else throw .bytesLeft

end OccurrenceList
end FileIndex
