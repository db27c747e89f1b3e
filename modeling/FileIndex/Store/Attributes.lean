import FileIndex.Comparison
import FileIndex.Document
import FileIndex.Encoding.TermSet
import FileIndex.Store.Postings

/-!
# What is stored of a document

* `Store.termsOf`, `Store.putTerms`, `Store.eraseTerms`: the set of terms of a field. An empty
  set is not stored, and one that cannot be read counts as empty.
* `Store.timeOf?`, `Store.putTime`, `Store.eraseTime`: the times.
* `Store.payloadOf`, `Store.putPayload`, `Store.erasePayload`: the payload.
* `IdTable.add`, `IdTable.ids`: sets of ids.
* `Store.addModified`, `Store.modifiedBetween`, `Store.modifiedCursor?`: the documents by their
  modification time.

No document has the id 0, so nothing is stored for it. The entries of a set have no values, and
what comes upon one with a value fails.
-/

namespace FileIndex

namespace Store

/-! ## Term sets -/

/-- The table of the term sets of a field. -/
def termTable (s : Store) : Field → Table
  | .content => s.contentTerms
  | .fileName => s.fileNameTerms
  | .attributes => s.attributeTerms

/-- The store with another table of the term sets of a field. -/
def setTermTable (s : Store) (field : Field) (t : Table) : Store :=
  match field with
  | .content => { s with contentTerms := t }
  | .fileName => { s with fileNameTerms := t }
  | .attributes => { s with attributeTerms := t }

/-- The terms that the document has in a field, ascending. -/
def termsOf (s : Store) (field : Field) (id : DocId) : List Bytes :=
  (((s.termTable field).find? (DocId.toKey id)).map fun value =>
    Malformed.orElse [] (TermSet.decode value)).getD []

/-- Forgets the terms of a document in a field. -/
def eraseTerms (s : Store) (field : Field) (id : DocId) : Store :=
  s.setTermTable field ((s.termTable field).erase (DocId.toKey id))

/-- Replaces the terms of a document in a field. -/
def putTerms (s : Store) (field : Field) (id : DocId) (terms : List Bytes) : Except Error Store :=
  if id = 0 then .error .zeroId
  else if terms.isEmpty then .ok (s.eraseTerms field id)
  else .ok (s.setTermTable field
    ((s.termTable field).insert (DocId.toKey id) (TermSet.encode terms)))

/-- Whether terms of a document are stored in a field. -/
def hasTerms (s : Store) (field : Field) (id : DocId) : Bool :=
  (s.termTable field).contains (DocId.toKey id)

/-- Every document with its terms in a field, ascending by id. -/
def termMap (s : Store) (field : Field) : Except Error (List (DocId × List Bytes)) :=
  (s.termTable field).byId fun value => Malformed.orFail (TermSet.decode value)

/-! ## Times -/

/-- The times of a document. -/
def timeOf? (s : Store) (id : DocId) : Except Error (Option TimeInfo) :=
  match s.times.find? (DocId.toKey id) with
  | none => .ok none
  | some value => do return some (← Malformed.orFail (TimeInfo.decode value))

/-- Whether the id is that of a document. Folders that are known only from paths have no times. -/
def hasDocument (s : Store) (id : DocId) : Bool := s.times.contains (DocId.toKey id)

/-- Replaces the times of a document. -/
def putTime (s : Store) (id : DocId) (time : TimeInfo) : Except Error Store :=
  if id = 0 then .error .zeroId
  else .ok { s with times := s.times.insert (DocId.toKey id) time.encode }

/-- Forgets the times of a document. -/
def eraseTime (s : Store) (id : DocId) : Store :=
  { s with times := s.times.erase (DocId.toKey id) }

/-! ## Payloads -/

/-- The payload of a document, empty if there is none. -/
def payloadOf (s : Store) (id : DocId) : Bytes := (s.payloads.find? (DocId.toKey id)).getD []

/-- Whether a payload of a document is stored. -/
def hasPayload (s : Store) (id : DocId) : Bool := s.payloads.contains (DocId.toKey id)

/-- Forgets the payload of a document. -/
def erasePayload (s : Store) (id : DocId) : Store :=
  { s with payloads := s.payloads.erase (DocId.toKey id) }

/-- Replaces the payload of a document; an empty one is not stored. -/
def putPayload (s : Store) (id : DocId) (payload : Bytes) : Except Error Store :=
  if id = 0 then .error .zeroId
  else if payload.isEmpty then .ok (s.erasePayload id)
  else .ok { s with payloads := s.payloads.insert (DocId.toKey id) payload }

end Store

/-! ## Sets of ids -/

namespace IdTable

/-- Adds an id. -/
def add (t : Table) (id : DocId) : Except Error Table :=
  if id = 0 then .error .zeroId else .ok (t.insert (DocId.toKey id) [])

/-- Removes an id. -/
def remove (t : Table) (id : DocId) : Table := t.erase (DocId.toKey id)

/-- Whether the id is there. -/
def contains (t : Table) (id : DocId) : Except Error Bool :=
  match t.find? (DocId.toKey id) with
  | none => .ok false
  | some value => (Table.member (DocId.toKey id, value)).map fun _ => true

/-- The first ids, ascending, at most `limit` of them. -/
def ids (t : Table) (limit : Nat) : Except Error (List DocId) :=
  (t.entries.take limit).mapM fun entry => do
    let id ← DocId.ofKey entry.1
    let _ ← Table.member entry
    return id

end IdTable

namespace Store

/-! ## Documents by modification time -/

/-- The key of a document under its modification time: keys go by time first and by id second. -/
def modifiedKey (time : UInt64) (id : DocId) : Bytes :=
  Bytes.bigEndian 8 time.toNat ++ DocId.toKey id

/-- The document of such a key. -/
def modifiedId? (key : Bytes) : Option DocId :=
  if key.length < 16 then none
  else some (UInt64.ofNat (Bytes.ofBigEndian ((key.drop 8).take 8)))

/-- Enters a document under its modification time. -/
def addModified (s : Store) (time : UInt64) (id : DocId) : Except Error Store :=
  if id = 0 then .error .zeroId
  else .ok { s with modified := s.modified.insert (modifiedKey time id) [] }

/-- Takes a document away from under its modification time. -/
def removeModified (s : Store) (time : UInt64) (id : DocId) : Store :=
  { s with modified := s.modified.erase (modifiedKey time id) }

/-- The documents modified from `first` to `last`, ascending by id. -/
def modifiedBetween (s : Store) (first last : UInt64) : Except Error (List DocId) := do
  let low := modifiedKey first 0
  let high := modifiedKey last (UInt64.ofNat (UInt64.size - 1))
  let keys ← (s.modified.entries.filter fun e => low ≤ e.1 ∧ e.1 ≤ high).mapM Table.member
  return Ascending.ofList (keys.filterMap modifiedId?)

/-- The range of times that compare to `time` as asked, if there are any. -/
def timeRange? (time : UInt64) : Comparison → Option (UInt64 × UInt64)
  | .less => if time = 0 then none else some (0, time - 1)
  | .lessEqual => some (0, time)
  | .equal => some (time, time)
  | .greaterEqual => some (time, UInt64.ofNat (UInt64.size - 1))
  | .greater =>
    if time.toNat + 1 = UInt64.size then none
    else some (time + 1, UInt64.ofNat (UInt64.size - 1))

/-- A cursor over the documents whose modification time compares to `time` as asked. -/
def modifiedCursor? (s : Store) (time : UInt64) (c : Comparison) : Except Error (Option Cursor) :=
  match timeRange? time c with
  | none => .ok none
  | some (first, last) => do return cursorOver? (← s.modifiedBetween first last)

end Store
end FileIndex
