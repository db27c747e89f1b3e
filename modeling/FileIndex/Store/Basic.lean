import FileIndex.ByteMap
import FileIndex.Encoding.Record

/-!
# The tables of the index

* `Table`: an ordered map from keys of 1 to 511 bytes to values. `Table.put`, `Table.get`,
  `Table.remove` and `Table.beginningWith` refuse keys that a table cannot hold or look up.
  A table that is a set of keys has empty values, and `Table.member` refuses any other.
* `Store`: the twelve tables of an index, and `TableName` to go through them.
* `Edit`: a change of a store that may fail; what it did before it failed remains.
-/

namespace FileIndex

/-- An ordered map from byte strings to byte strings. -/
abbrev Table := ByteMap Bytes

namespace Table

/-- The greatest length of a key. -/
def maxKeyLength : Nat := 511

/-- Whether a table can hold the key. -/
def holdsKey (key : Bytes) : Bool := !key.isEmpty && key.length ≤ maxKeyLength

/-- Stores a value; a key that the table cannot hold is refused. -/
def put (t : Table) (key value : Bytes) : Except Error Table :=
  if holdsKey key then .ok (t.insert key value) else .error (.storage .keySize)

/-- Looks a key up; the empty key is refused. -/
def get (t : Table) (key : Bytes) : Except Error (Option Bytes) :=
  if key.isEmpty then .error (.storage .keySize) else .ok (t.find? key)

/-- Removes a key and tells whether it was there; the empty key is refused. -/
def remove (t : Table) (key : Bytes) : Except Error (Bool × Table) :=
  if key.isEmpty then .error (.storage .keySize) else .ok (t.contains key, t.erase key)

/-- The entries whose keys begin so, ascending by key; the empty beginning is refused. -/
def beginningWith (t : Table) (beginning : Bytes) : Except Error (List (Bytes × Bytes)) :=
  if beginning.isEmpty then .error (.storage .keySize)
  else .ok (t.entries.filter (beginning.isPrefixOf ·.1))

/-- The key of an entry of a set of keys; an entry with a value is refused. -/
def member (entry : Bytes × Bytes) : Except Error Bytes :=
  if entry.2.isEmpty then .ok entry.1 else .error (.storage .memberValue)

/-- The number of bytes in keys and values. -/
def byteCount (t : Table) : Nat :=
  t.entries.foldr (fun e n => e.1.length + e.2.length + n) 0

/-- The values by id, ascending, each as `read` understands it. Keys that agree in their first
eight bytes stand for one id, and the last of them counts. -/
def byId {α : Type} (t : Table) (read : Bytes → Except Error α) :
    Except Error (List (DocId × α)) := do
  let entries ← t.entries.mapM fun e => return (← DocId.ofKey e.1, ← read e.2)
  return entries.foldr (fun e es => if es.any (·.1 = e.1) then es else e :: es) []

end Table

/-- The tables of an index. -/
structure Store where
  /-- The ids of the documents with a term. -/
  postings : Table := ∅
  /-- The documents with a term at known positions. -/
  occurrences : Table := ∅
  /-- The content terms of a document. -/
  contentTerms : Table := ∅
  /-- The file name terms of a document. -/
  fileNameTerms : Table := ∅
  /-- The attribute terms of a document. -/
  attributeTerms : Table := ∅
  /-- The ids directly below an id in the tree of paths. -/
  children : Table := ∅
  /-- The name of an id and the id above it. -/
  pathEntries : Table := ∅
  /-- The times of a document. -/
  times : Table := ∅
  /-- The payload of a document. -/
  payloads : Table := ∅
  /-- The documents whose content is still to be read. -/
  contentPending : Table := ∅
  /-- The documents whose content could not be read. -/
  failed : Table := ∅
  /-- The modification times with their documents. -/
  modified : Table := ∅
  deriving DecidableEq

/-- The tables of a store. -/
inductive TableName
  | postings | occurrences | contentTerms | fileNameTerms | attributeTerms | children
  | pathEntries | times | payloads | contentPending | failed | modified
  deriving DecidableEq, Repr

namespace TableName

/-- All tables, in the order in which they are opened. -/
def all : List TableName :=
  [postings, occurrences, contentTerms, fileNameTerms, attributeTerms, children, pathEntries,
    times, payloads, contentPending, failed, modified]

/-- The name of a table in the file. -/
def label : TableName → String
  | postings => "postingdb"
  | occurrences => "positiondb"
  | contentTerms => "documenttermsdb"
  | fileNameTerms => "documentfilenametermsdb"
  | attributeTerms => "documentxattrtermsdb"
  | children => "idtreedb"
  | pathEntries => "idfilenamedb"
  | times => "documenttimedb"
  | payloads => "documentdatadb"
  | contentPending => "contentindexingdb"
  | failed => "faileddb"
  | modified => "mtimedb"

/-- The table with the given name in the file. -/
def ofLabel? (label : String) : Option TableName := all.find? (·.label = label)

end TableName

namespace Store

instance : EmptyCollection Store := ⟨{ postings := ∅ }⟩
instance : Inhabited Store := ⟨∅⟩

/-- A table of the store. -/
def table (s : Store) : TableName → Table
  | .postings => s.postings
  | .occurrences => s.occurrences
  | .contentTerms => s.contentTerms
  | .fileNameTerms => s.fileNameTerms
  | .attributeTerms => s.attributeTerms
  | .children => s.children
  | .pathEntries => s.pathEntries
  | .times => s.times
  | .payloads => s.payloads
  | .contentPending => s.contentPending
  | .failed => s.failed
  | .modified => s.modified

/-- The store with another table under a name. -/
def setTable (s : Store) (name : TableName) (t : Table) : Store :=
  match name with
  | .postings => { s with postings := t }
  | .occurrences => { s with occurrences := t }
  | .contentTerms => { s with contentTerms := t }
  | .fileNameTerms => { s with fileNameTerms := t }
  | .attributeTerms => { s with attributeTerms := t }
  | .children => { s with children := t }
  | .pathEntries => { s with pathEntries := t }
  | .times => { s with times := t }
  | .payloads => { s with payloads := t }
  | .contentPending => { s with contentPending := t }
  | .failed => { s with failed := t }
  | .modified => { s with modified := t }

/-- Stores a value in a table as it is. -/
def putRaw (s : Store) (name : TableName) (key value : Bytes) : Except Error Store := do
  return s.setTable name (← (s.table name).put key value)

/-- Looks a key up in a table. -/
def getRaw (s : Store) (name : TableName) (key : Bytes) : Except Error (Option Bytes) :=
  (s.table name).get key

/-- Removes a key from a table and tells whether it was there. -/
def removeRaw (s : Store) (name : TableName) (key : Bytes) : Except Error (Bool × Store) := do
  let (found, t) ← (s.table name).remove key
  return (found, s.setTable name t)

@[simp] theorem table_setTable (s : Store) (name other : TableName) (t : Table) :
    (s.setTable name t).table other = if other = name then t else s.table other := by
  cases name <;> cases other <;> rfl

end Store

/-- A change of a store that may fail. What it did before it failed remains. -/
abbrev Edit := EStateM Error Store

namespace Edit

/-- Looks at the store. -/
def read {α : Type} (look : Store → Except Error α) : Edit α := fun s =>
  match look s with
  | .ok a => .ok a s
  | .error e => .error e s

/-- Changes the store as a whole or not at all. -/
def update (change : Store → Except Error Store) : Edit Unit := fun s =>
  match change s with
  | .ok s' => .ok () s'
  | .error e => .error e s

end Edit
end FileIndex
