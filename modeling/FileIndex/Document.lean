import FileIndex.Ascending
import FileIndex.ByteMap
import FileIndex.Encoding.Record

/-!
# Documents

* `Document`: a file with its path, times and payload, and the terms of its three fields.
* `Document.addTerm`, `Document.addPosition`: a term of a field, without or with a position.
* `Parts`: which parts of a stored document a replacement overwrites.
-/

namespace FileIndex

/-- The parts of a document that terms come from. -/
inductive Field
  /-- What the file holds. -/
  | content
  /-- The name of the file. -/
  | fileName
  /-- The extended attributes of the file. -/
  | attributes
  deriving DecidableEq, Repr

/-- All fields, in the order in which they are stored. -/
def Field.all : List Field := [.content, .fileName, .attributes]

/-- Terms with their ascending positions. A term may have none. -/
abbrev TermMap := ByteMap (List UInt32)

/-- A file or folder as it is handed to the index. -/
structure Document where
  id : DocId
  url : Bytes := []
  time : TimeInfo := ⟨0, 0⟩
  /-- Whether the content is still to be read. -/
  contentPending : Bool := false
  payload : Bytes := []
  contentTerms : TermMap := ∅
  fileNameTerms : TermMap := ∅
  attributeTerms : TermMap := ∅
  deriving DecidableEq

/-- Adds a term without a position; a term that is there stays as it is. -/
def TermMap.addTerm (m : TermMap) (term : Bytes) : TermMap :=
  if m.contains term then m else m.insert term []

/-- Adds a position of a term. -/
def TermMap.addPosition (m : TermMap) (term : Bytes) (position : UInt32) : TermMap :=
  m.insert term (Ascending.insert position ((m.find? term).getD []))

namespace Document

/-- The terms of a field. -/
def terms (doc : Document) : Field → TermMap
  | .content => doc.contentTerms
  | .fileName => doc.fileNameTerms
  | .attributes => doc.attributeTerms

/-- Changes the terms of a field. -/
def mapTerms (doc : Document) (field : Field) (f : TermMap → TermMap) : Document :=
  match field with
  | .content => { doc with contentTerms := f doc.contentTerms }
  | .fileName => { doc with fileNameTerms := f doc.fileNameTerms }
  | .attributes => { doc with attributeTerms := f doc.attributeTerms }

/-- Adds a term to a field, without a position. -/
def addTerm (doc : Document) (field : Field) (term : Bytes) : Document :=
  doc.mapTerms field (·.addTerm term)

/-- Adds a position of a term to a field. -/
def addPosition (doc : Document) (field : Field) (term : Bytes) (position : UInt32) : Document :=
  doc.mapTerms field (·.addPosition term position)

end Document

/-- Which parts of a stored document a replacement overwrites. -/
structure Parts where
  contentTerms : Bool := false
  fileNameTerms : Bool := false
  attributeTerms : Bool := false
  payload : Bool := false
  url : Bool := false
  time : Bool := false
  deriving DecidableEq, Repr

namespace Parts

/-- Every part. -/
def everything : Parts := ⟨true, true, true, true, true, true⟩

/-- What a file gets when it is renamed or moved: terms of its name, and a path. -/
def rename : Parts := { fileNameTerms := true, url := true }

/-- The parts that the six low bits of a mask stand for. -/
def ofMask (mask : Nat) : Parts where
  contentTerms := mask.testBit 0
  fileNameTerms := mask.testBit 1
  attributeTerms := mask.testBit 2
  payload := mask.testBit 3
  url := mask.testBit 4
  time := mask.testBit 5

/-- Whether the terms of a field are overwritten. -/
def terms (parts : Parts) : Field → Bool
  | .content => parts.contentTerms
  | .fileName => parts.fileNameTerms
  | .attributes => parts.attributeTerms

end Parts
end FileIndex
