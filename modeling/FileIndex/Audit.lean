import FileIndex.Store.Attributes
import FileIndex.Store.Paths

/-!
# Consistency of a store

* `Issue`, `Audit`: what can be wrong, and what a check found.
* `Store.auditTerms`: every term of a document must list the document.
* `Store.auditPostings`: every document that a term lists must have the term.
* `Store.auditPaths`: every document that a term lists must have a path.
-/

namespace FileIndex

/-- A contradiction between tables. -/
inductive Issue
  /-- The document has the term, but the term does not list the document. -/
  | missingPosting (id : DocId) (term : Bytes)
  /-- The term lists the document, but the document does not have the term. -/
  | missingTerm (id : DocId) (term : Bytes)
  /-- A term lists the document, but the document has no path. -/
  | missingPath (id : DocId)
  deriving DecidableEq, Repr

/-- What a check found. -/
structure Audit where
  /-- The number of term sets, or of documents, that were looked at. -/
  checked : Nat
  issues : List Issue
  deriving DecidableEq, Repr

/-- Whether nothing is wrong. -/
def Audit.isConsistent (a : Audit) : Bool := a.issues.isEmpty

namespace Store

/-- Checks that the terms of every document list it. -/
def auditTerms (s : Store) : Except Error Audit := do
  let sets := (← Field.all.mapM s.termMap).flatten
  return {
    checked := sets.length
    issues := sets.flatMap fun e =>
      (e.2.filter fun term => !(s.idsWith term).contains e.1).map (.missingPosting e.1) }

/-- The documents that any term lists, ascending. -/
def postedIds (s : Store) : List DocId := Ascending.ofList (s.postingMap.flatMap (·.2))

/-- Checks that every document has the terms that list it. -/
def auditPostings (s : Store) : Audit where
  checked := s.postedIds.length
  issues := s.postedIds.flatMap fun id =>
    let terms := Field.all.flatMap fun field => s.termsOf field id
    (s.postingMap.filter fun e => e.2.contains id && !terms.contains e.1).map
      fun e => .missingTerm id e.1

/-- Checks that every document that a term lists has a path. -/
def auditPaths (s : Store) : Except Error Audit := do
  let lost ← s.postedIds.filterM fun id => return (← s.pathOf id).isEmpty
  return { checked := s.postedIds.length, issues := lost.map .missingPath }

end Store
end FileIndex
