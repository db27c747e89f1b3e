import FileIndex.Comparison
import FileIndex.Cursor
import FileIndex.Encoding.IdList
import FileIndex.Store.Basic

/-!
# From terms to documents

For each term the store holds the ids of its documents and, for those that have any, its
positions. A list that cannot be read counts as empty, and an empty list is not stored.

* `Store.idsWith`, `Store.occurrencesOf`: the lists of a term.
* `Store.putIds`, `Store.putOccurrences`: replacing them.
* `Store.termsBeginning`: the terms with a given beginning.
* `Store.termCursor?`, `Store.beginningCursor?`, `Store.comparisonCursor?`,
  `Store.occurrenceCursor?`: cursors over them, if there is anything.
-/

namespace FileIndex.Store

/-- The ids of a stored list, none if it cannot be read. -/
def readIds (value : Bytes) : List DocId := Malformed.orElse [] (IdList.decode value)

/-- The ids of the documents with the term, ascending. -/
def idsWith (s : Store) (term : Bytes) : List DocId :=
  if term.isEmpty then [] else ((s.postings.find? term).map readIds).getD []

/-- Replaces the ids of a term. -/
def putIds (s : Store) (term : Bytes) (ids : List DocId) : Except Error Store :=
  if term.isEmpty then .error .emptyPostingTerm
  else if ids.isEmpty then .ok { s with postings := s.postings.erase term }
  else do return { s with postings := ← s.postings.put term (IdList.encode ids) }

/-- The documents in which the term has positions, ascending by id. -/
def occurrencesOf (s : Store) (term : Bytes) : List Occurrence :=
  if term.isEmpty then []
  else ((s.occurrences.find? term).map fun value =>
    Malformed.orElse [] (OccurrenceList.decode value)).getD []

/-- Replaces the positions of a term. -/
def putOccurrences (s : Store) (term : Bytes) (os : List Occurrence) : Except Error Store :=
  if term.isEmpty then .error .emptyPositionTerm
  else if os.isEmpty then .ok { s with occurrences := s.occurrences.erase term }
  else do return { s with occurrences := ← s.occurrences.put term (OccurrenceList.encode os) }

/-- Every term with the ids of its documents, ascending by term. -/
def postingMap (s : Store) : List (Bytes × List DocId) :=
  s.postings.entries.map fun e => (e.1, readIds e.2)

/-- The terms with the given beginning, ascending. -/
def termsBeginning (s : Store) (beginning : Bytes) : Except Error (List Bytes) := do
  return (← s.postings.beginningWith beginning).map (·.1)

/-- A cursor over ids, if there are any. -/
def cursorOver? (ids : List DocId) : Option Cursor :=
  if ids.isEmpty then none else some (Cursor.ofIds ids)

/-- A cursor over the documents with the term. -/
def termCursor? (s : Store) (term : Bytes) : Option Cursor := cursorOver? (s.idsWith term)

/-- A cursor over the documents in which the term has positions. -/
def occurrenceCursor? (s : Store) (term : Bytes) : Option Cursor :=
  let os := s.occurrencesOf term
  if os.isEmpty then none else some (Cursor.ofOccurrences os)

/-- A cursor over the documents with a term of the given beginning whose rest is wanted. -/
def restCursor? (s : Store) (beginning : Bytes) (wanted : Bytes → Bool) :
    Except Error (Option Cursor) := do
  let entries ← s.postings.beginningWith beginning
  let kept := entries.filter fun e => wanted (e.1.drop beginning.length)
  return Cursor.union? (kept.filterMap fun e => cursorOver? (readIds e.2))

/-- A cursor over the documents with a term of the given beginning. -/
def beginningCursor? (s : Store) (beginning : Bytes) : Except Error (Option Cursor) :=
  s.restCursor? beginning fun _ => true

/-- A cursor over the documents with a term made of the given beginning and a number that compares
to `reference` as asked. -/
def comparisonCursor? (s : Store) (beginning : Bytes) (reference : Int64) (c : Comparison) :
    Except Error (Option Cursor) :=
  s.restCursor? beginning fun rest =>
    match signedDecimal? rest with
    | some n => c.holds n reference
    | none => false

end FileIndex.Store
