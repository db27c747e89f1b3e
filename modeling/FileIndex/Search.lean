import FileIndex.Store.Postings

/-!
# Running queries

* `Store.cursorFor`: the cursor over the documents that match a query, nothing if none can match.
  It fails for a phrase that holds something other than exact terms and for a beginning of terms
  that is empty.
* `Store.search`: the ids of the documents that match a query.
-/

namespace FileIndex.Store

/-- The exact terms of a phrase. -/
def phraseTerms : List Query → Except Error (List Bytes)
  | [] => .ok []
  | .term t :: qs => do return t :: (← phraseTerms qs)
  | _ :: _ => .error .phraseNotOfTerms

/-- The cursor over the documents that hold the terms one after the other. A single term needs no
positions. -/
def phraseCursor? (s : Store) : List Bytes → Option Cursor
  | [] => none
  | [term] => s.termCursor? term
  | terms => (terms.mapM s.occurrenceCursor?).map (Cursor.ofParts .phrase)

mutual

/-- The cursor over the documents that match a query, nothing if none can match. -/
def cursorFor (s : Store) : Query → Except Error (Option Cursor)
  | .term t => .ok (s.termCursor? t)
  | .startsWith t => s.beginningCursor? t
  | .composite .phrase qs => do return s.phraseCursor? (← phraseTerms qs)
  | .composite .and qs => do
    return (← s.requiredCursors qs) >>= fun
      | [] => none
      | [part] => some part
      | parts => some (Cursor.ofParts .and parts)
  | .composite .or qs => do return Cursor.union? (← s.optionalCursors qs)

/-- The cursors for all operands; nothing as soon as one of them cannot match. -/
def requiredCursors (s : Store) : List Query → Except Error (Option (List Cursor))
  | [] => .ok (some [])
  | q :: qs => do
    match ← s.cursorFor q with
    | none => return none
    | some c => return (← s.requiredCursors qs).map (c :: ·)

/-- The cursors for those operands that can match. -/
def optionalCursors (s : Store) : List Query → Except Error (List Cursor)
  | [] => .ok []
  | q :: qs => do
    let c ← s.cursorFor q
    return c.toList ++ (← s.optionalCursors qs)

end

/-- The ids of the documents that match, ascending, up to the limit if there is one. -/
def search (s : Store) (q : Query) (limit : Option Nat) : Except Error (List DocId) := do
  match ← s.cursorFor q with
  | none => return []
  | some c => return (c.collect limit).1

end FileIndex.Store
