import FileIndex.Draft

/-!
# Sessions

* `Transaction`: a snapshot to read from, or a draft to write to.
* `Session`: an open index with at most one reading and one writing transaction. A transaction
  does not see what others commit after it began.
* `Session.beginRead`, `Session.beginWrite`, `Session.tryWrite`, `Session.commit`,
  `Session.abort`: the life of a transaction.
-/

namespace FileIndex

/-- A unit of work on an index. -/
inductive Transaction
  /-- Reads the store as it was when the transaction began. -/
  | reading (store : Store)
  /-- Changes a draft of the store. -/
  | writing (draft : Draft)

namespace Transaction

/-- The store as the transaction sees it. -/
def store : Transaction → Store
  | reading s => s
  | writing d => d.store

/-- Whether the transaction may change something. -/
def isWriting : Transaction → Bool
  | reading _ => false
  | writing _ => true

/-- Whether changes of posting lists are queued. -/
def hasChanges : Transaction → Bool
  | reading _ => false
  | writing d => d.hasChanges

/-- Carries out a change, and answers the transaction after it whether it failed or not. -/
def run (resolver : Resolver) (op : WriteOp) : Transaction → Except Error Unit × Transaction
  | reading s => (.error .readOnlyTransaction, reading s)
  | writing d =>
    match Draft.run resolver op d with
    | .ok () d => (.ok (), writing d)
    | .error e d => (.error e, writing d)

end Transaction

/-- An open index. -/
structure Session where
  resolver : Resolver
  readOnly : Bool := false
  /-- What is stored. -/
  committed : Store := ∅
  /-- The snapshot of the open reading transaction. -/
  snapshot : Option Store := none
  /-- The draft of the open writing transaction. -/
  draft : Option Draft := none

namespace Session

/-- Opens the index again: what is stored remains, and all transactions end. -/
def reopen (s : Session) (readOnly : Bool) : Session :=
  { s with readOnly, snapshot := none, draft := none }

/-- Begins a reading transaction. -/
def beginRead (s : Session) : Session := { s with snapshot := some s.committed }

/-- Begins a writing transaction. -/
def beginWrite (s : Session) : Except Error Session :=
  if s.readOnly then .error .readOnlyIndex
  else .ok { s with draft := some { store := s.committed } }

/-- Begins a writing transaction unless one is open; answers nothing if one is. -/
def tryWrite (s : Session) : Except Error (Option Session) :=
  if s.readOnly then .error .readOnlyIndex
  else match s.draft with
    | some _ => .ok none
    | none => some <$> s.beginWrite

/-- The open writing transaction, else the open reading one, else one that reads what is stored. -/
def current (s : Session) : Transaction :=
  match s.draft, s.snapshot with
  | some d, _ => .writing d
  | none, some store => .reading store
  | none, none => .reading s.committed

/-- The open reading transaction, else one that reads what is stored. -/
def reader (s : Session) : Transaction := .reading (s.snapshot.getD s.committed)

/-- Puts a transaction back after it was used. -/
def put (s : Session) : Transaction → Session
  | .reading _ => s
  | .writing d => { s with draft := some d }

/-- Ends the writing transaction and stores what it did. If that fails nothing is stored. -/
def commit (s : Session) : Except Error Unit × Session :=
  match s.draft with
  | none => (.ok (), s)
  | some d =>
    match d.commit with
    | .ok store => (.ok (), { s with committed := store, draft := none })
    | .error e => (.error e, { s with draft := none })

/-- Ends the writing transaction and forgets what it did. -/
def abort (s : Session) : Session := { s with draft := none }

/-- Ends the reading transaction. -/
def endRead (s : Session) : Session := { s with snapshot := none }

end Session
end FileIndex
