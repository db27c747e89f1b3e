import FileIndex.Store.Attributes
import FileIndex.Store.Paths

/-!
# Drafts

A draft is what an open write transaction has made of a store. Paths, times, payloads and term
sets are changed in the draft's store at once. Changes of posting lists are queued by term and
merged into the stored lists when the draft is committed.

* `Draft`, `Write`: a draft, and a change of it that may fail; what it did before it failed remains.
* `Draft.add`, `Draft.remove`, `Draft.removeSubtree`, `Draft.replace`: the changes of documents.
* `WriteOp`: every change, and `Draft.run` to carry it out.
* `Draft.commit`: the store that a draft stands for; it fails if a queued term cannot be a key.
-/

namespace FileIndex

/-- A change of the lists of a term. -/
inductive PostingChange
  /-- A document gets the term, at the positions if there are any. -/
  | add (o : Occurrence)
  /-- A document loses the term. -/
  | remove (id : DocId)
  deriving DecidableEq, Repr

/-- A store that is being changed. -/
structure Draft where
  store : Store
  /-- The changes of the lists of each term, oldest first. -/
  pending : ByteMap (List PostingChange) := ∅
  deriving DecidableEq

/-- A change of a draft that may fail. What it did before it failed remains. -/
abbrev Write := EStateM Error Draft

namespace Draft

/-- Carries out a change of the draft's store. -/
def edit {α : Type} (change : Edit α) : Write α := fun d =>
  match change d.store with
  | .ok a s => .ok a { d with store := s }
  | .error e s => .error e { d with store := s }

/-- Looks at the draft's store. -/
def look {α : Type} (f : Store → Except Error α) : Write α := edit (Edit.read f)

/-- Changes the draft's store as a whole or not at all. -/
def update (change : Store → Except Error Store) : Write Unit := edit (Edit.update change)

/-- Changes the draft's store. -/
def modifyStore (change : Store → Store) : Write Unit :=
  modify fun d => { d with store := change d.store }

/-! ## Queued changes -/

/-- Queues a change of the lists of a term. -/
def enqueue (d : Draft) (term : Bytes) (change : PostingChange) : Draft :=
  { d with pending := d.pending.insert term ((d.pending.find? term).getD [] ++ [change]) }

/-- Queues that a document gets the terms. -/
def enqueueTerms (d : Draft) (id : DocId) (terms : TermMap) : Draft :=
  terms.entries.foldl (fun d e => d.enqueue e.1 (.add ⟨id, e.2⟩)) d

/-- Queues that a document loses the terms. -/
def enqueueRemovals (d : Draft) (id : DocId) (terms : List Bytes) : Draft :=
  terms.foldl (fun d term => d.enqueue term (.remove id)) d

/-- Whether changes are queued. -/
def hasChanges (d : Draft) : Bool := !d.pending.isEmpty

/-! ## Merging -/

/-- Adds a document with positions to an occurrence list. Positions of a document that is there
are united. -/
def insertOccurrence (o : Occurrence) : List Occurrence → List Occurrence
  | [] => [o]
  | p :: ps =>
    if p.id < o.id then p :: insertOccurrence o ps
    else if p.id = o.id then ⟨p.id, Ascending.ofList (p.positions ++ o.positions)⟩ :: ps
    else o :: p :: ps

/-- Carries out a change on the ids and the occurrences of a term. -/
def applyChange (lists : List DocId × List Occurrence) :
    PostingChange → List DocId × List Occurrence
  | .add o =>
    (Ascending.insert o.id lists.1,
      if o.positions.isEmpty then lists.2 else insertOccurrence o lists.2)
  | .remove id => (lists.1.erase id, lists.2.filter (·.id != id))

/-- Merges queued changes into the stored lists of a term. -/
def mergeTerm (s : Store) (term : Bytes) (changes : List PostingChange) : Except Error Store := do
  let lists := changes.foldl applyChange (s.idsWith term, s.occurrencesOf term)
  (← s.putIds term lists.1).putOccurrences term lists.2

/-- The store with all queued changes merged, term by term in ascending order. -/
def commit (d : Draft) : Except Error Store :=
  d.pending.entries.foldlM (fun s e => mergeTerm s e.1 e.2) d.store

/-! ## Changes of documents -/

/-- Fails for the id that stands for no document. -/
def requireId (id : DocId) : Write Unit := if id = 0 then throw .zeroId else return

/-- Gives a document the terms of a field. -/
def putField (doc : Document) (field : Field) : Write Unit := do
  modify (·.enqueueTerms doc.id (doc.terms field))
  update (·.putTerms field doc.id (doc.terms field).keys)

/-- Adds a document that is not stored yet. -/
def add (resolver : Resolver) (doc : Document) : Write Unit := do
  requireId doc.id
  if (← get).store.hasDocument doc.id then throw (.documentExists doc.id)
  if !(← edit (Store.putPath resolver doc.id doc.url)) then throw (.unresolvedParent doc.url)
  update (·.putTime doc.id doc.time)
  update (·.addModified doc.time.modified doc.id)
  Field.all.forM fun field =>
    if (doc.terms field).isEmpty then return else putField doc field
  if doc.contentPending then
    update fun s => return { s with contentPending := ← IdTable.add s.contentPending doc.id }
  if !doc.payload.isEmpty then update (·.putPayload doc.id doc.payload)

/-- Takes the terms of a field from a document. -/
def removeField (id : DocId) (field : Field) : Write Unit :=
  modify fun d =>
    let d := d.enqueueRemovals id (d.store.termsOf field id)
    { d with store := d.store.eraseTerms field id }

/-- Removes every trace of a document. Its path entry stays while there is something below it;
folders above that are no documents go when they become empty. -/
def remove (id : DocId) : Write Unit := do
  requireId id
  Field.all.forM (removeField id)
  let s := (← get).store
  let _ ← edit (Store.unlink (fun folder => !s.hasDocument folder) id)
  modifyStore fun s => { s with
    contentPending := IdTable.remove s.contentPending id
    failed := IdTable.remove s.failed id }
  if let some time ← look (·.timeOf? id) then
    modifyStore (·.removeModified time.modified id)
  modifyStore (·.eraseTime id)
  modifyStore (·.erasePayload id)

/-- Removes an id and everything below it, what is below first. -/
def removeSubtree (id : DocId) : Write Unit := do
  requireId id
  (← look (·.subtree id)).reverse.forM remove

/-- How a new path of a document relates to its old one. -/
inductive PathChange
  /-- The document stays under the same folder. -/
  | rename (name : Bytes)
  /-- The document comes from under `oldParent`. -/
  | move (oldParent : DocId) (place : Placement)
  /-- The document had no path. -/
  | insert (place : Placement)

/-- Works out how the path of a document is to change. -/
def planPath (s : Store) (resolver : Resolver) (id : DocId) (url : Bytes) :
    Except Error PathChange := do
  match ← s.locate resolver id url with
  | none => throw (.unresolvedParent url)
  | some place =>
    match ← s.pathEntryOf? id with
    | none => return .insert place
    | some e =>
      return if e.parent = place.parent then .rename place.name else .move e.parent place

/-- Changes the path of a document. Of the folders that a move leaves behind, those that are no
documents go when they are empty. -/
def changePath (id : DocId) : PathChange → Edit Unit
  | .rename name => Store.rename id name
  | .insert place => Store.attach place
  | .move oldParent place => do
    Store.detach (fun _ => false) id
    Store.attach place
    let s ← get
    if oldParent ≠ 0 ∧ !s.hasDocument oldParent then
      let _ ← Store.unlink (fun folder => !s.hasDocument folder) oldParent

/-- The terms that a document has in the fields which are to be overwritten, and in no other. -/
def droppedTerms (s : Store) (id : DocId) (parts : Parts) : List Bytes :=
  let termsIn (fields : List Field) := fields.flatMap fun field => s.termsOf field id
  let kept := termsIn (Field.all.filter fun field => !parts.terms field)
  (Ascending.ofList (termsIn (Field.all.filter parts.terms))).filter fun term => !kept.contains term

/-- Replaces the times of a document. -/
def replaceTime (doc : Document) : Write Unit := do
  if let some previous ← look (·.timeOf? doc.id) then
    modifyStore (·.removeModified previous.modified doc.id)
  update (·.putTime doc.id doc.time)
  update (·.addModified doc.time.modified doc.id)

/-- Overwrites parts of a document. Where the path is to go is found out before anything changes.
Terms that another field still has stay posted. -/
def replace (resolver : Resolver) (doc : Document) (parts : Parts) : Write Unit := do
  requireId doc.id
  let change ← if parts.url then some <$> look (planPath · resolver doc.id doc.url) else pure none
  modify fun d => d.enqueueRemovals doc.id (droppedTerms d.store doc.id parts)
  Field.all.forM fun field => if parts.terms field then putField doc field else return
  if let some change := change then edit (changePath doc.id change)
  if parts.time then replaceTime doc
  if parts.payload then update (·.putPayload doc.id doc.payload)

end Draft

/-- A change that a write transaction can make. -/
inductive WriteOp
  /-- Add a document. -/
  | add (doc : Document)
  /-- Remove a document. -/
  | remove (id : DocId)
  /-- Remove an id with everything below it. -/
  | removeSubtree (id : DocId)
  /-- Overwrite parts of a document. -/
  | replace (doc : Document) (parts : Parts)
  /-- Give a document the path and the file name terms of its new name. -/
  | rename (doc : Document)
  /-- Note that the content of a document is still to be read. -/
  | addPending (id : DocId)
  /-- Note that the content of a document is no longer to be read. -/
  | removePending (id : DocId)
  /-- Note that the content of a document could not be read. -/
  | addFailed (id : DocId)
  /-- Forget that the content of a document could not be read. -/
  | removeFailed (id : DocId)

namespace Draft

/-- Carries out a change. -/
def run (resolver : Resolver) : WriteOp → Write Unit
  | .add doc => add resolver doc
  | .remove id => remove id
  | .removeSubtree id => removeSubtree id
  | .replace doc parts => replace resolver doc parts
  | .rename doc => replace resolver doc .rename
  | .addPending id =>
    update fun s => return { s with contentPending := ← IdTable.add s.contentPending id }
  | .removePending id =>
    modifyStore fun s => { s with contentPending := IdTable.remove s.contentPending id }
  | .addFailed id => update fun s => return { s with failed := ← IdTable.add s.failed id }
  | .removeFailed id => modifyStore fun s => { s with failed := IdTable.remove s.failed id }

end Draft
end FileIndex
