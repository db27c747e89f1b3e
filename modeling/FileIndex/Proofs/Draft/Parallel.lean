import FileIndex.Proofs.Draft.Reading

/-!
# Drafts that differ in their queues only

Two drafts may stand for the same lists although one has queued what the other has stored. No change can tell
them apart.

* `Parallel`: the program answers the same in two states that a relation connects, and leaves such states.
* `Store.Beside`: the second store is the first one with other lists of terms. The changes of the tree are
  parallel there, as they neither look at the lists nor change them.
* `WriteOp.Concerns`: the documents whose terms a change may queue. `WriteOp.Gives`: the terms that it gives.
* `Draft.Steady`, `Draft.Queues`: relations of drafts that say nothing but of lists, and documents for which changes may
  be queued on both sides. `Draft.agree_run`: a change agrees where all documents that it concerns are such.
* `Draft.rowsOf`: what a commit would leave under a term. `Draft.Alike`: drafts that would leave the same.
* `Draft.run_parallel`: changes answer the same in drafts that are alike, and leave alike drafts.
* `Draft.alike_commit`: what is begun after a commit is like what was committed, if what it stores can be read back.
-/

namespace FileIndex

/-! ### Programs run side by side -/

section Programs

variable {ε σ α β : Type} {R : σ → σ → Prop}

/-- The outcomes are the same, in states that the relation connects. -/
inductive Agree (R : σ → σ → Prop) : EStateM.Result ε σ α → EStateM.Result ε σ α → Prop
  | ok {a : α} {s s' : σ} : R s s' → Agree R (.ok a s) (.ok a s')
  | error {e : ε} {s s' : σ} : R s s' → Agree R (.error e s) (.error e s')

theorem Agree.leftBy {r r' : EStateM.Result ε σ α} (h : Agree R r r') : R (leftBy r) (leftBy r') := by
  cases h with
  | ok h | error h => exact h

theorem Agree.eq_ok {r : EStateM.Result ε σ α} {a : α} {s' : σ} (h : Agree R r (.ok a s')) :
    ∃ s, r = .ok a s ∧ R s s' := by
  cases h with
  | ok h => exact ⟨_, rfl, h⟩

/-- What follows need only agree after the outcome that there was. -/
theorem Agree.bind {m : EStateM ε σ α} {f : α → EStateM ε σ β} {s s' : σ} (hm : Agree R (m s) (m s'))
    (hf : ∀ a t t', m s = .ok a t → R t t' → Agree R (f a t) (f a t')) : Agree R ((m >>= f) s) ((m >>= f) s') := by
  show Agree R (EStateM.bind m f s) (EStateM.bind m f s')
  unfold EStateM.bind
  cases hrun : m s with
  | ok a t =>
    rw [hrun] at hm
    generalize m s' = r at hm
    cases hm with
    | ok ht => exact hf a _ _ hrun ht
  | error e t =>
    rw [hrun] at hm
    generalize m s' = r at hm
    cases hm with
    | error ht => exact .error ht

/-- From states that the relation connects, the program comes to the same outcome in such states. -/
def Parallel (R : σ → σ → Prop) (m : EStateM ε σ α) : Prop := ∀ s s', R s s' → Agree R (m s) (m s')

namespace Parallel

theorem pure (a : α) : Parallel R (Pure.pure a : EStateM ε σ α) := fun _ _ h => .ok h

theorem throw (e : ε) : Parallel R (MonadExcept.throw e : EStateM ε σ α) := fun _ _ h => .error h

theorem bind {m : EStateM ε σ α} {f : α → EStateM ε σ β} (hm : Parallel R m) (hf : ∀ a, Parallel R (f a)) :
    Parallel R (m >>= f) := fun s s' h => (hm s s' h).bind fun a t t' _ ht => hf a t t' ht

theorem ite {c : Prop} [Decidable c] {m m' : EStateM ε σ α} (hm : Parallel R m) (hm' : Parallel R m') :
    Parallel R (if c then m else m') := by
  split
  · exact hm
  · exact hm'

/-- Something is done first under a condition. -/
theorem first {c : Prop} [Decidable c] {m : EStateM ε σ Unit} {rest : Unit → EStateM ε σ α} (hm : Parallel R m)
    (hrest : ∀ u, Parallel R (rest u)) : Parallel R (if c then m >>= rest else rest ()) :=
  ite (bind hm hrest) (hrest ())

theorem forM {step : α → EStateM ε σ Unit} {l : List α} (h : ∀ a ∈ l, Parallel R (step a)) :
    Parallel R (l.forM step) := by
  induction l with
  | nil => exact pure ()
  | cons a l ih =>
    rw [List.forall_mem_cons] at h
    exact bind h.1 fun _ => ih h.2

theorem of_change {change : σ → σ} (h : ∀ {s s'}, R s s' → R (change s) (change s')) :
    Parallel R (modify change : EStateM ε σ PUnit) := fun _ _ hs => .ok (h hs)

/-- The state is looked at where the relation leaves nothing to choose. -/
theorem get {f : σ → EStateM ε σ α} (hf : ∀ {s s'}, R s s' → f s' = f s) (h : ∀ s, Parallel R (f s)) :
    Parallel R (get >>= f) := by
  intro s s' hs
  have hagree : Agree R (f s s) (f s s') := h s s s' hs
  show Agree R (f s s) (f s' s')
  rwa [hf hs]

end Parallel

end Programs

/-! ### What does not look at the lists -/

/-- The store with other lists of terms. -/
def Store.withLists (s : Store) (postings occurrences : Table) : Store := { s with postings, occurrences }

/-- The second store is the first one with the given lists. -/
def Store.Beside (postings occurrences : Table) (s s' : Store) : Prop := s' = s.withLists postings occurrences

open Store

theorem Store.Beside.kept {p o : Table} {s : Store} (h : Beside p o s s) : s.postings = p ∧ s.occurrences = o :=
  ⟨congrArg postings h, congrArg occurrences h⟩

section Beside

variable {p o : Table} {α : Type}

theorem Parallel.change {change : Store → Store} (h : ∀ s, change (s.withLists p o) = (change s).withLists p o) :
    Parallel (Beside p o) (modify change : Edit PUnit) :=
  .of_change fun {s _} hs => hs ▸ h s

theorem Parallel.read {look : Store → Except Error α} (h : ∀ s, look (s.withLists p o) = look s) :
    Parallel (Beside p o) (Edit.read look) := by
  rintro s _ rfl
  unfold Edit.read
  rw [h]
  cases look s with
  | ok a => exact .ok rfl
  | error e => exact .error rfl

theorem Parallel.update {change : Store → Except Error Store}
    (h : ∀ s, change (s.withLists p o) = (change s).map (·.withLists p o)) :
    Parallel (Beside p o) (Edit.update change) := by
  rintro s _ rfl
  unfold Edit.update
  rw [h]
  cases change s with
  | ok t => exact .ok rfl
  | error e => exact .error rfl

namespace Store

theorem setChildren_parallel (parent : DocId) (ids : List DocId) :
    Parallel (Beside p o) (modify (·.setChildren parent ids) : Edit PUnit) := by
  apply Parallel.change
  intro s
  unfold setChildren
  split <;> rfl

theorem hang_parallel (id parent : DocId) (name : Bytes) : Parallel (Beside p o) (hang id parent name) :=
  .bind (.read fun _ => rfl) fun _ => .bind (setChildren_parallel parent _) fun _ => .change fun _ => rfl

theorem hangFolders_parallel (anchor : DocId) (folders : List (DocId × Bytes)) :
    Parallel (Beside p o) (hangFolders anchor folders) := by
  induction folders with
  | nil => exact .pure anchor
  | cons folder above ih => exact .bind ih fun parent => .bind (hang_parallel _ parent _) fun _ => .pure _

theorem attach_parallel (place : Placement) : Parallel (Beside p o) (attach place) :=
  .bind (hangFolders_parallel place.anchor place.missing) fun parent => hang_parallel place.id parent place.name

theorem putPath_parallel (resolver : Resolver) (id : DocId) (url : Bytes) :
    Parallel (Beside p o) (putPath resolver id url) := by
  refine .bind (.read fun s => locate_congr (by rfl) resolver id url) fun place => ?_
  cases place with
  | none => exact .pure false
  | some p => exact .bind (attach_parallel p) fun _ => .pure true

theorem rename_parallel (id : DocId) (name : Bytes) : Parallel (Beside p o) (rename id name) := by
  unfold rename
  refine .first (.throw Error.invalidName) fun _ => .bind (.read fun _ => rfl) fun e => ?_
  cases e with
  | none => exact .throw Error.noPathEntry
  | some e => exact .change fun _ => rfl

theorem detachUp_parallel (prune : DocId → Bool) (id : DocId) (levels : Nat) (current : DocId) :
    Parallel (Beside p o) (detachUp prune id levels current) := by
  induction levels generalizing current with
  | zero => exact .pure ()
  | succ levels ih =>
    refine .bind (.read fun _ => rfl) fun e => ?_
    cases e with
    | none => exact .pure ()
    | some e =>
      refine .bind (.read fun _ => rfl) fun siblings => .bind (setChildren_parallel e.parent _) fun _ => ?_
      exact .first (.change fun _ => rfl) fun _ => .ite (ih e.parent) (.pure ())

theorem unlink_parallel (prune : DocId → Bool) (id : DocId) : Parallel (Beside p o) (unlink prune id) := by
  refine .get (fun hs => hs ▸ rfl) fun _ => .ite (.pure false) (.bind (.read fun _ => rfl) fun _ => ?_)
  refine .ite (.pure false) (.bind (detachUp_parallel prune id maxDepth id) fun _ => ?_)
  exact .bind (.change fun _ => rfl) fun _ => .pure true

theorem changePath_parallel (id : DocId) (change : Draft.PathChange) :
    Parallel (Beside p o) (Draft.changePath id change) := by
  cases change with
  | rename name => exact rename_parallel id name
  | insert place => exact attach_parallel place
  | move oldParent place =>
    refine .bind (detachUp_parallel _ id maxDepth id) fun _ => .bind (attach_parallel place) fun _ => ?_
    refine .get (fun hs => hs ▸ rfl) fun s => .ite (.bind (unlink_parallel _ oldParent) fun _ => .pure ()) (.pure ())

end Store

end Beside

section Congr

variable {s s' : Store} (h : s'.children = s.children)

include h

theorem Store.childrenOf_congr (id : DocId) : s'.childrenOf id = s.childrenOf id := by
  unfold childrenOf
  rw [h]

theorem Store.visit_congr (bound : Nat) (seen : List DocId) (stack : List (DocId × Nat)) :
    s'.visit bound seen stack = s.visit bound seen stack := by
  induction bound generalizing seen stack with
  | zero => rfl
  | succ bound ih =>
    cases stack with
    | nil => rfl
    | cons x stack => simp only [visit, childrenOf_congr h, ih]

theorem Store.subtree_congr (id : DocId) : s'.subtree id = s.subtree id := by
  unfold subtree childBytes
  rw [visit_congr h, h]

end Congr

/-! ### What a change is about -/

/-- The document of a change. -/
def WriteOp.document? : WriteOp → Option Document
  | .add doc | .replace doc _ | .rename doc => some doc
  | _ => none

/-- The change gives its document these terms: those of every field when it adds it, else of the fields
it overwrites. -/
inductive WriteOp.Gives : WriteOp → TermMap → Prop
  | add {doc : Document} (field : Field) : Gives (.add doc) (doc.terms field)
  | replace {doc : Document} {parts : Parts} {field : Field} : parts.terms field = true →
    Gives (.replace doc parts) (doc.terms field)
  | rename {doc : Document} {field : Field} : Parts.rename.terms field = true → Gives (.rename doc) (doc.terms field)

/-- The change is about the document: it writes or removes it, or it removes an id above it. -/
def WriteOp.Concerns (s : Store) (id : DocId) : WriteOp → Prop
  | .add doc | .replace doc _ | .rename doc => id = doc.id
  | .remove removed => id = removed
  | .removeSubtree top => ∃ ids, s.subtree top = .ok ids ∧ id ∈ ids
  | .addPending _ | .removePending _ | .addFailed _ | .removeFailed _ => False

/-! ### Relations of drafts -/

namespace Draft

/-- Connected drafts differ in their lists only, and stay connected when both get the same store with the lists that
they have. -/
structure Steady (R : Draft → Draft → Prop) : Prop where
  others : ∀ {d d'}, R d d' → SameButLists d.store d'.store
  withStore : ∀ {d d'} {s : Store}, R d d' → s.postings = d.store.postings → s.occurrences = d.store.occurrences →
    R { d with store := s } { d' with store := s.withLists d'.store.postings d'.store.occurrences }

/-- Connected drafts stay connected when both queue that the document loses terms, or that it gets fit ones. -/
structure Queues (R : Draft → Draft → Prop) (id : DocId) (fit : TermMap → Prop) : Prop where
  terms : ∀ {d d' terms}, R d d' → id ≠ 0 → fit terms → R (d.enqueueTerms id terms) (d'.enqueueTerms id terms)
  removals : ∀ {d d'}, R d d' → ∀ terms, R (d.enqueueRemovals id terms) (d'.enqueueRemovals id terms)

theorem termsOf_withLists (s : Store) (p o : Table) (field : Field) (id : DocId) :
    (s.withLists p o).termsOf field id = s.termsOf field id := by
  cases field <;> rfl

theorem droppedTerms_withLists (s : Store) (p o : Table) (id : DocId) (parts : Parts) :
    droppedTerms (s.withLists p o) id parts = droppedTerms s id parts := by
  unfold droppedTerms
  simp only [termsOf_withLists]

theorem look_ok {α : Type} {f : Store → Except Error α} {d d' : Draft} {a : α} (h : look f d = .ok a d') :
    f d.store = .ok a := by
  cases hf : f d.store with
  | ok b =>
    rw [look_of_ok hf] at h
    cases h
    rfl
  | error e =>
    rw [look_of_error hf] at h
    cases h

section Steady

variable {R : Draft → Draft → Prop} {fit : TermMap → Prop}

/-- What follows is done for an id that may be one of a document. -/
theorem requireId_parallel {α : Type} {id : DocId} {rest : Unit → Write α} (h : id ≠ 0 → ∀ u, Parallel R (rest u)) :
    Parallel R (requireId id >>= rest) := by
  by_cases hid : id = 0
  · subst hid
    exact fun _ _ hd => .error hd
  · exact .bind (.ite (.throw Error.zeroId) (.pure ())) (h hid)

variable (h : Steady R)

include h

theorem Steady.store_eq {d d' : Draft} (hd : R d d') :
    d'.store = d.store.withLists d'.store.postings d'.store.occurrences := h.others hd

/-- What does not look at the lists sees the same. -/
theorem Steady.seen_eq {α : Type} {f : Store → α} (hf : ∀ s p o, f (s.withLists p o) = f s) {d d' : Draft}
    (hd : R d d') : f d'.store = f d.store := by
  rw [h.store_eq hd, hf]

/-- What neither looks at the lists nor changes them does the same in connected drafts. -/
theorem edit_parallel {α : Type} {m : Edit α} (hm : ∀ p o, Parallel (Beside p o) m) : Parallel R (edit m) := by
  intro d d' hd
  have hself := hm d.store.postings d.store.occurrences d.store d.store rfl
  have hother := hm d'.store.postings d'.store.occurrences d.store d'.store (h.others hd)
  unfold edit
  generalize m d.store = r at hself hother
  generalize m d'.store = r' at hother
  cases hother with
  | @ok a s _ hs =>
    cases hself with
    | ok hkept =>
      rw [hs]
      exact .ok (h.withStore hd (Beside.kept hkept).1 (Beside.kept hkept).2)
  | @error e s _ hs =>
    cases hself with
    | error hkept =>
      rw [hs]
      exact .error (h.withStore hd (Beside.kept hkept).1 (Beside.kept hkept).2)

theorem look_parallel {α : Type} {f : Store → Except Error α} (hf : ∀ s p o, f (s.withLists p o) = f s) :
    Parallel R (look f) := edit_parallel h fun p o => .read fun s => hf s p o

theorem update_parallel {change : Store → Except Error Store}
    (hchange : ∀ s p o, change (s.withLists p o) = (change s).map (·.withLists p o)) : Parallel R (update change) :=
  edit_parallel h fun p o => .update fun s => hchange s p o

theorem modifyStore_parallel {change : Store → Store}
    (hchange : ∀ s p o, change (s.withLists p o) = (change s).withLists p o) : Parallel R (modifyStore change) :=
  edit_parallel h (m := modify change) fun p o => .change fun s => hchange s p o

theorem putTime_parallel (id : DocId) (time : TimeInfo) : Parallel R (update (·.putTime id time)) := by
  apply update_parallel h
  intro s p o
  unfold putTime
  split <;> rfl

theorem addModified_parallel (time : UInt64) (id : DocId) : Parallel R (update (·.addModified time id)) := by
  apply update_parallel h
  intro s p o
  unfold addModified
  split <;> rfl

theorem putPayload_parallel (id : DocId) (payload : Bytes) : Parallel R (update (·.putPayload id payload)) := by
  apply update_parallel h
  intro s p o
  unfold putPayload
  split
  · rfl
  · split <;> rfl

theorem mark_parallel {table : Store → Table} {f : Store → Table → Store}
    (htable : ∀ s p o, table (s.withLists p o) = table s)
    (hf : ∀ s p o t, f (s.withLists p o) t = (f s t).withLists p o) (id : DocId) :
    Parallel R (update fun s => return f s (← IdTable.add (table s) id)) := by
  apply update_parallel h
  intro s p o
  rw [htable]
  cases IdTable.add (table s) id with
  | error e => rfl
  | ok t => exact congrArg Except.ok (hf s p o t)

theorem addPending_parallel (id : DocId) : Parallel R
    (update fun s => return { s with contentPending := ← IdTable.add s.contentPending id }) :=
  mark_parallel h (f := fun s t => { s with contentPending := t }) (fun _ _ _ => rfl) (fun _ _ _ _ => rfl) id

theorem replaceTime_parallel (doc : Document) : Parallel R (replaceTime doc) := by
  refine .bind (look_parallel h fun _ _ _ => rfl) fun previous => ?_
  have hlast : Parallel R
      (update (·.putTime doc.id doc.time) >>= fun _ => update (·.addModified doc.time.modified doc.id)) :=
    .bind (putTime_parallel h _ _) fun _ => addModified_parallel h _ _
  cases previous with
  | none => exact hlast
  | some previous => exact .bind (modifyStore_parallel h fun _ _ _ => rfl) fun _ => hlast

/-! ### Changes of one document -/

section Terms

variable {doc : Document} {id : DocId}

theorem putField_parallel (hid : doc.id ≠ 0) (hqueues : Queues R doc.id fit) {field : Field}
    (hfit : fit (doc.terms field)) : Parallel R (putField doc field) := by
  refine .bind (.of_change fun hd => hqueues.terms hd hid hfit) fun _ => update_parallel h fun s p o => ?_
  unfold putTerms
  split
  · rfl
  · split <;> cases field <;> rfl

theorem removeField_parallel (hqueues : Queues R id fit) (field : Field) : Parallel R (removeField id field) := by
  apply Parallel.of_change
  intro d d' hd
  have hterms := h.seen_eq (f := fun s => s.termsOf field id) (fun s p o => termsOf_withLists s p o field id) hd
  have herased : d'.store.eraseTerms field id =
      (d.store.eraseTerms field id).withLists d'.store.postings d'.store.occurrences := by
    rw [h.store_eq hd]
    cases field <;> rfl
  have hkept : (d.store.eraseTerms field id).postings = d.store.postings ∧
      (d.store.eraseTerms field id).occurrences = d.store.occurrences := by
    cases field <;> exact ⟨rfl, rfl⟩
  have hqueued := h.withStore (hqueues.removals hd (d.store.termsOf field id)) (s := d.store.eraseTerms field id)
    (by rw [enqueueRemovals_store]; exact hkept.1) (by rw [enqueueRemovals_store]; exact hkept.2)
  rw [enqueueRemovals_store, ← herased] at hqueued
  simp only [enqueueRemovals_store] at hterms ⊢
  rwa [hterms]

theorem add_parallel (resolver : Resolver) (hqueues : Queues R doc.id fit) (hfit : ∀ field, fit (doc.terms field)) :
    Parallel R (add resolver doc) := by
  unfold add
  refine requireId_parallel fun hid _ => .get (fun hd => ?_) fun d => ?_
  · rw [h.seen_eq (f := fun s => s.hasDocument doc.id) (fun _ _ _ => rfl) hd]
  refine .first (.throw _) fun _ => .bind (edit_parallel h fun p o => putPath_parallel resolver doc.id doc.url)
    fun b => ?_
  refine .first (.throw _) fun _ => .bind (putTime_parallel h _ _) fun _ =>
    .bind (addModified_parallel h _ _) fun _ => ?_
  refine .bind (.forM fun field _ => .ite (.pure ()) (putField_parallel h hid hqueues (hfit field))) fun _ => ?_
  exact .first (addPending_parallel h doc.id) fun _ => .ite (putPayload_parallel h _ _) (.pure ())

theorem remove_parallel (hqueues : Queues R id fit) : Parallel R (remove id) := by
  unfold remove
  refine requireId_parallel fun _ _ => .bind (.forM fun field _ => removeField_parallel h hqueues field) fun _ => ?_
  refine .get (fun hd => ?_) fun d => .bind (edit_parallel h fun p o => unlink_parallel _ id) fun _ => ?_
  · simp only
    rw [h.seen_eq (f := fun s folder => !s.hasDocument folder) (fun _ _ _ => rfl) hd]
  refine .bind (modifyStore_parallel h fun _ _ _ => rfl) fun _ => .bind (look_parallel h fun _ _ _ => rfl)
    fun time? => ?_
  have hlast : Parallel R (modifyStore (·.eraseTime id) >>= fun _ => modifyStore (·.erasePayload id)) :=
    .bind (modifyStore_parallel h fun _ _ _ => rfl) fun _ => modifyStore_parallel h fun _ _ _ => rfl
  cases time? with
  | none => exact hlast
  | some time => exact .bind (modifyStore_parallel h fun _ _ _ => rfl) fun _ => hlast

theorem replaceWith_parallel (hid : doc.id ≠ 0) (hqueues : Queues R doc.id fit) {parts : Parts}
    (hfit : ∀ field, parts.terms field = true → fit (doc.terms field)) (change? : Option PathChange) :
    Parallel R (replaceWith doc parts change?) := by
  have hrecords : Parallel R (if parts.time = true then replaceTime doc >>= fun _ =>
        (if parts.payload = true then update (·.putPayload doc.id doc.payload) else pure ())
      else (if parts.payload = true then update (·.putPayload doc.id doc.payload) else pure ()) : Write Unit) :=
    .first (replaceTime_parallel h doc) fun _ => .ite (putPayload_parallel h _ _) (.pure ())
  refine .bind (.of_change fun {d d'} hd => ?_) fun _ => ?_
  · have hdropped : droppedTerms d'.store doc.id parts = droppedTerms d.store doc.id parts :=
      h.seen_eq (f := fun s => droppedTerms s doc.id parts) (fun s p o => droppedTerms_withLists s p o doc.id parts) hd
    rw [hdropped]
    exact hqueues.removals hd _
  have hfield : ∀ field,
    Parallel R (if parts.terms field = true then putField doc field else pure () : Write Unit) := by
    intro field
    split
    · rename_i hwritten
      exact putField_parallel h hid hqueues (hfit field hwritten)
    · exact .pure ()
  refine .bind (.forM fun field _ => hfield field) fun _ => ?_
  cases change? with
  | none => exact hrecords
  | some change => exact .bind (edit_parallel h fun p o => changePath_parallel doc.id change) fun _ => hrecords

theorem replace_parallel (resolver : Resolver) (hqueues : Queues R doc.id fit) {parts : Parts}
    (hfit : ∀ field, parts.terms field = true → fit (doc.terms field)) : Parallel R (replace resolver doc parts) := by
  refine requireId_parallel fun hid _ => .ite (.bind ?_ (replaceWith_parallel h hid hqueues hfit)) ?_
  · exact .bind (look_parallel h fun s p o => planPath_congr (by rfl) _ _ _) fun change => .pure _
  · exact .bind (.pure none) (replaceWith_parallel h hid hqueues hfit)

end Terms

theorem removeSubtree_agree {top : DocId} {d d' : Draft} (hd : R d d')
    (hqueues : ∀ id, WriteOp.Concerns d.store id (.removeSubtree top) → Queues R id fit) :
    Agree R (removeSubtree top d) (removeSubtree top d') := by
  by_cases htop : top = 0
  · subst htop
    exact .error hd
  have hlook := look_parallel h (f := (·.subtree top)) (fun s p o => subtree_congr (by rfl) top) d d' hd
  unfold removeSubtree
  rw [bind_of_ok (requireId_eq htop d), bind_of_ok (requireId_eq htop d')]
  refine hlook.bind fun ids t t' hids ht => ?_
  refine Parallel.forM (fun id hid => remove_parallel h (hqueues id ?_)) t t' ht
  exact ⟨ids, look_ok hids, List.mem_reverse.mp hid⟩

/-- In connected drafts a change comes to the same outcome and leaves connected drafts, if it may be queued for the
documents that it concerns, and gives fit terms. -/
theorem agree_run (resolver : Resolver) {op : WriteOp} {d d' : Draft} (hd : R d d')
    (hqueues : ∀ id, op.Concerns d.store id → Queues R id fit) (hfit : ∀ terms, op.Gives terms → fit terms) :
    Agree R (run resolver op d) (run resolver op d') := by
  cases op with
  | add doc => exact add_parallel h resolver (hqueues doc.id rfl) (fun field => hfit _ (.add field)) d d' hd
  | remove id => exact remove_parallel h (hqueues id rfl) d d' hd
  | removeSubtree top => exact removeSubtree_agree h hd hqueues
  | replace doc parts =>
    exact replace_parallel h resolver (hqueues doc.id rfl) (fun _ hwritten => hfit _ (.replace hwritten)) d d' hd
  | rename doc =>
    exact replace_parallel h resolver (hqueues doc.id rfl) (fun _ hwritten => hfit _ (.rename hwritten)) d d' hd
  | addPending id => exact addPending_parallel h id d d' hd
  | addFailed id =>
    exact mark_parallel h (f := fun s t => { s with failed := t }) (fun _ _ _ => rfl) (fun _ _ _ _ => rfl) id d d' hd
  | removePending id | removeFailed id =>
    unfold run
    exact modifyStore_parallel h (fun _ _ _ => rfl) d d' hd

end Steady

/-! ### Drafts that are alike -/

/-- What a commit would leave under a term. -/
def rowsOf (d : Draft) (t : Bytes) : Option Bytes × Option Bytes :=
  match d.pending.find? t with
  | none => (d.store.postings.find? t, d.store.occurrences.find? t)
  | some _ => (stored? IdList.encode (d.listsOf t).1, stored? OccurrenceList.encode (d.listsOf t).2)

theorem rowsOf_congr {d d' : Draft} (hpending : d'.pending = d.pending)
    (hpostings : d'.store.postings = d.store.postings)
    (hoccurrences : d'.store.occurrences = d.store.occurrences) (t : Bytes) : d'.rowsOf t = d.rowsOf t := by
  unfold rowsOf
  rw [listsOf_congr hpending hpostings hoccurrences, hpending, hpostings, hoccurrences]

/-- The drafts stand for the same lists, which a commit would leave in the same bytes, and nothing else differs. -/
structure Alike (d d' : Draft) : Prop where
  others : SameButLists d.store d'.store
  lists : ∀ t, d'.listsOf t = d.listsOf t
  rows : ∀ t, d'.rowsOf t = d.rowsOf t

theorem Alike.refl (d : Draft) : d.Alike d := ⟨rfl, fun _ => rfl, fun _ => rfl⟩

variable {d d' d'' : Draft}

theorem Alike.trans (h : d.Alike d') (h' : d'.Alike d'') : d.Alike d'' :=
  ⟨h.others.trans h'.others, fun t => (h'.lists t).trans (h.lists t), fun t => (h'.rows t).trans (h.rows t)⟩

theorem rowsOf_enqueue (d : Draft) (term : Bytes) (change : PostingChange) (t : Bytes) :
    (d.enqueue term change).rowsOf t = if t = term then
      (stored? IdList.encode (applyChange (d.listsOf term) change).1,
        stored? OccurrenceList.encode (applyChange (d.listsOf term) change).2)
    else d.rowsOf t := by
  unfold rowsOf
  rw [listsOf_enqueue]
  unfold enqueue
  simp only [ByteMap.find?_insert]
  by_cases ht : t = term
  · rw [if_pos ht, if_pos ht, if_pos ht]
  · rw [if_neg ht, if_neg ht, if_neg ht]

theorem Alike.enqueue (h : d.Alike d') (term : Bytes) (change : PostingChange) :
    (d.enqueue term change).Alike (d'.enqueue term change) := by
  refine ⟨h.others, fun t => ?_, fun t => ?_⟩
  · rw [listsOf_enqueue, listsOf_enqueue, h.lists, h.lists]
  · rw [rowsOf_enqueue, rowsOf_enqueue, h.lists, h.rows]

theorem Alike.enqueueTerms (h : d.Alike d') (id : DocId) (terms : TermMap) :
    (d.enqueueTerms id terms).Alike (d'.enqueueTerms id terms) := by
  unfold Draft.enqueueTerms
  induction terms.entries generalizing d d' with
  | nil => exact h
  | cons e es ih => exact ih (h.enqueue e.1 _)

theorem Alike.enqueueRemovals (h : d.Alike d') (id : DocId) (terms : List Bytes) :
    (d.enqueueRemovals id terms).Alike (d'.enqueueRemovals id terms) := by
  unfold Draft.enqueueRemovals
  induction terms generalizing d d' with
  | nil => exact h
  | cons t ts ih => exact ih (h.enqueue t _)

/-- Both drafts get a store with the lists that they had, and all else the same. -/
theorem Alike.withStore (h : d.Alike d') {s : Store} (hpostings : s.postings = d.store.postings)
    (hoccurrences : s.occurrences = d.store.occurrences) : ({ d with store := s } : Draft).Alike
      { d' with store := s.withLists d'.store.postings d'.store.occurrences } := by
  refine ⟨rfl, fun t => ?_, fun t => ?_⟩
  · have hlists : ({ d with store := s } : Draft).listsOf t = d.listsOf t :=
      listsOf_congr (by rfl) hpostings hoccurrences t
    exact (listsOf_congr rfl rfl rfl t).trans ((h.lists t).trans hlists.symm)
  · have hrows : ({ d with store := s } : Draft).rowsOf t = d.rowsOf t :=
      rowsOf_congr (by rfl) hpostings hoccurrences t
    exact (rowsOf_congr rfl rfl rfl t).trans ((h.rows t).trans hrows.symm)

theorem steady_alike : Steady Alike := ⟨fun hd => hd.others, fun hd => hd.withStore⟩

theorem queues_alike (id : DocId) : Queues Alike id fun _ => True :=
  ⟨fun hd _ _ => hd.enqueueTerms id _, fun hd => hd.enqueueRemovals id⟩

/-- A change answers the same in drafts that are alike, and leaves them alike. -/
theorem run_parallel (resolver : Resolver) (op : WriteOp) : Parallel Alike (run resolver op) :=
  fun _ _ hd => agree_run steady_alike resolver hd (fun id _ => queues_alike id) fun _ _ => trivial

/-! ### Committing -/

/-- A commit leaves the rows that the draft has. -/
theorem rowsOf_commit {s : Store} (hcommit : d.commit = .ok s) (t : Bytes) :
    ({ store := s } : Draft).rowsOf t = d.rowsOf t := by
  have hmerges := commit_merges hcommit
  show (s.postings.find? t, s.occurrences.find? t) = d.rowsOf t
  unfold rowsOf
  cases hchanges : d.pending.find? t with
  | none => rw [hmerges.postings.kept t hchanges, hmerges.occurrences.kept t hchanges]
  | some changes =>
    rw [(hmerges.postings.changed t changes hchanges).2.2, (hmerges.occurrences.changed t changes hchanges).2.2,
      listsOf_of_find? hchanges]

/-- What is begun after a commit is like what was committed, if the occurrences can be read back. -/
theorem alike_commit (hids : d.IdsAscend)
    (hos : ∀ t, readOccurrences (OccurrenceList.encode (d.listsOf t).2) = (d.listsOf t).2) {s : Store}
    (hcommit : d.commit = .ok s) : d.Alike { store := s } := by
  refine ⟨sameButLists_commit hcommit, fun t => ?_, rowsOf_commit hcommit⟩
  rw [listsOf_fresh, (idsWith_commit hcommit hids).1, (occurrencesOf_commit hcommit hos).1]

end Draft
end FileIndex
