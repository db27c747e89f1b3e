import FileIndex.FileId
import FileIndex.Proofs.Draft.Parallel
import FileIndex.Proofs.Ledger.Tables
import FileIndex.Proofs.Search

/-!
# Where transactions end does not matter

Changes that are made in one transaction or in many answer the same, and the same is stored in the end, byte for byte.

* `Change`, `Session.transact`, `Session.transactAll`: changes, and transactions that make and commit them.
* `Draft.runAll`: the same changes made in one draft.
* `Change.Keyed`, `Draft.Ready`: changes whose terms can be keys, and drafts that can be committed and read back.
* `Session.transactAll_alike`: transactions answer what one draft answers, and store what it stands for.
* `Session.search_writeAll`: a search does not see what was written since its transaction began.
-/

namespace FileIndex

open Store OccurrenceList

/-- A change, and how folders have ids when it is made. -/
structure Change where
  resolver : Resolver
  op : WriteOp

theorem Document.Built.level {doc : Document} (h : doc.Built) (field : Field) : (doc.terms field).Level :=
  fun t positions hfind => level_of_ascending (h.ascending field t positions hfind)

theorem Document.Keyed.sized {doc : Document} (h : doc.Keyed) : sizedRule.fit doc := fun field =>
  ⟨storable_of_holdsKey (h.2 field), fun t positions hfind => (h.1.level field t positions hfind).1⟩

/-- The document of the change is built of terms that can be keys. -/
def Change.Keyed (c : Change) : Prop := ∀ doc, c.op.document? = some doc → doc.Keyed

/-- Documents are built of terms that can be keys. -/
def keyedRule : Rule where
  fit := Document.Keyed

/-- A rule that asks something of documents only. -/
theorem Change.allows_of_fit {fit : Document → Prop} {c : Change} (h : ∀ doc, c.op.document? = some doc → fit doc)
    (d : Draft) : ({ fit } : Rule).Allows c.resolver d c.op := by
  obtain ⟨resolver, op⟩ := c
  cases op with
  | add doc | rename doc => exact ⟨h doc rfl, fun _ _ => trivial⟩
  | replace doc parts => exact ⟨h doc rfl, fun _ _ _ => trivial⟩
  | remove | removeSubtree | addPending | removePending | addFailed | removeFailed => trivial

theorem Session.ObeysAt.of_keyed {s : Session} {moments : List Moment}
    (h : ∀ m ∈ moments, ∀ op, m.event = .write op → ∀ doc, op.document? = some doc → doc.Keyed) :
    s.ObeysAt sizedRule.Allows moments :=
  .of_changes fun m hm op hop d =>
    Change.allows_of_fit (c := ⟨m.resolver, op⟩) (fun doc hdoc => (h m hm op hop doc hdoc).sized) d

/-- How a computation ended. -/
def answerOf {ε σ α : Type} : EStateM.Result ε σ α → Except ε α
  | .ok a _ => .ok a
  | .error e _ => .error e

theorem eq_ok_of_answerOf {ε σ : Type} {r : EStateM.Result ε σ Unit} (h : answerOf r = .ok ()) :
    r = .ok () (leftBy r) := by
  cases r with
  | ok => rfl
  | error => cases h

/-- What is found of an outcome without naming it. -/
theorem exists_of_answers {ε α β : Type} {outcome : Except ε (α × β)} {a : α}
    (h : outcome.toOption.map (·.1) = some a) : ∃ b, outcome = .ok (a, b) := by
  cases outcome with
  | error e => cases h
  | ok ab => exact ⟨ab.2, congrArg Except.ok (Prod.ext (Option.some.inj h) rfl)⟩

namespace Session

/-- Makes changes in the open transaction, and answers how each of them ended. -/
def writeAll (s : Session) : List Change → List (Except Error Unit) × Session
  | [] => ([], s)
  | c :: cs =>
    let r := s.handleAt ⟨c.resolver, .write c.op⟩
    let rest := r.2.writeAll cs
    (r.1 :: rest.1, rest.2)

/-- Makes changes in a transaction of their own, which is committed. -/
def transact (s : Session) (changes : List Change) : Except Error (List (Except Error Unit) × Session) := do
  let (answers, s) := (← s.beginWrite).writeAll changes
  let (ended, s) := s.commit
  ended
  return (answers, s)

/-- Makes changes in one transaction after the other. -/
def transactAll (s : Session) : List (List Change) → Except Error (List (Except Error Unit) × Session)
  | [] => return ([], s)
  | changes :: rest => do
    let (answers, s) ← s.transact changes
    let (more, s) ← s.transactAll rest
    return (answers ++ more, s)

end Session

namespace Draft

/-- Makes changes in one draft, and answers how each of them ended. -/
def runAll (d : Draft) : List Change → List (Except Error Unit) × Draft
  | [] => ([], d)
  | c :: cs =>
    let r := run c.resolver c.op d
    let rest := (leftBy r).runAll cs
    (answerOf r :: rest.1, rest.2)

theorem runAll_append (d : Draft) (cs cs' : List Change) :
    d.runAll (cs ++ cs') = ((d.runAll cs).1 ++ ((d.runAll cs).2.runAll cs').1, ((d.runAll cs).2.runAll cs').2) := by
  induction cs generalizing d with
  | nil => rfl
  | cons c cs ih => simp only [List.cons_append, runAll, ih]

/-- Changes answer the same in drafts that are alike, and leave them alike. -/
theorem Alike.runAll {d d' : Draft} (h : d.Alike d') (cs : List Change) :
    (d'.runAll cs).1 = (d.runAll cs).1 ∧ (d.runAll cs).2.Alike (d'.runAll cs).2 := by
  induction cs generalizing d d' with
  | nil => exact ⟨rfl, h⟩
  | cons c cs ih =>
    have hagree := run_parallel c.resolver c.op d d' h
    unfold Draft.runAll
    generalize run c.resolver c.op d = r, run c.resolver c.op d' = r' at hagree
    cases hagree with
    | ok hleft => exact ⟨congrArg (_ :: ·) (ih hleft).1, (ih hleft).2⟩
    | error hleft => exact ⟨congrArg (_ :: ·) (ih hleft).1, (ih hleft).2⟩

theorem runAll_cons_of_ok {d d₁ : Draft} {c : Change} (h : run c.resolver c.op d = .ok () d₁) (cs : List Change) :
    d.runAll (c :: cs) = (.ok () :: (d₁.runAll cs).1, (d₁.runAll cs).2) := by
  rw [runAll, h]
  rfl

/-- A change that answers well has succeeded, and the others go on from what it left. -/
theorem runAll_cons_ok {d d' : Draft} {c : Change} {cs : List Change} {answers : List (Except Error Unit)}
    (h : d.runAll (c :: cs) = (.ok () :: answers, d')) :
    ∃ d₁, run c.resolver c.op d = .ok () d₁ ∧ d₁.runAll cs = (answers, d') := by
  unfold runAll at h
  cases hrun : run c.resolver c.op d with
  | ok _ d₁ =>
    rw [hrun] at h
    obtain ⟨hanswers, hleft⟩ := Prod.mk.inj h
    exact ⟨d₁, rfl, Prod.ext (List.cons.inj hanswers).2 hleft⟩
  | error e d₁ =>
    rw [hrun] at h
    cases (List.cons.inj (Prod.mk.inj h).1).1

/-- What every step keeps is kept by changes one after the other. -/
theorem keep_runAll {P : Draft → Prop} (rule : Rule) (h : ∀ {resolver d d'}, Step resolver rule d d' → P d → P d')
    {d : Draft} (hd : P d) (hreadable : d.store.Readable) {cs : List Change}
    (hcs : ∀ c ∈ cs, ∀ d, rule.Allows c.resolver d c.op) :
    P (d.runAll cs).2 ∧ (d.runAll cs).2.store.Readable := by
  induction cs generalizing d with
  | nil => exact ⟨hd, hreadable⟩
  | cons c cs ih =>
    rw [List.forall_mem_cons] at hcs
    obtain ⟨hnext, hreadable'⟩ := keep_run h hd hreadable (hcs.1 d)
    exact ih hnext hreadable' hcs.2

/-- Until it is committed, a draft has the lists of the store that it was begun with. -/
theorem lists_runAll {d : Draft} (hd : d.store.Readable) (cs : List Change) :
    (d.runAll cs).2.store.postings = d.store.postings ∧ (d.runAll cs).2.store.occurrences = d.store.occurrences := by
  refine (keep_runAll {} (P := fun d' => d'.store.postings = d.store.postings ∧
    d'.store.occurrences = d.store.occurrences) (fun hstep hd => ?_) ⟨rfl, rfl⟩ hd fun c _ d => ?_).1
  · exact ⟨hstep.lists_eq.1.trans hd.1, hstep.lists_eq.2.trans hd.2⟩
  · exact Change.allows_of_fit (fun _ _ => trivial) d

/-! ### Drafts that can be committed -/

/-- Every queued term can be a key, and what a commit stores can be read back. -/
structure Ready (d : Draft) : Prop where
  listed : Listed (fun lists => Ordered Level lists.2) d
  holdable : d.Holdable

variable {resolver : Resolver} {d d' : Draft}

/-- The terms of every document can be keys. -/
theorem Ready.holdsKey (h : d.Ready) {id : DocId} {t : Bytes} (ht : d.store.HasTerm id t) :
    Table.holdsKey t = true := by
  have hlisted := h.listed.covers id t ht
  cases hchanges : d.pending.find? t with
  | some changes => exact h.holdable t (mem_keys_iff.mpr ⟨changes, hchanges⟩)
  | none =>
    rw [listsOf_of_find?_none hchanges] at hlisted
    cases hfind : d.store.postings.find? t with
    | some value => exact (h.listed.postings t value hfind).1
    | none =>
      simp only [idsWith, hfind, Option.map_none, Option.getD_none, ite_self, List.not_mem_nil] at hlisted

theorem Holdable.congr (h : d.Holdable) (hpending : d'.pending = d.pending) : d'.Holdable := by
  unfold Holdable
  rwa [hpending]

/-- What is queued is a term of a document that is handed over, or one that a document has. -/
theorem Ready.step (hstep : Step resolver keyedRule d d') (h : d.Ready) : d'.Ready := by
  have hterms : ∀ doc, keyedRule.fit doc → ∀ field, Storable (doc.terms field).keys :=
    fun _ hdoc field => storable_of_holdsKey (hdoc.2 field)
  refine ⟨h.listed.step (lasting_ordered level_ofList) hterms (fun doc hdoc hid field t positions hfind => ?_)
    hstep, ?_⟩
  · exact ⟨hid, hdoc.1.level field t positions hfind⟩
  rcases hstep.cases_index with ⟨hpending, _⟩ | ⟨doc, selected, dropped, _, hdoc, hdropped, rfl⟩ | ⟨id, rfl⟩
  · exact h.holdable.congr hpending
  · have hremovable : ∀ t ∈ dropped, Table.holdsKey t = true := fun t ht => h.holdsKey (hdropped t ht).1
    exact (h.holdable.enqueueRemovals doc.id hremovable).withFields selected Field.all hdoc.2
  · exact h.holdable.withoutFields Field.all fun field t ht => h.holdsKey ⟨field, ht⟩

/-- A draft that is ready can be committed; what is begun then is like it, and ready. -/
theorem Ready.commit (h : d.Ready) :
    ∃ s, d.commit = .ok s ∧ d.Alike { store := s } ∧ ({ store := s } : Draft).Ready := by
  obtain ⟨s, hcommit⟩ := commit_ok h.holdable
  have hread : ∀ t, readOccurrences (OccurrenceList.encode (d.listsOf t).2) = (d.listsOf t).2 :=
    fun t => (h.listed.lists t).read_encode_of_level
  refine ⟨s, hcommit, alike_commit h.listed.ascend hread hcommit, h.listed.commit (fun ids os hos => ?_) hcommit, nofun⟩
  have hos' : readOccurrences (OccurrenceList.encode os) = os := Ordered.read_encode_of_level hos
  rwa [hos']

/-- What is stored is determined by what it is like. -/
theorem Alike.store_unique {d : Draft} {s s' : Store} (h : d.Alike { store := s }) (h' : d.Alike { store := s' }) :
    s = s' := by
  have hrows : ∀ t, (s.postings.find? t, s.occurrences.find? t) = (s'.postings.find? t, s'.occurrences.find? t) :=
    fun t => (h.rows t).trans (h'.rows t).symm
  have hpostings : s.postings = s'.postings := ByteMap.ext_find? fun t => congrArg (·.1) (hrows t)
  have hoccurrences : s.occurrences = s'.occurrences := ByteMap.ext_find? fun t => congrArg (·.2) (hrows t)
  have hs : s = d.store.withLists s.postings s.occurrences := h.others
  have hs' : s' = d.store.withLists s'.postings s'.occurrences := h'.others
  rw [hs, hs', hpostings, hoccurrences]

/-- What was stored by any run is ready to be changed. -/
theorem Sized.ready {s : Store} (h : ({ store := s } : Draft).Sized) : ({ store := s } : Draft).Ready :=
  ⟨⟨h.listed.ascend, h.stored, h.listed.covers, h.listed.postings, h.listed.sets⟩, nofun⟩

theorem Ready.runAll (h : d.Ready) (hreadable : d.store.Readable) {cs : List Change} (hcs : ∀ c ∈ cs, c.Keyed) :
    (d.runAll cs).2.Ready ∧ (d.runAll cs).2.store.Readable :=
  keep_runAll keyedRule Ready.step h hreadable fun c hc => Change.allows_of_fit (hcs c hc)

end Draft

/-! ### Transactions -/

namespace Session

open Draft

theorem handleAt_write {s : Session} {d : Draft} (h : s.draft = some d) (c : Change) :
    (s.handleAt ⟨c.resolver, .write c.op⟩).1 = answerOf (run c.resolver c.op d) ∧
      (s.handleAt ⟨c.resolver, .write c.op⟩).2 =
        { s with resolver := c.resolver, draft := some (leftBy (run c.resolver c.op d)) } := by
  unfold handleAt
  refine ⟨?_, ?_⟩
  · unfold handle current
    simp only [h, Transaction.run]
    cases run c.resolver c.op d <;> rfl
  · exact handle_write_of_draft (s := { s with resolver := c.resolver }) h c.op

/-- The changes of a transaction are made in its draft. -/
theorem writeAll_eq {s : Session} {d : Draft} (h : s.draft = some d) (cs : List Change) :
    (s.writeAll cs).1 = (d.runAll cs).1 ∧
      ∃ resolver, (s.writeAll cs).2 = { s with resolver, draft := some (d.runAll cs).2 } := by
  induction cs generalizing s d with
  | nil =>
    refine ⟨rfl, s.resolver, ?_⟩
    show s = { s with draft := some d }
    rw [← h]
  | cons c cs ih =>
    obtain ⟨hanswer, hafter⟩ := handleAt_write h c
    obtain ⟨hanswers, resolver, hleft⟩ := ih (s := (s.handleAt ⟨c.resolver, .write c.op⟩).2) (by rw [hafter])
    refine ⟨?_, resolver, ?_⟩
    · show _ :: _ = _ :: _
      rw [hanswer, hanswers]
    · show ((s.handleAt ⟨c.resolver, .write c.op⟩).2.writeAll cs).2 = _
      rw [hleft, hafter]
      rfl

/-- Changes of which the first succeeds were made in the draft of an open transaction. -/
theorem runAll_of_writeAll {s t : Session} {c : Change} {cs : List Change} {answers : List (Except Error Unit)}
    (h : s.writeAll (c :: cs) = (.ok () :: answers, t)) :
    ∃ d d', s.draft = some d ∧ t.draft = some d' ∧ d.runAll (c :: cs) = (.ok () :: answers, d') := by
  have hfirst : (s.handleAt ⟨c.resolver, .write c.op⟩).1 = .ok () := (List.cons.inj (congrArg (·.1) h)).1
  obtain ⟨d, hd⟩ : ∃ d, s.draft = some d := by
    obtain ⟨d, _, hd, _⟩ := exists_run_of_ok hfirst
    exact ⟨d, hd⟩
  obtain ⟨hanswers, resolver, hleft⟩ := writeAll_eq hd (c :: cs)
  rw [h] at hanswers hleft
  exact ⟨d, (d.runAll (c :: cs)).2, hd, congrArg (·.draft) hleft, Prod.ext hanswers.symm rfl⟩

theorem commit_of_ok {s t : Session} {d : Draft} (hd : s.draft = some d) (h : s.commit = (.ok (), t)) :
    d.commit = .ok t.committed := by
  simp only [Session.commit, hd] at h
  cases hcommit : d.commit with
  | error e =>
    rw [hcommit] at h
    cases (Prod.mk.inj h).1
  | ok store =>
    rw [hcommit] at h
    rw [← (Prod.mk.inj h).2]

theorem beginWrite_eq {s : Session} (hwritable : s.readOnly = false) :
    s.beginWrite = .ok { s with draft := some { store := s.committed } } := by
  rw [beginWrite, hwritable, if_neg Bool.false_ne_true, ← hwritable]

theorem transact_eq {s : Session} (hwritable : s.readOnly = false) (cs : List Change) {store : Store}
    (hcommit : (({ store := s.committed } : Draft).runAll cs).2.commit = .ok store) :
    ∃ t, s.transact cs = .ok ((({ store := s.committed } : Draft).runAll cs).1, t) ∧ t.committed = store ∧
      t.readOnly = false := by
  let begun : Session := { s with draft := some { store := s.committed } }
  have hbegin : s.beginWrite = .ok begun := beginWrite_eq hwritable
  obtain ⟨hanswers, resolver, hleft⟩ := writeAll_eq (s := begun) rfl cs
  let t : Session := { begun with resolver, committed := store, draft := none }
  have hended : (begun.writeAll cs).2.commit = (.ok (), t) := by
    rw [hleft]
    simp only [Session.commit, hcommit, t]
  refine ⟨t, ?_, rfl, hwritable⟩
  rw [transact, hbegin, ← hanswers]
  show ((begun.writeAll cs).2.commit.1 >>= fun _ => .ok ((begun.writeAll cs).1, (begun.writeAll cs).2.commit.2)) = _
  rw [hended]
  rfl

/-- A transaction that ends well was begun in an index that can be written. -/
theorem writable_of_transact {s t : Session} {cs : List Change} {answers : List (Except Error Unit)}
    (h : s.transact cs = .ok (answers, t)) : s.readOnly = false := by
  cases hwritable : s.readOnly with
  | false => rfl
  | true =>
    have hrefused : s.beginWrite = .error .readOnlyIndex := if_pos hwritable
    rw [transact, hrefused] at h
    cases h

/-- A transaction that ends well has committed the draft of its changes. -/
theorem commit_of_transact {s t : Session} {cs : List Change} {answers : List (Except Error Unit)}
    (h : s.transact cs = .ok (answers, t)) :
    (({ store := s.committed } : Draft).runAll cs).2.commit = .ok t.committed := by
  let begun : Session := { s with draft := some { store := s.committed } }
  obtain ⟨_, resolver, hleft⟩ := writeAll_eq (s := begun) rfl cs
  rw [transact, beginWrite_eq (writable_of_transact h)] at h
  change ((begun.writeAll cs).2.commit.1 >>= fun _ => .ok ((begun.writeAll cs).1, (begun.writeAll cs).2.commit.2)) =
    _ at h
  simp only [hleft, Session.commit] at h
  cases hcommit : (({ store := s.committed } : Draft).runAll cs).2.commit with
  | error e =>
    rw [hcommit] at h
    cases h
  | ok store =>
    rw [hcommit] at h
    cases h
    rfl

/-- A transaction answers what a draft answers that is like the committed store, and stores what this stands for. -/
theorem transact_alike {s : Session} (hwritable : s.readOnly = false) {d : Draft}
    (halike : d.Alike { store := s.committed }) (hready : ({ store := s.committed } : Draft).Ready)
    (hreadable : s.committed.Readable) {cs : List Change} (hcs : ∀ c ∈ cs, c.Keyed) :
    ∃ t, s.transact cs = .ok ((d.runAll cs).1, t) ∧ (d.runAll cs).2.Alike { store := t.committed } ∧
      t.readOnly = false ∧ ({ store := t.committed } : Draft).Ready ∧ t.committed.Readable := by
  obtain ⟨hready', hreadable'⟩ := hready.runAll hreadable hcs
  obtain ⟨store, hcommit, hcommitted, hfresh⟩ := hready'.commit
  obtain ⟨t, htransact, rfl, hwritable'⟩ := transact_eq hwritable cs hcommit
  obtain ⟨hanswers, halike'⟩ := halike.runAll cs
  exact ⟨t, by rw [htransact, hanswers], halike'.trans hcommitted, hwritable', hfresh, hreadable'.commit hcommit⟩

/-- A transaction of one change that succeeds stores what the draft stands for that the change leaves. -/
theorem transact_of_run {s : Session} (hwritable : s.readOnly = false)
    (hready : ({ store := s.committed } : Draft).Ready)
    (hreadable : s.committed.Readable) {c : Change} (hc : c.Keyed) {d : Draft}
    (hrun : run c.resolver c.op { store := s.committed } = .ok () d) {store : Store} (halike : d.Alike { store }) :
    ∃ t, s.transact [c] = .ok ([.ok ()], t) ∧ t.committed = store := by
  have hkeyed : ∀ c' ∈ [c], c'.Keyed := fun c' hc' => by
    rw [List.mem_singleton.mp hc']
    exact hc
  obtain ⟨t, htransact, hstored, _⟩ := transact_alike hwritable (.refl _) hready hreadable hkeyed
  rw [runAll_cons_of_ok hrun] at htransact hstored
  exact ⟨t, htransact, hstored.store_unique halike⟩

/-- Transactions answer what one draft answers, and store what it stands for. -/
theorem transactAll_alike {s : Session} (hwritable : s.readOnly = false) {d : Draft}
    (halike : d.Alike { store := s.committed }) (hready : ({ store := s.committed } : Draft).Ready)
    (hreadable : s.committed.Readable) {cut : List (List Change)} (hcut : ∀ c ∈ cut.flatten, c.Keyed) :
    ∃ t, s.transactAll cut = .ok ((d.runAll cut.flatten).1, t) ∧
      (d.runAll cut.flatten).2.Alike { store := t.committed } := by
  induction cut generalizing s d with
  | nil => exact ⟨s, rfl, halike⟩
  | cons cs rest ih =>
    -- the one draft goes on where the transaction commits; what is stored then is like it
    rw [List.flatten_cons] at hcut
    have hcs : ∀ c ∈ cs, c.Keyed := fun c hc => hcut c (List.mem_append_left _ hc)
    have hrest : ∀ c ∈ rest.flatten, c.Keyed := fun c hc => hcut c (List.mem_append_right _ hc)
    obtain ⟨t, htransact, halike', hwritable', hready', hreadable'⟩ :=
      transact_alike hwritable halike hready hreadable hcs
    obtain ⟨t', hmore, hend⟩ := ih hwritable' halike' hready' hreadable' hrest
    rw [List.flatten_cons, runAll_append]
    refine ⟨t', ?_, hend⟩
    rw [transactAll, htransact]
    show (t.transactAll rest >>= _) = _
    rw [hmore]
    rfl

/-- A search does not see what was written since its transaction began. -/
theorem search_writeAll {s : Session} (hwritable : s.readOnly = false) (hreadable : s.committed.Readable) :
    ∃ begun, s.beginWrite = .ok begun ∧ ∀ changes q limit,
      (begun.writeAll changes).2.current.store.search q limit = begun.current.store.search q limit := by
  refine ⟨_, beginWrite_eq hwritable, fun changes q limit => ?_⟩
  obtain ⟨_, resolver, hleft⟩ := writeAll_eq (s := { s with draft := some { store := s.committed } }) rfl changes
  obtain ⟨hpostings, hoccurrences⟩ := lists_runAll (d := { store := s.committed }) hreadable changes
  rw [hleft]
  exact search_congr hpostings hoccurrences q limit

end Session

/-- However the same changes are cut into transactions, they answer the same and leave the same tables. No search in an
open transaction sees what the transaction has written. -/
theorem Session.transactAll_regroup (resolver : Resolver) (moments : List Moment)
    (h : ({ resolver } : Session).ObeysAt sizedRule.Allows moments)
    (hwritable : (({ resolver } : Session).afterAt moments).readOnly = false) (cut cut' : List (List Change))
    (hsame : cut'.flatten = cut.flatten) (hkeyed : ∀ c ∈ cut.flatten, c.Keyed) :
    let s := ({ resolver } : Session).afterAt moments
    (∃ answers t t', s.transactAll cut = .ok (answers, t) ∧ s.transactAll cut' = .ok (answers, t') ∧
      ∀ name, t.committed.table name = t'.committed.table name) ∧
    ∃ begun, s.beginWrite = .ok begun ∧ ∀ changes q limit,
      (begun.writeAll changes).2.current.store.search q limit = begun.current.store.search q limit := by
  intro s
  obtain ⟨hsized, hreadable⟩ := (keep_afterAt Draft.Sized.step Draft.Sized.commit Draft.sized_empty h).1
  obtain ⟨t, htransact, halike⟩ := transactAll_alike hwritable (.refl _) hsized.ready hreadable hkeyed
  obtain ⟨t', htransact', halike'⟩ := transactAll_alike hwritable (.refl _) hsized.ready hreadable (hsame ▸ hkeyed)
  rw [hsame] at htransact' halike'
  refine ⟨⟨_, t, t', htransact, htransact', fun name => ?_⟩, search_writeAll hwritable hreadable⟩
  rw [halike.store_unique halike']

/-- A document is removed and added again, a second time in vain, and then loses the field in which it has
a position. -/
theorem Session.transactAll_regroup_removed_and_added :
    let plain : Document := { id := 7, url := [0x2F, 0x61] }
    let doc : Document := (plain.addPosition .content [0x78] 3).addTerm .fileName [0x78]
    let moments : List Moment :=
      [⟨.nowhere, .beginWrite⟩, ⟨.nowhere, .write (.add doc)⟩, ⟨.nowhere, .commit⟩]
    let remove : Change := ⟨.nowhere, .removeSubtree 7⟩
    let add : Change := ⟨.nowhere, .add doc⟩
    let empty : Change := ⟨.nowhere, .replace plain { contentTerms := true }⟩
    let cut := [[remove, add, add, empty]]
    let cut' := [[remove], [add, add], [], [empty]]
    let s := ({ resolver := .nowhere } : Session).afterAt moments
    ({ resolver := .nowhere } : Session).ObeysAt sizedRule.Allows moments ∧ s.readOnly = false ∧
      cut'.flatten = cut.flatten ∧ (∀ c ∈ cut.flatten, c.Keyed) ∧
      (∃ answers t t', s.transactAll cut = .ok (answers, t) ∧ s.transactAll cut' = .ok (answers, t') ∧
        ∀ name, t.committed.table name = t'.committed.table name) ∧
      ∃ begun, s.beginWrite = .ok begun ∧ ∀ changes q limit,
        (begun.writeAll changes).2.current.store.search q limit = begun.current.store.search q limit := by
  intro plain doc moments remove add empty cut cut' s
  have hplain : plain.Keyed := .plain 7 _ _ _ _
  have hdoc : doc.Keyed := (hplain.addPosition .content 3 (by decide)).addTerm .fileName (by decide)
  have hobeys : ({ resolver := .nowhere } : Session).ObeysAt sizedRule.Allows moments := by
    refine ⟨fun op d hop => ?_, fun op d hop _ => ?_, fun op d hop => ?_, trivial⟩
    · cases hop
    · cases hop
      exact ⟨hdoc.sized, fun _ _ => trivial⟩
    · cases hop
  have hkeyed : ∀ c ∈ cut.flatten, c.Keyed := by
    intro c hc d hd
    simp only [cut, List.flatten_cons, List.flatten_nil, List.append_nil, List.mem_cons, List.not_mem_nil,
      or_false] at hc
    rcases hc with rfl | rfl | rfl | rfl <;> cases hd
    · exact hdoc
    · exact hdoc
    · exact hplain
  have hwritable : s.readOnly = false := rfl
  exact ⟨hobeys, hwritable, rfl, hkeyed, transactAll_regroup .nowhere moments hobeys hwritable cut cut' rfl hkeyed⟩

end FileIndex
