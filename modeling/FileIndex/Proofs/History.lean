import FileIndex.FileId
import FileIndex.Proofs.Ledger.Contents

/-!
# An index is a function of its live documents

Beside a session a ledger is kept of the documents that are written and removed. What is stored is at any time what the
documents of the ledger are stored as, and thus what is stored when just these are added to an empty index.

* `Ledger`, `Ledger.record`, `Ledger.after`: the documents that are live, event by event.
* `Ledger.Matches`, `Matches.record`, `Matches.after`: the session holds the documents of the ledger.
* `rebuild`: adding documents batch by batch.
* `Session.table_eq_rebuild`: what is stored depends on the live documents only.
-/

namespace FileIndex

/-- The live documents: those that are stored, and those of the open writing transaction. -/
structure Ledger where
  committed : List Document := []
  draft : Option (List Document) := none

namespace Ledger

/-- The ledger after an event. Changes that fail leave it, and what is not committed is forgotten. -/
def record (r : Naming) (l : Ledger) : Event → Except Error Unit → Ledger
  | .beginWrite, .ok _ => { l with draft := some l.committed }
  | .tryWrite, .ok _ => { l with draft := some (l.draft.getD l.committed) }
  | .write op, .ok _ => { l with draft := l.draft.map fun docs => op.recorded r docs }
  | .commit, .ok _ => { committed := l.draft.getD l.committed }
  | .commit, .error _ | .abort, _ | .reopen _, _ => { l with draft := none }
  | _, _ => l

/-- The ledger after a run of the session. -/
def after (r : Naming) (s : Session) (l : Ledger) : List Event → Ledger
  | [] => l
  | e :: es => after r (s.handle e).2 (l.record r e (s.handle e).1) es

/-- The session holds the documents of the ledger. -/
structure Matches (r : Naming) (l : Ledger) (s : Session) : Prop where
  resolver : s.resolver = r.resolve
  committed : Draft.Holds r l.committed { store := s.committed }
  draft : Option.Rel (Draft.Holds r) l.draft s.draft

namespace Matches

variable {r : Naming} {l : Ledger} {s : Session}

theorem empty (r : Naming) : Matches r {} { resolver := r.resolve } := ⟨rfl, Draft.holds_empty, .none⟩

/-- A change succeeds for both or for neither. -/
theorem write (h : Matches r l s) {op : WriteOp} (hop : op.Fit r) :
    Matches r (l.record r (.write op) (s.handle (.write op)).1) (s.handle (.write op)).2 := by
  obtain ⟨live, _⟩ := l
  obtain ⟨_, readOnly, stored, snapshot, _⟩ := s
  obtain ⟨rfl, hcommitted, hdraft⟩ := h
  cases hdraft with
  -- without a writing transaction the change is refused, and nothing is recorded
  | none => cases snapshot <;> exact ⟨rfl, hcommitted, .none⟩
  | @some docs d hholds =>
    have hrun := hholds.run hop
    simp only [Session.handle, Session.current, Transaction.run]
    cases hresult : Draft.run r.resolve op d with
    | ok _ d' =>
      rw [hresult] at hrun
      exact ⟨rfl, hcommitted, .some hrun⟩
    | error e d' =>
      rw [hresult] at hrun
      exact ⟨rfl, hcommitted, .some hrun⟩

/-- Committing does not fail. -/
theorem commit (h : Matches r l s) : Matches r (l.record r .commit (s.handle .commit).1) (s.handle .commit).2 := by
  obtain ⟨live, _⟩ := l
  obtain ⟨_, readOnly, stored, snapshot, _⟩ := s
  obtain ⟨rfl, hcommitted, hdraft⟩ := h
  cases hdraft with
  | none => exact ⟨rfl, hcommitted, .none⟩
  | @some docs d hholds =>
    obtain ⟨store, hcommit, hstored⟩ := hholds.commit_ok
    simp only [Session.handle, Session.commit, hcommit]
    exact ⟨rfl, hstored, .none⟩

/-- A transaction begins with the documents that are stored. -/
theorem begin (h : Matches r l s) {e : Event} (he : e = .beginWrite ∨ e = .tryWrite) :
    Matches r (l.record r e (s.handle e).1) (s.handle e).2 := by
  obtain ⟨live, _⟩ := l
  obtain ⟨_, readOnly, stored, snapshot, _⟩ := s
  obtain ⟨rfl, hcommitted, hdraft⟩ := h
  rcases he with rfl | rfl
  · cases readOnly with
    | true => exact ⟨rfl, hcommitted, hdraft⟩
    | false => exact ⟨rfl, hcommitted, .some hcommitted⟩
  · cases readOnly with
    | true => exact ⟨rfl, hcommitted, hdraft⟩
    | false =>
      cases hdraft with
      | none => exact ⟨rfl, hcommitted, .some hcommitted⟩
      | some hholds => exact ⟨rfl, hcommitted, .some hholds⟩

/-- One event keeps the ledger and the session together. -/
theorem record (h : Matches r l s) {e : Event} (hfit : ∀ op, e = .write op → op.Fit r) :
    Matches r (l.record r e (s.handle e).1) (s.handle e).2 := by
  cases e with
  | beginRead | endRead => exact ⟨h.resolver, h.committed, h.draft⟩
  | abort | reopen => exact ⟨h.resolver, h.committed, .none⟩
  | beginWrite => exact h.begin (.inl rfl)
  | tryWrite => exact h.begin (.inr rfl)
  | write op => exact h.write (hfit op rfl)
  | commit => exact h.commit

/-- The ledger and the session stay together through every run. -/
theorem after (h : Matches r l s) {events : List Event} (hfit : ∀ op, .write op ∈ events → op.Fit r) :
    Matches r (Ledger.after r s l events) (s.after events) := by
  induction events generalizing l s with
  | nil => exact h
  | cons e es ih =>
    rw [Session.after_cons]
    exact ih (h.record fun op hop => hfit op (hop ▸ List.mem_cons_self)) fun op hop =>
      hfit op (List.mem_cons_of_mem e hop)

end Matches
end Ledger

/-! ### Adding documents only -/

/-- Adds the documents in one transaction. -/
def addAll (docs : List Document) : List Event :=
  .beginWrite :: (docs.map fun doc => .write (.add doc)) ++ [.commit]

/-- Adds the documents batch by batch. -/
def rebuild (batches : List (List Document)) : List Event := batches.flatMap addAll

section Adding

variable {r : Naming} {docs news : List Document} {s : Session}

theorem holds_after_adds {d : Draft} (h : Draft.Holds r docs d) (hresolver : s.resolver = r.resolve)
    (hd : s.draft = some d) (hnews : ∀ doc ∈ news, doc.Admitted r) (hdistinct : (docs ++ news).Pairwise (·.id ≠ ·.id)) :
    ∃ d', s.after (news.map fun doc => .write (.add doc)) = { s with draft := some d' } ∧
      Draft.Holds r (docs ++ news) d' := by
  induction news generalizing docs s d with
  | nil =>
    refine ⟨d, ?_, by simpa using h⟩
    rw [← hd]
    rfl
  | cons doc news ih =>
    have hnew : ∀ other ∈ docs, other.id ≠ doc.id := fun other hother =>
      (List.pairwise_append.mp hdistinct).2.2 other hother doc List.mem_cons_self
    rw [List.append_cons] at hdistinct ⊢
    obtain ⟨d₁, hadd, h₁⟩ := h.add_of_new (hnews doc List.mem_cons_self) hnew
    have hlive : Draft.Holds r (docs ++ [doc]) d₁ := by
      apply h₁.of_mem_iff (List.pairwise_append.mp hdistinct).1
      intro other
      simp [without_eq_self hnew, or_comm]
    have hstep : (s.handle (.write (.add doc))).2 = { s with draft := some d₁ } := by
      have hrun : Draft.run r.resolve (.add doc) d = .ok () d₁ := hadd
      rw [Session.handle_write_of_draft hd, hresolver, hrun, leftBy_ok]
    rw [List.map_cons, Session.after_cons, hstep]
    exact ih hlive hresolver rfl (fun other hother => hnews other (List.mem_cons_of_mem doc hother)) hdistinct

theorem holds_after_addAll (h : Draft.Holds r docs { store := s.committed }) (hresolver : s.resolver = r.resolve)
    (hwritable : s.readOnly = false) (hnews : ∀ doc ∈ news, doc.Admitted r)
    (hdistinct : (docs ++ news).Pairwise (·.id ≠ ·.id)) :
    ∃ store, s.after (addAll news) = { s with committed := store, draft := none } ∧
      Draft.Holds r (docs ++ news) { store } := by
  let begun : Session := { s with draft := some { store := s.committed } }
  have hbegun : s.beginWrite = .ok begun := if_neg (by simp [hwritable])
  have hbegin : (s.handle .beginWrite).2 = begun := by simp only [Session.handle, hbegun]
  obtain ⟨d, hadds, hd⟩ := holds_after_adds (s := begun) h hresolver rfl hnews hdistinct
  obtain ⟨store, hcommit, hstored⟩ := hd.commit_ok
  refine ⟨store, ?_, hstored⟩
  rw [addAll, List.cons_append, Session.after_cons, hbegin, Session.after_append, hadds]
  simp only [Session.after_cons, Session.after_nil, Session.handle, Session.commit, hcommit]
  rfl

theorem holds_after_rebuild {batches : List (List Document)} (h : Draft.Holds r docs { store := s.committed })
    (hresolver : s.resolver = r.resolve) (hwritable : s.readOnly = false)
    (hnews : ∀ doc ∈ batches.flatten, doc.Admitted r)
    (hdistinct : (docs ++ batches.flatten).Pairwise (·.id ≠ ·.id)) :
    Draft.Holds r (docs ++ batches.flatten) { store := (s.after (rebuild batches)).committed } := by
  induction batches generalizing docs s with
  | nil =>
    rw [List.flatten_nil, List.append_nil]
    exact h
  | cons news batches ih =>
    rw [List.flatten_cons, ← List.append_assoc] at hdistinct ⊢
    have hfirst : ∀ doc ∈ news, doc.Admitted r := fun doc hdoc => hnews doc (List.mem_append_left _ hdoc)
    have hrest : ∀ doc ∈ batches.flatten, doc.Admitted r := fun doc hdoc => hnews doc (List.mem_append_right _ hdoc)
    obtain ⟨store, hbatch, hstored⟩ :=
      holds_after_addAll h hresolver hwritable hfirst (List.pairwise_append.mp hdistinct).1
    show Draft.Holds r _ { store := (s.after (addAll news ++ rebuild batches)).committed }
    rw [Session.after_append, hbatch]
    exact ih hstored hresolver hwritable hrest hdistinct

end Adding

namespace Session

/-- The documents that are live after a run on an empty index, each as it was last written. -/
def live (r : Naming) (events : List Event) : List Document :=
  (Ledger.after r { resolver := r.resolve } {} events).committed

/-- However documents came to be live, what is stored of them is what would be stored if just they were added to an
empty index, in any order and in any number of transactions. -/
theorem table_eq_rebuild (r : Naming) {events : List Event} (hfit : ∀ op, .write op ∈ events → op.Fit r)
    {batches : List (List Document)} (hbatches : batches.flatten.Perm (live r events)) (name : TableName)
    (hpending : name ≠ .contentPending) (hfailed : name ≠ .failed) :
    (({ resolver := r.resolve } : Session).after events).committed.table name =
      (({ resolver := r.resolve } : Session).after (rebuild batches)).committed.table name := by
  have hlive : Draft.Holds r (live r events) _ := ((Ledger.Matches.empty r).after hfit).committed
  have hdistinct : batches.flatten.Pairwise (·.id ≠ ·.id) := hbatches.symm.pairwise hlive.distinct Ne.symm
  have hholds := hlive.of_mem_iff hdistinct fun doc => hbatches.mem_iff
  have hrebuilt :=
    holds_after_rebuild (s := { resolver := r.resolve }) Draft.holds_empty rfl rfl hholds.admitted hdistinct
  exact hholds.table_eq hrebuilt name hpending hfailed

/-- A document that was replaced is as if only its last version had been added; a removal that is not committed is
forgotten. -/
theorem table_eq_rebuild_after_replacement :
    let r : Naming := .ofList (.listed [([0x2F, 0x61], 7), ([0x2F, 0x61, 0x2F, 0x62], 8), ([0x2F, 0x63], 9)])
      [[], [[0x61]], [[0x62], [0x61]], [[0x63]]] (by decide) (by decide) (by decide)
    let plain : Document := { id := 8, url := [0x2F, 0x61, 0x2F, 0x62] }
    let old : Document := plain.addTerm .content [0x78]
    let new : Document := plain.addPosition .fileName [0x79] 3
    let other : Document := { id := 9, url := [0x2F, 0x63] }
    let events : List Event :=
      [.beginWrite, .write (.add old), .write (.add other), .commit, .beginWrite, .write (.replace new .everything),
        .write (.removeSubtree 9), .commit, .beginWrite, .write (.remove 8), .abort]
    let start : Session := { resolver := r.resolve }
    live r events = [new] ∧ ∀ name, name ≠ .contentPending → name ≠ .failed →
      (start.after events).committed.table name = (start.after (rebuild [[new]])).committed.table name := by
  intro r plain old new other events start
  have hlive : live r events = [new] := by decide +kernel
  have hparse : Path.parse plain.url = .ok [[0x62], [0x61]] := by decide
  have hknown : r.known [[0x62], [0x61]] := by simp [r, Naming.ofList]
  have hplain : plain.Built := .plain 8 _ _ _ _
  have hold : old.Fit r := by
    refine .of_parse hparse (by decide) hknown (by decide) (hplain.addTerm .content [0x78]) fun field => ?_
    cases field <;> decide
  have hnew : new.Fit r := by
    refine .of_parse hparse (by decide) hknown (by decide) (hplain.addPosition .fileName [0x79] 3) fun field => ?_
    cases field <;> decide
  have hother : other.Fit r := by
    have hparse' : Path.parse other.url = .ok [[0x63]] := by decide
    refine .of_parse hparse' (by decide) (by simp [r, Naming.ofList]) (by decide) (.plain 9 _ _ _ _) fun field => ?_
    cases field <;> decide
  have hfit : ∀ op, .write op ∈ events → op.Fit r := by
    intro op hop
    simp only [events, List.mem_cons, reduceCtorEq, Event.write.injEq, List.not_mem_nil, false_or, or_false] at hop
    rcases hop with rfl | rfl | rfl | rfl | rfl
    · exact hold
    · exact hother
    · exact ⟨hnew, rfl⟩
    · trivial
    · trivial
  have hbatches : [[new]].flatten.Perm (live r events) := by
    rw [hlive]
    exact .refl _
  exact ⟨hlive, table_eq_rebuild r hfit hbatches⟩

end Session
end FileIndex
