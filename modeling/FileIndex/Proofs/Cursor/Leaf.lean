import FileIndex.Proofs.Cursor.Alignment
import Mathlib.Data.List.Nodup

/-!
# Cursors over lists

A cursor over a list keeps what is ahead of it and steps through that. It walks over the ids of the list and
shows the positions that the list has for its current id.

* `OccurrenceList.Sorted`: the lists that cursors are made for.
* `leafNext_spec`: stepping through what is left of a list finds its first wanted id.
* `Simulation.leaf`: a cursor over a sorted list keeps to its expectation, at every depth.
-/

namespace FileIndex

/-- The ids are strictly ascending without the id 0, and each document's positions are ascending. -/
structure OccurrenceList.Sorted (os : List Occurrence) : Prop where
  ascending : os.Pairwise (·.id < ·.id)
  nonzero : ∀ o ∈ os, o.id ≠ 0
  positions : ∀ o ∈ os, o.positions.Pairwise (· ≤ ·)

instance (os : List Occurrence) : Decidable (OccurrenceList.Sorted os) :=
  decidable_of_iff (os.Pairwise (·.id < ·.id) ∧ (∀ o ∈ os, o.id ≠ 0) ∧ ∀ o ∈ os, o.positions.Pairwise (· ≤ ·))
    ⟨fun h => ⟨h.1, h.2.1, h.2.2⟩, fun h => ⟨h.ascending, h.nonzero, h.positions⟩⟩

/-- The positions that a list has for an id. -/
def OccurrenceList.shown (os : List Occurrence) (id : DocId) : List UInt32 :=
  ((os.find? (·.id == id)).map (·.positions)).getD []

/-- A sorted list has one document for each id. -/
theorem OccurrenceList.Sorted.eq_of_id_eq {os : List Occurrence} (h : Sorted os) {o o' : Occurrence} (ho : o ∈ os)
    (ho' : o' ∈ os) (hid : o.id = o'.id) : o = o' := by
  have hnodup : (os.map (·.id)).Nodup := List.pairwise_map.mpr (h.ascending.imp fun hlt heq => by grind)
  exact List.inj_on_of_nodup_map hnodup ho ho' hid

theorem OccurrenceList.Sorted.shown_eq {os : List Occurrence} (h : Sorted os) {o : Occurrence} (ho : o ∈ os) :
    shown os o.id = o.positions := by
  cases hfind : os.find? (·.id == o.id) with
  | none =>
    rw [List.find?_eq_none] at hfind
    exact absurd (beq_self_eq_true o.id) (hfind o ho)
  | some found =>
    have hid : found.id = o.id := by simpa using List.find?_some hfind
    rw [shown, hfind, h.eq_of_id_eq (List.mem_of_find?_eq_some hfind) ho hid]
    rfl

namespace Cursor

/-- What a cursor over a list is expected to do. -/
def listExpectation (os : List Occurrence) (st : Standing) : Expectation :=
  ⟨⟨os.map (·.id), st⟩, OccurrenceList.shown os⟩

/-- A cursor over a sorted list holds its current document, if any, and those ahead of where it stands. -/
inductive Leaf : Cursor → Expectation → Prop
  | off {os : List Occurrence} {st : Standing} : OccurrenceList.Sorted os → (∀ id, st ≠ .on id) →
    Leaf (.leaf none (os.filter (st.precedes ·.id))) (listExpectation os st)
  | on {os : List Occurrence} {o : Occurrence} : OccurrenceList.Sorted os → o ∈ os →
    Leaf (.leaf (some o) (os.filter (o.id < ·.id))) (listExpectation os (.on o.id))

theorem leaf_ofOccurrences {os : List Occurrence} (h : OccurrenceList.Sorted os) :
    Leaf (ofOccurrences os) (listExpectation os .before) := by
  have hleaf : Leaf _ (listExpectation os .before) := .off h fun id hid => by cases hid
  have hall : os.filter (Standing.before.precedes ·.id) = os := by simp [Standing.precedes]
  rwa [hall] at hleaf

/-- Of a list ascending by id, what follows the first member of an upward closed set are those with greater ids. -/
theorem tail_of_filter_eq_cons {α : Type} {key : α → DocId} {l : List α} (h : l.Pairwise (key · < key ·))
    {wanted : DocId → Bool} (hupward : ∀ id other, wanted id = true → id ≤ other → wanted other = true) {a : α}
    {rest : List α} (hfilter : l.filter (wanted <| key ·) = a :: rest) : rest = l.filter (key a < key ·) := by
  have hpairs : (a :: rest).Pairwise (key · < key ·) := hfilter ▸ h.filter _
  have hrest : (a :: rest).filter (key a < key ·) = rest := by
    rw [List.filter_cons_of_neg (by simp), List.filter_eq_self]
    exact fun x hx => decide_eq_true (List.rel_of_pairwise_cons hpairs hx)
  have ha : wanted (key a) = true := by
    have hmem : a ∈ l.filter (wanted <| key ·) := hfilter ▸ List.mem_cons_self
    exact (List.mem_filter.mp hmem).2
  rw [← hrest, ← hfilter, List.filter_filter]
  apply List.filter_congr
  intro x _
  by_cases hlt : key a < key x
  · simp [hlt, hupward _ _ ha (UInt64.le_of_lt hlt)]
  · simp [hlt]

/-- Stepping through the documents of an upward closed set goes to the first id of the set. -/
theorem leafNext_spec {os : List Occurrence} (h : OccurrenceList.Sorted os) {wanted : DocId → Bool}
    (hupward : ∀ id other, wanted id = true → id ≤ other → wanted other = true) :
    (leafNext (os.filter (wanted ·.id))).1 = (os.map (·.id)).find? wanted ∧
      Leaf (leafNext (os.filter (wanted ·.id))).2 (listExpectation os (.ofAnswer ((os.map (·.id)).find? wanted))) := by
  have hhead : (os.map (·.id)).find? wanted = (os.filter (wanted ·.id)).head?.map (·.id) := by
    rw [List.find?_map, List.head?_filter]
    rfl
  rw [hhead]
  cases hfilter : os.filter (wanted ·.id) with
  | nil =>
    refine ⟨rfl, ?_⟩
    have hnone : os.filter (Standing.past.precedes ·.id) = [] := by simp [Standing.precedes]
    have hleaf : Leaf _ (listExpectation os .past) := .off h fun id hid => by cases hid
    rwa [hnone] at hleaf
  | cons o rest =>
    have hmem : o ∈ os.filter (wanted ·.id) := hfilter ▸ List.mem_cons_self
    refine ⟨rfl, ?_⟩
    rw [leafNext, tail_of_filter_eq_cons h.ascending hupward hfilter]
    exact .on h (List.mem_of_mem_filter hmem)

/-- In an ascending list, skipping the lesser ids leaves those that reach the target. -/
theorem dropWhile_eq_filter {os : List Occurrence} (h : os.Pairwise (·.id < ·.id)) (target : DocId) :
    os.dropWhile (·.id < target) = os.filter (target ≤ ·.id) := by
  induction os with
  | nil => rfl
  | cons o os ih =>
    rw [List.pairwise_cons] at h
    by_cases hlt : o.id < target
    · rw [List.dropWhile_cons_of_pos (by simpa using hlt), List.filter_cons_of_neg (by simpa using hlt), ih h.2]
    · have hle : target ≤ o.id := UInt64.not_lt.mp hlt
      rw [List.dropWhile_cons_of_neg (by simpa using hlt), List.filter_cons_of_pos (by simpa using hle), eq_comm]
      congr 1
      refine List.filter_eq_self.mpr fun x hx => decide_eq_true ?_
      exact UInt64.le_trans hle (UInt64.le_of_lt (h.1 x hx))

/-- The documents ahead are those ahead of where the walk stands. -/
theorem Leaf.exists_ahead {c : Cursor} {e : Expectation} (h : Leaf c e) : ∃ os current st,
    OccurrenceList.Sorted os ∧ c = .leaf current (os.filter (st.precedes ·.id)) ∧ e = listExpectation os st := by
  cases h with
  | @off os st hsorted _ => exact ⟨os, none, st, hsorted, rfl, rfl⟩
  | @on os o hsorted _ => exact ⟨os, some o, .on o.id, hsorted, rfl, rfl⟩

theorem Leaf.valid {c : Cursor} {e : Expectation} (h : Leaf c e) : e.walk.Valid := by
  have hids : ∀ {os : List Occurrence}, OccurrenceList.Sorted os →
      (os.map (·.id)).Pairwise (· < ·) ∧ 0 ∉ os.map (·.id) := by
    intro os hsorted
    refine ⟨List.pairwise_map.mpr hsorted.ascending, fun h0 => ?_⟩
    obtain ⟨o, ho, hid⟩ := List.mem_map.mp h0
    exact hsorted.nonzero o ho hid
  cases h with
  | off hsorted hst => exact ⟨(hids hsorted).1, (hids hsorted).2, fun id hid => absurd hid (hst id)⟩
  | @on os o hsorted ho =>
    refine ⟨(hids hsorted).1, (hids hsorted).2, fun id hid => ?_⟩
    simp only [listExpectation, Standing.on.injEq] at hid
    exact hid ▸ List.mem_map_of_mem ho

theorem Leaf.docId {c : Cursor} {e : Expectation} (h : Leaf c e) : c.docId = e.walk.docId := by
  cases h with
  | @off os st _ hst =>
    cases st with
    | on id => exact absurd rfl (hst id)
    | before | past => rfl
  | on => rfl

theorem Leaf.left_le {c : Cursor} {e : Expectation} (h : Leaf c e) : e.walk.left ≤ c.weight := by
  cases h with
  | @off os st _ hst =>
    have hsame : os.filter (st.admits ·.id) = os.filter (st.precedes ·.id) := by
      cases st with
      | on id => exact absurd rfl (hst id)
      | before | past => rfl
    rw [Reference.left, weight, listExpectation, List.countP_map, List.countP_eq_length_filter]
    show (os.filter (st.admits ·.id)).length ≤ _
    rw [hsame]
    omega
  | @on os o hsorted ho =>
    rw [Reference.left, weight, listExpectation, List.countP_map, List.countP_eq_length_filter]
    show (os.filter (o.id ≤ ·.id)).length ≤ _
    cases hfilter : os.filter (o.id ≤ ·.id) with
    | nil => exact Nat.zero_le _
    | cons first rest =>
      -- the current document is counted once, those behind it are ahead
      have hupward : ∀ id other, decide (o.id ≤ id) = true → id ≤ other → decide (o.id ≤ other) = true :=
        fun id other h hle => decide_eq_true (UInt64.le_trans (of_decide_eq_true h) hle)
      have hrest := tail_of_filter_eq_cons hsorted.ascending hupward hfilter
      have hfirst : first ∈ os.filter (o.id ≤ ·.id) := hfilter ▸ List.mem_cons_self
      have hle : o.id ≤ first.id := of_decide_eq_true (List.mem_filter.mp hfirst).2
      have hfewer : rest.length ≤ (os.filter (o.id < ·.id)).length := by
        rw [hrest, ← List.countP_eq_length_filter, ← List.countP_eq_length_filter]
        refine List.countP_mono_left fun x _ hx => decide_eq_true ?_
        exact UInt64.lt_of_le_of_lt hle (of_decide_eq_true hx)
      rw [List.length_cons]
      simp only [Option.isSome_some, if_true]
      omega

/-- A move of a list does what its walk does. -/
theorem Leaf.moved {c : Cursor} {e : Expectation} (h : Leaf c e) (depth : Nat) (m : Move) :
    (step depth m c).1 = (e.walk.move m).1 ∧ Leaf (step depth m c).2 { e with walk := (e.walk.move m).2 } := by
  have hdoc := h.docId
  have hkept := h
  obtain ⟨os, current, st, hsorted, rfl, rfl⟩ := h.exists_ahead
  cases m with
  | next =>
    have hupward : ∀ id other, st.precedes id = true → id ≤ other → st.precedes other = true :=
      fun _ _ => Standing.precedes_upward
    have hspec := leafNext_spec hsorted hupward
    rw [Cursor.step, Reference.move_next]
    simpa only [Reference.advance, listExpectation, Bool.and_true] using hspec
  | seek target =>
    rw [Cursor.step, Reference.move_seek, hdoc]
    split
    · exact ⟨rfl, hkept⟩
    · rw [dropWhile_eq_filter (hsorted.ascending.filter _), List.filter_filter]
      have hupward : ∀ id other, (decide (target ≤ id) && st.precedes id) = true → id ≤ other →
          (decide (target ≤ other) && st.precedes other) = true := by
        intro id other hid hle
        obtain ⟨htarget, hahead⟩ := Bool.and_eq_true_iff.mp hid
        refine Bool.and_eq_true_iff.mpr ⟨decide_eq_true ?_, Standing.precedes_upward hahead hle⟩
        exact UInt64.le_trans (of_decide_eq_true htarget) hle
      have hspec := leafNext_spec hsorted hupward
      simpa only [Reference.advance, listExpectation, Bool.and_comm] using hspec

end Cursor

/-- Cursors over sorted lists keep to their expectations. -/
theorem Simulation.leaf (depth : Nat) : Simulation (Cursor.step depth) Cursor.Leaf := by
  refine ⟨⟨Cursor.Leaf.valid, fun m h => (h.moved depth m).1, fun m h => (h.moved depth m).2, Cursor.Leaf.docId⟩, ?_,
    Cursor.Leaf.left_le⟩
  intro c e id h hst
  cases h with
  | off _ hoff => exact absurd hst (hoff id)
  | @on os o hsorted ho =>
    simp only [Cursor.listExpectation, Standing.on.injEq] at hst
    subst hst
    exact (hsorted.shown_eq ho).symm

end FileIndex
