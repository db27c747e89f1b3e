import FileIndex.Proofs.Path
import FileIndex.Proofs.Tree.Ascent

/-!
# The names on the way up

The path of an id is what the names on its way up are written as. A way with more names than are followed is none.

* `Store.NamedWay`: the names from an id up to the root. There is one such list at most.
* `NamedWay.namesUp`, `namedWay_of_namesUp`: following the entries finds the names if there are not too many.
* `NamedWay.pathOf`, `namedWay_of_pathOf`: what the path of an id is.
* `exists_wayUp_iff`: there are as many names on the way as ids.
-/

namespace FileIndex.Store

variable {s : Store} {id : DocId} {names : List Bytes} {url : Bytes}

/-- The path of an id is told by the entries. -/
theorem pathOf_congr {s' : Store} (h : s'.pathEntries = s.pathEntries) (id : DocId) : s'.pathOf id = s.pathOf id := by
  have hnames : ∀ levels id, s'.namesUp levels id = s.namesUp levels id := by
    intro levels
    induction levels with
    | zero => exact fun _ => rfl
    | succ levels ih =>
      intro id
      simp only [namesUp, pathEntryOf?_congr h, ih]
  unfold pathOf
  rw [hnames]

/-- The names from an id up to the root, which has none. -/
inductive NamedWay (s : Store) : DocId → List Bytes → Prop
  | root : NamedWay s 0 []
  | up {id : DocId} {e : PathEntry} {above : List Bytes} : s.pathEntryOf? id = .ok (some e) →
    NamedWay s e.parent above → NamedWay s id (e.name :: above)

theorem ne_zero_of_pathEntryOf? {e : PathEntry} (h : s.pathEntryOf? id = .ok (some e)) : id ≠ 0 := by
  rintro rfl
  simp at h

namespace NamedWay

/-- The names are found if they are no more than the levels that are followed. -/
theorem namesUp (h : s.NamedWay id names) (levels : Nat) :
    s.namesUp levels id = .ok (if names.length ≤ levels then some names else none) := by
  induction h generalizing levels with
  | root => cases levels <;> rfl
  | @up id e above he _ ih =>
    have hne := ne_zero_of_pathEntryOf? he
    cases levels with
    | zero => simp [Store.namesUp, hne]
    | succ levels =>
      simp only [Store.namesUp, if_neg hne, he, ih levels, bind, Except.bind, pure, Except.pure, List.length_cons,
        Nat.succ_le_succ_iff]
      split <;> rfl

theorem pathOf (h : s.NamedWay id names) :
    s.pathOf id = .ok (if names.length ≤ maxDepth + 1 then Path.render names else []) := by
  unfold Store.pathOf
  simp only [h.namesUp, bind, Except.bind, pure, Except.pure]
  split <;> rfl

theorem wayUp (h : s.NamedWay id names) : ∃ ids, s.WayUp id ids ∧ ids.length = names.length := by
  induction h with
  | root => exact ⟨[], .root, rfl⟩
  | @up id e above he _ ih =>
    obtain ⟨ids, hids, hlength⟩ := ih
    exact ⟨id :: ids, .up ⟨e.name, he⟩ hids, congrArg (· + 1) hlength⟩

end NamedWay

theorem namedWay_of_namesUp {levels : Nat} (h : s.namesUp levels id = .ok (some names)) : s.NamedWay id names := by
  induction levels generalizing id names with
  | zero =>
    by_cases hid : id = 0
    · simp only [namesUp, if_pos hid, Except.ok.injEq, Option.some.injEq] at h
      rw [hid, ← h]
      exact .root
    · simp [namesUp, hid] at h
  | succ levels ih =>
    by_cases hid : id = 0
    · simp only [namesUp, if_pos hid, Except.ok.injEq, Option.some.injEq] at h
      rw [hid, ← h]
      exact .root
    · rw [namesUp, if_neg hid] at h
      cases hentry : s.pathEntryOf? id with
      | error e => simp [hentry, bind, Except.bind] at h
      | ok entry =>
        cases entry with
        | none => simp [hentry, bind, Except.bind, pure, Except.pure] at h
        | some e =>
          cases habove : s.namesUp levels e.parent with
          | error e => simp [hentry, habove, bind, Except.bind] at h
          | ok above =>
            simp only [hentry, habove, bind, Except.bind, pure, Except.pure, Except.ok.injEq,
              Option.map_eq_some_iff] at h
            obtain ⟨above, rfl, rfl⟩ := h
            exact .up hentry (ih habove)

/-- A path that is not empty is written from the names on the way up. -/
theorem namedWay_of_pathOf (h : s.pathOf id = .ok url) (hne : url ≠ []) :
    ∃ names, s.NamedWay id names ∧ names.length ≤ maxDepth + 1 ∧ Path.render names = url := by
  unfold pathOf at h
  cases hnames : s.namesUp (maxDepth + 1) id with
  | error e => simp [hnames, bind, Except.bind] at h
  | ok found =>
    simp only [hnames, bind, Except.bind, pure, Except.pure, Except.ok.injEq] at h
    cases found with
    | none =>
      rw [Option.getD_none, Path.render] at h
      exact absurd h.symm hne
    | some names =>
      have hway := namedWay_of_namesUp hnames
      have hlength := hway.namesUp (maxDepth + 1)
      rw [hnames, Except.ok.injEq] at hlength
      split at hlength
      · exact ⟨names, hway, ‹_›, h⟩
      · simp at hlength

theorem WayUp.namedWay {ids : List DocId} (h : s.WayUp id ids) : ∃ names, s.NamedWay id names := by
  induction h with
  | root => exact ⟨[], .root⟩
  | up hangs _ ih =>
    obtain ⟨name, he⟩ := hangs
    obtain ⟨above, habove⟩ := ih
    exact ⟨name :: above, .up he habove⟩

/-- There are as many names on the way as ids. -/
theorem exists_wayUp_iff {P : Nat → Prop} :
    (∃ ids, s.WayUp id ids ∧ P ids.length) ↔ ∃ names, s.NamedWay id names ∧ P names.length := by
  constructor
  · rintro ⟨ids, hids, hP⟩
    obtain ⟨names, hnames⟩ := hids.namedWay
    obtain ⟨ids', hids', hlength⟩ := hnames.wayUp
    rw [hids.unique hids', hlength] at hP
    exact ⟨names, hnames, hP⟩
  · rintro ⟨names, hnames, hP⟩
    obtain ⟨ids, hids, hlength⟩ := hnames.wayUp
    exact ⟨ids, hids, hlength ▸ hP⟩

end FileIndex.Store
