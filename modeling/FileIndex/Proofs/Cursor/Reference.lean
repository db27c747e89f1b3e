import FileIndex.Cursor

/-!
# The reference cursor

What a cursor should do, told without its parts: it walks over one strictly ascending list of ids.

* `Reference`, `Reference.move`: the list, where the walk stands, and one move of it.
* `Reference.Valid`: the list is strictly ascending without the id 0, and the walk stands in it.
* `Reference.advance_eq_some_iff`: the answer is the least id ahead that is wanted.
* `Reference.Offers`: the ids of the list that seeking can still answer. `Reference.seek_some` and
  `Reference.seek_none` tell the answer of seeking through them, `Reference.next_some` and
  `Reference.next_none` that of going on.
-/

namespace FileIndex

namespace Standing

/-- Whether an id is ahead: all are before the first move, none after running out. -/
def precedes : Standing → DocId → Bool
  | before, _ => true
  | on current, id => current < id
  | past, _ => false

/-- Whether an id is ahead or is the current one. -/
def admits : Standing → DocId → Bool
  | before, _ => true
  | on current, id => current ≤ id
  | past, _ => false

theorem admits_of_precedes {st : Standing} {id : DocId} (h : st.precedes id = true) : st.admits id = true := by
  cases st <;> grind [precedes, admits]

/-- What is ahead is an upward closed set of ids. -/
theorem precedes_upward {st : Standing} {id other : DocId} (h : st.precedes id = true) (hle : id ≤ other) :
    st.precedes other = true := by
  cases st with
  | before => rfl
  | on current =>
    simp only [precedes, decide_eq_true_eq] at h ⊢
    exact UInt64.lt_of_lt_of_le h hle
  | past => simp [precedes] at h

end Standing

/-- A walk over a strictly ascending list of ids. -/
structure Reference where
  ids : List DocId
  standing : Standing := .before

namespace Reference

/-- The current id, 0 when there is none. -/
def docId (r : Reference) : DocId :=
  match r.standing with
  | .on id => id
  | .before | .past => 0

/-- Goes to the first id ahead that is wanted, and to the end if there is none. -/
def advance (r : Reference) (wanted : DocId → Bool) : Option DocId × Reference :=
  let answer := r.ids.find? fun id => r.standing.precedes id && wanted id
  (answer, { r with standing := .ofAnswer answer })

/-- Moves as asked: to the least id ahead; or to the least one ahead that reaches the target, unless the
current one does. -/
def move (r : Reference) : Move → Option DocId × Reference
  | .next => r.advance fun _ => true
  | .seek target =>
    if Cursor.reaches target r.docId then (some r.docId, r) else r.advance fun id => target ≤ id

/-- The answers of a run of moves, each with the id that is current after it. -/
def trace : List Move → Reference → List (Option DocId × DocId)
  | [], _ => []
  | m :: ms, r => ((r.move m).1, (r.move m).2.docId) :: trace ms (r.move m).2

/-- The list is strictly ascending without the id 0, and the walk stands on one of its ids if on any. -/
structure Valid (r : Reference) : Prop where
  ascending : r.ids.Pairwise (· < ·)
  nonzero : 0 ∉ r.ids
  standing_mem : ∀ id, r.standing = .on id → id ∈ r.ids

/-- Standing on an id. -/
def on (r : Reference) (id : DocId) : Reference := { r with standing := .on id }

/-- The number of ids that are ahead or current. -/
def left (r : Reference) : Nat := r.ids.countP r.standing.admits

/-- Seeking can still answer the id. -/
def Offers (r : Reference) (id : DocId) : Prop := id ∈ r.ids ∧ r.standing.admits id = true

@[simp] theorem on_ids (r : Reference) (id : DocId) : (r.on id).ids = r.ids := rfl

@[simp] theorem on_standing (r : Reference) (id : DocId) : (r.on id).standing = .on id := rfl

theorem move_next (r : Reference) : r.move .next = r.advance fun _ => true := rfl

theorem move_seek (r : Reference) (target : DocId) :
    r.move (.seek target) =
      if Cursor.reaches target r.docId then (some r.docId, r) else r.advance fun id => target ≤ id := rfl

@[simp] theorem move_ids (r : Reference) (m : Move) : (r.move m).2.ids = r.ids := by
  cases m with
  | next => rfl
  | seek target =>
    rw [move_seek]
    split <;> rfl

/-! ### The first wanted id -/

/-- In an ascending list the first id with a property is the least one. -/
theorem find?_eq_some_iff_least {ids : List DocId} (h : ids.Pairwise (· < ·)) {p : DocId → Bool} {id : DocId} :
    ids.find? p = some id ↔ id ∈ ids ∧ p id = true ∧ ∀ other ∈ ids, p other = true → id ≤ other := by
  induction ids with
  | nil => simp
  | cons a ids ih =>
    rw [List.pairwise_cons] at h
    have ih := ih h.2
    by_cases ha : p a = true
    · rw [List.find?_cons_of_pos ha]
      constructor
      · rintro ⟨⟩
        refine ⟨List.mem_cons_self, ha, fun other hother _ => ?_⟩
        rcases List.mem_cons.mp hother with rfl | hother
        · exact UInt64.le_refl _
        · exact UInt64.le_of_lt (h.1 other hother)
      · rintro ⟨hmem, _, hleast⟩
        have hle : id ≤ a := hleast a List.mem_cons_self ha
        rcases List.mem_cons.mp hmem with rfl | hmem
        · rfl
        · have := h.1 id hmem
          grind
    · rw [List.find?_cons_of_neg ha, ih]
      constructor
      · rintro ⟨hmem, hp, hleast⟩
        refine ⟨List.mem_cons_of_mem a hmem, hp, fun other hother hpo => ?_⟩
        rcases List.mem_cons.mp hother with rfl | hother
        · exact absurd hpo ha
        · exact hleast other hother hpo
      · rintro ⟨hmem, hp, hleast⟩
        refine ⟨?_, hp, fun other hother hpo => hleast other (List.mem_cons_of_mem a hother) hpo⟩
        rcases List.mem_cons.mp hmem with rfl | hmem
        · exact absurd hp ha
        · exact hmem

/-- The answer is the least wanted id ahead. -/
theorem advance_eq_some_iff {r : Reference} (h : r.Valid) {wanted : DocId → Bool} {id : DocId} :
    (r.advance wanted).1 = some id ↔
      id ∈ r.ids ∧ (r.standing.precedes id = true ∧ wanted id = true) ∧
        ∀ other ∈ r.ids, r.standing.precedes other = true → wanted other = true → id ≤ other := by
  unfold advance
  rw [find?_eq_some_iff_least h.ascending]
  simp only [Bool.and_eq_true, and_imp]

/-- There is no answer when nothing ahead is wanted. -/
theorem advance_eq_none_iff {r : Reference} {wanted : DocId → Bool} :
    (r.advance wanted).1 = none ↔
      ∀ id ∈ r.ids, r.standing.precedes id = true → ¬ wanted id = true := by
  unfold advance
  simp [List.find?_eq_none]

theorem Valid.advance {r : Reference} (h : r.Valid) (wanted : DocId → Bool) : (r.advance wanted).2.Valid := by
  refine ⟨h.ascending, h.nonzero, fun id hid => ?_⟩
  change Standing.ofAnswer (r.advance wanted).1 = .on id at hid
  cases hanswer : (r.advance wanted).1 with
  | none => simp [hanswer, Standing.ofAnswer] at hid
  | some found =>
    simp only [hanswer, Standing.ofAnswer, Standing.on.injEq] at hid
    subst hid
    exact ((advance_eq_some_iff h).mp hanswer).1

theorem Valid.docId_ne_zero {r : Reference} (h : r.Valid) {id : DocId} (hid : r.standing = .on id) : id ≠ 0 := by
  rintro rfl
  exact h.nonzero (h.standing_mem 0 hid)

/-- The walk reaches the target just when its current id does. -/
theorem Valid.reaches_iff {r : Reference} (h : r.Valid) {target : DocId} :
    Cursor.reaches target r.docId = true ↔ ∃ id, r.standing = .on id ∧ target ≤ id := by
  unfold docId Cursor.reaches
  cases hst : r.standing with
  | before => simp
  | on id =>
    have := h.docId_ne_zero hst
    simp [this]
  | past => simp

/-! ### One move through the ids it may answer -/

theorem next_some {r : Reference} (h : r.Valid) {id : DocId} :
    (r.move .next).1 = some id ↔
      id ∈ r.ids ∧ r.standing.precedes id = true ∧
        ∀ other ∈ r.ids, r.standing.precedes other = true → id ≤ other := by
  rw [move_next, advance_eq_some_iff h]
  simp

theorem next_none {r : Reference} :
    (r.move .next).1 = none ↔ ∀ id ∈ r.ids, ¬ r.standing.precedes id = true := by
  rw [move_next, advance_eq_none_iff]
  simp

/-- Seeking answers the least offered id that reaches the target. -/
theorem seek_some {r : Reference} (h : r.Valid) {target id : DocId} (hid : (r.move (.seek target)).1 = some id) :
    r.Offers id ∧ target ≤ id ∧ ∀ other, r.Offers other → target ≤ other → id ≤ other := by
  rw [move_seek] at hid
  split at hid
  · rename_i hreach
    obtain ⟨current, hst, hle⟩ := h.reaches_iff.mp hreach
    simp only [docId, hst, Option.some.injEq] at hid
    subst hid
    refine ⟨⟨h.standing_mem _ hst, by simp [hst, Standing.admits]⟩, hle, fun other hother _ => ?_⟩
    have := hother.2
    simpa [hst, Standing.admits] using this
  · rename_i hreach
    obtain ⟨hmem, ⟨hahead, htarget⟩, hleast⟩ := (advance_eq_some_iff h).mp hid
    simp only [decide_eq_true_eq] at htarget hleast
    refine ⟨⟨hmem, Standing.admits_of_precedes hahead⟩, htarget, fun other hother hle => ?_⟩
    refine hleast other hother.1 ?_ hle
    have hadmits := hother.2
    cases hst : r.standing with
    | before => rfl
    | on current =>
      have : ¬ target ≤ current := fun hc => hreach (h.reaches_iff.mpr ⟨current, hst, hc⟩)
      simp only [hst, Standing.admits, decide_eq_true_eq] at hadmits
      simp only [Standing.precedes, decide_eq_true_eq]
      grind
    | past => simp [hst, Standing.admits] at hadmits

/-- Seeking finds nothing when no offered id reaches the target. -/
theorem seek_none {r : Reference} (h : r.Valid) {target : DocId} (hid : (r.move (.seek target)).1 = none) :
    ∀ other, r.Offers other → ¬ target ≤ other := by
  rw [move_seek] at hid
  split at hid
  · simp at hid
  · rename_i hreach
    intro other hother hle
    rw [advance_eq_none_iff] at hid
    refine hid other hother.1 ?_ (by simpa using hle)
    have hadmits := hother.2
    cases hst : r.standing with
    | before => rfl
    | on current =>
      have : ¬ target ≤ current := fun hc => hreach (h.reaches_iff.mpr ⟨current, hst, hc⟩)
      simp only [hst, Standing.admits, decide_eq_true_eq] at hadmits
      simp only [Standing.precedes, decide_eq_true_eq]
      grind
    | past => simp [hst, Standing.admits] at hadmits

/-- A move ends on the id that it answers, or behind all of them. -/
theorem move_snd {r : Reference} (h : r.Valid) (m : Move) :
    (r.move m).2 = { r with standing := .ofAnswer (r.move m).1 } := by
  cases m with
  | next => rfl
  | seek target =>
    rw [move_seek]
    split
    · rename_i hreach
      obtain ⟨current, hst, _⟩ := h.reaches_iff.mp hreach
      obtain ⟨ids, standing⟩ := r
      simp only at hst
      subst hst
      rfl
    · rfl

theorem move_snd_of_some {r : Reference} (h : r.Valid) {m : Move} {id : DocId} (hid : (r.move m).1 = some id) :
    (r.move m).2 = r.on id := by
  rw [move_snd h, hid]
  rfl

/-- Standing on an id, a walk offers the ids from there on. -/
theorem offers_on {r : Reference} {id other : DocId} : (r.on id).Offers other ↔ other ∈ r.ids ∧ id ≤ other := by
  simp [Offers, Standing.admits]

/-- A stricter property that fails for a member with the wider one counts fewer. -/
theorem countP_lt_countP {ids : List DocId} {p q : DocId → Bool} (himp : ∀ id ∈ ids, p id = true → q id = true)
    {id : DocId} (hid : id ∈ ids) (hq : q id = true) (hp : ¬ p id = true) : ids.countP p < ids.countP q := by
  obtain ⟨front, back, rfl⟩ := List.append_of_mem hid
  have hfront : front.countP p ≤ front.countP q :=
    List.countP_mono_left fun other hother => himp other (List.mem_append_left _ hother)
  have hback : back.countP p ≤ back.countP q :=
    List.countP_mono_left fun other hother => himp other (by simp [hother])
  rw [List.countP_append, List.countP_append, List.countP_cons_of_neg hp, List.countP_cons_of_pos hq]
  omega

/-- Fewer ids are left after moving on. -/
theorem left_on_lt {r : Reference} {id : DocId} {current : DocId} (hcurrent : current ∈ r.ids)
    (hst : r.standing = .on current) (hlt : current < id) : (r.on id).left < r.left := by
  unfold left
  rw [on_ids, on_standing, hst]
  refine countP_lt_countP (fun other _ h => ?_) hcurrent ?_ ?_
  all_goals simp only [Standing.admits, decide_eq_true_eq] at *
  all_goals grind

end Reference
end FileIndex
