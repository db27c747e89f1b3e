import FileIndex.Proofs.Cursor.Reference
import Mathlib.Data.List.Forall2

/-!
# Bringing cursors to a shared id

The parts of a composite are cursors that each do what is expected of them. The loop that raises a
candidate until all parts meet on it is judged by these expectations alone.

* `Expectation`: the walk that a cursor's answers follow and the positions that it shows at each id.
* `Forward move R`: whatever stands in the relation `R` walks forward as its expectation does, under `move`.
* `Simulation move R`: it keeps to the whole of its expectation.
* `sweep_spec`: how one round of seeking a candidate ends.
* `align_spec`, `nextCommon_spec`: the loop answers the least shared id ahead of the lead, and then every
  part stands on it; it answers nothing when there is no such id.
-/

namespace FileIndex

/-- What a cursor is expected to do. -/
structure Expectation where
  walk : Reference
  /-- The positions at each id. -/
  shown : DocId → List UInt32

namespace Expectation

/-- Standing on an id. -/
def on (e : Expectation) (id : DocId) : Expectation := { e with walk := e.walk.on id }

/-- The same ids with the same positions, wherever the two stand. -/
def SameCourse (e e' : Expectation) : Prop := e'.walk.ids = e.walk.ids ∧ e'.shown = e.shown

@[simp] theorem on_walk (e : Expectation) (id : DocId) : (e.on id).walk = e.walk.on id := rfl

theorem sameCourse_refl (e : Expectation) : SameCourse e e := ⟨rfl, rfl⟩

theorem SameCourse.trans {e e' e'' : Expectation} (h : SameCourse e e') (h' : SameCourse e' e'') :
    SameCourse e e'' := ⟨h'.1.trans h.1, h'.2.trans h.2⟩

theorem forall₂_sameCourse_on (es : List Expectation) (id : DocId) :
    List.Forall₂ SameCourse es (es.map (·.on id)) := by
  induction es with
  | nil => exact .nil
  | cons e es ih => exact .cons ⟨rfl, rfl⟩ ih

theorem map_on_of_sameCourse {es es' : List Expectation} (h : List.Forall₂ SameCourse es es') (id : DocId) :
    es'.map (·.on id) = es.map (·.on id) := by
  induction h with
  | nil => rfl
  | cons hhead _ ih =>
    rw [List.map_cons, List.map_cons, ih, Expectation.on, Expectation.on, Reference.on, Reference.on, hhead.1, hhead.2]

theorem standing_of_mem_map_on {es : List Expectation} {id : DocId} {e : Expectation} (h : e ∈ es.map (·.on id)) :
    e.walk.standing = .on id := by
  obtain ⟨_, _, rfl⟩ := List.mem_map.mp h
  rfl

theorem forall₂_sameCourse_refl (es : List Expectation) : List.Forall₂ SameCourse es es :=
  List.forall₂_same.mpr fun e _ => sameCourse_refl e

theorem forall₂_sameCourse_trans {es es' es'' : List Expectation} (h : List.Forall₂ SameCourse es es')
    (h' : List.Forall₂ SameCourse es' es'') : List.Forall₂ SameCourse es es'' := by
  induction h generalizing es'' with
  | nil => exact h'
  | cons hhead _ ih =>
    cases h' with
    | cons hhead' htail' => exact .cons (hhead.trans hhead') (ih htail')

/-- An id is shared by all. -/
def Shared (es : List Expectation) (id : DocId) : Prop := ∀ e ∈ es, id ∈ e.walk.ids

theorem shared_congr {es es' : List Expectation} (h : List.Forall₂ SameCourse es es') {id : DocId} :
    Shared es' id ↔ Shared es id := by
  unfold Shared
  induction h with
  | nil => rfl
  | cons hhead _ ih => rw [List.forall_mem_cons, List.forall_mem_cons, ih, hhead.1]

end Expectation

open Expectation

/-- Cursors related to expectations are forward cursors over what these walk over, whatever moves are made. -/
structure Forward (move : Move → Cursor → Option DocId × Cursor) (R : Cursor → Expectation → Prop) : Prop where
  valid : ∀ {c e}, R c e → e.walk.Valid
  answer : ∀ {c e} m, R c e → (move m c).1 = (e.walk.move m).1
  after : ∀ {c e} m, R c e → R (move m c).2 { e with walk := (e.walk.move m).2 }
  docId : ∀ {c e}, R c e → c.docId = e.walk.docId

/-- Forward cursors that also show the expected positions and weigh no less than what is left to them. -/
structure Simulation (move : Move → Cursor → Option DocId × Cursor) (R : Cursor → Expectation → Prop) : Prop
    extends Forward move R where
  positions : ∀ {c e id}, R c e → e.walk.standing = .on id → c.positions = e.shown id
  left_le : ∀ {c e}, R c e → e.walk.left ≤ c.weight

namespace Forward

variable {move : Move → Cursor → Option DocId × Cursor} {R : Cursor → Expectation → Prop}

/-- A cursor that answers an id is expected to stand on it. -/
theorem after_some (hforward : Forward move R) {c c' : Cursor} {e : Expectation} {m : Move} {id : DocId} (h : R c e)
    (hmove : move m c = (some id, c')) : (e.walk.move m).1 = some id ∧ R c' (e.on id) := by
  have hanswer := hforward.answer m h
  have hafter := hforward.after m h
  rw [hmove] at hanswer hafter
  rw [Reference.move_snd_of_some (hforward.valid h) hanswer.symm] at hafter
  exact ⟨hanswer.symm, hafter⟩

/-- A cursor without an answer is expected to have run out. -/
theorem after_none (hforward : Forward move R) {c c' : Cursor} {e : Expectation} {m : Move} (h : R c e)
    (hmove : move m c = (none, c')) :
    (e.walk.move m).1 = none ∧ R c' { e with walk := { e.walk with standing := .past } } := by
  have hanswer := hforward.answer m h
  have hafter := hforward.after m h
  rw [hmove] at hanswer hafter
  rw [Reference.move_snd (hforward.valid h), ← hanswer] at hafter
  exact ⟨hanswer.symm, hafter⟩

end Forward

namespace Cursor

variable {move : Move → Cursor → Option DocId × Cursor} {R : Cursor → Expectation → Prop}

/-- Standing on one id, parts show the positions that they have for it. -/
theorem map_positions (hsim : Simulation move R) {parts : List Cursor} {es : List Expectation} {id : DocId}
    (hparts : List.Forall₂ R parts es) (hon : ∀ e ∈ es, e.walk.standing = .on id) :
    parts.map positions = es.map (·.shown id) := by
  induction hparts with
  | nil => rfl
  | @cons part e parts es hpart _ ih =>
    rw [List.map_cons, List.map_cons, hsim.positions hpart (hon e List.mem_cons_self),
      ih fun x hx => hon x (List.mem_cons_of_mem e hx)]

/-! ### One round -/

/-- The same course, and what could be answered from `id` on still can be. -/
def KeepsFrom (id : DocId) (e e' : Expectation) : Prop :=
  SameCourse e e' ∧ ∀ other, e.walk.Offers other → id ≤ other → e'.walk.Offers other

theorem keepsFrom_refl (id : DocId) (e : Expectation) : KeepsFrom id e e :=
  ⟨sameCourse_refl e, fun _ h _ => h⟩

/-- A part that seeks the candidate and answers `found` keeps what it could answer from there on. -/
theorem keepsFrom_on {e : Expectation} (he : e.walk.Valid) {candidate found id : DocId}
    (hfound : (e.walk.move (.seek candidate)).1 = some found) (hle : candidate ≤ id) : KeepsFrom id e (e.on found) := by
  obtain ⟨_, _, hleast⟩ := Reference.seek_some he hfound
  refine ⟨⟨rfl, rfl⟩, fun other hother hid => Reference.offers_on.mpr ⟨hother.1, ?_⟩⟩
  exact hleast other hother (UInt64.le_trans hle hid)

theorem exists_keepsFrom_of_mem {id : DocId} {es es' : List Expectation} (h : List.Forall₂ (KeepsFrom id) es es')
    {e' : Expectation} (he' : e' ∈ es') : ∃ e ∈ es, KeepsFrom id e e' := by
  induction h with
  | nil => simp at he'
  | @cons e _ _ _ hhead _ ih =>
    rcases List.mem_cons.mp he' with rfl | he'
    · exact ⟨e, List.mem_cons_self, hhead⟩
    · obtain ⟨x, hx, hkeep⟩ := ih he'
      exact ⟨x, List.mem_cons_of_mem _ hx, hkeep⟩

theorem forall₂_sameCourse_of_keepsFrom {id : DocId} {es es' : List Expectation}
    (h : List.Forall₂ (KeepsFrom id) es es') : List.Forall₂ SameCourse es es' :=
  h.imp fun _ _ h => h.1

/-- How a round ends: all parts stand on the candidate; or one of them has nothing between the candidate and
the greater id that it answers; or one of them has nothing from the candidate on. -/
def SweepEnds (R : Cursor → Expectation → Prop) (candidate : DocId) (es : List Expectation) :
    Sweep × List Cursor → Prop
  | (.met, parts) => List.Forall₂ R parts (es.map (·.on candidate)) ∧ Shared es candidate
  | (.overshot id, parts) => candidate < id ∧
      (∃ e ∈ es, ∀ other, e.walk.Offers other → candidate ≤ other → id ≤ other) ∧
      ∃ es', List.Forall₂ R parts es' ∧ List.Forall₂ (KeepsFrom id) es es'
  | (.dry, parts) => (∃ e ∈ es, ∀ other, e.walk.Offers other → ¬ candidate ≤ other) ∧
      ∃ es', List.Forall₂ R parts es' ∧ List.Forall₂ SameCourse es es'

theorem sweep_spec (hforward : Forward move R) (candidate : DocId) {parts : List Cursor} {es : List Expectation}
    (hparts : List.Forall₂ R parts es) : SweepEnds R candidate es (sweep move candidate parts) := by
  induction hparts with
  | nil => exact ⟨.nil, fun _ h => absurd h List.not_mem_nil⟩
  | @cons part e parts es hpart hparts ih =>
    have hvalid := hforward.valid hpart
    rw [sweep]
    split
    · -- the part runs out
      rename_i part' hmove
      obtain ⟨hnone, hafter⟩ := hforward.after_none hpart hmove
      exact ⟨⟨e, List.mem_cons_self, Reference.seek_none hvalid hnone⟩,
        _, .cons hafter hparts, .cons ⟨rfl, rfl⟩ (forall₂_sameCourse_refl es)⟩
    · rename_i id part' hmove
      obtain ⟨hid, hafter⟩ := hforward.after_some hpart hmove
      obtain ⟨hoffers, hle, hleast⟩ := Reference.seek_some hvalid hid
      split
      · -- the part goes beyond the candidate, and the parts after it stay where they are
        rename_i hlt
        refine ⟨hlt, ⟨e, List.mem_cons_self, fun other hother hc => hleast other hother hc⟩, _,
          .cons hafter hparts, .cons (keepsFrom_on hvalid hid hle) ?_⟩
        exact List.forall₂_same.mpr fun e _ => keepsFrom_refl id e
      · -- the part meets the candidate
        rename_i hlt
        have heq : id = candidate := UInt64.le_antisymm (UInt64.not_lt.mp hlt) hle
        subst heq
        generalize sweep move id parts = r at ih ⊢
        obtain ⟨result, parts'⟩ := r
        cases result with
        | met =>
          refine ⟨.cons hafter ih.1, fun x hx => ?_⟩
          rcases List.mem_cons.mp hx with rfl | hx
          · exact hoffers.1
          · exact ih.2 x hx
        | overshot next =>
          obtain ⟨hlt', ⟨x, hx, hgap⟩, es', hparts', hkeep⟩ := ih
          exact ⟨hlt', ⟨x, List.mem_cons_of_mem e hx, hgap⟩, _, .cons hafter hparts',
            .cons (keepsFrom_on hvalid hid (UInt64.le_of_lt hlt')) hkeep⟩
        | dry =>
          obtain ⟨⟨x, hx, hgap⟩, es', hparts', hsame⟩ := ih
          exact ⟨⟨x, List.mem_cons_of_mem e hx, hgap⟩, _, .cons hafter hparts', .cons ⟨rfl, rfl⟩ hsame⟩

/-! ### The loop -/

/-- An id of the lead that is shared by the rest. -/
def Meets (e : Expectation) (es : List Expectation) (id : DocId) : Prop := id ∈ e.walk.ids ∧ Shared es id

theorem meets_congr {e e' : Expectation} {es es' : List Expectation} (h : List.Forall₂ SameCourse (e :: es) (e' :: es'))
    {id : DocId} : Meets e' es' id ↔ Meets e es id := by
  have hshared : Shared (e' :: es') id ↔ Shared (e :: es) id := shared_congr h
  simpa only [Meets, Shared, List.forall_mem_cons] using hshared

/-- How the loop ends when the ids with the property `ahead` are wanted: all parts stand on the least wanted id
on which they meet; or there is none, and the lead has nothing ahead but wanted ids. -/
def AlignEnds (R : Cursor → Expectation → Prop) (ahead : DocId → Prop) (e : Expectation) (es : List Expectation) :
    Option DocId × List Cursor → Prop
  | (some id, parts) => List.Forall₂ R parts ((e :: es).map (·.on id)) ∧ Meets e es id ∧ ahead id ∧
      ∀ other, Meets e es other → ahead other → id ≤ other
  | (none, parts) => (∀ other, Meets e es other → ¬ ahead other) ∧
      ∃ e' es', List.Forall₂ R parts (e' :: es') ∧ List.Forall₂ SameCourse (e :: es) (e' :: es') ∧
        ∀ other, e'.walk.standing.precedes other = true → ahead other

/-- The end of the loop for a raised candidate is its end for the lower one if nothing shared lies between. -/
theorem AlignEnds.lower {ahead ahead' : DocId → Prop} {e e' : Expectation} {es es' : List Expectation}
    (hsame : List.Forall₂ SameCourse (e :: es) (e' :: es')) (himp : ∀ id, ahead' id → ahead id)
    (hgap : ∀ id, Meets e es id → ahead id → ahead' id) {r : Option DocId × List Cursor}
    (h : AlignEnds R ahead' e' es' r) : AlignEnds R ahead e es r := by
  obtain ⟨answer, parts⟩ := r
  have hmeets : ∀ id, Meets e' es' id ↔ Meets e es id := fun _ => meets_congr hsame
  cases answer with
  | none =>
    obtain ⟨hnone, e'', es'', hparts, hcourse, hahead⟩ := h
    exact ⟨fun other hother hw => hnone other ((hmeets other).mpr hother) (hgap other hother hw), e'', es'', hparts,
      forall₂_sameCourse_trans hsame hcourse, fun other hother => himp other (hahead other hother)⟩
  | some id =>
    obtain ⟨hparts, hid, hahead, hleast⟩ := h
    exact ⟨map_on_of_sameCourse hsame id ▸ hparts, (hmeets id).mp hid, himp id hahead,
      fun other hother hw => hleast other ((hmeets other).mpr hother) (hgap other hother hw)⟩

/-- With the lead on the candidate, and every shared id from there on still to be had from the rest, the loop
answers the least of these. The lead moves on in every round, so the ids left to it bound the rounds. -/
theorem align_spec (hforward : Forward move R) {bound : Nat} {candidate : DocId} {lead : Cursor} {rest : List Cursor}
    {e : Expectation} {es : List Expectation} (hlead : R lead e) (hrest : List.Forall₂ R rest es)
    (hst : e.walk.standing = .on candidate) (hbound : e.walk.left < bound)
    (hoffers : ∀ id, Meets e es id → candidate ≤ id → ∀ x ∈ es, x.walk.Offers id) :
    AlignEnds R (candidate ≤ ·) e es (align move bound candidate lead rest) := by
  induction bound generalizing candidate lead rest e es with
  | zero => omega
  | succ bound ih =>
    have hvalid := hforward.valid hlead
    have hmem : candidate ∈ e.walk.ids := hvalid.standing_mem candidate hst
    have hprecedes : ∀ other, e.walk.standing.precedes other = true → candidate ≤ other := by
      intro other hother
      simp only [hst, Standing.precedes, decide_eq_true_eq] at hother
      exact UInt64.le_of_lt hother
    have hsweep := sweep_spec hforward candidate hrest
    rw [align]
    generalize sweep move candidate rest = r at hsweep ⊢
    obtain ⟨result, rest'⟩ := r
    cases result with
    | met =>
      obtain ⟨hrest', hshared⟩ := hsweep
      have hon : e.on candidate = e := by
        obtain ⟨⟨ids, standing⟩, shown⟩ := e
        simp only at hst
        subst hst
        rfl
      refine ⟨?_, ⟨hmem, hshared⟩, UInt64.le_refl _, fun other _ hle => hle⟩
      rw [List.map_cons, hon]
      exact .cons hlead hrest'
    | dry =>
      obtain ⟨⟨x, hx, hdry⟩, es', hrest', hsame⟩ := hsweep
      exact ⟨fun other hother hle => hdry other (hoffers other hother hle x hx) hle, e, es', .cons hlead hrest',
        .cons (sameCourse_refl e) hsame, hprecedes⟩
    | overshot id =>
      obtain ⟨hlt, ⟨x, hx, hgap⟩, es', hrest', hkeep⟩ := hsweep
      have hsame := forall₂_sameCourse_of_keepsFrom hkeep
      -- what the overshooting part has skipped is shared by no others
      have hraise : ∀ other, Meets e es other → candidate ≤ other → id ≤ other :=
        fun other hother hle => hgap other (hoffers other hother hle x hx) hle
      have hkept : ∀ other, Meets e es other → id ≤ other → ∀ y ∈ es', y.walk.Offers other := by
        intro other hother hle y hy
        obtain ⟨z, hz, hzy⟩ := exists_keepsFrom_of_mem hkeep hy
        exact hzy.2 other (hoffers other hother (UInt64.le_trans (UInt64.le_of_lt hlt) hle) z hz) hle
      simp only
      split
      · -- the lead runs out
        rename_i lead' hmove
        obtain ⟨hnone, hafter⟩ := hforward.after_none hlead hmove
        refine ⟨fun other hother hle => ?_, _, es', .cons hafter hrest', .cons ⟨rfl, rfl⟩ hsame, fun other hother => ?_⟩
        · have hoff : e.walk.Offers other := ⟨hother.1, by simpa [hst, Standing.admits] using hle⟩
          exact Reference.seek_none hvalid hnone other hoff (hraise other hother hle)
        · simp [Standing.precedes] at hother
      · rename_i next lead' hmove
        obtain ⟨hnext, hafter⟩ := hforward.after_some hlead hmove
        obtain ⟨_, hidnext, hleast⟩ := Reference.seek_some hvalid hnext
        have hcandidate : candidate < next := UInt64.lt_of_lt_of_le hlt hidnext
        have hfewer : (e.walk.on next).left < e.walk.left := Reference.left_on_lt hmem hst hcandidate
        have hend := ih hafter hrest' rfl (by simp only [on_walk]; omega) fun other hother hle => by
          have hmeets : Meets e es other := ⟨hother.1, (shared_congr hsame).mp hother.2⟩
          exact hkept other hmeets (UInt64.le_trans hidnext hle)
        have hcourse : List.Forall₂ SameCourse (e :: es) (e.on next :: es') := .cons ⟨rfl, rfl⟩ hsame
        refine hend.lower hcourse (fun other h => UInt64.le_trans (UInt64.le_of_lt hcandidate) h) ?_
        intro other hother hle
        have hoff : e.walk.Offers other := ⟨hother.1, by simpa [hst, Standing.admits] using hle⟩
        exact hleast other hoff (hraise other hother hle)

/-- Without an id ahead of the lead, nothing shared is ahead. -/
theorem alignEnds_of_next_none (hforward : Forward move R) {lead lead' : Cursor} {rest : List Cursor} {e : Expectation}
    {es : List Expectation} (hlead : R lead e) (hrest : List.Forall₂ R rest es)
    (hmove : move .next lead = (none, lead')) :
    AlignEnds R (fun id => e.walk.standing.precedes id = true) e es (none, lead' :: rest) := by
  obtain ⟨hnone, hafter⟩ := hforward.after_none hlead hmove
  refine ⟨fun other hother => Reference.next_none.mp hnone other hother.1, _, es, .cons hafter hrest,
    .cons ⟨rfl, rfl⟩ (forall₂_sameCourse_refl es), fun other hother => ?_⟩
  simp [Standing.precedes] at hother

/-- From the id that comes first ahead of the lead, the loop goes to the least shared one ahead. -/
theorem alignEnds_of_next_some (hforward : Forward move R) {lead lead' : Cursor} {rest : List Cursor}
    {e : Expectation} {es : List Expectation} (hlead : R lead e) (hrest : List.Forall₂ R rest es)
    (hoffers : ∀ id, Meets e es id → e.walk.standing.precedes id = true → ∀ x ∈ es, x.walk.Offers id)
    {candidate : DocId} (hmove : move .next lead = (some candidate, lead')) {bound : Nat}
    (hbound : (e.walk.on candidate).left < bound) :
    AlignEnds R (fun id => e.walk.standing.precedes id = true) e es (align move bound candidate lead' rest) := by
  obtain ⟨hnext, hafter⟩ := hforward.after_some hlead hmove
  obtain ⟨hmem, hahead, hleast⟩ := (Reference.next_some (hforward.valid hlead)).mp hnext
  have hprecedes : ∀ id, candidate ≤ id → e.walk.standing.precedes id = true :=
    fun id hle => Standing.precedes_upward hahead hle
  have hend := align_spec hforward hafter hrest rfl hbound fun id hid hle => hoffers id hid (hprecedes id hle)
  have hcourse : List.Forall₂ SameCourse (e :: es) (e.on candidate :: es) :=
    .cons ⟨rfl, rfl⟩ (forall₂_sameCourse_refl es)
  apply hend.lower hcourse hprecedes
  exact fun id hid hw => hleast id hid.1 hw

/-- If no part has left behind a shared id that is ahead of the lead, the parts go to the least of these. -/
theorem nextCommon_spec (hsim : Simulation move R) {lead : Cursor} {rest : List Cursor} {e : Expectation}
    {es : List Expectation} (hlead : R lead e) (hrest : List.Forall₂ R rest es)
    (hoffers : ∀ id, Meets e es id → e.walk.standing.precedes id = true → ∀ x ∈ es, x.walk.Offers id) :
    AlignEnds R (fun id => e.walk.standing.precedes id = true) e es (nextCommon move (lead :: rest)) := by
  rw [nextCommon]
  split
  · rename_i lead' hmove
    exact alignEnds_of_next_none hsim.toForward hlead hrest hmove
  · rename_i candidate lead' hmove
    obtain ⟨_, hafter⟩ := hsim.after_some hlead hmove
    exact alignEnds_of_next_some hsim.toForward hlead hrest hoffers hmove (Nat.lt_succ_of_le (hsim.left_le hafter))

end Cursor
end FileIndex
