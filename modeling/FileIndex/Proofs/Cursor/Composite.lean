import FileIndex.Ascending
import FileIndex.Proofs.Cursor.Alignment
import Mathlib.Data.List.Perm.Subperm

/-!
# Composite cursors

A composite whose parts keep to their expectations keeps to its own: it walks over the ids that its
connective makes of theirs.

* `Expectation.joined`: these ids. `mem_joined_and`, `mem_joined_or`, `mem_joined_phrase` tell which they are.
* `Coherent`: how the parts stand when the composite stands before, on or behind its ids. The parts of a
  conjunction and of a phrase stand together with it; those of an alternative stand on it or beyond it.
* `joinNext_spec`, `joinSeek_spec`: a move answers what the walk answers and leaves the parts coherent.
* `Simulation.composite`: composites one level deeper keep to their expectations.
-/

namespace FileIndex

open Expectation

namespace Expectation

/-- The ids that lists have in common; none without lists. -/
def common : List (List DocId) → List DocId
  | [] => []
  | ids :: rest => ids.filter fun id => rest.all (·.contains id)

/-- The ids of a composite, ascending. -/
def joined (how : Connective) (es : List Expectation) : List DocId :=
  match how with
  | .and => common (es.map (·.walk.ids))
  | .or => Ascending.ofList (es.map (·.walk.ids)).flatten
  | .phrase => (common (es.map (·.walk.ids))).filter fun id => Cursor.adjacent ((es.map (·.shown)).map (· id))

theorem mem_common {es : List Expectation} {id : DocId} :
    id ∈ common (es.map (·.walk.ids)) ↔ es ≠ [] ∧ Shared es id := by
  cases es with
  | nil => simp [common]
  | cons e es => simp [common, Shared, List.all_eq_true]

theorem mem_joined_and {es : List Expectation} {id : DocId} : id ∈ joined .and es ↔ es ≠ [] ∧ Shared es id :=
  mem_common

theorem mem_joined_or {es : List Expectation} {id : DocId} : id ∈ joined .or es ↔ ∃ e ∈ es, id ∈ e.walk.ids := by
  rw [joined, Ascending.mem_ofList]
  simp

theorem mem_joined_phrase {es : List Expectation} {id : DocId} :
    id ∈ joined .phrase es ↔ (es ≠ [] ∧ Shared es id) ∧ Cursor.adjacent ((es.map (·.shown)).map (· id)) = true := by
  rw [joined, List.mem_filter, mem_common]

theorem map_ids_of_sameCourse {es es' : List Expectation} (h : List.Forall₂ SameCourse es es') :
    es'.map (·.walk.ids) = es.map (·.walk.ids) := by
  induction h with
  | nil => rfl
  | cons hhead _ ih => rw [List.map_cons, List.map_cons, ih, hhead.1]

theorem map_shown_of_sameCourse {es es' : List Expectation} (h : List.Forall₂ SameCourse es es') :
    es'.map (·.shown) = es.map (·.shown) := by
  induction h with
  | nil => rfl
  | cons hhead _ ih => rw [List.map_cons, List.map_cons, ih, hhead.2]

/-- The ids of a composite do not depend on where its parts stand. -/
theorem joined_congr {es es' : List Expectation} (h : List.Forall₂ SameCourse es es') (how : Connective) :
    joined how es' = joined how es := by
  unfold joined
  rw [map_ids_of_sameCourse h, map_shown_of_sameCourse h]

theorem common_ascending {es : List Expectation} (h : ∀ e ∈ es, e.walk.Valid) :
    (common (es.map (·.walk.ids))).Pairwise (· < ·) := by
  cases es with
  | nil => exact List.Pairwise.nil
  | cons e es => exact (h e List.mem_cons_self).ascending.filter _

theorem joined_ascending {es : List Expectation} (h : ∀ e ∈ es, e.walk.Valid) (how : Connective) :
    (joined how es).Pairwise (· < ·) := by
  cases how with
  | and => exact common_ascending h
  | or => exact Ascending.pairwise_ofList _
  | phrase => exact (common_ascending h).filter _

theorem joined_nonzero {es : List Expectation} (h : ∀ e ∈ es, e.walk.Valid) (how : Connective) :
    0 ∉ joined how es := by
  have hshared : ¬ (es ≠ [] ∧ Shared es 0) := by
    rintro ⟨hne, hall⟩
    obtain ⟨e, he⟩ := List.exists_mem_of_ne_nil es hne
    exact (h e he).nonzero (hall e he)
  cases how with
  | and => exact fun h0 => hshared (mem_joined_and.mp h0)
  | or =>
    intro h0
    obtain ⟨e, he, h0⟩ := mem_joined_or.mp h0
    exact (h e he).nonzero h0
  | phrase => exact fun h0 => hshared (mem_joined_phrase.mp h0).1

end Expectation

/-! ### How the parts stand -/

/-- The parts stand where their composite stands, unless that has run out. -/
def Together (st : Standing) (es : List Expectation) : Prop := st ≠ .past → ∀ e ∈ es, e.walk.standing = st

/-- No part stands before the current id of the composite, and what a part has from there on can still be had. -/
def Abreast (st : Standing) (es : List Expectation) : Prop :=
  match st with
  | .before => ∀ e ∈ es, e.walk.standing = .before
  | .on id => ∀ e ∈ es, e.walk.standing ≠ .before ∧ (∀ other, e.walk.standing = .on other → id ≤ other) ∧
      ∀ other ∈ e.walk.ids, id ≤ other → e.walk.Offers other
  | .past => True

/-- How the parts of a composite stand. -/
def Coherent : Connective → Standing → List Expectation → Prop
  | .or => Abreast
  | .and | .phrase => Together

/-- The outcome of moving a composite: its answer, its new standing and parts that are coherent with it. -/
structure Moved (R : Cursor → Expectation → Prop) (how : Connective) (es : List Expectation)
    (answer : Option DocId) (r : Option DocId × Standing × List Cursor) : Prop where
  answer_eq : r.1 = answer
  standing_eq : r.2.1 = .ofAnswer answer
  parts : ∃ es', List.Forall₂ R r.2.2 es' ∧ List.Forall₂ SameCourse es es' ∧ Coherent how (.ofAnswer answer) es'

namespace Cursor

variable {move : Move → Cursor → Option DocId × Cursor} {R : Cursor → Expectation → Prop}

theorem valid_of_forall₂ (hsim : Simulation move R) {parts : List Cursor} {es : List Expectation}
    (h : List.Forall₂ R parts es) : ∀ e ∈ es, e.walk.Valid := by
  induction h with
  | nil => exact fun e he => absurd he List.not_mem_nil
  | cons hhead _ ih => exact List.forall_mem_cons.mpr ⟨hsim.valid hhead, ih⟩

/-! ### Repeating a step until its answer is wanted -/

/-- Properties that agree on the members of a list find the same. -/
theorem find?_congr {ids : List DocId} {p q : DocId → Bool} (h : ∀ id ∈ ids, p id = q id) :
    ids.find? p = ids.find? q := by
  rw [← List.head?_filter, ← List.head?_filter, List.filter_congr h]

/-- Going on until a wanted id comes up finds the first wanted one ahead. Every round consumes an id ahead. -/
theorem advanceUntil_spec {σ : Type} {step : σ → Option DocId × σ} {accept : DocId → σ → Bool} {ids : List DocId}
    (hids : ids.Pairwise (· < ·)) {wanted : DocId → Bool} {Inv : Standing → σ → Prop}
    (hstep : ∀ st s, st ≠ .past → Inv st s →
      (step s).1 = ids.find? st.precedes ∧ Inv (.ofAnswer (step s).1) (step s).2)
    (haccept : ∀ id s, Inv (.on id) s → accept id s = wanted id) {bound : Nat} {st : Standing} {s : σ}
    (hst : st ≠ .past) (hinv : Inv st s) (hbound : ids.countP st.precedes < bound) :
    (advanceUntil step accept bound s).1 = ids.find? (fun id => st.precedes id && wanted id) ∧
      Inv (.ofAnswer (advanceUntil step accept bound s).1) (advanceUntil step accept bound s).2 := by
  induction bound generalizing st s with
  | zero => omega
  | succ bound ih =>
    obtain ⟨hanswer, hafter⟩ := hstep st s hst hinv
    rw [advanceUntil]
    generalize step s = r at hanswer hafter ⊢
    obtain ⟨answer, s'⟩ := r
    cases answer with
    | none =>
      refine ⟨?_, hafter⟩
      simp only at hanswer ⊢
      rw [eq_comm, List.find?_eq_none] at hanswer ⊢
      exact fun id hid h => hanswer id hid (Bool.and_eq_true_iff.mp h).1
    | some id =>
      simp only at hanswer hafter ⊢
      obtain ⟨hmem, hahead, hleast⟩ := (Reference.find?_eq_some_iff_least hids).mp hanswer.symm
      rw [haccept id s' hafter]
      by_cases hwanted : wanted id = true
      · rw [if_pos hwanted]
        refine ⟨((Reference.find?_eq_some_iff_least hids).mpr ⟨hmem, by simp [hahead, hwanted], ?_⟩).symm, hafter⟩
        exact fun other hother h => hleast other hother (Bool.and_eq_true_iff.mp h).1
      · rw [if_neg hwanted]
        have hnarrow : ∀ other ∈ ids, (Standing.on id).precedes other = true → st.precedes other = true := by
          intro other _ hother
          cases st with
          | before => rfl
          | on current =>
            simp only [Standing.precedes, decide_eq_true_eq] at hahead hother ⊢
            exact UInt64.lt_trans hahead hother
          | past => exact absurd rfl hst
        have hfewer : ids.countP (Standing.on id).precedes < ids.countP st.precedes :=
          Reference.countP_lt_countP hnarrow hmem hahead (by simp [Standing.precedes])
        have hon : Standing.on id ≠ .past := by simp
        obtain ⟨hrest, hinv'⟩ := ih hon hafter (by omega)
        refine ⟨hrest.trans (find?_congr fun other hother => ?_), hinv'⟩
        -- between the two standings lies only the unwanted id
        rw [Bool.eq_iff_iff, Bool.and_eq_true, Bool.and_eq_true]
        refine and_congr_left fun hw => ⟨hnarrow other hother, fun h => ?_⟩
        have hle := hleast other hother h
        have hne : other ≠ id := fun heq => hwanted (heq ▸ hw)
        simp only [Standing.precedes, decide_eq_true_eq]
        grind

/-! ### Conjunctions -/

/-- Parts that stand together go to the next id that they have in common. -/
theorem nextCommon_together (hsim : Simulation move R) {parts : List Cursor} {es : List Expectation}
    (hparts : List.Forall₂ R parts es) {st : Standing} (hst : st ≠ .past) (htogether : Together st es) :
    (nextCommon move parts).1 = (common (es.map (·.walk.ids))).find? st.precedes ∧
      ∃ es', List.Forall₂ R (nextCommon move parts).2 es' ∧ List.Forall₂ SameCourse es es' ∧
        Together (.ofAnswer (nextCommon move parts).1) es' := by
  have hascending := common_ascending (valid_of_forall₂ hsim hparts)
  cases hparts with
  | nil => exact ⟨rfl, [], .nil, .nil, fun _ e he => absurd he List.not_mem_nil⟩
  | @cons lead e rest es hlead hrest =>
    have hstanding := htogether hst
    have hleadst : e.walk.standing = st := hstanding e List.mem_cons_self
    have hoffers : ∀ id, Meets e es id → e.walk.standing.precedes id = true → ∀ x ∈ es, x.walk.Offers id := by
      intro id hid hahead x hx
      refine ⟨hid.2 x hx, Standing.admits_of_precedes ?_⟩
      rw [hstanding x (List.mem_cons_of_mem e hx), ← hleadst]
      exact hahead
    have hmeets : ∀ id, id ∈ common ((e :: es).map (·.walk.ids)) ↔ Meets e es id := by
      intro id
      rw [mem_common]
      simp [Meets, Shared]
    have hend := nextCommon_spec hsim hlead hrest hoffers
    rw [hleadst] at hend
    generalize nextCommon move (lead :: rest) = r at hend ⊢
    obtain ⟨answer, parts'⟩ := r
    cases answer with
    | none =>
      obtain ⟨hnone, e', es', hparts', hcourse, _⟩ := hend
      refine ⟨?_, e' :: es', hparts', hcourse, fun h => absurd rfl h⟩
      rw [eq_comm, List.find?_eq_none]
      exact fun id hid => hnone id ((hmeets id).mp hid)
    | some id =>
      obtain ⟨hparts', hid, hahead, hleast⟩ := hend
      refine ⟨?_, _, hparts', forall₂_sameCourse_on _ id, fun _ x hx => standing_of_mem_map_on hx⟩
      rw [eq_comm, Reference.find?_eq_some_iff_least hascending]
      exact ⟨(hmeets id).mpr hid, hahead, fun other hother => hleast other ((hmeets other).mp hother)⟩

/-- The number of common ids ahead is bounded by what is left to the parts. -/
theorem countP_common_le (hsim : Simulation move R) {parts : List Cursor} {es : List Expectation}
    (hparts : List.Forall₂ R parts es) {st : Standing} (htogether : Together st es) :
    (common (es.map (·.walk.ids))).countP st.admits ≤ weightAll parts := by
  cases hparts with
  | nil => exact Nat.zero_le _
  | @cons lead e rest es hlead hrest =>
    by_cases hst : st = .past
    · subst hst
      rw [List.countP_eq_zero.mpr fun _ _ => by simp [Standing.admits]]
      exact Nat.zero_le _
    · have hleft := hsim.left_le hlead
      rw [Reference.left, htogether hst e List.mem_cons_self] at hleft
      have hsub : (common ((e :: es).map (·.walk.ids))).countP st.admits ≤ e.walk.ids.countP st.admits :=
        List.filter_sublist.countP_le
      rw [weightAll]
      omega

/-- A phrase goes to the next common id at which its parts are adjacent. -/
theorem nextPhrase_together (hsim : Simulation move R) {parts : List Cursor} {es : List Expectation}
    (hparts : List.Forall₂ R parts es) {st : Standing} (hst : st ≠ .past) (htogether : Together st es) :
    (nextPhrase move parts).1 = (joined .phrase es).find? st.precedes ∧
      ∃ es', List.Forall₂ R (nextPhrase move parts).2 es' ∧ List.Forall₂ SameCourse es es' ∧
        Together (.ofAnswer (nextPhrase move parts).1) es' := by
  let Inv (st : Standing) (parts : List Cursor) : Prop :=
    ∃ es', List.Forall₂ R parts es' ∧ List.Forall₂ SameCourse es es' ∧ Together st es'
  have hstep : ∀ st parts, st ≠ .past → Inv st parts →
      (nextCommon move parts).1 = (common (es.map (·.walk.ids))).find? st.precedes ∧
        Inv (.ofAnswer (nextCommon move parts).1) (nextCommon move parts).2 := by
    rintro st parts hst ⟨es', hparts', hcourse, htogether'⟩
    obtain ⟨hanswer, es'', hparts'', hcourse', htogether''⟩ := nextCommon_together hsim hparts' hst htogether'
    rw [map_ids_of_sameCourse hcourse] at hanswer
    exact ⟨hanswer, es'', hparts'', forall₂_sameCourse_trans hcourse hcourse', htogether''⟩
  have haccept : ∀ id parts, Inv (.on id) parts →
      adjacent (parts.map positions) = adjacent ((es.map (·.shown)).map (· id)) := by
    rintro id parts ⟨es', hparts', hcourse, htogether'⟩
    rw [← map_shown_of_sameCourse hcourse, List.map_map, map_positions hsim hparts' (htogether' (by simp))]
    rfl
  have hascending := common_ascending (valid_of_forall₂ hsim hparts)
  have hbound : (common (es.map (·.walk.ids))).countP st.precedes < weightAll parts + 1 := by
    have hle := countP_common_le hsim hparts htogether
    have hmono : (common (es.map (·.walk.ids))).countP st.precedes ≤ (common (es.map (·.walk.ids))).countP st.admits :=
      List.countP_mono_left fun _ _ h => Standing.admits_of_precedes h
    omega
  obtain ⟨hanswer, hinv⟩ := advanceUntil_spec hascending hstep haccept hst
    ⟨es, hparts, forall₂_sameCourse_refl es, htogether⟩ hbound
  refine ⟨hanswer.trans ?_, hinv⟩
  rw [joined, List.find?_filter]
  exact find?_congr fun id _ => by rw [Bool.eq_iff_iff]; simp [and_comm]

/-! ### Alternatives -/

/-- The current ids of the parts are those that their walks stand on. -/
theorem mem_docIds (hsim : Simulation move R) {parts : List Cursor} {es : List Expectation}
    (hparts : List.Forall₂ R parts es) {id : DocId} :
    id ∈ (parts.map docId).filter (· != 0) ↔ ∃ e ∈ es, e.walk.standing = .on id := by
  induction hparts with
  | nil => simp
  | @cons part e parts es hpart _ ih =>
    have hdoc := hsim.docId hpart
    have hvalid := hsim.valid hpart
    have hhead : id = part.docId ∧ (id != 0) = true ↔ e.walk.standing = .on id := by
      rw [hdoc, Reference.docId]
      cases hst : e.walk.standing with
      | before => simp
      | on current =>
        have := hvalid.docId_ne_zero hst
        simp only [bne_iff_ne, ne_eq, Standing.on.injEq]
        grind
      | past => simp
    rw [List.mem_filter] at ih ⊢
    rw [List.map_cons, List.mem_cons, or_and_right, hhead, ih]
    simp

/-- A part has moved to its first wanted id. -/
structure Settled (wanted : DocId → Bool) (e : Expectation) : Prop where
  moved : e.walk.standing ≠ .before
  on_wanted : ∀ id, e.walk.standing = .on id → wanted id = true
  offers : ∀ id ∈ e.walk.ids, wanted id = true → e.walk.Offers id

/-- A part that goes on settles for the ids that were ahead of it. -/
theorem settled_next {e : Expectation} (he : e.walk.Valid) :
    Settled e.walk.standing.precedes { e with walk := (e.walk.move .next).2 } := by
  rw [Reference.move_snd he]
  cases hanswer : (e.walk.move .next).1 with
  | none =>
    refine ⟨by simp [Standing.ofAnswer], fun id hid => by simp [Standing.ofAnswer] at hid, fun id hid hw => ?_⟩
    exact absurd hw (Reference.next_none.mp hanswer id hid)
  | some found =>
    obtain ⟨hmem, hahead, hleast⟩ := (Reference.next_some he).mp hanswer
    refine ⟨by simp [Standing.ofAnswer], fun id hid => ?_, fun id hid hw => ?_⟩
    · simp only [Standing.ofAnswer, Standing.on.injEq] at hid
      exact hid ▸ hahead
    · exact Reference.offers_on.mpr ⟨hid, hleast id hid hw⟩

/-- A part that seeks a target settles for the ids from there on, if it can still answer them. -/
theorem settled_seek {e : Expectation} (he : e.walk.Valid) {target : DocId}
    (hoffers : ∀ id ∈ e.walk.ids, target ≤ id → e.walk.Offers id) :
    Settled (target ≤ ·) { e with walk := (e.walk.move (.seek target)).2 } := by
  rw [Reference.move_snd he]
  cases hanswer : (e.walk.move (.seek target)).1 with
  | none =>
    refine ⟨by simp [Standing.ofAnswer], fun id hid => by simp [Standing.ofAnswer] at hid, fun id hid hw => ?_⟩
    have hle : target ≤ id := of_decide_eq_true hw
    exact absurd hle (Reference.seek_none he hanswer id (hoffers id hid hle))
  | some found =>
    obtain ⟨_, hle, hleast⟩ := Reference.seek_some he hanswer
    refine ⟨by simp [Standing.ofAnswer], fun id hid => ?_, fun id hid hw => ?_⟩
    · simp only [Standing.ofAnswer, Standing.on.injEq] at hid
      exact decide_eq_true (hid ▸ hle)
    · have hw : target ≤ id := of_decide_eq_true hw
      exact Reference.offers_on.mpr ⟨hid, hleast id (hoffers id hid hw) hw⟩

/-- Where an alternative settles: when the parts have settled for an upward closed set of ids, the least of
their current ids is the least one of the set. -/
theorem leastId_spec (hsim : Simulation move R) {parts : List Cursor} {es : List Expectation}
    (hparts : List.Forall₂ R parts es) {wanted : DocId → Bool}
    (hupward : ∀ id other, wanted id = true → id ≤ other → wanted other = true)
    (hsettled : ∀ e ∈ es, Settled wanted e) :
    leastId? parts = (joined .or es).find? wanted ∧ Abreast (.ofAnswer (leastId? parts)) es := by
  have hvalid := valid_of_forall₂ hsim hparts
  -- whoever has a wanted id stands on it or on a lesser one
  have hbelow : ∀ e ∈ es, ∀ id ∈ e.walk.ids, wanted id = true →
    ∃ current, e.walk.standing = .on current ∧ current ≤ id := by
    intro e he id hid hw
    have hadmits := ((hsettled e he).offers id hid hw).2
    cases hst : e.walk.standing with
    | before => exact absurd hst (hsettled e he).moved
    | on current => exact ⟨current, rfl, by simpa [hst, Standing.admits] using hadmits⟩
    | past => simp [hst, Standing.admits] at hadmits
  cases hleast : leastId? parts with
  | none =>
    refine ⟨?_, trivial⟩
    rw [eq_comm, List.find?_eq_none]
    intro id hid hw
    obtain ⟨e, he, hid⟩ := mem_joined_or.mp hid
    obtain ⟨current, hst, _⟩ := hbelow e he id hid hw
    have hmem := (mem_docIds hsim hparts).mpr ⟨e, he, hst⟩
    rw [leastId?, List.min?_eq_none_iff] at hleast
    rw [hleast] at hmem
    exact absurd hmem List.not_mem_nil
  | some id =>
    rw [leastId?, List.min?_eq_some_iff] at hleast
    obtain ⟨hmem, hle⟩ := hleast
    obtain ⟨e, he, hst⟩ := (mem_docIds hsim hparts).mp hmem
    have hw : wanted id = true := (hsettled e he).on_wanted id hst
    have hfirst : ∀ x ∈ es, ∀ current, x.walk.standing = .on current → id ≤ current :=
      fun x hx current hcurrent => hle current ((mem_docIds hsim hparts).mpr ⟨x, hx, hcurrent⟩)
    constructor
    · rw [eq_comm, Reference.find?_eq_some_iff_least (joined_ascending hvalid .or)]
      refine ⟨mem_joined_or.mpr ⟨e, he, (hvalid e he).standing_mem id hst⟩, hw, fun other hother hwo => ?_⟩
      obtain ⟨x, hx, hother⟩ := mem_joined_or.mp hother
      obtain ⟨current, hcurrent, hcle⟩ := hbelow x hx other hother hwo
      exact UInt64.le_trans (hfirst x hx current hcurrent) hcle
    · intro x hx
      refine ⟨(hsettled x hx).moved, hfirst x hx, fun other hother hle => ?_⟩
      exact (hsettled x hx).offers other hother (hupward id other hw hle)

/-- Changing every part changes what is expected of every part. -/
theorem exists_forall₂_map {parts : List Cursor} {es : List Expectation} (hparts : List.Forall₂ R parts es)
    {change : Cursor → Cursor} {P : Expectation → Prop}
    (hchange : ∀ part, ∀ e ∈ es, R part e → ∃ e', R (change part) e' ∧ SameCourse e e' ∧ P e') :
    ∃ es', List.Forall₂ R (parts.map change) es' ∧ List.Forall₂ SameCourse es es' ∧ ∀ e' ∈ es', P e' := by
  induction hparts with
  | nil => exact ⟨[], .nil, .nil, fun e he => absurd he List.not_mem_nil⟩
  | @cons part e parts es hpart _ ih =>
    obtain ⟨e', hpart', hsame, hP⟩ := hchange part e List.mem_cons_self hpart
    obtain ⟨es', hparts', hcourse, hPs⟩ := ih fun part x hx => hchange part x (List.mem_cons_of_mem e hx)
    exact ⟨e' :: es', .cons hpart' hparts', .cons hsame hcourse, List.forall_mem_cons.mpr ⟨hP, hPs⟩⟩

/-- An alternative goes to the least id ahead of it that some part has. -/
theorem nextOfAny_spec (hsim : Simulation move R) {parts : List Cursor} {es : List Expectation}
    (hparts : List.Forall₂ R parts es) {st : Standing} (hst : st ≠ .past) (hnonzero : st ≠ .on 0)
    (habreast : Abreast st es) :
    (nextOfAny move st parts).1 = (joined .or es).find? st.precedes ∧
      ∃ es', List.Forall₂ R (nextOfAny move st parts).2 es' ∧ List.Forall₂ SameCourse es es' ∧
        Abreast (.ofAnswer (nextOfAny move st parts).1) es' := by
  have hvalid := valid_of_forall₂ hsim hparts
  have hmoved : ∃ es', List.Forall₂ R (nextOfAny move st parts).2 es' ∧ List.Forall₂ SameCourse es es' ∧
      ∀ e' ∈ es', Settled st.precedes e' := by
    cases st with
    | before =>
      refine exists_forall₂_map hparts fun part e he hpart => ⟨_, hsim.after .next hpart, ?_, ?_⟩
      · exact ⟨Reference.move_ids _ _, rfl⟩
      · have hsettled := settled_next (hvalid e he)
        rwa [habreast e he] at hsettled
    | on id =>
      apply exists_forall₂_map hparts
      intro part e he hpart
      have hdoc := hsim.docId hpart
      by_cases hid : part.docId = id
      · rw [if_pos hid]
        have hstanding : e.walk.standing = .on id := by
          rw [hid, Reference.docId] at hdoc
          cases hstanding : e.walk.standing with
          | on current => rw [hdoc, hstanding]
          | before | past => simp [hstanding] at hdoc; simp [hdoc] at hnonzero
        have hsettled := settled_next (hvalid e he)
        rw [hstanding] at hsettled
        exact ⟨_, hsim.after .next hpart, ⟨Reference.move_ids _ _, rfl⟩, hsettled⟩
      · rw [if_neg hid]
        obtain ⟨hbefore, hbeyond, hoffers⟩ := habreast e he
        refine ⟨e, hpart, sameCourse_refl e, hbefore, fun other hother => ?_, fun other hother hlt => ?_⟩
        · have hle := hbeyond other hother
          have hne : other ≠ id := by
            rintro rfl
            simp [Reference.docId, hother] at hdoc
            exact hid hdoc
          simp only [Standing.precedes, decide_eq_true_eq]
          grind
        · simp only [Standing.precedes, decide_eq_true_eq] at hlt
          exact hoffers other hother (UInt64.le_of_lt hlt)
    | past => exact absurd rfl hst
  obtain ⟨es', hparts', hcourse, hsettled⟩ := hmoved
  obtain ⟨hanswer, habreast'⟩ := leastId_spec hsim hparts' (fun _ _ => Standing.precedes_upward) hsettled
  rw [joined_congr hcourse] at hanswer
  exact ⟨hanswer, es', hparts', hcourse, habreast'⟩

/-! ### Moving a composite -/

/-- The ids left to a composite are left to its parts. -/
theorem countP_joined_le (hsim : Simulation move R) {parts : List Cursor} {es : List Expectation}
    (hparts : List.Forall₂ R parts es) {how : Connective} {st : Standing} (hcoherent : Coherent how st es) :
    (joined how es).countP st.admits ≤ weightAll parts := by
  cases how with
  | and => exact countP_common_le hsim hparts hcoherent
  | phrase =>
    have hsub : (joined .phrase es).countP st.admits ≤ (common (es.map (·.walk.ids))).countP st.admits :=
      List.filter_sublist.countP_le
    have hle := countP_common_le hsim hparts hcoherent
    omega
  | or =>
    have hascending := joined_ascending (valid_of_forall₂ hsim hparts) .or
    -- an id that is left to the alternative is left to a part that has it
    have hsubset : (joined .or es).filter st.admits ⊆ es.flatMap fun e => e.walk.ids.filter e.walk.standing.admits := by
      intro id hid
      obtain ⟨hmem, hadmits⟩ := List.mem_filter.mp hid
      obtain ⟨e, he, hide⟩ := mem_joined_or.mp hmem
      refine List.mem_flatMap.mpr ⟨e, he, List.mem_filter.mpr ⟨hide, ?_⟩⟩
      cases st with
      | before => rw [hcoherent e he]; rfl
      | on current =>
        simp only [Standing.admits, decide_eq_true_eq] at hadmits
        exact ((hcoherent e he).2.2 id hide hadmits).2
      | past => simp [Standing.admits] at hadmits
    have hnodup : ((joined .or es).filter st.admits).Nodup :=
      (hascending.filter _).imp fun h => by grind
    have hlength := (List.subperm_of_subset hnodup hsubset).length_le
    have hweight : (es.flatMap fun e => e.walk.ids.filter e.walk.standing.admits).length ≤ weightAll parts := by
      clear hascending hsubset hnodup hlength hcoherent
      induction hparts with
      | nil => exact Nat.zero_le _
      | @cons part e parts es hpart _ ih =>
        have hleft := hsim.left_le hpart
        rw [Reference.left, List.countP_eq_length_filter] at hleft
        rw [List.flatMap_cons, List.length_append, weightAll]
        omega
    rw [List.countP_eq_length_filter]
    omega

/-- Going on, a composite answers what its walk answers. -/
theorem joinNext_spec (hsim : Simulation move R) {parts : List Cursor} {es : List Expectation}
    (hparts : List.Forall₂ R parts es) {how : Connective} {st : Standing} (hnonzero : st ≠ .on 0)
    (hcoherent : Coherent how st es) :
    Moved R how es ((joined how es).find? st.precedes) (joinNext move how (st, parts)) := by
  by_cases hst : st = .past
  · subst hst
    have hnone : (joined how es).find? Standing.past.precedes = none := by simp [Standing.precedes]
    unfold joinNext
    rw [hnone, if_pos rfl]
    exact ⟨rfl, rfl, es, hparts, forall₂_sameCourse_refl es, hcoherent⟩
  · unfold joinNext
    rw [if_neg hst]
    cases how with
    | and =>
      obtain ⟨hanswer, hafter⟩ := nextCommon_together hsim hparts hst hcoherent
      exact ⟨hanswer, congrArg Standing.ofAnswer hanswer, hanswer ▸ hafter⟩
    | phrase =>
      obtain ⟨hanswer, hafter⟩ := nextPhrase_together hsim hparts hst hcoherent
      exact ⟨hanswer, congrArg Standing.ofAnswer hanswer, hanswer ▸ hafter⟩
    | or =>
      obtain ⟨hanswer, hafter⟩ := nextOfAny_spec hsim hparts hst hnonzero hcoherent
      exact ⟨hanswer, congrArg Standing.ofAnswer hanswer, hanswer ▸ hafter⟩

/-- An alternative seeks with every part, and settles on the least of their answers. -/
theorem joinSeek_or_spec (hsim : Simulation move R) {parts : List Cursor} {es : List Expectation}
    (hparts : List.Forall₂ R parts es) {st : Standing} (hcoherent : Coherent .or st es) {target : DocId}
    (htarget : ∀ id, st = .on id → id < target) (hst : st ≠ .past) :
    Moved R .or es ((joined .or es).find? fun id => st.precedes id && target ≤ id)
      (joinSeek move .or target (st, parts)) := by
  have hvalid := valid_of_forall₂ hsim hparts
  rw [joinSeek, if_pos rfl, if_neg hst]
  have hahead : ∀ id, target ≤ id → st.precedes id = true := by
    intro id hle
    cases st with
    | before => rfl
    | on current => exact decide_eq_true (UInt64.lt_of_lt_of_le (htarget current rfl) hle)
    | past => exact absurd rfl hst
  have hoffers : ∀ e ∈ es, ∀ id ∈ e.walk.ids, target ≤ id → e.walk.Offers id := by
    intro e he id hid hle
    cases st with
    | before => exact ⟨hid, by rw [hcoherent e he]; rfl⟩
    | on current =>
      exact (hcoherent e he).2.2 id hid (UInt64.le_of_lt (of_decide_eq_true (hahead id hle)))
    | past => exact absurd rfl hst
  have hchange : ∀ part, ∀ e ∈ es, R part e → ∃ e', R (move (.seek target) part).2 e' ∧ SameCourse e e' ∧
      Settled (target ≤ ·) e' := fun part e he hpart =>
    ⟨_, hsim.after (.seek target) hpart, ⟨Reference.move_ids _ _, rfl⟩, settled_seek (hvalid e he) (hoffers e he)⟩
  obtain ⟨es', hparts', hcourse, hsettled⟩ := exists_forall₂_map hparts hchange
  have hupward : ∀ id other, decide (target ≤ id) = true → id ≤ other → decide (target ≤ other) = true :=
    fun id other h hle => decide_eq_true (UInt64.le_trans (of_decide_eq_true h) hle)
  obtain ⟨hanswer, habreast⟩ := leastId_spec hsim hparts' hupward hsettled
  rw [joined_congr hcourse] at hanswer
  have hsame : (joined .or es).find? (fun id => st.precedes id && decide (target ≤ id)) =
      (joined .or es).find? fun id => decide (target ≤ id) := by
    refine find?_congr fun id _ => ?_
    by_cases hle : target ≤ id
    · rw [hahead id hle, Bool.true_and]
    · simp [hle]
  rw [hsame, ← hanswer]
  exact ⟨rfl, rfl, es', hparts', hcourse, habreast⟩

/-- The others go on from id to id until the target is reached. -/
theorem joinSeek_steps_spec (hsim : Simulation move R) {parts : List Cursor} {es : List Expectation}
    (hparts : List.Forall₂ R parts es) {how : Connective} (hor : how ≠ .or) {st : Standing}
    (hcoherent : Coherent how st es) (hmem : ∀ id, st = .on id → id ∈ joined how es) (target : DocId)
    (hst : st ≠ .past) :
    Moved R how es ((joined how es).find? fun id => st.precedes id && target ≤ id)
      (joinSeek move how target (st, parts)) := by
  have hvalid := valid_of_forall₂ hsim hparts
  rw [joinSeek, if_neg hor]
  let Inv (st : Standing) (s : Standing × List Cursor) : Prop := s.1 = st ∧ (∀ id, st = .on id → id ∈ joined how es) ∧
    ∃ es', List.Forall₂ R s.2 es' ∧ List.Forall₂ SameCourse es es' ∧ Coherent how st es'
  have hascending := joined_ascending hvalid how
  have hzero := joined_nonzero hvalid how
  have hstep : ∀ st s, st ≠ .past → Inv st s →
      (joinNext move how s).1 = (joined how es).find? st.precedes ∧
        Inv (.ofAnswer (joinNext move how s).1) (joinNext move how s).2 := by
    rintro _ ⟨st', parts'⟩ _ ⟨rfl, hmem', es', hparts', hcourse, hcoherent'⟩
    simp only at hmem' hcoherent' hparts' ⊢
    obtain ⟨hanswer, hstanding, es'', hparts'', hcourse', hcoherent''⟩ :=
      joinNext_spec hsim hparts' (fun h0 => hzero (hmem' 0 h0)) hcoherent'
    rw [joined_congr hcourse] at hanswer hstanding hcoherent''
    refine ⟨hanswer, hanswer ▸ hstanding, fun id hid => ?_, es'', hparts'',
      forall₂_sameCourse_trans hcourse hcourse', hanswer ▸ hcoherent''⟩
    rw [hanswer] at hid
    cases hfind : (joined how es).find? st'.precedes with
    | none => simp [hfind, Standing.ofAnswer] at hid
    | some found =>
      simp only [hfind, Standing.ofAnswer, Standing.on.injEq] at hid
      exact hid ▸ List.mem_of_find?_eq_some hfind
  have hbound : (joined how es).countP st.precedes < weightAll parts + 1 := by
    have hle := countP_joined_le hsim hparts hcoherent
    have hmono : (joined how es).countP st.precedes ≤ (joined how es).countP st.admits :=
      List.countP_mono_left fun _ _ h => Standing.admits_of_precedes h
    omega
  have hinv : Inv st (st, parts) := ⟨rfl, hmem, es, hparts, forall₂_sameCourse_refl es, hcoherent⟩
  have haccept : ∀ id s, Inv (.on id) s → decide (target ≤ id) = decide (target ≤ id) := fun _ _ _ => rfl
  obtain ⟨hanswer, hstanding, _, hafter⟩ := advanceUntil_spec hascending hstep haccept hst hinv hbound
  exact ⟨hanswer, hanswer ▸ hstanding, hanswer ▸ hafter⟩

/-- Seeking a target that it does not reach, a composite answers what its walk answers. -/
theorem joinSeek_spec (hsim : Simulation move R) {parts : List Cursor} {es : List Expectation}
    (hparts : List.Forall₂ R parts es) {how : Connective} {st : Standing} (hcoherent : Coherent how st es)
    (hmem : ∀ id, st = .on id → id ∈ joined how es) {target : DocId} (htarget : ∀ id, st = .on id → id < target) :
    Moved R how es ((joined how es).find? fun id => st.precedes id && target ≤ id)
      (joinSeek move how target (st, parts)) := by
  by_cases hst : st = .past
  · subst hst
    have hnone : (joined how es).find? (fun id => Standing.past.precedes id && target ≤ id) = none := by
      simp [Standing.precedes]
    have hjoin : joinSeek move how target (.past, parts) = (none, .past, parts) := by
      simp [joinSeek, advanceUntil, joinNext]
    rw [hnone, hjoin]
    exact ⟨rfl, rfl, es, hparts, forall₂_sameCourse_refl es, hcoherent⟩
  · by_cases hor : how = .or
    · subst hor
      exact joinSeek_or_spec hsim hparts hcoherent htarget hst
    · exact joinSeek_steps_spec hsim hparts hor hcoherent hmem target hst

end Cursor

/-! ### Composites keep to their expectations -/

/-- A composite is related to the walk over the ids of its connective; it shows no positions. -/
inductive Composite (R : Cursor → Expectation → Prop) : Cursor → Expectation → Prop
  | intro {how : Connective} {st : Standing} {parts : List Cursor} {es : List Expectation} :
    List.Forall₂ R parts es → Coherent how st es → (∀ id, st = .on id → id ∈ joined how es) →
    Composite R (.join how st parts) ⟨⟨joined how es, st⟩, fun _ => []⟩

open Cursor

variable {depth : Nat} {R : Cursor → Expectation → Prop}

theorem Composite.valid (hsim : Simulation (step depth) R) {c : Cursor} {e : Expectation} (h : Composite R c e) :
    e.walk.Valid := by
  obtain ⟨hparts, _, hmem⟩ := h
  have hvalid := valid_of_forall₂ hsim hparts
  exact ⟨joined_ascending hvalid _, joined_nonzero hvalid _, hmem⟩

theorem Composite.docId {c : Cursor} {e : Expectation} (h : Composite R c e) : c.docId = e.walk.docId := by
  obtain ⟨_, _, _⟩ := h
  rename_i st _ _ _ _ _
  cases st <;> rfl

/-- A composite that has moved as told is related to the moved walk. -/
theorem Composite.of_moved {how : Connective} {st : Standing} {es : List Expectation}
    {wanted : DocId → Bool} {r : Option DocId × Standing × List Cursor}
    (hvalid : (⟨joined how es, st⟩ : Reference).Valid)
    (h : Moved R how es ((⟨joined how es, st⟩ : Reference).advance wanted).1 r) :
    (rejoin how r).1 = ((⟨joined how es, st⟩ : Reference).advance wanted).1 ∧
      Composite R (rejoin how r).2 ⟨((⟨joined how es, st⟩ : Reference).advance wanted).2, fun _ => []⟩ := by
  obtain ⟨hanswer, hstanding, es', hparts', hcourse, hcoherent⟩ := h
  refine ⟨hanswer, ?_⟩
  have hafter := (hvalid.advance wanted).standing_mem
  have hjoined := joined_congr hcourse how
  rw [rejoin, hstanding]
  simp only [Reference.advance] at hcoherent hafter ⊢
  rw [← hjoined] at hcoherent hafter ⊢
  exact .intro hparts' hcoherent hafter

/-- If cursors keep to their expectations under moves of one depth, so do their composites under moves of the
next depth. -/
theorem Simulation.composite (hsim : Simulation (step depth) R) : Simulation (step (depth + 1)) (Composite R) := by
  have hmove : ∀ {c : Cursor} {e : Expectation} (m : Move), Composite R c e →
      (step (depth + 1) m c).1 = (e.walk.move m).1 ∧
        Composite R (step (depth + 1) m c).2 { e with walk := (e.walk.move m).2 } := by
    intro c e m h
    have hvalid := h.valid hsim
    have hdoc := h.docId
    have hkept := h
    obtain ⟨hparts, hcoherent, hmem⟩ := h
    have hzero := hvalid.nonzero
    cases m with
    | next =>
      rw [step, Reference.move_next]
      apply Composite.of_moved hvalid
      have hmoved := joinNext_spec hsim hparts (fun h0 => hzero (hmem 0 h0)) hcoherent
      simpa only [Reference.advance, Bool.and_true] using hmoved
    | seek target =>
      rw [step, Reference.move_seek, hdoc]
      split
      · exact ⟨rfl, hkept⟩
      · rename_i hreach
        refine Composite.of_moved hvalid (joinSeek_spec hsim hparts hcoherent hmem fun id hid => ?_)
        exact UInt64.not_le.mp fun hle => hreach (hvalid.reaches_iff.mpr ⟨id, hid, hle⟩)
  refine ⟨⟨fun h => h.valid hsim, fun m h => (hmove m h).1, fun m h => (hmove m h).2, Composite.docId⟩, ?_, ?_⟩
  · rintro c e id ⟨_, _, _⟩ _
    rfl
  · rintro c e ⟨hparts, hcoherent, _⟩
    exact countP_joined_le hsim hparts hcoherent

end FileIndex
