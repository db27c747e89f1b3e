import FileIndex.Proofs.Cursor.Trees
import Mathlib.Logic.Function.Iterate

/-!
# Landing on a shared id

The loop that brings cursors to a shared id raises its candidate round by round, and a search for the next shared
id may follow upon any other. Here the loop is told by rules, without a bound on its rounds, for any cursors that
walk forward.

* `AlignRun`, `CommonRun`: the loop and the search, in as many rounds as they take. `CommonRun.unique`: they end in
  one way only.
* `alignRun_align`: as many rounds are enough as there are ids left to the lead, however the others move.
* `Awaited`, `Unpassed`: the shared ids ahead of the lead; no other cursor has passed one of them.
* `Barren`: nothing shared is ahead, which a search leaves as it is.
* `exists_landed`: the search ends on the least awaited id with all cursors on it and none of the next ones passed,
  or it ends without an answer, as does every search after it.
-/

namespace FileIndex

open Expectation

namespace Cursor

variable {move : Move → Cursor → Option DocId × Cursor} {R : Cursor → Expectation → Prop}

/-! ### Runs without a bound -/

/-- The loop that raises the candidate, on which `lead` stands, until all cursors meet on it or one runs out. -/
inductive AlignRun (move : Move → Cursor → Option DocId × Cursor) :
    DocId → Cursor → List Cursor → Option DocId × List Cursor → Prop
  /-- All others stand on the candidate. -/
  | met {candidate : DocId} {lead : Cursor} {rest rest' : List Cursor} :
    sweep move candidate rest = (.met, rest') → AlignRun move candidate lead rest (some candidate, lead :: rest')
  /-- One of the others has run out. -/
  | dry {candidate : DocId} {lead : Cursor} {rest rest' : List Cursor} :
    sweep move candidate rest = (.dry, rest') → AlignRun move candidate lead rest (none, lead :: rest')
  /-- One of the others has gone on to a greater id, and the lead has run out below it. -/
  | spent {candidate id : DocId} {lead lead' : Cursor} {rest rest' : List Cursor} :
    sweep move candidate rest = (.overshot id, rest') → move (.seek id) lead = (none, lead') →
    AlignRun move candidate lead rest (none, lead' :: rest')
  /-- The lead has caught up, and its new id is the next candidate. -/
  | raised {candidate id next : DocId} {lead lead' : Cursor} {rest rest' : List Cursor}
    {r : Option DocId × List Cursor} :
    sweep move candidate rest = (.overshot id, rest') → move (.seek id) lead = (some next, lead') →
    AlignRun move next lead' rest' r → AlignRun move candidate lead rest r

/-- The search for the next id that cursors share. -/
inductive CommonRun (move : Move → Cursor → Option DocId × Cursor) :
    List Cursor → Option DocId × List Cursor → Prop
  /-- There are no cursors. -/
  | nil : CommonRun move [] (none, [])
  /-- The lead runs out. -/
  | spent {lead lead' : Cursor} {rest : List Cursor} :
    move .next lead = (none, lead') → CommonRun move (lead :: rest) (none, lead' :: rest)
  /-- The next id of the lead is the first candidate. -/
  | tried {candidate : DocId} {lead lead' : Cursor} {rest : List Cursor} {r : Option DocId × List Cursor} :
    move .next lead = (some candidate, lead') → AlignRun move candidate lead' rest r →
    CommonRun move (lead :: rest) r

/-- The bounded loop does what the loop does, once its bound is high enough. -/
theorem AlignRun.exists_align_eq {candidate : DocId} {lead : Cursor} {rest : List Cursor}
    {r : Option DocId × List Cursor} (h : AlignRun move candidate lead rest r) :
    ∃ rounds, ∀ bound, rounds < bound → align move bound candidate lead rest = r := by
  -- only a raised candidate asks for another round
  induction h with
  | met hsweep | dry hsweep =>
    refine ⟨0, fun bound hbound => ?_⟩
    obtain ⟨bound, rfl⟩ := Nat.exists_eq_succ_of_ne_zero (Nat.ne_of_gt hbound)
    rw [align, hsweep]
  | spent hsweep hmove =>
    refine ⟨0, fun bound hbound => ?_⟩
    obtain ⟨bound, rfl⟩ := Nat.exists_eq_succ_of_ne_zero (Nat.ne_of_gt hbound)
    rw [align, hsweep]
    simp only [hmove]
  | raised hsweep hmove _ ih =>
    obtain ⟨rounds, hrounds⟩ := ih
    refine ⟨rounds + 1, fun bound hbound => ?_⟩
    obtain ⟨bound, rfl⟩ := Nat.exists_eq_succ_of_ne_zero (Nat.ne_zero_of_lt hbound)
    rw [align, hsweep]
    simp only [hmove]
    exact hrounds bound (by omega)

theorem AlignRun.unique {candidate : DocId} {lead : Cursor} {rest : List Cursor} {r r' : Option DocId × List Cursor}
    (h : AlignRun move candidate lead rest r) (h' : AlignRun move candidate lead rest r') : r' = r := by
  obtain ⟨rounds, hrounds⟩ := h.exists_align_eq
  obtain ⟨rounds', hrounds'⟩ := h'.exists_align_eq
  rw [← hrounds (max rounds rounds' + 1) (by omega), hrounds' (max rounds rounds' + 1) (by omega)]

theorem CommonRun.unique {parts : List Cursor} {r r' : Option DocId × List Cursor} (h : CommonRun move parts r)
    (h' : CommonRun move parts r') : r' = r := by
  cases h with
  | nil =>
    cases h'
    rfl
  | spent hmove =>
    cases h' with
    | spent hmove' =>
      rw [hmove, Prod.mk.injEq] at hmove'
      rw [hmove'.2]
    | tried hmove' => simp [hmove] at hmove'
  | tried hmove hrun =>
    cases h' with
    | spent hmove' => simp [hmove] at hmove'
    | tried hmove' hrun' =>
      rw [hmove, Prod.mk.injEq, Option.some.injEq] at hmove'
      obtain ⟨rfl, rfl⟩ := hmove'
      exact hrun.unique hrun'

/-! ### The search ends -/

theorem lt_of_sweep_overshot {candidate id : DocId} {parts parts' : List Cursor}
    (h : sweep move candidate parts = (.overshot id, parts')) : candidate < id := by
  induction parts generalizing parts' with
  | nil => simp [sweep] at h
  | cons part parts ih =>
    rw [sweep] at h
    split at h
    · simp at h
    · split at h
      · rename_i hlt
        simp only [Prod.mk.injEq, Sweep.overshot.injEq] at h
        exact h.1 ▸ hlt
      · simp only [Prod.mk.injEq] at h
        exact ih (Prod.ext h.1 rfl)

/-- The loop needs no more rounds than there are ids left to the lead: each but the last uses one up, whatever the
others do. -/
theorem alignRun_align (hforward : Forward move R) {bound : Nat} {candidate : DocId} {lead : Cursor}
    {rest : List Cursor} {e : Expectation} (hlead : R lead e) (hst : e.walk.standing = .on candidate)
    (hbound : e.walk.left ≤ bound) : AlignRun move candidate lead rest (align move bound candidate lead rest) := by
  have hmem := (hforward.valid hlead).standing_mem candidate hst
  induction bound generalizing candidate lead rest e with
  | zero =>
    -- the candidate itself is left
    have hadmits : e.walk.standing.admits candidate = true := by simp [hst, Standing.admits]
    have hpos : 0 < e.walk.left := List.countP_pos_iff.mpr ⟨candidate, hmem, hadmits⟩
    omega
  | succ bound ih =>
    rw [align]
    cases hsweep : sweep move candidate rest with
    | mk result rest' =>
      cases result with
      | met => exact .met hsweep
      | dry => exact .dry hsweep
      | overshot id =>
        simp only
        split
        · rename_i lead' hmove
          exact .spent hsweep hmove
        · rename_i next lead' hmove
          obtain ⟨hnext, hafter⟩ := hforward.after_some hlead hmove
          obtain ⟨hoffers, hle, _⟩ := Reference.seek_some (hforward.valid hlead) hnext
          have hlt : candidate < next := UInt64.lt_of_lt_of_le (lt_of_sweep_overshot hsweep) hle
          have hfewer : (e.walk.on next).left < e.walk.left := Reference.left_on_lt hmem hst hlt
          exact .raised hsweep hmove (ih hafter rfl (by simp only [on_walk]; omega) hoffers.1)

/-- A search ends when its lead walks forward. -/
theorem exists_commonRun (hforward : Forward move R) {lead : Cursor} {e : Expectation} (hlead : R lead e)
    (rest : List Cursor) : ∃ r, CommonRun move (lead :: rest) r := by
  cases hmove : move .next lead with
  | mk answer lead' =>
    cases answer with
    | none => exact ⟨_, .spent hmove⟩
    | some candidate =>
      obtain ⟨_, hafter⟩ := hforward.after_some hlead hmove
      exact ⟨_, .tried hmove (alignRun_align hforward hafter rfl (Nat.le_refl _))⟩

/-- The bounded search takes all the rounds that it needs. -/
theorem commonRun_nextCommon (hsim : Simulation move R) {lead : Cursor} {e : Expectation} (hlead : R lead e)
    (rest : List Cursor) : CommonRun move (lead :: rest) (nextCommon move (lead :: rest)) := by
  rw [nextCommon]
  split
  · rename_i lead' hmove
    exact .spent hmove
  · rename_i candidate lead' hmove
    obtain ⟨_, hafter⟩ := hsim.after_some hlead hmove
    have hle := hsim.left_le hafter
    exact .tried hmove (alignRun_align hsim.toForward hafter rfl (by omega))

/-! ### Where it ends -/

/-- An id that all share and that is still ahead of the lead. -/
def Awaited (e : Expectation) (es : List Expectation) (id : DocId) : Prop :=
  Meets e es id ∧ e.walk.standing.precedes id = true

/-- No cursor beside the lead has passed an awaited id or run out below it. -/
def Unpassed (e : Expectation) (es : List Expectation) : Prop :=
  ∀ id, Awaited e es id → ∀ x ∈ es, x.walk.Offers id

/-- However many rounds a search takes, it ends on the least awaited id or has none to end on. -/
theorem CommonRun.ends (hforward : Forward move R) {lead : Cursor} {rest : List Cursor} {e : Expectation}
    {es : List Expectation} (hlead : R lead e) (hrest : List.Forall₂ R rest es) (hclear : Unpassed e es)
    {r : Option DocId × List Cursor} (h : CommonRun move (lead :: rest) r) :
    AlignEnds R (fun id => e.walk.standing.precedes id = true) e es r := by
  cases h with
  | spent hmove => exact alignEnds_of_next_none hforward hlead hrest hmove
  | @tried candidate _ _ _ _ hmove hrun =>
    obtain ⟨rounds, hrounds⟩ := hrun.exists_align_eq
    rw [← hrounds (max rounds (e.walk.on candidate).left + 1) (by omega)]
    exact alignEnds_of_next_some hforward hlead hrest (fun id hid hahead => hclear id ⟨hid, hahead⟩) hmove (by omega)

/-- The answer of a search is the least awaited id. -/
theorem AlignEnds.answer_iff {e : Expectation} {es : List Expectation} {r : Option DocId × List Cursor}
    (h : AlignEnds R (fun id => e.walk.standing.precedes id = true) e es r) {id : DocId} :
    r.1 = some id ↔ Awaited e es id ∧ ∀ other, Awaited e es other → id ≤ other := by
  obtain ⟨answer, parts⟩ := r
  cases answer with
  | none =>
    obtain ⟨hnone, _⟩ := h
    refine ⟨fun heq => absurd heq (by simp), ?_⟩
    rintro ⟨⟨hmeets, hahead⟩, _⟩
    exact absurd hahead (hnone id hmeets)
  | some found =>
    obtain ⟨_, hmeets, hahead, hleast⟩ := h
    rw [Option.some.injEq]
    constructor
    · rintro rfl
      exact ⟨⟨hmeets, hahead⟩, fun other hother => hleast other hother.1 hother.2⟩
    · rintro ⟨hawaited, hleast'⟩
      exact UInt64.le_antisymm (hleast id hawaited.1 hawaited.2) (hleast' found ⟨hmeets, hahead⟩)

/-- A search has no answer just when nothing is awaited. -/
theorem AlignEnds.none_iff {e : Expectation} {es : List Expectation} {r : Option DocId × List Cursor}
    (h : AlignEnds R (fun id => e.walk.standing.precedes id = true) e es r) :
    r.1 = none ↔ ∀ id, ¬ Awaited e es id := by
  obtain ⟨answer, parts⟩ := r
  cases answer with
  | none => exact ⟨fun _ id hid => h.1 id hid.1 hid.2, fun _ => rfl⟩
  | some found =>
    obtain ⟨_, hmeets, hahead, _⟩ := h
    exact ⟨fun heq => absurd heq (by simp), fun hnone => absurd ⟨hmeets, hahead⟩ (hnone found)⟩

/-- Cursors that stand together have passed nothing that is ahead of one of them. -/
theorem unpassed_on (e : Expectation) (es : List Expectation) (id : DocId) :
    Unpassed (e.on id) (es.map (·.on id)) := by
  rintro other ⟨⟨_, hshared⟩, hahead⟩ x' hx'
  have hmem := hshared x' hx'
  obtain ⟨x, _, rfl⟩ := List.mem_map.mp hx'
  refine Reference.offers_on.mpr ⟨hmem, UInt64.le_of_lt ?_⟩
  simpa [Standing.precedes] using hahead

theorem docId_of_on (hforward : Forward move R) {parts : List Cursor} {es : List Expectation} {id : DocId}
    (h : List.Forall₂ R parts (es.map (·.on id))) : ∀ part ∈ parts, part.docId = id := by
  rw [List.forall₂_map_right_iff] at h
  induction h with
  | nil => exact fun part hpart => absurd hpart List.not_mem_nil
  | cons hhead _ ih => exact List.forall_mem_cons.mpr ⟨hforward.docId hhead, ih⟩

/-! ### Nothing left to share -/

/-- Nothing that the cursors share is ahead of the lead. -/
def Barren (R : Cursor → Expectation → Prop) (parts : List Cursor) : Prop :=
  ∃ e es, List.Forall₂ R parts (e :: es) ∧ ∀ id, ¬ Awaited e es id

/-- A search that ends without an answer leaves nothing to share. -/
theorem barren_of_alignEnds {e : Expectation} {es : List Expectation} {parts : List Cursor}
    (h : AlignEnds R (fun id => e.walk.standing.precedes id = true) e es (none, parts)) : Barren R parts := by
  obtain ⟨hnone, e', es', hparts, hcourse, hahead⟩ := h
  refine ⟨e', es', hparts, fun id hawaited => ?_⟩
  exact hnone id ((meets_congr hcourse).mp hawaited.1) (hahead id hawaited.2)

theorem Barren.step (hforward : Forward move R) {parts : List Cursor} (h : Barren R parts) :
    ∃ parts', CommonRun move parts (none, parts') ∧ Barren R parts' := by
  obtain ⟨e, es, hparts, hnone⟩ := h
  cases hparts with
  | @cons lead _ rest _ hlead hrest =>
    obtain ⟨⟨answer, parts'⟩, hrun⟩ := exists_commonRun hforward hlead rest
    have hend := hrun.ends hforward hlead hrest fun id hid => absurd hid (hnone id)
    cases answer with
    | none => exact ⟨parts', hrun, barren_of_alignEnds hend⟩
    | some id =>
      obtain ⟨_, hmeets, hahead, _⟩ := hend
      exact absurd ⟨hmeets, hahead⟩ (hnone id)

/-- Once nothing is left to share, each search from then on ends without an answer. -/
theorem Barren.forever (hforward : Forward move R) {parts : List Cursor} (h : Barren R parts) :
    ∃ later : Nat → List Cursor, later 0 = parts ∧ ∀ i, CommonRun move (later i) (none, later (i + 1)) := by
  -- the searches are made one after the other, and being barren is what each of them keeps
  choose! after hafter using fun parts (h : Barren R parts) => h.step hforward
  have hbarren : ∀ i, Barren R (after^[i] parts) := by
    intro i
    induction i with
    | zero => exact h
    | succ i ih =>
      rw [Function.iterate_succ_apply']
      exact (hafter _ ih).2
  refine ⟨fun i => after^[i] parts, rfl, fun i => ?_⟩
  simp only [Function.iterate_succ_apply']
  exact (hafter _ (hbarren i)).1

/-! ### The whole search -/

/-- What comes of searching the next id that cursors share. -/
structure Landed (move : Move → Cursor → Option DocId × Cursor) (R : Cursor → Expectation → Prop) (lead : Cursor)
    (rest : List Cursor) (e : Expectation) (es : List Expectation) (answer : Option DocId) (parts : List Cursor) :
    Prop where
  /-- The search ends, and in this way only. -/
  ends : ∀ r, CommonRun move (lead :: rest) r ↔ r = (answer, parts)
  /-- For cursors that keep to the whole of their expectations, the bounded search ends so. -/
  bounded : Simulation move R → nextCommon move (lead :: rest) = (answer, parts)
  /-- The answer is the least awaited id. -/
  least : ∀ id, answer = some id ↔ Awaited e es id ∧ ∀ other, Awaited e es other → id ≤ other
  /-- There is no answer just when no id is awaited. -/
  missing : answer = none ↔ ∀ id, ¬ Awaited e es id
  /-- On an answer, all cursors stand on it and have passed none of the ids that are awaited now. -/
  landed : ∀ id, answer = some id → (∀ part ∈ parts, part.docId = id) ∧
    List.Forall₂ R parts ((e :: es).map (·.on id)) ∧ Unpassed (e.on id) (es.map (·.on id))
  /-- The positions read after that are those that each cursor has for the answer. -/
  shown : Simulation move R → ∀ id, answer = some id → parts.map positions = (e :: es).map (·.shown id)
  /-- Without an answer, every later search ends without one as well. -/
  forever : answer = none → ∃ later : Nat → List Cursor, later 0 = parts ∧
    ∀ i r, CommonRun move (later i) r ↔ r = (none, later (i + 1))

/-- Forward cursors of which none beside the lead has passed an awaited id land on the least of these, however they
stand, and on none once there is none. -/
theorem exists_landed (hforward : Forward move R) {lead : Cursor} {rest : List Cursor} {e : Expectation}
    {es : List Expectation} (hlead : R lead e) (hrest : List.Forall₂ R rest es) (hclear : Unpassed e es) :
    ∃ answer parts, Landed move R lead rest e es answer parts := by
  obtain ⟨⟨answer, parts⟩, hrun⟩ := exists_commonRun hforward hlead rest
  have hend := hrun.ends hforward hlead hrest hclear
  refine ⟨answer, parts, ?_⟩
  have hends : ∀ r, CommonRun move (lead :: rest) r ↔ r = (answer, parts) :=
    fun r => ⟨hrun.unique, fun h => h ▸ hrun⟩
  have hon : ∀ id, answer = some id → List.Forall₂ R parts ((e :: es).map (·.on id)) := by
    rintro id rfl
    exact hend.1
  refine ⟨hends, fun hsim => (hends _).mp (commonRun_nextCommon hsim hlead rest), fun id => hend.answer_iff,
    hend.none_iff, fun id h => ⟨docId_of_on hforward (hon id h), hon id h, unpassed_on e es id⟩,
    fun hsim id h => ?_, ?_⟩
  · rw [map_positions hsim (hon id h) fun _ => standing_of_mem_map_on, List.map_map]
    rfl
  · rintro rfl
    obtain ⟨later, hzero, hlater⟩ := (barren_of_alignEnds hend).forever hforward
    exact ⟨later, hzero, fun i r => ⟨(hlater i).unique, fun h => h ▸ hlater i⟩⟩

/-- Three cursors at different places: the second has not moved, the third waits on the first id that they share. -/
theorem exists_landed_from_uneven_cursors :
    let lead := leaf (some ⟨1, [3]⟩) [⟨4, []⟩, ⟨6, [8]⟩, ⟨9, [2]⟩]
    let second := ofParts .or [ofOccurrences [⟨2, []⟩, ⟨6, []⟩], ofOccurrences [⟨9, []⟩]]
    let third := leaf (some ⟨6, [9]⟩) [⟨9, [5]⟩, ⟨12, [1]⟩]
    let e := listExpectation [⟨1, [3]⟩, ⟨4, []⟩, ⟨6, [8]⟩, ⟨9, [2]⟩] (.on 1)
    let es := [.composite .or [listExpectation [⟨2, []⟩, ⟨6, []⟩] .before, listExpectation [⟨9, []⟩] .before],
      listExpectation [⟨3, []⟩, ⟨6, [9]⟩, ⟨9, [5]⟩, ⟨12, [1]⟩] (.on 6)]
    (Forward (step 1) (Tracks 1) ∧ Tracks 1 lead e ∧ List.Forall₂ (Tracks 1) [second, third] es ∧ Unpassed e es) ∧
      ∃ parts, Landed (step 1) (Tracks 1) lead [second, third] e es (some 6) parts ∧
        nextCommon (step 1) [lead, second, third] = (some 6, parts) ∧ parts.map positions = [[8], [], [9]] := by
  intro lead second third e es
  have hforward := (simulation_tracks 1).toForward
  have hlead : Tracks 1 lead e := by
    have hsorted : OccurrenceList.Sorted [⟨1, [3]⟩, ⟨4, []⟩, ⟨6, [8]⟩, ⟨9, [2]⟩] := ⟨by decide, by decide, by decide⟩
    exact ⟨_, .leaf 1, .on (o := ⟨1, [3]⟩) hsorted (by decide)⟩
  have hsecond : Tracks 1 second es[0] := by
    have hlow : OccurrenceList.Sorted [⟨2, []⟩, ⟨6, []⟩] := ⟨by decide, by decide, by decide⟩
    have hhigh : OccurrenceList.Sorted [⟨9, []⟩] := ⟨by decide, by decide, by decide⟩
    refine .composite .or (.cons (.ofOccurrences hlow 0) (.cons (.ofOccurrences hhigh 0) .nil)) ?_
    simp [listExpectation]
  have hthird : Tracks 1 third es[1] := by
    have hsorted : OccurrenceList.Sorted [⟨3, []⟩, ⟨6, [9]⟩, ⟨9, [5]⟩, ⟨12, [1]⟩] := ⟨by decide, by decide, by decide⟩
    exact ⟨_, .leaf 1, .on (o := ⟨6, [9]⟩) hsorted (by decide)⟩
  have hrest : List.Forall₂ (Tracks 1) [second, third] es := .cons hsecond (.cons hthird .nil)
  have hshared : e.walk.ids.filter (fun id => es.all (·.walk.ids.contains id)) = [6, 9] := by decide
  have hawaited : ∀ id, Awaited e es id → id = 6 ∨ id = 9 := by
    rintro id ⟨⟨hmem, hall⟩, _⟩
    have hid : id ∈ e.walk.ids.filter fun id => es.all (·.walk.ids.contains id) :=
      List.mem_filter.mpr ⟨hmem, List.all_eq_true.mpr fun x hx => List.contains_iff_mem.mpr (hall x hx)⟩
    rw [hshared] at hid
    simpa using hid
  have hadmits : ∀ x ∈ es, x.walk.standing.admits 6 = true ∧ x.walk.standing.admits 9 = true := by decide
  have hclear : Unpassed e es := by
    intro id hid x hx
    refine ⟨hid.1.2 x hx, ?_⟩
    rcases hawaited id hid with rfl | rfl
    · exact (hadmits x hx).1
    · exact (hadmits x hx).2
  obtain ⟨answer, parts, hlanded⟩ := exists_landed hforward hlead hrest hclear
  have hsix : ∀ x ∈ es, 6 ∈ x.walk.ids := by decide
  have hanswer : answer = some 6 := by
    refine (hlanded.least 6).mpr ⟨⟨⟨by decide, hsix⟩, by decide⟩, fun other hother => ?_⟩
    rcases hawaited other hother with rfl | rfl <;> decide
  subst hanswer
  have hsim := simulation_tracks 1
  exact ⟨⟨hforward, hlead, hrest, hclear⟩, parts, hlanded, hlanded.bounded hsim, hlanded.shown hsim 6 rfl⟩

end Cursor
end FileIndex
