import FileIndex.Proofs.Tree.Links
import FileIndex.Proofs.Tree.Subtree
import Mathlib.Data.Set.Card
import Mathlib.Logic.Relation

/-!
# How far the walk comes

A walk comes to each id on some way down from its start, which is not always a shortest one, and the limit of
levels counts along that way. So an id can be left without what is below it although it is near the start. That takes a
way on which as many different ids are as there are levels: where fewer ids can be reached at all, none is missed. In a
tree there is one way to each id, and the limit cuts off just what is too far down.

* `Store.WayDown`: the ids of a way down, no id on it twice.
* `Descending`, `Descending.step`: in the middle of a walk each id that waits has a way of the length its level says.
* `visit_ways`: each id that is visited has such a way, and what is below it was seen unless the way is too long.
* `Store.Rises`, `WayDown.length_le`: going up step by step; in a tree no way down is longer than the way up.
* `mem_of_reached`, `mem_iff_rises`: what the walk finds if few ids can be reached, and in a tree.
* `subtreeIds_spec`: the ids answered for any lists of children that can be read.
-/

namespace FileIndex
namespace Store

/-- A way down from the start, the lowest id first: each is directly below the next one, and none is on it twice. -/
inductive WayDown (s : Store) (start : DocId) : DocId → List DocId → Prop
  | start : WayDown s start start [start]
  | down {id child : DocId} {ids : List DocId} : WayDown s start id ids → s.IsChild id child → child ∉ ids →
    WayDown s start child (child :: ids)

/-- The id comes to the other by so many steps, each to one that it is listed below. -/
def Rises (s : Store) (top : DocId) : (steps : Nat) → DocId → Prop
  | 0, id => id = top
  | steps + 1, id => ∃ parent, s.ListsBelow parent id ∧ s.Rises top steps parent

variable {s : Store} {start id child : DocId} {level : Nat} {ids seen seen' : List DocId}
  {stack stack' : List (DocId × Nat)}

namespace WayDown

theorem mem (h : s.WayDown start id ids) : id ∈ ids := by
  cases h with
  | start | down => exact List.mem_cons_self

theorem start_mem (h : s.WayDown start id ids) : start ∈ ids := by
  induction h with
  | start => exact List.mem_cons_self
  | down _ _ _ ih => exact List.mem_cons_of_mem _ ih

theorem nodup (h : s.WayDown start id ids) : ids.Nodup := by
  induction h with
  | start => exact List.nodup_singleton start
  | down _ _ hnew ih => exact List.nodup_cons.mpr ⟨hnew, ih⟩

theorem reached (h : s.WayDown start id ids) : ∀ x ∈ ids, Relation.ReflTransGen s.IsChild start x := by
  induction h with
  | start =>
    intro x hx
    rw [List.mem_singleton.mp hx]
  | down hway hchild _ ih =>
    intro x hx
    rcases List.mem_cons.mp hx with rfl | hx
    · exact (ih _ hway.mem).tail hchild
    · exact ih x hx

theorem rises (h : s.WayDown start id ids) : s.Rises start (ids.length - 1) id := by
  induction h with
  | start => rfl
  | @down id child ids hway hchild _ ih =>
    obtain ⟨_, hlists⟩ := hchild
    have hlength : (child :: ids).length - 1 = ids.length - 1 + 1 := by
      have hpos := List.length_pos_of_mem hway.mem
      rw [List.length_cons]
      omega
    rw [hlength]
    exact ⟨id, hlists, ih⟩

/-- Where nothing is listed below two ids, a way down is the way up turned round, up to where that first meets
the top. -/
theorem length_le (hone : ∀ x parent parent', s.ListsBelow parent x → s.ListsBelow parent' x → parent = parent')
    {steps : Nat} (h : s.WayDown start id ids) (hrises : s.Rises start steps id) : ids.length ≤ steps + 1 := by
  induction steps generalizing id ids with
  | zero =>
    cases h with
    | start => exact Nat.le_refl 1
    | down hway _ hnew =>
      cases hrises
      exact absurd hway.start_mem hnew
  | succ steps ih =>
    cases h with
    | start => exact Nat.le_add_left 1 (steps + 1)
    | @down above _ ids hway hchild =>
      obtain ⟨parent, hlists, hrest⟩ := hrises
      obtain ⟨_, hlists'⟩ := hchild
      have hsame : above = parent := hone id above parent hlists' hlists
      have hle := ih hway (hsame ▸ hrest)
      rw [List.length_cons]
      omega

end WayDown

/-! ### In the middle of a walk -/

/-- In the middle of a walk, each id that waits has a way down along ids that were seen. Its level is the number
of steps on that way. -/
structure Descending (s : Store) (start : DocId) (seen : List DocId) (stack : List (DocId × Nat)) : Prop
    extends Walking s start seen stack where
  way : ∀ x ∈ stack, x.2 ≤ maxDepth ∧ ∃ ids, s.WayDown start x.1 ids ∧ ids ⊆ seen ∧ ids.length = x.2 + 1

theorem descending_start (s : Store) (start : DocId) : Descending s start [start] [(start, 0)] := by
  refine ⟨walking_start s start 0, fun x hx => ?_⟩
  rw [List.mem_singleton.mp hx]
  exact ⟨Nat.zero_le maxDepth, [start], .start, List.Subset.refl _, rfl⟩

/-- One id is visited. -/
theorem Descending.step (h : Descending s start seen ((id, level) :: stack))
    (hstep : VisitStep s id level seen stack seen' stack') : Descending s start seen' stack' := by
  obtain ⟨⟨_, way, hway, hsubset, hlength⟩, hrest⟩ := List.forall_mem_cons.mp h.way
  refine ⟨h.toWalking.step hstep, fun x hx => ?_⟩
  cases hstep with
  | deep => exact hrest x hx
  | down hlevel hids =>
    rcases mem_pushed.mp hx with ⟨hfresh, hx⟩ | hx
    · obtain ⟨hchild, hnew⟩ := (mem_fresh hids).mp hfresh
      refine ⟨by omega, x.1 :: way, hway.down hchild fun hmem => hnew (hsubset hmem), ?_, ?_⟩
      · exact List.cons_subset.mpr ⟨List.mem_append_right seen hfresh, List.subset_append_of_subset_left _ hsubset⟩
      · rw [List.length_cons, hlength, hx]
    · obtain ⟨hle, ids, hids', hseen, hlength'⟩ := hrest x hx
      exact ⟨hle, ids, hids', List.subset_append_of_subset_left _ hseen, hlength'⟩

/-- After the visit of an id at a level that is followed, all that is directly below it was seen, and all that was seen
was seen before or waits. -/
theorem VisitStep.seen_spec (hstep : VisitStep s id level seen stack seen' stack') :
    (level < maxDepth → ∀ child, s.IsChild id child → child ∈ seen') ∧
      (∀ x ∈ seen', x ∈ seen ∨ x ∈ stack'.map (·.1)) ∧ ∀ x ∈ stack.map (·.1), x ∈ stack'.map (·.1) := by
  cases hstep with
  | deep hdeep => exact ⟨fun hlevel => absurd hlevel (Nat.not_lt.mpr hdeep), fun x hx => .inl hx, fun x hx => hx⟩
  | @down ids _ hids =>
    refine ⟨fun _ child hchild => ?_, fun x hx => ?_, fun x hx => ?_⟩
    · by_cases hnew : child ∈ seen
      · exact List.mem_append_left _ hnew
      · exact List.mem_append_right seen ((mem_fresh hids).mpr ⟨hchild, hnew⟩)
    · rw [map_pushed, List.mem_append, List.mem_reverse]
      exact (List.mem_append.mp hx).imp_right .inl
    · rw [map_pushed]
      exact List.mem_append_right _ hx

/-- Each id that is visited has a way down along ids seen or visited. If that way is not as long as can be, what
is directly below the id was seen or visited too. -/
theorem visit_ways (hread : ∀ parent, ∃ ids, s.childrenOf parent = .ok ids) {bound : Nat}
    (h : Descending s start seen stack) (hbound : stack.length + (s.childBytes + 1 - seen.length) ≤ bound) :
    ∃ out, s.visit bound seen stack = .ok out ∧ (∀ x ∈ stack.map (·.1), x ∈ out) ∧
      ∀ x ∈ out, ∃ ids, s.WayDown start x ids ∧ (∀ y ∈ ids, y ∈ seen ∨ y ∈ out) ∧ ids.length ≤ maxDepth + 1 ∧
        (ids.length ≤ maxDepth → ∀ child, s.IsChild x child → child ∈ seen ∨ child ∈ out) := by
  refine (visit_induct (P := fun seen stack out => Descending s start seen stack →
      (∀ x ∈ stack.map (·.1), x ∈ out) ∧
        ∀ x ∈ out, ∃ ids, s.WayDown start x ids ∧ (∀ y ∈ ids, y ∈ seen ∨ y ∈ out) ∧ ids.length ≤ maxDepth + 1 ∧
          (ids.length ≤ maxDepth → ∀ child, s.IsChild x child → child ∈ seen ∨ child ∈ out)) hread
    (fun _ _ => ⟨nofun, nofun⟩) ?_ h.toWalking hbound).imp fun out hwalk =>
      ⟨hwalk.1 bound (Nat.le_refl bound), hwalk.2 h⟩
  intro id level seen stack seen' stack' out _ hstep ih h
  obtain ⟨hin, hways⟩ := ih (h.step hstep)
  obtain ⟨hbelow, hseen, hwaits⟩ := hstep.seen_spec
  -- what the rest of the walk has seen, this one has seen or visits
  have hlater : ∀ y, y ∈ seen' ∨ y ∈ out → y ∈ seen ∨ y ∈ id :: out := by
    rintro y (hy | hy)
    · exact (hseen y hy).imp_right fun hy => List.mem_cons_of_mem id (hin y hy)
    · exact .inr (List.mem_cons_of_mem id hy)
  refine ⟨fun y hy => ?_, fun y hy => ?_⟩
  · rw [List.map_cons] at hy
    rcases List.mem_cons.mp hy with rfl | hy
    · exact List.mem_cons_self
    · exact List.mem_cons_of_mem id (hin y (hwaits y hy))
  · rcases List.mem_cons.mp hy with rfl | hy
    · obtain ⟨hle, ids, hway, hsubset, hlength⟩ := h.way _ List.mem_cons_self
      refine ⟨ids, hway, fun z hz => .inl (hsubset hz), by omega, fun hshort child hchild => ?_⟩
      exact hlater child (.inl (hbelow (by omega) child hchild))
    · obtain ⟨ids, hway, hsource, hle, hclosed⟩ := hways y hy
      exact ⟨ids, hway, fun z hz => hlater z (hsource z hz), hle, fun hshort child hchild =>
        hlater child (hclosed hshort child hchild)⟩

/-! ### The ids that are found -/

/-- Each of the ids has a way down along them, and with an id whose way is not as long as can be, all that is
directly below it is among them. -/
structure WalkedFrom (s : Store) (start : DocId) (ids : List DocId) : Prop where
  start_mem : start ∈ ids
  way : ∀ x ∈ ids, ∃ way, s.WayDown start x way ∧ way ⊆ ids ∧ way.length ≤ maxDepth + 1 ∧
    (way.length ≤ maxDepth → ∀ child, s.IsChild x child → child ∈ ids)

theorem subtree_walkedFrom (hread : ∀ parent, ∃ ids, s.childrenOf parent = .ok ids) (id : DocId) :
    ∃ out, s.subtree id = .ok out ∧ WalkedFrom s id out := by
  obtain ⟨out, hout, hin, hways⟩ := visit_ways hread (descending_start s id) (bound_start s id 0)
  have hself : id ∈ out := hin id (List.mem_singleton_self id)
  have hall : ∀ y, y ∈ [id] ∨ y ∈ out → y ∈ out := by
    rintro y (hy | hy)
    · rwa [List.mem_singleton.mp hy]
    · exact hy
  refine ⟨out, hout, hself, fun x hx => ?_⟩
  obtain ⟨ids, hway, hsource, hle, hclosed⟩ := hways x hx
  exact ⟨ids, hway, fun y hy => hall y (hsource y hy), hle, fun hshort child hchild =>
    hall child (hclosed hshort child hchild)⟩

namespace WalkedFrom

variable {out : List DocId} (h : WalkedFrom s start out)

include h

theorem reached (hid : id ∈ out) : Relation.ReflTransGen s.IsChild start id := by
  obtain ⟨_, hway, _⟩ := h.way id hid
  exact hway.reached id hway.mem

/-- A way that is as long as can be has all ids on it, if no more can be reached. -/
theorem mem_of_reached (hfew : {x | Relation.ReflTransGen s.IsChild start x}.encard ≤ ((maxDepth + 1 : Nat) : ℕ∞))
    (hid : Relation.ReflTransGen s.IsChild start id) : id ∈ out := by
  induction hid with
  | refl => exact h.start_mem
  | @tail parent child habove hchild ih =>
    obtain ⟨way, hway, hsubset, hle, hclosed⟩ := h.way parent ih
    by_cases hshort : way.length ≤ maxDepth
    · exact hclosed hshort child hchild
    · let reachable : Set DocId := {x | Relation.ReflTransGen s.IsChild start x}
      have hon : (way.toFinset : Set DocId) ⊆ reachable := fun x hx => hway.reached x (List.mem_toFinset.mp hx)
      have hcount : (way.toFinset : Set DocId).encard = ((maxDepth + 1 : Nat) : ℕ∞) := by
        rw [Set.encard_coe_eq_coe_finsetCard, List.toFinset_card_of_nodup hway.nodup]
        exact congrArg Nat.cast (by omega)
      have hall : (way.toFinset : Set DocId) = reachable :=
        way.toFinset.finite_toSet.eq_of_subset_of_encard_le hon (hcount ▸ hfew)
      have hmem : child ∈ (way.toFinset : Set DocId) := hall ▸ habove.tail hchild
      exact hsubset (List.mem_toFinset.mp hmem)

/-- In a tree the ids found are those from where few enough steps lead up to the start. -/
theorem mem_iff_rises (hzero : ∀ parent, ¬ s.ListsBelow parent 0)
    (hone : ∀ x parent parent', s.ListsBelow parent x → s.ListsBelow parent' x → parent = parent') :
    id ∈ out ↔ ∃ steps, steps ≤ maxDepth ∧ s.Rises start steps id := by
  constructor
  · intro hid
    obtain ⟨way, hway, _, hle, _⟩ := h.way id hid
    exact ⟨way.length - 1, by omega, hway.rises⟩
  · rintro ⟨steps, hsteps, hrises⟩
    induction steps generalizing id with
    | zero =>
      cases hrises
      exact h.start_mem
    | succ steps ih =>
      obtain ⟨parent, hlists, hrest⟩ := hrises
      obtain ⟨way, hway, _, _, hclosed⟩ := h.way parent (ih (by omega) hrest)
      have hle := hway.length_le hone hrest
      have hne : id ≠ 0 := by
        rintro rfl
        exact hzero parent hlists
      exact hclosed (by omega) id ⟨hne, hlists⟩

end WalkedFrom

theorem ne_zero_of_reached (hid : start ≠ 0) (h : Relation.ReflTransGen s.IsChild start id) : id ≠ 0 := by
  obtain rfl | ⟨_, _, hchild⟩ := Relation.ReflTransGen.cases_tail h
  · exact hid
  · exact hchild.1

/-- The ids below an id, whatever is listed below what. The walk ends by itself, as it answers the same under
any greater bound. Its answer is ascending, and has the id and otherwise ids that can be reached from it. It has all of
these if there is but one more than the levels that are followed, or fewer. If each id is listed below one other at
most, and 0 below none, it has those from where that many steps or fewer lead up to the id. -/
theorem subtreeIds_spec (s : Store) (id : DocId) (hread : ∀ parent, ∃ ids, s.childrenOf parent = .ok ids)
    (hid : id ≠ 0) :
    ∃ ids, s.subtreeIds id = .ok ids ∧
      (∀ bound, s.childBytes + 1 ≤ bound → (s.visit bound [id] [(id, 0)]).map Ascending.ofList = .ok ids) ∧
      ids.Pairwise (· < ·) ∧ id ∈ ids ∧ (∀ x ∈ ids, x ≠ 0 ∧ Relation.ReflTransGen s.IsChild id x) ∧
      ({x | Relation.ReflTransGen s.IsChild id x}.encard ≤ ((maxDepth + 1 : Nat) : ℕ∞) →
        ∀ x, Relation.ReflTransGen s.IsChild id x → x ∈ ids) ∧
      ((∀ parent, ¬ s.ListsBelow parent 0) →
        (∀ x parent parent', s.ListsBelow parent x → s.ListsBelow parent' x → parent = parent') →
        ∀ x, x ∈ ids ↔ ∃ steps, steps ≤ maxDepth ∧ s.Rises id steps x) := by
  obtain ⟨out, hout, hbound, _, _⟩ := subtree_walk hread id
  obtain ⟨_, hout', hwalked⟩ := subtree_walkedFrom hread id
  cases hout.symm.trans hout'
  have hmem : ∀ x, x ∈ Ascending.ofList out ↔ x ∈ out := fun x => Ascending.mem_ofList
  refine ⟨Ascending.ofList out, ?_, fun bound hle => ?_, Ascending.pairwise_ofList out, ?_, fun x hx => ?_,
    fun hfew x hx => ?_, fun hzero hone x => ?_⟩
  · rw [subtreeIds, if_neg hid, hout]
    rfl
  · rw [hbound bound hle]
    rfl
  · exact (hmem id).mpr hwalked.start_mem
  · have hreached := hwalked.reached ((hmem x).mp hx)
    exact ⟨ne_zero_of_reached hid hreached, hreached⟩
  · exact (hmem x).mpr (hwalked.mem_of_reached hfew hx)
  · rw [hmem]
    exact hwalked.mem_iff_rises hzero hone

/-- Below a cycle with 0 in it and an id listed twice; and in a tree. -/
theorem subtreeIds_spec_of_cycle :
    let cyclic : Store := (((∅ : Store).setChildren 1 [0, 2, 3]).setChildren 2 [1, 3]).setChildren 3 [2]
    let tree : Store := ((∅ : Store).setChildren 5 [6]).setChildren 6 [7, 8]
    (∀ parent, ∃ ids, cyclic.childrenOf parent = .ok ids) ∧ (∀ parent, ∃ ids, tree.childrenOf parent = .ok ids) ∧
      (∃ ids, cyclic.subtreeIds 1 = .ok ids ∧ ∀ x, x ∈ ids ↔ Relation.ReflTransGen cyclic.IsChild 1 x) ∧
      ∃ ids, tree.subtreeIds 5 = .ok ids ∧ ∀ x, x ∈ ids ↔ ∃ steps, steps ≤ maxDepth ∧ tree.Rises 5 steps x := by
  intro cyclic tree
  have hcyclic : ∀ parent, cyclic.childrenOf parent =
      .ok (if parent = 3 then [2] else if parent = 2 then [1, 3] else if parent = 1 then [0, 2, 3] else []) := by
    intro parent
    rw [childrenOf_setChildren (by decide), childrenOf_setChildren (by decide), childrenOf_setChildren (by decide)]
    split_ifs <;> rfl
  have htree : ∀ parent, tree.childrenOf parent =
      .ok (if parent = 6 then [7, 8] else if parent = 5 then [6] else []) := by
    intro parent
    rw [childrenOf_setChildren (by decide), childrenOf_setChildren (by decide)]
    split_ifs <;> rfl
  have hread : ∀ parent, ∃ ids, cyclic.childrenOf parent = .ok ids := fun parent => ⟨_, hcyclic parent⟩
  have hread' : ∀ parent, ∃ ids, tree.childrenOf parent = .ok ids := fun parent => ⟨_, htree parent⟩
  refine ⟨hread, hread', ?_, ?_⟩
  · obtain ⟨ids, hids, _, _, _, hreached, hall, _⟩ := subtreeIds_spec cyclic 1 hread (by decide)
    have hfew : {x | Relation.ReflTransGen cyclic.IsChild 1 x} ⊆ ({1, 2, 3} : Finset DocId) := by
      intro x hx
      induction hx with
      | refl => decide
      | tail _ hchild _ =>
        obtain ⟨hne, ids', hids', hmem⟩ := hchild
        rw [hcyclic] at hids'
        cases hids'
        rw [Finset.mem_coe, Finset.mem_insert, Finset.mem_insert, Finset.mem_singleton]
        grind
    have hcount : {x | Relation.ReflTransGen cyclic.IsChild 1 x}.encard ≤ ((maxDepth + 1 : Nat) : ℕ∞) := by
      refine (Set.encard_le_encard hfew).trans ?_
      rw [Set.encard_coe_eq_coe_finsetCard]
      exact Nat.cast_le.mpr (by decide)
    exact ⟨ids, hids, fun x => ⟨fun hx => (hreached x hx).2, hall hcount x⟩⟩
  · obtain ⟨ids, hids, _, _, _, _, _, hall⟩ := subtreeIds_spec tree 5 hread' (by decide)
    refine ⟨ids, hids, hall (fun parent hlists => ?_) fun x parent parent' hlists hlists' => ?_⟩
    · have hmem := (listsBelow_iff (htree parent)).mp hlists
      split_ifs at hmem <;> simp_all
    · have hmem := (listsBelow_iff (htree parent)).mp hlists
      have hmem' := (listsBelow_iff (htree parent')).mp hlists'
      split_ifs at hmem hmem' <;> simp_all

end Store
end FileIndex
