import FileIndex.Proofs.Encoding.Sets
import FileIndex.Proofs.Tree.Shape
import FileIndex.Store.Postings

/-!
# Walking down the tree

The walk from an id visits the ids that are below it. Its bound is never reached: every id that is put on the stack
takes a byte in a list of children. This asks nothing of the lists of children but that they can be read: an id may be
listed below many, and below itself. In a tree the walk finds what is below the id, unless there are too many levels.

* `Store.IsChild`, `length_le_childBytes`: what is directly below an id, and how many such ids there are.
* `VisitStep`, `Walking`: how one id is visited, and what holds in the middle of any walk. `visit_induct`: what is to be
  shown of a walk is shown for one visit.
* `visit_walk`, `subtree_walk`: the walk ends, visits no id twice, and visits each after one that it is listed below.
* `Visiting`, `Visiting.step`: what else holds in the middle of a walk that is not too deep, and how one id keeps it.
* `visit_spec`: the loop answers the stack and all that is below it.
* `ShowsTree.subtree`: the ids of the paths that begin so.
-/

namespace FileIndex

theorem IdList.length_decodeAfter_le {previous : DocId} {bs : Bytes} {ids : List DocId}
    (h : decodeAfter previous bs = .ok ids) : ids.length ≤ bs.length := by
  fun_induction decodeAfter previous bs generalizing ids with
  | case1 =>
    cases h
    exact Nat.zero_le _
  | case2 => cases h
  | case3 => cases h
  | case4 previous bs _ gap rest hread _ _ ih =>
    cases hrest : decodeAfter (previous + gap) rest with
    | error cause =>
      rw [hrest] at h
      cases h
    | ok ids' =>
      rw [hrest] at h
      cases h
      have hle := ih hrest
      have hshort := Varint.decode_shortens hread
      rw [List.length_cons]
      omega
  | case5 => cases h

theorem IdList.length_decode_le {bs : Bytes} {ids : List DocId} (h : decode bs = .ok ids) : ids.length ≤ bs.length := by
  unfold decode at h
  split at h
  · cases h
    exact Nat.zero_le _
  · cases hread : Varint.decode bs with
    | error cause =>
      rw [hread] at h
      cases h
    | ok first =>
      obtain ⟨first, rest⟩ := first
      rw [hread] at h
      cases hrest : decodeAfter first rest with
      | error cause =>
        simp only [hrest] at h
        cases h
      | ok ids' =>
        simp only [hrest] at h
        cases h
        have hle := length_decodeAfter_le hrest
        have hshort := Varint.decode_shortens hread
        rw [List.length_cons]
        omega

namespace Store

/-- A list of children that is answered is stored, or empty. -/
theorem childrenOf_cases {s : Store} {id : DocId} {ids : List DocId} (h : s.childrenOf id = .ok ids) :
    ids = [] ∨ ∃ value, s.children.find? (DocId.toKey id) = some value ∧ IdList.decode value = .ok ids := by
  unfold childrenOf at h
  cases hfind : s.children.find? (DocId.toKey id) with
  | none =>
    rw [hfind] at h
    cases h
    exact .inl rfl
  | some value =>
    rw [hfind] at h
    cases hread : IdList.decode value with
    | error cause =>
      simp only [hread] at h
      cases h
    | ok ids' =>
      simp only [hread] at h
      cases h
      exact .inr ⟨value, rfl, hread⟩

theorem ascending_childrenOf {s : Store} {id : DocId} {ids : List DocId} (h : s.childrenOf id = .ok ids) :
    ids.Pairwise (· < ·) := by
  rcases childrenOf_cases h with rfl | ⟨_, _, hread⟩
  · exact .nil
  · exact IdList.ascends_of_decode hread

/-- The one id is directly below the other. -/
def IsChild (s : Store) (parent id : DocId) : Prop := id ≠ 0 ∧ ∃ ids, s.childrenOf parent = .ok ids ∧ id ∈ ids

/-- All ids in lists of children. -/
def listedIds (s : Store) : List DocId := s.children.entries.flatMap fun e => readIds e.2

theorem length_listedIds_le (s : Store) : s.listedIds.length ≤ s.childBytes := by
  unfold listedIds childBytes
  induction s.children.entries with
  | nil => exact Nat.zero_le _
  | cons e es ih =>
    have hle : (readIds e.2).length ≤ e.2.length := by
      unfold readIds
      cases hread : IdList.decode e.2 with
      | error cause => exact Nat.zero_le _
      | ok ids => exact IdList.length_decode_le hread
    rw [List.flatMap_cons, List.length_append, List.foldr_cons]
    omega

theorem IsChild.mem_listedIds {s : Store} {parent id : DocId} (h : s.IsChild parent id) : id ∈ s.listedIds := by
  obtain ⟨_, ids, hids, hmem⟩ := h
  rcases childrenOf_cases hids with rfl | ⟨value, hfind, hread⟩
  · cases hmem
  · refine List.mem_flatMap.mpr ⟨_, ByteMap.find?_eq_some_iff.mp hfind, ?_⟩
    simp only [readIds, hread]
    exact hmem

/-- Different ids below others are no more than there are bytes. -/
theorem length_le_childBytes {s : Store} {start : DocId} {ids : List DocId} (hnodup : ids.Nodup)
    (h : ∀ id ∈ ids, id = start ∨ ∃ parent, s.IsChild parent id) : ids.length ≤ s.childBytes + 1 := by
  have hsubset : ids ⊆ start :: s.listedIds := by
    intro id hid
    rcases h id hid with rfl | ⟨parent, hchild⟩
    · exact List.mem_cons_self
    · exact List.mem_cons_of_mem start hchild.mem_listedIds
  have hle := (List.subperm_of_subset hnodup hsubset).length_le
  have hlisted := s.length_listedIds_le
  rw [List.length_cons] at hle
  omega

section Visit

variable {s : Store} {start id : DocId} {level : Nat} {ids seen seen' : List DocId} {stack stack' : List (DocId × Nat)}
  {Q : DocId → Nat → Prop}

/-! ### One id -/

/-- The ids that are put on the stack. -/
def fresh (seen ids : List DocId) : List DocId := ids.filter fun child => child ≠ 0 ∧ child ∉ seen

theorem mem_fresh {child : DocId} (hids : s.childrenOf id = .ok ids) :
    child ∈ fresh seen ids ↔ s.IsChild id child ∧ child ∉ seen := by
  simp only [fresh, List.mem_filter, decide_eq_true_eq]
  constructor
  · rintro ⟨hmem, hne, hnew⟩
    exact ⟨⟨hne, ids, hids, hmem⟩, hnew⟩
  · rintro ⟨⟨hne, ids', hids', hmem⟩, hnew⟩
    rw [hids] at hids'
    cases hids'
    exact ⟨hmem, hne, hnew⟩

/-- The stack after an id was visited that has these ids directly below it. -/
def pushed (seen ids : List DocId) (level : Nat) (stack : List (DocId × Nat)) : List (DocId × Nat) :=
  ((fresh seen ids).reverse.map fun child => (child, level + 1)) ++ stack

theorem mem_pushed {x : DocId × Nat} :
    x ∈ pushed seen ids level stack ↔ (x.1 ∈ fresh seen ids ∧ x.2 = level + 1) ∨ x ∈ stack := by
  obtain ⟨id, level'⟩ := x
  simp [pushed, eq_comm]

theorem map_pushed : (pushed seen ids level stack).map (·.1) = (fresh seen ids).reverse ++ stack.map (·.1) := by
  simp [pushed, Function.comp_def]

/-- An id is visited. What is directly below it is put on the stack as far as it was not seen, unless this is the last
level that is followed. -/
inductive VisitStep (s : Store) (id : DocId) (level : Nat) (seen : List DocId) (stack : List (DocId × Nat)) :
    List DocId → List (DocId × Nat) → Prop
  | deep : maxDepth ≤ level → VisitStep s id level seen stack seen stack
  | down {ids : List DocId} : level < maxDepth → s.childrenOf id = .ok ids →
    VisitStep s id level seen stack (seen ++ fresh seen ids) (pushed seen ids level stack)

theorem VisitStep.visit_cons (h : VisitStep s id level seen stack seen' stack') (bound : Nat) :
    s.visit (bound + 1) seen ((id, level) :: stack) = (do return id :: (← s.visit bound seen' stack')) := by
  cases h with
  | deep hdeep => rw [visit, if_pos hdeep]
  | down hlevel hids =>
    rw [visit, if_neg (by omega)]
    simp only [hids]
    rfl

theorem exists_visitStep (hread : ∀ parent, ∃ ids, s.childrenOf parent = .ok ids) (id : DocId) (level : Nat)
    (seen : List DocId) (stack : List (DocId × Nat)) :
    ∃ seen' stack', VisitStep s id level seen stack seen' stack' := by
  obtain ⟨ids, hids⟩ := hread id
  by_cases hlevel : maxDepth ≤ level
  · exact ⟨seen, stack, .deep hlevel⟩
  · exact ⟨_, _, .down (by omega) hids⟩

/-! ### Any walk -/

/-- In the middle of a walk: the ids that were seen are different ones below others, and the stack has some of
them, each of these once. -/
structure Walking (s : Store) (start : DocId) (seen : List DocId) (stack : List (DocId × Nat)) : Prop where
  nodup : seen.Nodup
  reached : ∀ id ∈ seen, id = start ∨ ∃ parent, s.IsChild parent id
  apart : (stack.map (·.1)).Nodup
  known : ∀ x ∈ stack, x.1 ∈ seen

theorem walking_start (s : Store) (start : DocId) (level : Nat) : Walking s start [start] [(start, level)] :=
  ⟨List.nodup_singleton start, fun _ hid => .inl (List.mem_singleton.mp hid), List.nodup_singleton start,
    fun x hx => by rw [List.mem_singleton.mp hx]; exact List.mem_singleton_self start⟩

theorem bound_start (s : Store) (start : DocId) (level : Nat) :
    [(start, level)].length + (s.childBytes + 1 - [start].length) ≤ s.childBytes + 1 := by
  simp only [List.length_singleton]
  omega

theorem nodup_fresh (hids : s.childrenOf id = .ok ids) (seen : List DocId) : (fresh seen ids).Nodup :=
  ((ascending_childrenOf hids).imp UInt64.ne_of_lt).filter _

theorem Walking.down (h : Walking s start seen ((id, level) :: stack)) (hids : s.childrenOf id = .ok ids) :
    Walking s start (seen ++ fresh seen ids) (pushed seen ids level stack) := by
  have hnew : ∀ child ∈ fresh seen ids, child ∉ seen := fun child hchild => ((mem_fresh hids).mp hchild).2
  obtain ⟨_, hrest⟩ := List.forall_mem_cons.mp h.known
  refine ⟨?_, fun other hother => ?_, ?_, fun x hx => ?_⟩
  · rw [List.nodup_append]
    refine ⟨h.nodup, nodup_fresh hids seen, ?_⟩
    rintro other hother _ hfresh rfl
    exact hnew other hfresh hother
  · rcases List.mem_append.mp hother with hother | hother
    · exact h.reached other hother
    · exact .inr ⟨id, ((mem_fresh hids).mp hother).1⟩
  · rw [map_pushed, List.nodup_append, List.nodup_reverse]
    refine ⟨nodup_fresh hids seen, (List.nodup_cons.mp h.apart).2, ?_⟩
    rintro other hother _ hwaits rfl
    obtain ⟨x, hx, rfl⟩ := List.mem_map.mp hwaits
    exact hnew x.1 (List.mem_reverse.mp hother) (hrest x hx)
  · rcases mem_pushed.mp hx with ⟨hchild, _⟩ | hx
    · exact List.mem_append_right seen hchild
    · exact List.mem_append_left _ (hrest x hx)

/-- One id is visited in any walk. -/
theorem Walking.step (h : Walking s start seen ((id, level) :: stack))
    (hstep : VisitStep s id level seen stack seen' stack') : Walking s start seen' stack' := by
  cases hstep with
  | deep => exact ⟨h.nodup, h.reached, (List.nodup_cons.mp h.apart).2, (List.forall_mem_cons.mp h.known).2⟩
  | down _ hids => exact h.down hids

/-- Each id takes a step at most, so that the bound is not reached. -/
theorem Walking.bound_step {bound : Nat} (h : Walking s start seen' stack')
    (hstep : VisitStep s id level seen stack seen' stack')
    (hbound : ((id, level) :: stack).length + (s.childBytes + 1 - seen.length) ≤ bound + 1) :
    stack'.length + (s.childBytes + 1 - seen'.length) ≤ bound := by
  have hle := length_le_childBytes h.nodup h.reached
  rw [List.length_cons] at hbound
  cases hstep with
  | deep => omega
  | down =>
    simp only [pushed, List.length_append, List.length_map, List.length_reverse] at hle ⊢
    omega

/-- Only what was seen waits or is left out. -/
theorem VisitStep.seen_or_waits (hstep : VisitStep s id level seen stack seen' stack') {other : DocId}
    (hother : other ∈ stack'.map (·.1) ∨ other ∉ seen') : other ∈ stack.map (·.1) ∨ other ∉ seen := by
  cases hstep with
  | deep => exact hother
  | down _ hids =>
    rw [map_pushed, List.mem_append, List.mem_reverse, List.mem_append, not_or] at hother
    rcases hother with (hchild | hwaits) | ⟨hnew, _⟩
    · exact .inr ((mem_fresh hids).mp hchild).2
    · exact .inl hwaits
    · exact .inr hnew

/-- What waits after the id was visited waited before, or is directly below it. -/
theorem VisitStep.waits_or_isChild (hstep : VisitStep s id level seen stack seen' stack') {x : DocId × Nat}
    (hx : x ∈ stack') : x ∈ stack ∨ s.IsChild id x.1 := by
  cases hstep with
  | deep => exact .inl hx
  | down _ hids =>
    rcases mem_pushed.mp hx with ⟨hchild, _⟩ | hx
    · exact .inr ((mem_fresh hids).mp hchild).1
    · exact .inl hx

/-- A walk ends, wherever its bound is. What holds when nothing waits, and before a visit if it holds after it, holds of
the walk. -/
theorem visit_induct {P : List DocId → List (DocId × Nat) → List DocId → Prop}
    (hread : ∀ parent, ∃ ids, s.childrenOf parent = .ok ids) (hnil : ∀ seen, P seen [] [])
    (hcons : ∀ {id level seen stack seen' stack' out}, Walking s start seen ((id, level) :: stack) →
      VisitStep s id level seen stack seen' stack' → P seen' stack' out → P seen ((id, level) :: stack) (id :: out))
    {bound : Nat} (h : Walking s start seen stack) (hbound : stack.length + (s.childBytes + 1 - seen.length) ≤ bound) :
    ∃ out, (∀ bound', bound ≤ bound' → s.visit bound' seen stack = .ok out) ∧ P seen stack out := by
  induction bound generalizing seen stack with
  | zero =>
    have hempty : stack = [] := List.length_eq_zero_iff.mp (by omega)
    subst hempty
    exact ⟨[], fun bound' _ => by cases bound' <;> rfl, hnil seen⟩
  | succ bound ih =>
    cases stack with
    | nil => exact ⟨[], fun bound' _ => by cases bound' <;> rfl, hnil seen⟩
    | cons x stack =>
      obtain ⟨id, level⟩ := x
      obtain ⟨seen', stack', hstep⟩ := exists_visitStep hread id level seen stack
      have hnext := h.step hstep
      obtain ⟨out, hout, hrest⟩ := ih hnext (hnext.bound_step hstep hbound)
      refine ⟨id :: out, fun bound' hle => ?_, hcons h hstep hrest⟩
      obtain ⟨bound', rfl⟩ := Nat.exists_eq_add_one_of_ne_zero (Nat.ne_zero_of_lt hle)
      rw [hstep.visit_cons, hout bound' (Nat.le_of_succ_le_succ hle)]
      rfl

/-- Each of the ids is the start, or comes after one that it is directly below. -/
def Led (s : Store) (start : DocId) (before : List DocId) : List DocId → Prop
  | [] => True
  | id :: rest => (id = start ∨ ∃ parent ∈ before, s.IsChild parent id) ∧ Led s start (before ++ [id]) rest

theorem Led.of_append {before ids ids' : List DocId} (h : Led s start before (ids ++ id :: ids')) :
    id = start ∨ ∃ parent ∈ before ++ ids, s.IsChild parent id := by
  induction ids generalizing before with
  | nil => simpa only [List.append_nil] using h.1
  | cons first ids ih => simpa only [List.append_assoc, List.singleton_append] using ih h.2

/-- The walk ends, visits nothing twice and nothing that was seen but what waits, and comes to each id from one
above it. -/
theorem visit_walk (hread : ∀ parent, ∃ ids, s.childrenOf parent = .ok ids) {bound : Nat} (before : List DocId)
    (h : Walking s start seen stack) (hbound : stack.length + (s.childBytes + 1 - seen.length) ≤ bound)
    (hled : ∀ x ∈ stack, x.1 = start ∨ ∃ parent ∈ before, s.IsChild parent x.1) :
    ∃ out, (∀ bound', bound ≤ bound' → s.visit bound' seen stack = .ok out) ∧ out.Nodup ∧
      (∀ id ∈ out, id ∈ stack.map (·.1) ∨ id ∉ seen) ∧ Led s start before out := by
  refine (visit_induct (P := fun seen stack out => ∀ before,
      (∀ x ∈ stack, x.1 = start ∨ ∃ parent ∈ before, s.IsChild parent x.1) →
      out.Nodup ∧ (∀ id ∈ out, id ∈ stack.map (·.1) ∨ id ∉ seen) ∧ Led s start before out) hread
    (fun _ _ _ => ⟨.nil, nofun, trivial⟩) ?_ h hbound).imp fun out hwalk => ⟨hwalk.1, hwalk.2 before hled⟩
  intro id level seen stack seen' stack' out h hstep ih before hled
  obtain ⟨hfirst, hrest⟩ := List.forall_mem_cons.mp hled
  obtain ⟨hnodup, hsource, hrestled⟩ := ih (before ++ [id]) fun x hx => by
    rcases hstep.waits_or_isChild hx with hwaits | hchild
    · exact (hrest x hwaits).imp_right fun ⟨parent, hparent, hbelow⟩ => ⟨parent, List.mem_append_left _ hparent, hbelow⟩
    · exact .inr ⟨id, List.mem_append_right before (List.mem_singleton_self id), hchild⟩
  have hself : id ∉ out := by
    intro hid
    obtain ⟨hnew, _⟩ := List.nodup_cons.mp h.apart
    exact (hstep.seen_or_waits (hsource id hid)).elim hnew fun hunseen => hunseen (h.known _ List.mem_cons_self)
  refine ⟨List.nodup_cons.mpr ⟨hself, hnodup⟩, fun other hother => ?_, hfirst, hrestled⟩
  rw [List.map_cons, List.mem_cons]
  rcases List.mem_cons.mp hother with rfl | hother
  · exact .inl (.inl rfl)
  · exact (hstep.seen_or_waits (hsource other hother)).imp_left .inr

/-- The walk from an id ends wherever its bound is, and visits no id twice. -/
theorem subtree_walk (hread : ∀ parent, ∃ ids, s.childrenOf parent = .ok ids) (id : DocId) :
    ∃ out, s.subtree id = .ok out ∧ (∀ bound, s.childBytes + 1 ≤ bound → s.visit bound [id] [(id, 0)] = .ok out) ∧
      out.Nodup ∧ Led s id [] out := by
  obtain ⟨out, hout, hnodup, _, hled⟩ := visit_walk hread [] (walking_start s id 0) (bound_start s id 0) fun x hx =>
    .inl (by rw [List.mem_singleton.mp hx])
  exact ⟨out, hout _ (Nat.le_refl _), hout, hnodup, hled⟩

/-! ### A walk that is not too deep -/

/-- In the middle of a visit, what waits is as told, and what is directly below the others was seen. -/
structure Visiting (s : Store) (start : DocId) (Q : DocId → Nat → Prop) (seen : List DocId)
    (stack : List (DocId × Nat)) : Prop extends Walking s start seen stack where
  waiting : ∀ x ∈ stack, Q x.1 x.2
  closed : ∀ id ∈ seen, id ∉ stack.map (·.1) → ∀ child, s.IsChild id child → child ∈ seen

/-- One id is visited. -/
theorem Visiting.step (h : Visiting s start Q seen ((id, level) :: stack))
    (hbelow : ∀ child, s.IsChild id child → Q child (level + 1)) (hids : s.childrenOf id = .ok ids) :
    Visiting s start Q (seen ++ fresh seen ids) (pushed seen ids level stack) := by
  obtain ⟨_, hrest⟩ := List.forall_mem_cons.mp h.waiting
  refine ⟨h.down hids, fun x hx => ?_, fun other hother hleft child hchild => ?_⟩
  · rcases mem_pushed.mp hx with ⟨hchild, hlevel⟩ | hx
    · rw [hlevel]
      exact hbelow x.1 ((mem_fresh hids).mp hchild).1
    · exact hrest x hx
  · rw [map_pushed, List.mem_append, List.mem_reverse, not_or] at hleft
    have hold := (List.mem_append.mp hother).resolve_right hleft.1
    -- the visited id is closed by what is pushed, any other was closed before
    by_cases hsame : other = id
    · subst hsame
      by_cases hnew : child ∈ seen
      · exact List.mem_append_left _ hnew
      · exact List.mem_append_right seen ((mem_fresh hids).mpr ⟨hchild, hnew⟩)
    · refine List.mem_append_left _ (h.closed other hold ?_ child hchild)
      rw [List.map_cons, List.mem_cons, not_or]
      exact ⟨hsame, hleft.2⟩

variable (hs : s.TreeReadable)
  (hQ : ∀ id level, Q id level → level < maxDepth ∧ ∀ child, s.IsChild id child → Q child (level + 1))

include hs hQ

theorem visit_spec {bound : Nat} (h : Visiting s start Q seen stack)
    (hbound : stack.length + (s.childBytes + 1 - seen.length) ≤ bound) :
    ∃ out, s.visit bound seen stack = .ok out ∧ (∀ x ∈ stack, x.1 ∈ out) ∧ (∀ id ∈ out, ∃ level, Q id level) ∧
      ∀ id, id ∈ seen ∨ id ∈ out → ∀ child, s.IsChild id child → child ∈ seen ∨ child ∈ out := by
  refine (visit_induct (P := fun seen stack out => Visiting s start Q seen stack →
      (∀ x ∈ stack, x.1 ∈ out) ∧ (∀ id ∈ out, ∃ level, Q id level) ∧
        ∀ id, id ∈ seen ∨ id ∈ out → ∀ child, s.IsChild id child → child ∈ seen ∨ child ∈ out) hs.childrenRead
    (fun seen h => ?_) ?_ h.toWalking hbound).imp fun out hvisit => ⟨hvisit.1 bound (Nat.le_refl bound), hvisit.2 h⟩
  · refine ⟨nofun, nofun, ?_⟩
    rintro id (hid | hid) child hchild
    · exact .inl (h.closed id hid List.not_mem_nil child hchild)
    · cases hid
  · intro id level seen stack seen' stack' out _ hstep ih h
    have hknown : id ∈ seen := h.known (id, level) List.mem_cons_self
    have hlevel : Q id level := h.waiting (id, level) List.mem_cons_self
    obtain ⟨hshallow, hbelow⟩ := hQ id level hlevel
    cases hstep with
    | deep hdeep => exact absurd hshallow (Nat.not_lt.mpr hdeep)
    | @down ids _ hids =>
      obtain ⟨hin, hsound, hdown⟩ := ih (h.step hbelow hids)
      refine ⟨fun x hx => ?_, fun other hother => ?_, fun other hother child hchild => ?_⟩
      · rcases List.mem_cons.mp hx with rfl | hx
        · exact List.mem_cons_self
        · exact List.mem_cons_of_mem id (hin x (mem_pushed.mpr (.inr hx)))
      · rcases List.mem_cons.mp hother with rfl | hother
        · exact ⟨level, hlevel⟩
        · exact hsound other hother
      · have hout' : other ∈ seen ++ fresh seen ids ∨ other ∈ out := by
          rcases hother with hother | hother
          · exact .inl (List.mem_append_left _ hother)
          · rcases List.mem_cons.mp hother with rfl | hother
            · exact .inl (List.mem_append_left _ hknown)
            · exact .inr hother
        rcases hdown other hout' child hchild with hchild | hchild
        · rcases List.mem_append.mp hchild with hchild | hchild
          · exact .inl hchild
          · exact .inr (List.mem_cons_of_mem id (hin (child, level + 1) (mem_pushed.mpr (.inl ⟨hchild, rfl⟩))))
        · exact .inr (List.mem_cons_of_mem id hchild)

/-- The subtree of an id has the id, and with each id what is directly below it. -/
theorem subtree_spec {id : DocId} (hid : Q id 0) :
    ∃ out, s.subtree id = .ok out ∧ id ∈ out ∧ (∀ other ∈ out, ∃ level, Q other level) ∧
      ∀ other ∈ out, ∀ child, s.IsChild other child → child ∈ out := by
  have hstart : Visiting s id Q [id] [(id, 0)] :=
    ⟨walking_start s id 0, fun x hx => by rw [List.mem_singleton.mp hx]; exact hid,
      fun other hother hleft => absurd hother hleft⟩
  obtain ⟨out, hout, hin, hsound, hdown⟩ := visit_spec hs hQ hstart (bound_start s id 0)
  have hself : id ∈ out := hin _ (List.mem_singleton_self _)
  refine ⟨out, hout, hself, hsound, fun other hother child hchild => ?_⟩
  rcases hdown other (.inr hother) child hchild with hchild | hchild
  · exact List.mem_singleton.mp hchild ▸ hself
  · exact hchild

end Visit

section Shown

variable {r : Naming} {P : List Bytes → Prop} {s : Store} (h : ShowsTree r P s)

include h

theorem ShowsTree.isChild_iff {parent child : DocId} :
    s.IsChild parent child ↔
      ∃ name above, P (name :: above) ∧ parent = r.idOf above ∧ child = r.idOf (name :: above) := by
  constructor
  · rintro ⟨_, ids, hids, hmem⟩
    rcases childrenOf_cases hids with rfl | ⟨value, hfind, hread⟩
    · cases hmem
    · obtain ⟨above, ids', hids', _, hkey, rfl⟩ := (h.children.rows _ _).mp hfind
      cases (IdList.decode_encode hids'.1).symm.trans hread
      obtain ⟨name, hnames, hchild⟩ := (hids'.2 child).mp hmem
      exact ⟨name, above, hnames, DocId.toKey_inj.mp hkey, hchild⟩
  · rintro ⟨name, above, hnames, rfl, rfl⟩
    have hknown := h.folders.known hnames
    obtain ⟨ids, hids⟩ := h.children.finite above
    refine ⟨Naming.idOf_ne_zero (List.cons_ne_nil name above) hknown, ids, ?_, (hids.2 _).mpr ⟨name, hnames, rfl⟩⟩
    exact h.children.childrenOf h.folders.known (hknown.of_suffix (List.suffix_cons name above)) hids

/-- In the tree of a set of paths, the subtree of an id is that of the paths that go through it. -/
theorem ShowsTree.subtree (hdepth : ∀ names, P names → names.length ≤ maxDepth) {id : DocId} (hid : id ≠ 0) :
    ∃ out, s.subtree id = .ok out ∧ 0 ∉ out ∧
      ∀ names, P names → (r.idOf names ∈ out ↔ ∃ top, top ≠ [] ∧ top <:+ names ∧ r.idOf top = id) := by
  -- a level is less than the number of names, so that the limit of levels is not reached
  let Q : DocId → Nat → Prop := fun other level => (other = id ∧ level = 0) ∨
    ∃ names top, P names ∧ top ≠ [] ∧ top <:+ names ∧ r.idOf top = id ∧ other = r.idOf names ∧ level < names.length
  have hQ : ∀ other level, Q other level → level < maxDepth ∧ ∀ child, s.IsChild other child → Q child (level + 1) := by
    rintro other level (⟨rfl, rfl⟩ | ⟨names, top, hnames, hne, hsuffix, htop, rfl, hlevel⟩)
    · refine ⟨by decide, fun child hchild => ?_⟩
      obtain ⟨name, above, hbelow, habove, rfl⟩ := (h.isChild_iff).mp hchild
      have hne : above ≠ [] := by
        rintro rfl
        exact hid habove
      refine .inr ⟨name :: above, above, hbelow, hne, List.suffix_cons name above, habove.symm, rfl, ?_⟩
      have hlength := List.length_pos_iff.mpr hne
      rw [List.length_cons]
      omega
    · have hle := hdepth names hnames
      refine ⟨by omega, fun child hchild => ?_⟩
      obtain ⟨name, above, hbelow, habove, rfl⟩ := (h.isChild_iff).mp hchild
      have hknown := (h.folders.known hbelow).of_suffix (List.suffix_cons name above)
      have hsame := (Naming.idOf_inj (h.folders.known hnames) hknown).mp habove
      subst hsame
      refine .inr ⟨name :: names, top, hbelow, hne, hsuffix.trans (List.suffix_cons name names), htop, rfl, ?_⟩
      rw [List.length_cons]
      omega
  obtain ⟨out, hout, hself, hsound, hdown⟩ := subtree_spec h.treeReadable hQ (.inl ⟨rfl, rfl⟩ : Q id 0)
  refine ⟨out, hout, fun hzero => ?_, fun names hnames => ⟨fun hmem => ?_, ?_⟩⟩
  · obtain ⟨level, ⟨heq, _⟩ | ⟨names, _, hnames, _, _, _, heq, hlevel⟩⟩ := hsound 0 hzero
    · exact hid heq.symm
    · exact Naming.idOf_ne_zero (List.length_pos_iff.mp (by omega)) (h.folders.known hnames) heq.symm
  · have hne : names ≠ [] := by
      rintro rfl
      exact h.folders.ne_nil hnames
    obtain ⟨level, ⟨heq, _⟩ | ⟨names', top, hnames', hne', hsuffix, htop, heq, _⟩⟩ := hsound _ hmem
    · exact ⟨names, hne, List.suffix_refl names, heq⟩
    · have hsame := (Naming.idOf_inj (h.folders.known hnames) (h.folders.known hnames')).mp heq
      exact ⟨top, hne', hsame ▸ hsuffix, htop⟩
  · rintro ⟨top, hne, hsuffix, htop⟩
    -- downwards from the top of the subtree
    induction names with
    | nil => exact absurd (List.suffix_nil.mp hsuffix) hne
    | cons name above ih =>
      rcases List.suffix_cons_iff.mp hsuffix with rfl | hsuffix
      · exact htop ▸ hself
      · have habove : above ≠ [] := by
          rintro rfl
          exact hne (List.suffix_nil.mp hsuffix)
        have hparent := ih (h.folders.up hnames habove) hsuffix
        exact hdown _ hparent _ ((h.isChild_iff).mpr ⟨name, above, hnames, rfl, rfl⟩)

end Shown

end Store
end FileIndex
