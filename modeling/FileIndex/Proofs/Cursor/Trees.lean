import FileIndex.Proofs.Cursor.Composite
import FileIndex.Proofs.Cursor.Leaf

/-!
# Trees of cursors

However cursors are put together, the whole is a forward cursor over the set that the tree stands for.

* `CursorTree`, `CursorTree.cursor?`: how a cursor is put together from lists.
* `CursorTree.Holds`: the ids of a tree. `CursorTree.Shows`: the positions that it has for an id.
* `Cursor.depth_step`: moves keep the depth, so a cursor is moved as deep as it was built.
* `Tracks`: a cursor does what is expected of it. `Tracks.composite` joins cursors,
  `CursorTree.obeys_of_cursor?` is the induction over a tree.
* `CursorTree.trace_eq`: the answers to any run of moves, with the id current after each, are those of the walk
  over the ids of the tree.
-/

namespace FileIndex

/-- How a cursor is put together. -/
inductive CursorTree
  /-- From a list of ids. -/
  | ids (ids : List DocId)
  /-- From a list of documents with positions. -/
  | occurrences (os : List Occurrence)
  /-- By a connective, from any number of parts. -/
  | join (how : Connective) (parts : List CursorTree)
  /-- As the cheapest cursor over all ids of the parts. -/
  | union (parts : List CursorTree)

namespace CursorTree

mutual

/-- The cursor of a tree, which has not moved; a union of nothing has none. -/
def cursor? : CursorTree → Option Cursor
  | ids l => some (.ofIds l)
  | occurrences os => some (.ofOccurrences os)
  | join how parts => (cursors? parts).map (Cursor.ofParts how)
  | union parts => (cursors? parts).bind Cursor.union?

/-- The cursors of some trees, if all of them have one. -/
def cursors? : List CursorTree → Option (List Cursor)
  | [] => some []
  | t :: ts => (cursor? t).bind fun c => (cursors? ts).map (c :: ·)

end

/-- The lists are strictly ascending without the id 0, their positions ascending. -/
inductive Sorted : CursorTree → Prop
  | ids {l : List DocId} : l.Pairwise (· < ·) → 0 ∉ l → Sorted (ids l)
  | occurrences {os : List Occurrence} : OccurrenceList.Sorted os → Sorted (occurrences os)
  | join {how : Connective} {parts : List CursorTree} : (∀ t ∈ parts, Sorted t) → Sorted (join how parts)
  | union {parts : List CursorTree} : (∀ t ∈ parts, Sorted t) → Sorted (union parts)

/-- The tree has a position for an id: lists have theirs, a union of one part has those of the part. -/
inductive Shows : CursorTree → DocId → UInt32 → Prop
  | occurrences {os : List Occurrence} {o : Occurrence} {p : UInt32} : o ∈ os → p ∈ o.positions →
    Shows (occurrences os) o.id p
  | union {t : CursorTree} {id : DocId} {p : UInt32} : Shows t id p → Shows (union [t]) id p

/-- The tree has an id: a conjunction if all its parts do, an alternative or a union if some part does, and a
phrase if all parts do and from some start on each shows the position after the one of the part before it. -/
inductive Holds : CursorTree → DocId → Prop
  | ids {l : List DocId} {id : DocId} : id ∈ l → Holds (ids l) id
  | occurrences {os : List Occurrence} {o : Occurrence} : o ∈ os → Holds (occurrences os) o.id
  | and {parts : List CursorTree} {id : DocId} : parts ≠ [] → (∀ t ∈ parts, Holds t id) → Holds (join .and parts) id
  | or {parts : List CursorTree} {t : CursorTree} {id : DocId} : t ∈ parts → Holds t id → Holds (join .or parts) id
  | phrase {parts : List CursorTree} {id : DocId} (start : Nat) : parts ≠ [] → (∀ t ∈ parts, Holds t id) →
    (∀ i (h : i < parts.length), ∃ p, Shows parts[i] id p ∧ p.toNat = start + i) → Holds (join .phrase parts) id
  | union {parts : List CursorTree} {t : CursorTree} {id : DocId} : t ∈ parts → Holds t id → Holds (union parts) id

end CursorTree

/-! ### Moving keeps the depth -/

namespace Cursor

theorem depthAll_congr {parts parts' : List Cursor} (h : parts'.map depth = parts.map depth) :
    depthAll parts' = depthAll parts := by
  induction parts generalizing parts' with
  | nil => rw [List.map_nil, List.map_eq_nil_iff] at h; rw [h]
  | cons part parts ih =>
    cases parts' with
    | nil => simp at h
    | cons part' parts' =>
      rw [List.map_cons, List.map_cons, List.cons.injEq] at h
      rw [depthAll, depthAll, h.1, ih h.2]

theorem depth_le_depthAll {parts : List Cursor} {part : Cursor} (h : part ∈ parts) : part.depth ≤ depthAll parts := by
  induction parts with
  | nil => exact absurd h List.not_mem_nil
  | cons first parts ih =>
    rw [depthAll]
    rcases List.mem_cons.mp h with rfl | h
    · omega
    · have := ih h
      omega

/-- What every round keeps is kept by all of them. -/
theorem advanceUntil_keeps {σ β : Type} {step : σ → Option DocId × σ} {accept : DocId → σ → Bool} (view : σ → β)
    (hstep : ∀ s, view (step s).2 = view s) (bound : Nat) (s : σ) :
    view (advanceUntil step accept bound s).2 = view s := by
  induction bound generalizing s with
  | zero => rfl
  | succ bound ih =>
    have hs := hstep s
    rw [advanceUntil]
    split <;> rename_i s' heq <;> rw [heq] at hs
    · exact hs
    · split
      · exact hs
      · exact (ih s').trans hs

section

variable {move : Move → Cursor → Option DocId × Cursor} (hmove : ∀ m c, (move m c).2.depth = c.depth)
include hmove

theorem map_depth_sweep (candidate : DocId) (parts : List Cursor) :
    (sweep move candidate parts).2.map depth = parts.map depth := by
  induction parts with
  | nil => rfl
  | cons part parts ih =>
    have hpart := hmove (.seek candidate) part
    rw [sweep]
    split <;> rename_i part' heq <;> rw [heq] at hpart
    · rw [List.map_cons, List.map_cons, hpart]
    · split
      · rw [List.map_cons, List.map_cons, hpart]
      · simp only [List.map_cons]
        rw [hpart, ih]

theorem map_depth_align (bound : Nat) (candidate : DocId) (lead : Cursor) (rest : List Cursor) :
    (align move bound candidate lead rest).2.map depth = (lead :: rest).map depth := by
  induction bound generalizing candidate lead rest with
  | zero => rfl
  | succ bound ih =>
    have hrest := map_depth_sweep hmove candidate rest
    rw [align]
    generalize sweep move candidate rest = r at hrest ⊢
    obtain ⟨result, rest'⟩ := r
    cases result with
    | met | dry => rw [List.map_cons, List.map_cons, hrest]
    | overshot id =>
      have hlead := hmove (.seek id) lead
      simp only
      split <;> rename_i lead' heq <;> rw [heq] at hlead
      · rw [List.map_cons, List.map_cons, hrest, hlead]
      · rw [ih, List.map_cons, List.map_cons, hrest, hlead]

theorem map_depth_nextCommon (parts : List Cursor) : (nextCommon move parts).2.map depth = parts.map depth := by
  cases parts with
  | nil => rfl
  | cons lead rest =>
    have hlead := hmove .next lead
    rw [nextCommon]
    split <;> rename_i lead' heq <;> rw [heq] at hlead
    · rw [List.map_cons, List.map_cons, hlead]
    · rw [map_depth_align hmove, List.map_cons, List.map_cons, hlead]

theorem map_depth_nextOfAny (st : Standing) (parts : List Cursor) :
    (nextOfAny move st parts).2.map depth = parts.map depth := by
  cases st with
  | before => simp only [nextOfAny, List.map_map, Function.comp_def, hmove]
  | on id =>
    simp only [nextOfAny, List.map_map, Function.comp_def]
    apply List.map_congr_left
    intro part _
    split
    · exact hmove .next part
    · rfl
  | past => rfl

theorem map_depth_joinNext (how : Connective) (s : Standing × List Cursor) :
    (joinNext move how s).2.2.map depth = s.2.map depth := by
  unfold joinNext
  split
  · rfl
  · cases how with
    | and => exact map_depth_nextCommon hmove s.2
    | phrase => exact advanceUntil_keeps (List.map depth) (map_depth_nextCommon hmove) _ _
    | or => exact map_depth_nextOfAny hmove s.1 s.2

theorem map_depth_joinSeek (how : Connective) (target : DocId) (s : Standing × List Cursor) :
    (joinSeek move how target s).2.2.map depth = s.2.map depth := by
  unfold joinSeek
  split
  · split
    · rfl
    · simp only [List.map_map, Function.comp_def, hmove]
  · exact advanceUntil_keeps (fun s => s.2.map depth) (map_depth_joinNext hmove how) _ s

end

theorem depth_leafNext (os : List Occurrence) : (leafNext os).2.depth = 0 := by
  cases os <;> rfl

/-- A move changes no level of a cursor. -/
theorem depth_step (levels : Nat) (m : Move) (c : Cursor) : (step levels m c).2.depth = c.depth := by
  induction levels generalizing m c with
  | zero =>
    cases c with
    | leaf current ahead =>
      cases m with
      | next => exact depth_leafNext _
      | seek target =>
        rw [step]
        split
        · rfl
        · exact depth_leafNext _
    | join => cases m <;> rfl
  | succ levels ih =>
    cases c with
    | leaf current ahead =>
      cases m with
      | next => exact depth_leafNext _
      | seek target =>
        rw [step]
        split
        · rfl
        · exact depth_leafNext _
    | join how st parts =>
      cases m with
      | next =>
        rw [step, rejoin, depth, depth, depthAll_congr (map_depth_joinNext ih how (st, parts))]
      | seek target =>
        rw [step]
        split
        · rfl
        · rw [rejoin, depth, depth, depthAll_congr (map_depth_joinSeek ih how target (st, parts))]

/-- The answers of a run of moves, each with the id that is current after it. -/
def trace : List Move → Cursor → List (Option DocId × DocId)
  | [], _ => []
  | m :: ms, c => ((c.move m).1, (c.move m).2.docId) :: trace ms (c.move m).2

end Cursor

/-! ### Keeping to an expectation -/

/-- Under moves of a depth the cursor does what is expected of it. -/
def Tracks (levels : Nat) (c : Cursor) (e : Expectation) : Prop :=
  ∃ R, Simulation (Cursor.step levels) R ∧ R c e

theorem simulation_tracks (levels : Nat) : Simulation (Cursor.step levels) (Tracks levels) where
  valid := fun ⟨_, hsim, h⟩ => hsim.valid h
  answer := fun m ⟨_, hsim, h⟩ => hsim.answer m h
  after := fun m ⟨R, hsim, h⟩ => ⟨R, hsim, hsim.after m h⟩
  docId := fun ⟨_, hsim, h⟩ => hsim.docId h
  positions := fun ⟨_, hsim, h⟩ => hsim.positions h
  left_le := fun ⟨_, hsim, h⟩ => hsim.left_le h

/-- The expectation of a composite that has not moved. -/
def Expectation.composite (how : Connective) (es : List Expectation) : Expectation :=
  ⟨⟨Expectation.joined how es, .before⟩, fun _ => []⟩

theorem Tracks.ofOccurrences {os : List Occurrence} (h : OccurrenceList.Sorted os) (levels : Nat) :
    Tracks levels (.ofOccurrences os) (Cursor.listExpectation os .before) :=
  ⟨_, .leaf levels, Cursor.leaf_ofOccurrences h⟩

/-- Parts that have not moved make a composite that does what is expected of it, one level deeper. -/
theorem Tracks.composite {levels : Nat} {parts : List Cursor} {es : List Expectation} (how : Connective)
    (hparts : List.Forall₂ (Tracks levels) parts es) (hbefore : ∀ e ∈ es, e.walk.standing = .before) :
    Tracks (levels + 1) (.ofParts how parts) (.composite how es) := by
  refine ⟨_, (simulation_tracks levels).composite, .intro hparts ?_ fun id hid => by cases hid⟩
  cases how with
  | and | phrase => exact fun _ => hbefore
  | or => exact hbefore

/-- A cursor that does what is expected of it answers any run of moves as its walk does. -/
theorem trace_of_tracks {levels : Nat} {c : Cursor} {e : Expectation} (hlevels : levels = c.depth)
    (h : Tracks levels c e) (ms : List Move) : c.trace ms = Reference.trace ms e.walk := by
  subst hlevels
  have hsim := simulation_tracks c.depth
  generalize hn : c.depth = n at h hsim
  induction ms generalizing c e with
  | nil => rfl
  | cons m ms ih =>
    have hanswer := hsim.answer m h
    have hafter := hsim.after m h
    have hdepth := Cursor.depth_step n m c
    rw [Cursor.trace, Reference.trace, Cursor.move, hn, hanswer, hsim.docId hafter,
      ih (hdepth.trans hn) hafter]

/-! ### The ids of a tree -/

namespace CursorTree

theorem followedFrom_iff {p : Nat} {lists : List (List UInt32)} :
    Cursor.followedFrom p lists = true ↔ ∀ i (h : i < lists.length), ∃ q ∈ lists[i], q.toNat = p + i := by
  induction lists generalizing p with
  | nil => simp [Cursor.followedFrom]
  | cons ps rest ih =>
    rw [Cursor.followedFrom, Bool.and_eq_true, ih, List.any_eq_true]
    constructor
    · rintro ⟨⟨q, hq, hqp⟩, hrest⟩ i hi
      cases i with
      | zero => exact ⟨q, hq, by simpa using hqp⟩
      | succ i =>
        obtain ⟨q, hq, hqi⟩ := hrest i (by simpa using hi)
        exact ⟨q, hq, by omega⟩
    · intro hall
      obtain ⟨q, hq, hqp⟩ := hall 0 (by simp)
      refine ⟨⟨q, hq, by simpa using hqp⟩, fun i hi => ?_⟩
      obtain ⟨q, hq, hqi⟩ := hall (i + 1) (by simpa using hi)
      exact ⟨q, hq, by omega⟩

/-- Lists are adjacent when from some start on each holds the position after the one of the list before it. -/
theorem adjacent_iff {lists : List (List UInt32)} (hne : lists ≠ []) :
    Cursor.adjacent lists = true ↔
      ∃ start, ∀ i (h : i < lists.length), ∃ q ∈ lists[i], q.toNat = start + i := by
  cases lists with
  | nil => exact absurd rfl hne
  | cons ps rest =>
    rw [Cursor.adjacent, List.any_eq_true]
    constructor
    · rintro ⟨p, hp, hrest⟩
      refine ⟨p.toNat, followedFrom_iff.mp ?_⟩
      rw [Cursor.followedFrom, hrest, Bool.and_true, List.any_eq_true]
      exact ⟨p, hp, by simp⟩
    · rintro ⟨start, hall⟩
      have hfollowed := followedFrom_iff.mpr hall
      rw [Cursor.followedFrom, Bool.and_eq_true, List.any_eq_true] at hfollowed
      obtain ⟨⟨p, hp, hpstart⟩, hrest⟩ := hfollowed
      have hstart : p.toNat = start := by simpa using hpstart
      exact ⟨p, hp, hstart ▸ hrest⟩

/-- The tree has the ids and shows the positions that are expected. -/
structure Means (t : CursorTree) (e : Expectation) : Prop where
  unmoved : e.walk.standing = .before
  holds_iff : ∀ id, id ∈ e.walk.ids ↔ t.Holds id
  shows_iff : ∀ id p, p ∈ e.shown id ↔ t.Shows id p

theorem means_ofOccurrences {os : List Occurrence} (h : OccurrenceList.Sorted os) :
    Means (occurrences os) (Cursor.listExpectation os .before) := by
  refine ⟨rfl, fun id => ?_, fun id p => ?_⟩
  · constructor
    · intro hid
      obtain ⟨o, ho, rfl⟩ := List.mem_map.mp hid
      exact .occurrences ho
    · intro hid
      cases hid with
      | occurrences ho => exact List.mem_map_of_mem ho
  · constructor
    · intro hp
      cases hfind : os.find? (·.id == id) with
      | none => simp [Cursor.listExpectation, OccurrenceList.shown, hfind] at hp
      | some o =>
        have hid : o.id = id := by simpa using List.find?_some hfind
        subst hid
        have ho := List.mem_of_find?_eq_some hfind
        exact .occurrences ho (h.shown_eq ho ▸ hp)
    · intro hp
      cases hp with
      | occurrences ho hp =>
        show p ∈ OccurrenceList.shown os _
        rw [h.shown_eq ho]
        exact hp

theorem means_ofIds {l : List DocId} (h : OccurrenceList.Sorted (l.map fun id => { id })) :
    Means (ids l) (Cursor.listExpectation (l.map fun id => { id }) .before) := by
  have hmeans := means_ofOccurrences h
  refine ⟨rfl, fun id => ?_, fun id p => ?_⟩
  · rw [hmeans.holds_iff]
    constructor
    · intro hid
      cases hid with
      | occurrences ho =>
        obtain ⟨id, hid, rfl⟩ := List.mem_map.mp ho
        exact .ids hid
    · intro hid
      cases hid with
      | ids hid => exact .occurrences (List.mem_map.mpr ⟨id, hid, rfl⟩)
  · rw [hmeans.shows_iff]
    constructor
    · intro hp
      cases hp with
      | occurrences ho hp =>
        obtain ⟨id, _, rfl⟩ := List.mem_map.mp ho
        simp at hp
    · intro hp
      cases hp

theorem forall_mem_iff_of_forall₂ {ts : List CursorTree} {es : List Expectation} (h : List.Forall₂ Means ts es)
    {id : DocId} : (∀ e ∈ es, id ∈ e.walk.ids) ↔ ∀ t ∈ ts, t.Holds id := by
  induction h with
  | nil => simp
  | cons hhead _ ih => rw [List.forall_mem_cons, List.forall_mem_cons, hhead.holds_iff, ih]

theorem exists_mem_iff_of_forall₂ {ts : List CursorTree} {es : List Expectation} (h : List.Forall₂ Means ts es)
    {id : DocId} : (∃ e ∈ es, id ∈ e.walk.ids) ↔ ∃ t ∈ ts, t.Holds id := by
  induction h with
  | nil => simp
  | cons hhead _ ih => rw [List.exists_mem_cons_iff, List.exists_mem_cons_iff, hhead.holds_iff, ih]

/-- The ids of a composite are those that its connective makes of what its parts hold. -/
theorem means_join {ts : List CursorTree} {es : List Expectation} (h : List.Forall₂ Means ts es)
    (how : Connective) : Means (join how ts) (.composite how es) := by
  have hempty : es ≠ [] ↔ ts ≠ [] := by
    rw [← List.length_pos_iff, ← List.length_pos_iff, h.length_eq]
  refine ⟨rfl, fun id => ?_, fun id p => ⟨fun hp => absurd hp List.not_mem_nil, fun hp => by cases hp⟩⟩
  cases how with
  | and =>
    apply Expectation.mem_joined_and.trans
    rw [hempty, Expectation.Shared, forall_mem_iff_of_forall₂ h]
    constructor
    · rintro ⟨hne, hall⟩
      exact .and hne hall
    · intro hid
      cases hid with
      | and hne hall => exact ⟨hne, hall⟩
  | or =>
    apply Expectation.mem_joined_or.trans
    rw [exists_mem_iff_of_forall₂ h]
    constructor
    · rintro ⟨t, ht, hid⟩
      exact .or ht hid
    · intro hid
      cases hid with
      | or ht hid => exact ⟨_, ht, hid⟩
  | phrase =>
    apply Expectation.mem_joined_phrase.trans
    rw [hempty, Expectation.Shared, forall_mem_iff_of_forall₂ h]
    have hadjacent : ts ≠ [] → (Cursor.adjacent ((es.map (·.shown)).map (· id)) = true ↔
        ∃ start, ∀ i (h : i < ts.length), ∃ p, Shows ts[i] id p ∧ p.toNat = start + i) := by
      intro hne
      rw [adjacent_iff (by simpa using hempty.mpr hne)]
      have hlength := h.length_eq
      refine exists_congr fun start => forall_congr' fun i => ?_
      constructor
      · intro hq hi
        obtain ⟨q, hq, hqi⟩ := hq (by simp; omega)
        rw [List.getElem_map, List.getElem_map] at hq
        exact ⟨q, ((h.get hi (by omega)).shows_iff id q).mp hq, hqi⟩
      · intro hq hi
        have hi' : i < ts.length := by simp at hi; omega
        obtain ⟨q, hq, hqi⟩ := hq hi'
        refine ⟨q, ?_, hqi⟩
        rw [List.getElem_map, List.getElem_map]
        exact ((h.get hi' (by omega)).shows_iff id q).mpr hq
    constructor
    · rintro ⟨⟨hne, hall⟩, hadj⟩
      obtain ⟨start, hstart⟩ := (hadjacent hne).mp hadj
      exact .phrase start hne hall hstart
    · intro hid
      cases hid with
      | phrase start hne hall hstart => exact ⟨⟨hne, hall⟩, (hadjacent hne).mpr ⟨start, hstart⟩⟩

/-- A union of several parts has the ids of the alternative, and a union of one those of the part. -/
theorem means_union {t t' : CursorTree} {ts : List CursorTree} {e : Expectation}
    (h : Means (join .or (t :: t' :: ts)) e) : Means (union (t :: t' :: ts)) e := by
  refine ⟨h.unmoved, fun id => ?_, fun id p => ?_⟩
  · rw [h.holds_iff]
    constructor
    · intro hid
      cases hid with
      | or ht hid => exact .union ht hid
    · intro hid
      cases hid with
      | union ht hid => exact .or ht hid
  · rw [h.shows_iff]
    constructor <;> (intro hp; cases hp)

theorem means_union_singleton {t : CursorTree} {e : Expectation} (h : Means t e) : Means (union [t]) e := by
  refine ⟨h.unmoved, fun id => ?_, fun id p => ?_⟩
  · rw [h.holds_iff]
    constructor
    · exact fun hid => .union List.mem_cons_self hid
    · intro hid
      cases hid with
      | union ht hid =>
        rw [List.mem_singleton] at ht
        exact ht ▸ hid
  · rw [h.shows_iff]
    constructor
    · exact fun hp => .union hp
    · intro hp
      cases hp with
      | union hp => exact hp

/-- The cursor does what is expected of it when it is moved as deep as it is, or deeper. -/
def Obeys (c : Cursor) (e : Expectation) : Prop := ∀ levels, c.depth ≤ levels → Tracks levels c e

theorem obeys_ofParts {cs : List Cursor} {es : List Expectation} (how : Connective)
    (h : List.Forall₂ Obeys cs es) (hbefore : ∀ e ∈ es, e.walk.standing = .before) :
    Obeys (.ofParts how cs) (.composite how es) := by
  intro levels hlevels
  rw [Cursor.ofParts, Cursor.depth] at hlevels
  obtain ⟨below, rfl⟩ : ∃ below, levels = below + 1 := ⟨levels - 1, by omega⟩
  refine Tracks.composite how ?_ hbefore
  have hdepth : ∀ c ∈ cs, c.depth ≤ below := by
    intro c hc
    have := Cursor.depth_le_depthAll hc
    omega
  clear hlevels hbefore
  induction h with
  | nil => exact .nil
  | cons hhead _ ih =>
    refine .cons (hhead below (hdepth _ List.mem_cons_self)) (ih fun c hc => hdepth c (List.mem_cons_of_mem _ hc))

/-- What holds of every part holds of the parts together. -/
theorem exists_forall₂_of_cursors? {ts : List CursorTree} {cs : List Cursor} (hcs : cursors? ts = some cs)
    (h : ∀ t ∈ ts, ∀ c, t.cursor? = some c → ∃ e, Means t e ∧ Obeys c e) :
    ∃ es, List.Forall₂ Means ts es ∧ List.Forall₂ Obeys cs es := by
  induction ts generalizing cs with
  | nil =>
    rw [cursors?, Option.some.injEq] at hcs
    subst hcs
    exact ⟨[], .nil, .nil⟩
  | cons t ts ih =>
    rw [cursors?, Option.bind_eq_some_iff] at hcs
    obtain ⟨c, hc, hrest⟩ := hcs
    rw [Option.map_eq_some_iff] at hrest
    obtain ⟨cs, hcs, rfl⟩ := hrest
    obtain ⟨e, hmeans, hobeys⟩ := h t List.mem_cons_self c hc
    obtain ⟨es, hmeans', hobeys'⟩ := ih hcs fun t ht => h t (List.mem_cons_of_mem _ ht)
    exact ⟨e :: es, .cons hmeans hmeans', .cons hobeys hobeys'⟩

theorem forall_before_of_forall₂ {ts : List CursorTree} {es : List Expectation} (h : List.Forall₂ Means ts es) :
    ∀ e ∈ es, e.walk.standing = .before := by
  induction h with
  | nil => exact fun e he => absurd he List.not_mem_nil
  | cons hhead _ ih => exact List.forall_mem_cons.mpr ⟨hhead.unmoved, ih⟩

theorem obeys_union {ts : List CursorTree} {cs : List Cursor} {es : List Expectation} {c : Cursor}
    (hmeans : List.Forall₂ Means ts es) (hobeys : List.Forall₂ Obeys cs es) (hc : Cursor.union? cs = some c) :
    ∃ e, Means (union ts) e ∧ Obeys c e := by
  have hbefore := forall_before_of_forall₂ hmeans
  cases hobeys with
  | nil => simp [Cursor.union?] at hc
  | cons hfirst hrest =>
    cases hmeans with
    | cons hmeans hmeans' =>
      cases hrest with
      | nil =>
        cases hmeans'
        rw [Cursor.union?, Option.some.injEq] at hc
        exact ⟨_, means_union_singleton hmeans, hc ▸ hfirst⟩
      | cons hsecond hrest =>
        cases hmeans' with
        | cons hmeans' hmeans'' =>
          simp only [Cursor.union?, Option.some.injEq] at hc
          refine ⟨_, means_union (means_join (.cons hmeans (.cons hmeans' hmeans'')) .or), ?_⟩
          exact hc ▸ obeys_ofParts .or (.cons hfirst (.cons hsecond hrest)) hbefore

/-- The cursor of a tree walks over what the tree holds. The induction is on the tree. -/
theorem obeys_of_cursor? {t : CursorTree} (h : t.Sorted) :
    ∀ c, t.cursor? = some c → ∃ e, Means t e ∧ Obeys c e := by
  induction h with
  | @ids l hascending hzero =>
    intro c hc
    rw [cursor?, Option.some.injEq] at hc
    subst hc
    have hsorted : OccurrenceList.Sorted (l.map fun id => { id }) := by
      refine ⟨List.pairwise_map.mpr hascending, fun o ho hid => ?_, fun o ho => ?_⟩
      · obtain ⟨id, hmem, rfl⟩ := List.mem_map.mp ho
        exact hzero (hid ▸ hmem)
      · obtain ⟨id, _, rfl⟩ := List.mem_map.mp ho
        exact .nil
    exact ⟨_, means_ofIds hsorted, fun levels _ => Tracks.ofOccurrences hsorted levels⟩
  | @occurrences os hsorted =>
    intro c hc
    rw [cursor?, Option.some.injEq] at hc
    subst hc
    exact ⟨_, means_ofOccurrences hsorted, fun levels _ => Tracks.ofOccurrences hsorted levels⟩
  | @join how parts _ ih =>
    intro c hc
    rw [cursor?, Option.map_eq_some_iff] at hc
    obtain ⟨cs, hcs, rfl⟩ := hc
    obtain ⟨es, hmeans, hobeys⟩ := exists_forall₂_of_cursors? hcs ih
    exact ⟨_, means_join hmeans how, obeys_ofParts how hobeys (forall_before_of_forall₂ hmeans)⟩
  | @union parts _ ih =>
    intro c hc
    rw [cursor?, Option.bind_eq_some_iff] at hc
    obtain ⟨cs, hcs, hunion⟩ := hc
    obtain ⟨es, hmeans, hobeys⟩ := exists_forall₂_of_cursors? hcs ih
    exact obeys_union hmeans hobeys hunion

/-- Every cursor that is put together from sorted lists is a forward cursor over the ids of its tree: with the
ascending list of these, any run of moves is answered as by the walk over the list. -/
theorem trace_eq {t : CursorTree} (h : t.Sorted) {c : Cursor} (hc : t.cursor? = some c) :
    ∃ ids : List DocId, ids.Pairwise (· < ·) ∧ (∀ id, id ∈ ids ↔ t.Holds id) ∧
      ∀ ms, c.trace ms = Reference.trace ms { ids } := by
  obtain ⟨e, hmeans, hobeys⟩ := obeys_of_cursor? h c hc
  have htracks := hobeys c.depth (Nat.le_refl _)
  have hvalid := (simulation_tracks _).valid htracks
  refine ⟨e.walk.ids, hvalid.ascending, hmeans.holds_iff, fun ms => ?_⟩
  rw [trace_of_tracks rfl htracks ms]
  obtain ⟨⟨ids, standing⟩, shown⟩ := e
  have hunmoved : standing = .before := hmeans.unmoved
  subst hunmoved
  rfl

/-- A phrase of two lists next to one more id, sought and then stepped through. -/
theorem trace_eq_phrase_in_alternative :
    let t := join .or [join .phrase [occurrences [⟨1, [4]⟩, ⟨2, [7]⟩], occurrences [⟨1, [5]⟩, ⟨2, [9]⟩]], ids [2, 3]]
    let c := Cursor.ofParts .or [Cursor.ofParts .phrase [.ofOccurrences [⟨1, [4]⟩, ⟨2, [7]⟩],
      .ofOccurrences [⟨1, [5]⟩, ⟨2, [9]⟩]], .ofIds [2, 3]]
    (t.Sorted ∧ t.cursor? = some c) ∧ ∃ ids : List DocId, ids.Pairwise (· < ·) ∧ (∀ id, id ∈ ids ↔ t.Holds id) ∧
      ∀ ms, c.trace ms = Reference.trace ms { ids } := by
  intro t c
  have hsorted : t.Sorted := by
    refine .join fun t ht => ?_
    simp only [List.mem_cons, List.not_mem_nil, or_false] at ht
    rcases ht with rfl | rfl
    · refine .join fun t ht => ?_
      simp only [List.mem_cons, List.not_mem_nil, or_false] at ht
      rcases ht with rfl | rfl <;> exact .occurrences ⟨by decide, by decide, by decide⟩
    · exact .ids (by decide) (by decide)
  exact ⟨⟨hsorted, rfl⟩, trace_eq hsorted (c := c) rfl⟩

end CursorTree
end FileIndex
