import FileIndex.Proofs.Tree.Ascent

/-!
# The folders that an id leaves empty

When an id is unlinked that has nothing below it, the folders above it go as well, one after the other, as long as
each has nothing below it but the one that went before and may go. So it is told before anything is changed how far this
comes. The first that stays loses the last that goes from its children. Nothing else is changed in the two maps of
the tree.

* `Store.Empties`, `Store.EmptiedRun`: which folders go and which stay above them.
* `Store.Emptied`: the two maps when they are gone, row by row.
* `emptied_takenOut`, `Emptied.up`: one id is taken out, and then those above it.
* `detachUp_emptied`: what the climb does if the way up leads to the root and is not too long.
* `unlink_emptied`: unlinking an id removes just these folders, and does nothing if there is something below the id.
-/

namespace FileIndex.Store

variable {s s₁ s' : Store} {prune : DocId → Bool} {id current folder parent : DocId}
  {ids above run rest siblings : List DocId}

/-! ### How far it comes -/

/-- The folder has nothing below it but the id, and may go. -/
def Empties (s : Store) (prune : DocId → Bool) (id folder : DocId) : Prop :=
  s.childrenOf folder = .ok [id] ∧ prune folder = true

/-- Of the ids above one that goes, the run of those that go with it, and the rest, which stays. -/
inductive EmptiedRun (s : Store) (prune : DocId → Bool) : DocId → (run rest : List DocId) → Prop
  | stop {id : DocId} {rest : List DocId} : (∀ folder ∈ rest.head?, ¬ s.Empties prune id folder) →
    EmptiedRun s prune id [] rest
  | up {id folder : DocId} {run rest : List DocId} : s.Empties prune id folder → EmptiedRun s prune folder run rest →
    EmptiedRun s prune id (folder :: run) rest

/-- It depends on the children of the ids above only. -/
theorem EmptiedRun.congr (h : EmptiedRun s prune id run rest)
    (hsame : ∀ x ∈ run ++ rest, s'.childrenOf x = s.childrenOf x) : EmptiedRun s' prune id run rest := by
  induction h with
  | stop hstop =>
    refine .stop fun folder hfolder hempties => hstop folder hfolder ⟨?_, hempties.2⟩
    rw [← hsame folder (List.mem_of_head? hfolder)]
    exact hempties.1
  | @up id folder run rest hempties _ ih =>
    obtain ⟨hfolder, habove⟩ := List.forall_mem_cons.mp hsame
    exact .up ⟨hfolder.trans hempties.1, hempties.2⟩ (ih habove)

/-- The two maps when some entries are gone, those of an id and a run of folders above it among them. Each of these was
below the next, and the last one below the first of the rest, or the root. -/
structure Emptied (s s' : Store) (gone : List DocId) (id : DocId) (run rest : List DocId) : Prop where
  entries : ∀ key, s'.pathEntries.find? key = if key ∈ gone.map DocId.toKey then none else s.pathEntries.find? key
  folders : ∀ folder ∈ run, s'.childrenOf folder = .ok []
  top : ∃ siblings, s.childrenOf (rest.headD 0) = .ok siblings ∧ run.getLastD id ∈ siblings ∧
    s'.childrenOf (rest.headD 0) = .ok (siblings.erase (run.getLastD id))
  children : ∀ key, key ∉ (rest.headD 0 :: run).map DocId.toKey → s'.children.find? key = s.children.find? key

/-! ### One id is taken out -/

theorem entries_takenOut (key : Bytes) : (s.takenOut id current parent siblings).pathEntries.find? key =
    if key ∈ ([current].filter (· ≠ id)).map DocId.toKey then none else s.pathEntries.find? key := by
  rw [pathEntries_find?_takenOut]
  by_cases hcurrent : current = id
  · simp [hcurrent]
  · simp [hcurrent]

theorem childrenOf_congr_find? (h : s'.children.find? (DocId.toKey id) = s.children.find? (DocId.toKey id)) :
    s'.childrenOf id = s.childrenOf id := by
  unfold childrenOf
  rw [h]

/-- The first of what is above is what the id hangs from, the root if there is nothing. -/
theorem WayUp.headD (h : s.WayUp parent above) : above.headD 0 = parent := by
  cases h with
  | root | up => rfl

/-- An id is taken out and no folder with it. -/
theorem emptied_takenOut (hsiblings : s.childrenOf parent = .ok siblings) (hascending : siblings.Pairwise (· < ·))
    (hlisted : current ∈ siblings) (hparent : rest.headD 0 = parent) :
    Emptied s (s.takenOut id current parent siblings) ([current].filter (· ≠ id)) current [] rest := by
  subst hparent
  refine ⟨entries_takenOut, nofun, ⟨siblings, hsiblings, hlisted, ?_⟩, fun key hkey => ?_⟩
  · rw [childrenOf_takenOut hascending, if_pos rfl]
    rfl
  · rw [List.map_singleton, List.mem_singleton] at hkey
    exact children_find?_takenOut hkey

/-- An id is taken out that leaves the folder above it with nothing, and then that folder and those above it go. -/
theorem Emptied.up (hascending : siblings.Pairwise (· < ·)) (hempty : siblings.erase current = [])
    (hnew : folder ∉ rest.headD 0 :: run)
    (h : Emptied (s.takenOut id current folder siblings) s' ((folder :: run).filter (· ≠ id)) folder run rest) :
    Emptied s s' ((current :: folder :: run).filter (· ≠ id)) current (folder :: run) rest := by
  have hkeys : DocId.toKey folder ∉ (rest.headD 0 :: run).map DocId.toKey := by
    intro hmem
    obtain ⟨x, hx, hkey⟩ := List.mem_map.mp hmem
    exact hnew (DocId.toKey_inj.mp hkey ▸ hx)
  refine ⟨fun key => ?_, fun x hx => ?_, ?_, fun key hkey => ?_⟩
  · have hsplit : (current :: folder :: run).filter (· ≠ id) =
        [current].filter (· ≠ id) ++ (folder :: run).filter (· ≠ id) := List.filter_append [current] _
    rw [h.entries, entries_takenOut, hsplit, List.map_append]
    grind
  · rcases List.mem_cons.mp hx with rfl | hx
    · rw [childrenOf_congr_find? (h.children _ hkeys), childrenOf_takenOut hascending, if_pos rfl, hempty]
    · exact h.folders x hx
  · obtain ⟨siblings', hsiblings', hmem, hleft⟩ := h.top
    have hne : rest.headD 0 ≠ folder := fun heq => hnew (heq ▸ List.mem_cons_self)
    rw [childrenOf_takenOut hascending, if_neg hne] at hsiblings'
    rw [List.getLastD_cons]
    exact ⟨siblings', hsiblings', hmem, hleft⟩
  · rw [List.map_cons, List.map_cons, List.mem_cons, List.mem_cons, not_or, not_or] at hkey
    obtain ⟨htop, hfolder, hrun⟩ := hkey
    rw [h.children key (by rw [List.map_cons, List.mem_cons, not_or]; exact ⟨htop, hrun⟩),
      children_find?_takenOut hfolder]

/-! ### The climb -/

theorem erase_eq_nil_iff {x : DocId} (hx : x ∈ siblings) : siblings.erase x = [] ↔ siblings = [x] := by
  constructor
  · intro hempty
    have hlength := List.length_erase_of_mem hx
    rw [hempty, List.length_nil] at hlength
    have hpos := List.length_pos_of_mem hx
    obtain ⟨y, rfl⟩ := List.length_eq_one_iff.mp (by omega : siblings.length = 1)
    rw [List.mem_singleton.mp hx]
  · rintro rfl
    exact List.erase_cons_head ..

/-- On the way up to the root the climb removes the run of folders that are left empty, if there are levels enough. -/
theorem detachUp_emptied (prune : DocId → Bool) (id : DocId) {levels : Nat} (hs : s.TreeReadable)
    (hway : s.WayUp current (current :: above))
    (hlisted : ∀ x ∈ current :: above, ∀ parent, s.HangsFrom x parent → s.ListsBelow parent x)
    (hlevels : above.length < levels) :
    ∃ run rest s', above = run ++ rest ∧ EmptiedRun s prune current run rest ∧
      Store.detachUp prune id levels current s = .ok () s' ∧
      Emptied s s' ((current :: run).filter (· ≠ id)) current run rest := by
  induction levels generalizing s current above with
  | zero => exact absurd hlevels (Nat.not_lt_zero _)
  | succ levels ih =>
    have hfresh := hway.not_mem
    obtain ⟨e, he⟩ := hway.hasEntry List.mem_cons_self
    have hangs : s.HangsFrom current e.parent := (hangsFrom_iff he).mpr rfl
    obtain ⟨_, heq, habove⟩ := hway.of_hangsFrom hangs
    cases heq
    obtain ⟨siblings, hsiblings, hascending⟩ := hs.children e.parent
    have hmem : current ∈ siblings := (listsBelow_iff hsiblings).mp (hlisted current List.mem_cons_self _ hangs)
    by_cases hgo : (siblings.erase current).isEmpty ∧ e.parent ≠ 0 ∧ prune e.parent
    · obtain ⟨hempty, hzero, hprune⟩ := hgo
      rw [List.isEmpty_iff] at hempty
      obtain _ | ⟨top, above⟩ := above
      · exact absurd habove.headD.symm hzero
      obtain rfl : top = e.parent := habove.headD
      have hnew : e.parent ∉ above := habove.not_mem
      -- the way goes on as before, as nothing on it but the id that is taken out is changed
      have hkept : ∀ x ∈ e.parent :: above, (s.takenOut id current e.parent siblings).pathEntryOf? x =
          s.pathEntryOf? x := by
        intro x hx
        rw [pathEntryOf?_takenOut, if_neg]
        rintro ⟨rfl, _⟩
        exact hfresh hx
      have hway' : (s.takenOut id current e.parent siblings).WayUp e.parent (e.parent :: above) :=
        habove.congr fun x hx _ ⟨name, hname⟩ => ⟨name, (hkept x hx).trans hname⟩
      obtain ⟨run, rest, s', rfl, hrun, hdetach, hemptied⟩ := ih (treeReadable_takenOut hascending hs) hway'
        (fun x hx parent ⟨name, hname⟩ => by
          refine (listsBelow_takenOut hsiblings hascending).mpr
            ⟨hlisted x (List.mem_cons_of_mem _ hx) parent ⟨name, (hkept x hx).symm.trans hname⟩, ?_⟩
          rintro ⟨_, rfl⟩
          exact hfresh hx)
        (Nat.lt_of_succ_lt_succ hlevels)
      refine ⟨e.parent :: run, rest, s', rfl, .up ⟨?_, hprune⟩ (hrun.congr fun x hx => ?_), ?_, ?_⟩
      · rw [hsiblings, (erase_eq_nil_iff hmem).mp hempty]
      · rw [childrenOf_takenOut hascending, if_neg fun heq : x = e.parent => hnew (heq ▸ hx)]
      · rw [detachUp_succ he hsiblings, if_pos ⟨List.isEmpty_iff.mpr hempty, hzero, hprune⟩]
        exact hdetach
      · refine hemptied.up hascending hempty ?_
        rw [List.mem_cons, not_or]
        refine ⟨?_, fun hx => hnew (List.mem_append_left rest hx)⟩
        cases rest with
        | nil => exact hzero
        | cons top rest =>
          rintro rfl
          exact hnew (List.mem_append_right run List.mem_cons_self)
    · refine ⟨[], above, _, rfl, .stop fun folder hfolder hempties => ?_, ?_,
        emptied_takenOut hsiblings hascending hmem habove.headD⟩
      · have hparent : folder = e.parent := by
          rw [← habove.headD, List.headD_eq_head?_getD, hfolder]
          rfl
        subst hparent
        obtain ⟨hchildren, hprune⟩ := hempties
        cases hsiblings.symm.trans hchildren
        refine hgo ⟨by simp, ?_, hprune⟩
        exact (habove.hasEntry (List.mem_of_head? hfolder)).ne_zero
      · rw [detachUp_succ he hsiblings, if_neg hgo]
        rfl

/-! ### Unlinking -/

/-- The entry of the id goes at last. -/
theorem Emptied.erasePathEntry (h : Emptied s s₁ ((id :: run).filter (· ≠ id)) id run rest) (hnew : id ∉ run) :
    Emptied s (s₁.erasePathEntry id) (id :: run) id run rest := by
  have hrun : (id :: run).filter (· ≠ id) = run := by
    rw [List.filter_cons_of_neg (by simp), List.filter_eq_self]
    intro x hx
    have hne : x ≠ id := fun heq => hnew (heq ▸ hx)
    simpa using hne
  rw [hrun] at h
  refine ⟨fun key => ?_, h.folders, h.top, h.children⟩
  show (s₁.pathEntries.erase (DocId.toKey id)).find? key = _
  rw [ByteMap.find?_erase, h.entries, List.map_cons]
  grind

/-- Where both maps tell the same, an id with nothing below it goes, and with it the folders above it that are
left empty; the rest of the tree stays as it is. That takes a way up to the root that is not too long. An id that has no
entry, or has something below it, stays, and so does everything else. -/
theorem unlink_emptied (s : Store) (prune : DocId → Bool) (id : DocId) (hs : s.TreeReadable)
    (hlists : ∀ parent child, s.ListsBelow parent child ↔ s.HangsFrom child parent) :
    (∀ ids, s.HasEntry id → s.Bare id → s.WayUp id ids → ids.length ≤ maxDepth →
      ∃ run rest s', ids = id :: (run ++ rest) ∧ EmptiedRun s prune id run rest ∧
        Store.unlink prune id s = .ok true s' ∧ Emptied s s' (id :: run) id run rest ∧ SameButTree s s') ∧
    (¬ s.HasEntry id ∨ ¬ s.Bare id → Store.unlink prune id s = .ok false s) := by
  refine ⟨fun ids hentry hbare hway hlength => ?_, fun hstays => ?_⟩
  · obtain ⟨parent, hangs⟩ := hasEntry_iff_hangsFrom.mp hentry
    obtain ⟨above, rfl, _⟩ := hway.of_hangsFrom hangs
    obtain ⟨run, rest, s₁, rfl, hrun, hdetach, hemptied⟩ := detachUp_emptied prune id hs hway
      (fun x _ parent => (hlists parent x).mpr) hlength
    have hpath : s.hasPath id = true := (hasPath_iff_hasEntry hs).mpr hentry
    have hchildren : s.childrenOf id = .ok [] := by
      obtain ⟨children, hchildren, _⟩ := hs.children id
      rw [hchildren, List.eq_nil_iff_forall_not_mem.mpr fun child hchild =>
        hbare child ((listsBelow_iff hchildren).mpr hchild)]
    have hunlink := unlink_of_detach hpath hchildren hdetach
    obtain ⟨_, _, hunlink', _, hsame⟩ := unlink_safe prune id s hs
    cases hunlink.symm.trans hunlink'
    exact ⟨run, rest, _, rfl, hrun, hunlink,
      hemptied.erasePathEntry fun hmem => hway.not_mem (List.mem_append_left rest hmem), hsame⟩
  · obtain ⟨b, s', hunlink, _⟩ := unlink_safe prune id s hs
    obtain ⟨children, hchildren, _⟩ := hs.children id
    cases hpath : s.hasPath id with
    | false => exact unlink_of_not_hasPath hpath
    | true =>
      have hfull : ¬ s.Bare id := hstays.resolve_left (not_not_intro ((hasPath_iff_hasEntry hs).mp hpath))
      refine unlink_of_children hpath hchildren ?_
      rintro rfl
      exact hfull fun child hchild => List.not_mem_nil ((listsBelow_iff hchildren).mp hchild)

/-- Two folders with a document in the inner one and another document beside that: the inner folder goes with
the first. -/
theorem unlink_emptied_of_folder :
    let s : Store := (((((((∅ : Store).setChildren 0 [1]).setChildren 1 [2, 4]).setChildren 2 [3]).setPathEntry 1
      ⟨0, [97]⟩).setPathEntry 2 ⟨1, [98]⟩).setPathEntry 3 ⟨2, [99]⟩).setPathEntry 4 ⟨1, [100]⟩
    s.TreeReadable ∧ (∀ parent child, s.ListsBelow parent child ↔ s.HangsFrom child parent) ∧ s.HasEntry 3 ∧ s.Bare 3 ∧
      s.WayUp 3 [3, 2, 1] ∧ [3, 2, 1].length ≤ maxDepth ∧
      (∃ run rest s', [3, 2, 1] = 3 :: (run ++ rest) ∧ EmptiedRun s (fun _ => true) 3 run rest ∧
        Store.unlink (fun _ => true) 3 s = .ok true s' ∧ Emptied s s' (3 :: run) 3 run rest ∧ SameButTree s s') ∧
      ¬ s.Bare 2 ∧ Store.unlink (fun _ => true) 2 s = .ok false s := by
  intro s
  have hchildren : ∀ parent, s.childrenOf parent =
      .ok (if parent = 2 then [3] else if parent = 1 then [2, 4] else if parent = 0 then [1] else []) := by
    intro parent
    show ((((∅ : Store).setChildren 0 [1]).setChildren 1 [2, 4]).setChildren 2 [3]).childrenOf parent = _
    rw [childrenOf_setChildren (by decide), childrenOf_setChildren (by decide), childrenOf_setChildren (by decide)]
    split_ifs <;> rfl
  have hentries : ∀ id, s.pathEntryOf? id = .ok (if id = 4 then some ⟨1, [100]⟩ else if id = 3 then some ⟨2, [99]⟩
      else if id = 2 then some ⟨1, [98]⟩ else if id = 1 then some ⟨0, [97]⟩ else none) := by
    intro id
    rw [pathEntryOf?_setPathEntry _ (by decide), pathEntryOf?_setPathEntry _ (by decide),
      pathEntryOf?_setPathEntry _ (by decide), pathEntryOf?_setPathEntry _ (by decide)]
    split_ifs <;> try rfl
    rw [pathEntryOf?_congr (pathEntries_setChildren ..), pathEntryOf?_congr (pathEntries_setChildren ..),
      pathEntryOf?_congr (pathEntries_setChildren ..), pathEntryOf?_empty]
  have hreadable : s.TreeReadable := by
    refine ⟨fun id => ⟨_, hchildren id, ?_⟩, fun id => ⟨_, hentries id⟩⟩
    split_ifs <;> decide
  have hlists : ∀ parent child, s.ListsBelow parent child ↔ s.HangsFrom child parent := by
    intro parent child
    unfold HangsFrom
    rw [listsBelow_iff (hchildren parent), hentries]
    simp only [Except.ok.injEq]
    grind
  have hangs : s.HangsFrom 3 2 ∧ s.HangsFrom 2 1 ∧ s.HangsFrom 1 0 :=
    ⟨⟨_, hentries 3⟩, ⟨_, hentries 2⟩, ⟨_, hentries 1⟩⟩
  have hway : s.WayUp 3 [3, 2, 1] := .up hangs.1 (.up hangs.2.1 (.up hangs.2.2 .root))
  have hbare : s.Bare 3 := fun child hchild => List.not_mem_nil ((listsBelow_iff (hchildren 3)).mp hchild)
  have hfull : ¬ s.Bare 2 := fun hbare => hbare 3 ((listsBelow_iff (hchildren 2)).mpr (by decide))
  exact ⟨hreadable, hlists, hangs.1.hasEntry, hbare, hway, by decide,
    (unlink_emptied s (fun _ => true) 3 hreadable hlists).1 _ hangs.1.hasEntry hbare hway (by decide), hfull,
    (unlink_emptied s (fun _ => true) 2 hreadable hlists).2 (.inr hfull)⟩

end FileIndex.Store
