import FileIndex.Proofs.Tree.Links

/-!
# The way up

From an id the entries lead upwards, at best to the root. Hanging an id together with the folders that are missing above
it gives it a new way up; the ways of other ids change only where they come by it. Unlinking takes entries away that
nothing is left below, so that no other way up is cut off.

* `Store.WayUp`: the ids from one up to the root. There is one way at most, and no id is on it twice.
* `Store.HungInTurn`, `attach_spec`: what becomes of the tree when a path is hung.
* `Store.Clears`, `Store.Clears.wayUp`: entries are taken away from the leaves. `goUp_spec`, `unlink_spec`: that is what
  unlinking does. `Clears.Thorough`: of the folders that may go, none is left that has lost everything below it.
* `changePath_cases`: the stages of a changed path.
-/

namespace FileIndex

namespace Store

variable {s s' : Store} {id parent : DocId} {ids above : List DocId}

/-! ### Ways -/

theorem HangsFrom.unique {parent' : DocId} (h : s.HangsFrom id parent) (h' : s.HangsFrom id parent') :
    parent = parent' := by
  obtain ⟨name, he⟩ := h
  exact ((hangsFrom_iff he).mp h').symm

theorem hasEntry_iff_hangsFrom : s.HasEntry id ↔ ∃ parent, s.HangsFrom id parent := by
  constructor
  · rintro ⟨e, he⟩
    exact ⟨e.parent, e.name, he⟩
  · rintro ⟨_, h⟩
    exact h.hasEntry

theorem hangsFrom_congr (h : s'.pathEntries = s.pathEntries) (id parent : DocId) :
    s'.HangsFrom id parent ↔ s.HangsFrom id parent := by
  unfold HangsFrom
  rw [pathEntryOf?_congr h]

theorem listsBelow_congr (h : s'.children = s.children) (parent id : DocId) :
    s'.ListsBelow parent id ↔ s.ListsBelow parent id := by
  unfold ListsBelow childrenOf
  rw [h]

/-- The ids from an id up to the root, which is not among them. -/
inductive WayUp (s : Store) : DocId → List DocId → Prop
  | root : WayUp s 0 []
  | up {id parent : DocId} {above : List DocId} : s.HangsFrom id parent → WayUp s parent above →
    WayUp s id (id :: above)

namespace WayUp

/-- The way up from an id goes on from what it hangs from. -/
theorem of_hangsFrom (h : s.WayUp id ids) (hangs : s.HangsFrom id parent) :
    ∃ above, ids = id :: above ∧ s.WayUp parent above := by
  cases h with
  | root => exact absurd rfl hangs.ne_zero
  | up hangs' habove =>
    cases hangs.unique hangs'
    exact ⟨_, rfl, habove⟩

theorem unique {ids' : List DocId} (h : s.WayUp id ids) (h' : s.WayUp id ids') : ids = ids' := by
  induction h generalizing ids' with
  | root =>
    cases h' with
    | root => rfl
    | up hangs _ => exact absurd rfl hangs.ne_zero
  | up hangs _ ih =>
    obtain ⟨above, rfl, habove⟩ := h'.of_hangsFrom hangs
    rw [ih habove]

/-- From each id on the way the rest of the way goes on. -/
theorem suffix {other : DocId} (h : s.WayUp id ids) (hother : other ∈ ids) :
    ∃ rest, s.WayUp other (other :: rest) ∧ other :: rest <:+ ids := by
  induction h with
  | root => cases hother
  | @up id parent above hangs h ih =>
    rcases List.mem_cons.mp hother with rfl | hother
    · exact ⟨above, .up hangs h, List.suffix_refl _⟩
    · obtain ⟨rest, hrest, hsuffix⟩ := ih hother
      exact ⟨rest, hrest, hsuffix.trans (List.suffix_cons id above)⟩

theorem hasEntry {other : DocId} (h : s.WayUp id ids) (hother : other ∈ ids) : s.HasEntry other := by
  obtain ⟨rest, hrest, _⟩ := h.suffix hother
  cases hrest with
  | up hangs _ => exact hangs.hasEntry

/-- No id is on its own way twice. -/
theorem not_mem (h : s.WayUp id (id :: above)) : id ∉ above := by
  intro hmem
  cases h with
  | up hangs habove =>
    obtain ⟨rest, hrest, hsuffix⟩ := habove.suffix hmem
    cases hrest.unique (.up hangs habove)
    have hle := hsuffix.length_le
    rw [List.length_cons] at hle
    omega

/-- Where the ids on the way hang as before, it is a way still. -/
theorem congr (h : s.WayUp id ids) (hsame : ∀ x ∈ ids, ∀ parent, s.HangsFrom x parent → s'.HangsFrom x parent) :
    s'.WayUp id ids := by
  induction h with
  | root => exact .root
  | @up id parent above hangs _ ih =>
    obtain ⟨hid, habove⟩ := List.forall_mem_cons.mp hsame
    exact .up (hid parent hangs) (ih habove)

/-- What leads upwards from an id is on its way or the root. -/
theorem above_of_transGen {other : DocId} (hother : Relation.TransGen s.HangsFrom id other) (h : s.WayUp id ids) :
    ∃ rest, s.WayUp other rest ∧ rest.length < ids.length := by
  induction hother using Relation.TransGen.head_induction_on generalizing ids with
  | single hangs =>
    obtain ⟨above, rfl, habove⟩ := h.of_hangsFrom hangs
    exact ⟨above, habove, Nat.lt_succ_self _⟩
  | head hangs _ ih =>
    obtain ⟨above, rfl, habove⟩ := h.of_hangsFrom hangs
    obtain ⟨rest, hrest, hlt⟩ := ih habove
    exact ⟨rest, hrest, Nat.lt_succ_of_lt hlt⟩

/-- But for the root, what leads upwards from an id are the ids on its way. -/
theorem reflTransGen_iff {other : DocId} (h : s.WayUp id ids) (hother : other ≠ 0) :
    Relation.ReflTransGen s.HangsFrom id other ↔ other ∈ ids := by
  induction h with
  | root =>
    rw [Relation.ReflTransGen.cases_head_iff]
    constructor
    · rintro (heq | ⟨_, hangs, _⟩)
      · exact absurd heq.symm hother
      · exact absurd rfl hangs.ne_zero
    · exact nofun
  | @up id parent above hangs _ ih =>
    rw [Relation.ReflTransGen.cases_head_iff, List.mem_cons, ← ih, @eq_comm _ id]
    refine or_congr_right ⟨?_, fun hup => ⟨parent, hangs, hup⟩⟩
    rintro ⟨parent', hangs', hup⟩
    exact hangs'.unique hangs ▸ hup

theorem transGen_iff {other : DocId} (h : s.WayUp id ids) (hother : other ≠ 0) :
    Relation.TransGen s.HangsFrom id other ↔ other ∈ ids.tail := by
  rw [Relation.TransGen.head'_iff]
  cases h with
  | root =>
    refine iff_of_false ?_ List.not_mem_nil
    rintro ⟨_, hangs, _⟩
    exact hangs.ne_zero rfl
  | up hangs habove =>
    rw [List.tail_cons, ← habove.reflTransGen_iff hother]
    refine ⟨?_, fun hup => ⟨_, hangs, hup⟩⟩
    rintro ⟨parent', hangs', hup⟩
    exact hangs'.unique hangs ▸ hup

/-- What has a way up to the root is not above itself. -/
theorem not_transGen (h : s.WayUp id ids) : ¬ Relation.TransGen s.HangsFrom id id := by
  intro hcycle
  obtain ⟨rest, hrest, hlt⟩ := above_of_transGen hcycle h
  rw [hrest.unique h] at hlt
  exact Nat.lt_irrefl _ hlt

end WayUp

/-- Where every entry has a way up, nothing is above itself. -/
theorem not_transGen_of_ways (h : ∀ id, s.HasEntry id → ∃ ids, s.WayUp id ids) (id : DocId) :
    ¬ Relation.TransGen s.HangsFrom id id := by
  intro hcycle
  obtain ⟨_, hangs, _⟩ := Relation.TransGen.head'_iff.mp hcycle
  obtain ⟨_, hway⟩ := h id hangs.hasEntry
  exact hway.not_transGen hcycle

theorem wayUp_congr (h : ∀ id parent, s'.HangsFrom id parent ↔ s.HangsFrom id parent) (id : DocId) (ids : List DocId) :
    s'.WayUp id ids ↔ s.WayUp id ids :=
  ⟨fun hway => hway.congr fun x _ parent => (h x parent).mp, fun hway => hway.congr fun x _ parent => (h x parent).mpr⟩

/-! ### Hanging -/

/-- Each id hangs from the next one and is listed there, the last one below the anchor. -/
def InTurn (s : Store) (anchor : DocId) : List DocId → Prop
  | [] => True
  | id :: above =>
    (s.HangsFrom id (above.headD anchor) ∧ s.ListsBelow (above.headD anchor) id) ∧ InTurn s anchor above

/-- Below the anchor the ids were hung, each from the next one, and nothing else. -/
structure HungInTurn (anchor : DocId) (ids : List DocId) (s s' : Store) : Prop where
  readable : s'.TreeReadable
  inTurn : s'.InTurn anchor ids
  others : ∀ x, x ∉ ids → ∀ parent, s'.HangsFrom x parent ↔ s.HangsFrom x parent
  grows : ∀ parent x, s.ListsBelow parent x → s'.ListsBelow parent x

theorem InTurn.mono {anchor : DocId} (h : s.InTurn anchor ids)
    (hhangs : ∀ x ∈ ids, ∀ parent, s.HangsFrom x parent → s'.HangsFrom x parent)
    (hlists : ∀ parent x, s.ListsBelow parent x → s'.ListsBelow parent x) : s'.InTurn anchor ids := by
  induction ids with
  | nil => trivial
  | cons id above ih =>
    obtain ⟨⟨hfrom, hlisted⟩, habove⟩ := h
    obtain ⟨hid, hrest⟩ := List.forall_mem_cons.mp hhangs
    exact ⟨⟨hid _ hfrom, hlists _ _ hlisted⟩, ih habove hrest⟩

/-- Each of the ids hangs from something that it is listed below. -/
theorem InTurn.exists_parent {anchor : DocId} (h : s.InTurn anchor ids) (hid : id ∈ ids) :
    ∃ parent, s.HangsFrom id parent ∧ s.ListsBelow parent id := by
  induction ids with
  | nil => cases hid
  | cons first above ih =>
    obtain ⟨hfirst, habove⟩ := h
    rcases List.mem_cons.mp hid with rfl | hid
    · exact ⟨_, hfirst⟩
    · exact ih habove hid

/-- Each of the ids but the first one has something below it. -/
theorem InTurn.exists_child {anchor first : DocId} (h : s.InTurn anchor (first :: ids)) (hid : id ∈ ids) :
    ∃ child ∈ first :: ids, s.HangsFrom child id := by
  induction ids generalizing first with
  | nil => cases hid
  | cons second above ih =>
    obtain ⟨⟨hfirst, _⟩, habove⟩ := h
    rcases List.mem_cons.mp hid with rfl | hid
    · exact ⟨first, List.mem_cons_self, hfirst⟩
    · obtain ⟨child, hchild, hbelow⟩ := ih habove hid
      exact ⟨child, List.mem_cons_of_mem first hchild, hbelow⟩

/-- The way up through ids that hang in turn. -/
theorem InTurn.wayUp {anchor : DocId} (h : s.InTurn anchor ids) (hanchor : s.WayUp anchor above) :
    s.WayUp (ids.headD anchor) (ids ++ above) := by
  induction ids with
  | nil => exact hanchor
  | cons id rest ih => exact .up h.1.1 (ih h.2)

/-- Hanging an id changes its entry, and lists it below its new parent. -/
theorem hang_spec (hs : s.TreeReadable) (hid : id ≠ 0) (parent : DocId) (name : Bytes) :
    ∃ s', Store.hang id parent name s = .ok () s' ∧ s'.TreeReadable ∧
      (∀ x above, s'.HangsFrom x above ↔ (x = id ∧ above = parent) ∨ (x ≠ id ∧ s.HangsFrom x above)) ∧
      ∀ above x, s'.ListsBelow above x ↔ (above = parent ∧ x = id) ∨ s.ListsBelow above x := by
  obtain ⟨siblings, hsiblings, hascending⟩ := hs.children parent
  exact ⟨_, hang_eq hsiblings, treeReadable_hungBelow hascending hs,
    fun _ _ => hangsFrom_of_put fun _ => pathEntryOf?_hungBelow hid,
    fun _ _ => listsBelow_hungBelow hsiblings hascending⟩

/-- One more id is hung from the last one. -/
theorem HungInTurn.hang {anchor : DocId} (h : HungInTurn anchor ids s s') (hid : id ≠ 0) (hnew : id ∉ ids)
    (name : Bytes) :
    ∃ s'', Store.hang id (ids.headD anchor) name s' = .ok () s'' ∧ HungInTurn anchor (id :: ids) s s'' := by
  obtain ⟨s'', hhang, hs'', hfrom, hlists⟩ := hang_spec h.readable hid (ids.headD anchor) name
  have hgrows : ∀ parent x, s'.ListsBelow parent x → s''.ListsBelow parent x := fun parent x hx =>
    (hlists parent x).mpr (.inr hx)
  refine ⟨s'', hhang, hs'', ⟨⟨(hfrom _ _).mpr (.inl ⟨rfl, rfl⟩), (hlists _ _).mpr (.inl ⟨rfl, rfl⟩)⟩, ?_⟩,
    fun x hx parent => ?_, fun parent x hx => hgrows parent x (h.grows parent x hx)⟩
  · refine h.inTurn.mono (fun x hx parent hhangs => (hfrom x parent).mpr (.inr ⟨?_, hhangs⟩)) hgrows
    rintro rfl
    exact hnew hx
  · rw [List.mem_cons, not_or] at hx
    rw [hfrom, ← h.others x hx.2 parent]
    simp [hx.1]

theorem hangFolders_spec (hs : s.TreeReadable) (anchor : DocId) {folders : List (DocId × Bytes)}
    (hnodup : (folders.map (·.1)).Nodup) (hzero : ∀ x ∈ folders, x.1 ≠ 0) :
    ∃ s', Store.hangFolders anchor folders s = .ok ((folders.map (·.1)).headD anchor) s' ∧
      HungInTurn anchor (folders.map (·.1)) s s' := by
  induction folders with
  | nil => exact ⟨s, rfl, hs, trivial, fun _ _ _ => Iff.rfl, fun _ _ h => h⟩
  | cons folder rest ih =>
    obtain ⟨id, name⟩ := folder
    rw [List.map_cons, List.nodup_cons] at hnodup
    obtain ⟨hid, hrest⟩ := List.forall_mem_cons.mp hzero
    obtain ⟨s₁, habove, h₁⟩ := ih hnodup.2 hrest
    obtain ⟨s₂, hhang, h₂⟩ := h₁.hang hid hnodup.1 name
    exact ⟨s₂, hangFolders_cons habove hhang, h₂⟩

/-- What is known of a place that was found: it is below the root or an entry, and the missing folders have
no entries. -/
structure Placed (s : Store) (p : Placement) : Prop where
  id_ne : p.id ≠ 0
  anchor : s.CanHold p.anchor
  missing : ∀ x ∈ p.missing.map (·.1), x ≠ 0 ∧ ¬ s.HasEntry x

theorem placed_of_locate (hs : s.TreeReadable) {resolver : Resolver} {url : Bytes} {p : Placement}
    (h : s.locate resolver id url = .ok (some p)) : s.Placed p := by
  obtain ⟨hid, _, _, _, hpid, _, hmissing⟩ := locate_spec h
  obtain ⟨hanchor, hfresh⟩ := missingFolders_spec hmissing
  refine ⟨hpid ▸ hid, hanchor.imp_right (hasPath_iff_hasEntry hs).mp, fun x hx => ?_⟩
  obtain ⟨folder, hfolder, rfl⟩ := List.mem_map.mp hx
  obtain ⟨hzero, hpath, _⟩ := hfresh folder hfolder
  refine ⟨hzero, fun hentry => ?_⟩
  rw [(hasPath_iff_hasEntry hs).mpr hentry] at hpath
  cases hpath

theorem Placed.congr {p : Placement} (h : s.Placed p) (hsame : ∀ id, s'.HasEntry id ↔ s.HasEntry id) : s'.Placed p :=
  ⟨h.id_ne, h.anchor.imp_right (hsame p.anchor).mpr, fun x hx =>
    ⟨(h.missing x hx).1, fun hentry => (h.missing x hx).2 ((hsame x).mp hentry)⟩⟩

/-- A path is hung in its place, and the missing folders above it. -/
theorem attach_spec {p : Placement} (hs : s.TreeReadable) (hp : s.Placed p)
    (hnodup : (p.id :: p.missing.map (·.1)).Nodup) :
    ∃ s', Store.attach p s = .ok () s' ∧ HungInTurn p.anchor (p.id :: p.missing.map (·.1)) s s' := by
  rw [List.nodup_cons] at hnodup
  have hzero : ∀ x ∈ p.missing, x.1 ≠ 0 := fun x hx => (hp.missing x.1 (List.mem_map_of_mem hx)).1
  obtain ⟨s₁, hfolders, h₁⟩ := hangFolders_spec hs p.anchor hnodup.2 hzero
  obtain ⟨s₂, hhang, h₂⟩ := h₁.hang hp.id_ne hnodup.1 p.name
  exact ⟨s₂, attach_of_ok hfolders hhang, h₂⟩

section HungInTurn

variable {anchor : DocId} (h : HungInTurn anchor ids s s')

include h

theorem HungInTurn.hasEntry_iff {x : DocId} : s'.HasEntry x ↔ x ∈ ids ∨ s.HasEntry x := by
  by_cases hx : x ∈ ids
  · obtain ⟨above, hangs, _⟩ := h.inTurn.exists_parent hx
    exact iff_of_true hangs.hasEntry (.inl hx)
  · rw [hasEntry_iff_hangsFrom, hasEntry_iff_hangsFrom]
    simp only [h.others x hx, hx, false_or]

/-- A way that none of the ids is on stays as it is. -/
theorem HungInTurn.wayUp_of_clear {x : DocId} (hway : s.WayUp x above) (hclear : ∀ y ∈ above, y ∉ ids) :
    s'.WayUp x above :=
  hway.congr fun y hy parent => (h.others y (hclear y hy) parent).mpr

/-- Where the anchor has a way up that none of the ids is on, no other way is lost: it may come by one of the ids. -/
theorem HungInTurn.exists_wayUp (hanchor : s.WayUp anchor above) (hclear : ∀ y ∈ above, y ∉ ids) {x : DocId}
    {old : List DocId} (hx : x ∈ ids ∨ s.WayUp x old) : ∃ new, s'.WayUp x new := by
  have hhung := h.inTurn.wayUp (h.wayUp_of_clear hanchor hclear)
  have hin : ∀ y ∈ ids, ∃ new, s'.WayUp y new := fun y hy =>
    (hhung.suffix (List.mem_append_left above hy)).imp' _ fun _ hrest => hrest.1
  rcases hx with hx | hway
  · exact hin x hx
  · induction hway with
    | root => exact ⟨[], .root⟩
    | @up x parent _ hangs _ ih =>
      by_cases hmem : x ∈ ids
      · exact hin x hmem
      · obtain ⟨new, hnew⟩ := ih
        exact ⟨x :: new, .up ((h.others x hmem parent).mpr hangs) hnew⟩

end HungInTurn

theorem parent_eq_headD (p : Placement) : p.parent = (p.missing.map (·.1)).headD p.anchor := by
  cases h : p.missing with
  | nil => simp [Placement.parent, h]
  | cons folder rest => simp [Placement.parent, h]

/-! ### Taking away -/

/-- The entries of these ids are taken away. Nothing is left below them but for the one id, none but this one and those
that may go are among them, and whatever stays is listed where it was. -/
structure Clears (prune : DocId → Bool) (id : DocId) (gone : DocId → Prop) (s s' : Store) : Prop where
  readable : s'.TreeReadable
  away : ∀ x, gone x → s'.pathEntryOf? x = .ok none
  stays : ∀ x, ¬ gone x → s'.pathEntryOf? x = s.pathEntryOf? x
  lists : ∀ parent x, s.ListsBelow parent x → ¬ gone x → s'.ListsBelow parent x
  below : ∀ x parent, s.HangsFrom x parent → gone parent → x = id ∨ gone x
  pruned : ∀ x, gone x → x = id ∨ prune x = true

/-- Of the folders that may go, those are left that have something below them. -/
def Thorough (prune : DocId → Bool) (id : DocId) (gone : DocId → Prop) (s : Store) (lost : DocId → Prop) : Prop :=
  ∀ x, x ≠ 0 → prune x = true → ¬ gone x → (lost x ∨ ∃ child, child ≠ id ∧ s.HangsFrom child x) →
    ∃ child, child ≠ id ∧ ¬ gone child ∧ s.HangsFrom child x

namespace Clears

variable {prune : DocId → Bool} {gone : DocId → Prop}

theorem refl (hs : s.TreeReadable) : Clears prune id (fun _ => False) s s :=
  ⟨hs, fun _ h => h.elim, fun _ _ => rfl, fun _ _ h _ => h, fun _ _ _ h => h.elim, fun _ h => h.elim⟩

theorem hangsFrom_iff (h : Clears prune id gone s s') {x parent : DocId} :
    s'.HangsFrom x parent ↔ s.HangsFrom x parent ∧ ¬ gone x := by
  by_cases hx : gone x
  · refine iff_of_false ?_ fun hboth => hboth.2 hx
    exact fun hangs => not_hasEntry_of_none (h.away x hx) hangs.hasEntry
  · unfold HangsFrom
    rw [h.stays x hx]
    simp [hx]

theorem hasEntry_iff (h : Clears prune id gone s s') {x : DocId} : s'.HasEntry x ↔ s.HasEntry x ∧ ¬ gone x := by
  rw [hasEntry_iff_hangsFrom, hasEntry_iff_hangsFrom]
  simp only [h.hangsFrom_iff, exists_and_right]

/-- What stays has its way up, for nothing on it is taken away. -/
theorem wayUp (h : Clears prune id gone s s') (hid : (∀ x, ¬ gone x) ∨ gone id) {x : DocId} (hway : s.WayUp x ids)
    (hx : ¬ gone x) : s'.WayUp x ids := by
  induction hway with
  | root => exact .root
  | @up x parent above hangs _ ih =>
    refine .up (h.hangsFrom_iff.mpr ⟨hangs, hx⟩) (ih fun hparent => ?_)
    rcases h.below x parent hangs hparent with rfl | hgone
    · exact hid.elim (fun hnone => hnone _ hparent) hx
    · exact hx hgone

end Clears

section GoUp

variable {prune : DocId → Bool} {current : DocId} {siblings : List DocId} (hne : current ≠ id)
  (hsiblings : s.childrenOf parent = .ok siblings) (hascending : siblings.Pairwise (· < ·))

include hne

theorem pathEntryOf?_takenOut_of_ne (x : DocId) : (s.takenOut id current parent siblings).pathEntryOf? x =
    if x = current then .ok none else s.pathEntryOf? x := by
  rw [pathEntryOf?_takenOut]
  simp [hne]

theorem hangsFrom_takenOut {x above : DocId} :
    (s.takenOut id current parent siblings).HangsFrom x above ↔ s.HangsFrom x above ∧ x ≠ current :=
  hangsFrom_of_gone (pathEntryOf?_takenOut_of_ne hne)

include hsiblings hascending

/-- A folder is taken out that has nothing below it but the one id, and then what else goes. -/
theorem Clears.takenOut {gone : DocId → Prop} (h : Clears prune id gone (s.takenOut id current parent siblings) s')
    (hprune : prune current = true) (halone : ∀ x, s.HangsFrom x current → x = id) :
    Clears prune id (fun x => x = current ∨ gone x) s s' := by
  have hentry : ∀ x, (s.takenOut id current parent siblings).pathEntryOf? x =
      if x = current then .ok none else s.pathEntryOf? x := pathEntryOf?_takenOut_of_ne hne
  refine ⟨h.readable, fun x hx => ?_, fun x hx => ?_, fun above x hlisted hx => ?_, fun x above hangs hgone => ?_,
    fun x hx => ?_⟩
  · by_cases hgone : gone x
    · exact h.away x hgone
    · rw [h.stays x hgone, hentry, if_pos (hx.resolve_right hgone)]
  · rw [not_or] at hx
    rw [h.stays x hx.2, hentry, if_neg hx.1]
  · rw [not_or] at hx
    exact h.lists above x ((listsBelow_takenOut hsiblings hascending).mpr ⟨hlisted, fun hboth => hx.1 hboth.2⟩) hx.2
  · rcases hgone with rfl | hgone
    · exact .inl (halone x hangs)
    · by_cases hx : x = current
      · exact .inr (.inl hx)
      · exact (h.below x above ((hangsFrom_takenOut hne).mpr ⟨hangs, hx⟩) hgone).imp_right .inr
  · rcases hx with rfl | hgone
    · exact .inr hprune
    · exact h.pruned x hgone

end GoUp

section Unlink

variable {prune : DocId → Bool}

/-- What goes when a folder does: above it, something is left below each folder that stays. -/
theorem Thorough.takenOut {gone : DocId → Prop} {current : DocId} {siblings : List DocId} (hne : current ≠ id)
    (hup : s.HangsFrom current parent)
    (h : Thorough prune id gone (s.takenOut id current parent siblings) (· = parent)) :
    Thorough prune id (fun x => x = current ∨ gone x) s (· = current) := by
  intro x hx hmay hstays hbelow
  rw [not_or] at hstays
  obtain ⟨child, hchild, hangs⟩ := hbelow.resolve_left hstays.1
  have hlost : x = parent ∨ ∃ child, child ≠ id ∧ (s.takenOut id current parent siblings).HangsFrom child x := by
    by_cases heq : child = current
    · subst heq
      exact .inl (hangs.unique hup)
    · exact .inr ⟨child, hchild, (hangsFrom_takenOut hne).mpr ⟨hangs, heq⟩⟩
  obtain ⟨other, hother, hleft, hangs'⟩ := h x hx hmay hstays.2 hlost
  obtain ⟨hbefore, hkept⟩ := (hangsFrom_takenOut hne).mp hangs'
  exact ⟨other, hother, not_or.mpr ⟨hkept, hleft⟩, hbefore⟩

/-- What is left when folders were taken away from `parent` on upwards, above the one id that was taken out. -/
def ClearedUp (prune : DocId → Bool) (id parent : DocId) (levels : Nat) (s s' : Store) : Prop :=
  ∃ gone, Clears prune id gone s s' ∧ ¬ gone id ∧
    ∀ ids, s.WayUp parent ids → ids.length ≤ levels → s.LinkedBut id → Thorough prune id gone s (· = parent)

theorem ClearedUp.refl {levels : Nat} (hs : s.TreeReadable) (h : ∀ ids, s.WayUp parent ids → ids.length ≤ levels →
    s.LinkedBut id → parent ≠ 0 → prune parent = true → ∃ child, s.ListsBelow parent child) :
    ClearedUp prune id parent levels s s := by
  refine ⟨fun _ => False, .refl hs, not_false, fun ids hway hlength hlinked x hx hmay _ hbelow => ?_⟩
  rcases hbelow with rfl | ⟨child, hchild, hangs⟩
  · obtain ⟨child, hchild⟩ := h ids hway hlength hlinked hx hmay
    obtain ⟨hangs, hother⟩ := (hlinked.lists_iff x child).mp hchild
    exact ⟨child, hother, not_false, hangs⟩
  · exact ⟨child, hchild, not_false, hangs⟩

/-- Going up from what was taken out: a folder that nothing is listed below goes if it may, and so on. -/
theorem goUp_spec (levels : Nat) {siblings : List DocId} (hs : s.TreeReadable)
    (hlisted : ∀ x above, s.HangsFrom x above → x ≠ id → s.ListsBelow above x) (hfree : ∀ x, ¬ s.HangsFrom x id)
    (hne : parent ≠ id) (hsiblings : s.childrenOf parent = .ok siblings) :
    ∃ s', (if siblings.isEmpty ∧ parent ≠ 0 ∧ prune parent then Store.detachUp prune id levels parent else pure ()) s =
      .ok () s' ∧ ClearedUp prune id parent levels s s' := by
  induction levels generalizing s parent siblings with
  | zero =>
    refine ⟨s, by split <;> rfl, .refl hs fun ids hway hlength _ hzero _ => ?_⟩
    cases hway with
    | root => exact absurd rfl hzero
    | up => cases hlength
  | succ levels ih =>
    by_cases hgo : siblings.isEmpty ∧ parent ≠ 0 ∧ prune parent
    · rw [if_pos hgo]
      obtain ⟨hempty, hzero, hprune⟩ := hgo
      obtain ⟨entry, hentry⟩ := hs.entries parent
      cases entry with
      | none =>
        have hread : Edit.read (·.pathEntryOf? parent) s = .ok none s := Edit.read_of_ok hentry
        refine ⟨s, ?_, .refl hs fun ids hway _ _ _ _ => ?_⟩
        · rw [Store.detachUp, bind_of_ok hread]
          rfl
        · cases hway with
          | root => exact absurd rfl hzero
          | up hangs => exact absurd hangs.hasEntry (not_hasEntry_of_none hentry)
      | some e =>
        have hup : s.HangsFrom parent e.parent := (Store.hangsFrom_iff hentry).mpr rfl
        have hbare : s.Bare parent := by
          intro child hchild
          rw [listsBelow_iff hsiblings, List.isEmpty_iff.mp hempty] at hchild
          cases hchild
        have halone : ∀ x, s.HangsFrom x parent → x = id := fun x hangs =>
          not_not.mp fun hx => hbare x (hlisted x parent hangs hx)
        obtain ⟨siblings', hsiblings', hascending⟩ := hs.children e.parent
        have hlisted₁ : ∀ x above, (s.takenOut id parent e.parent siblings').HangsFrom x above → x ≠ id →
            (s.takenOut id parent e.parent siblings').ListsBelow above x := by
          intro x above hangs hx
          obtain ⟨hangs, hother⟩ := (hangsFrom_takenOut hne).mp hangs
          exact (listsBelow_takenOut hsiblings' hascending).mpr ⟨hlisted x above hangs hx, fun h => hother h.2⟩
        have hfree₁ : ∀ x, ¬ (s.takenOut id parent e.parent siblings').HangsFrom x id := fun x hangs =>
          hfree x ((hangsFrom_takenOut hne).mp hangs).1
        have hne₁ : e.parent ≠ id := fun heq => hfree parent (heq ▸ hup)
        obtain ⟨s', hrest, gone, hclears, hid, hthorough⟩ := ih (treeReadable_takenOut hascending hs) hlisted₁ hfree₁
          hne₁ ((childrenOf_takenOut hascending).trans (if_pos rfl))
        refine ⟨s', ?_, _, hclears.takenOut hne hsiblings' hascending hprune halone, ?_,
          fun ids hway hlength hlinked => ?_⟩
        · rw [detachUp_succ hentry hsiblings']
          exact hrest
        · rintro (heq | hgone)
          · exact hne heq.symm
          · exact hid hgone
        · obtain ⟨above, rfl, habove⟩ := hway.of_hangsFrom hup
          have hway₁ : (s.takenOut id parent e.parent siblings').WayUp e.parent above := by
            refine habove.congr fun y hy q hq => (hangsFrom_takenOut hne).mpr ⟨hq, ?_⟩
            rintro rfl
            exact hway.not_mem hy
          exact .takenOut hne hup (hthorough above hway₁ (Nat.le_of_succ_le_succ hlength)
            (hlinked.takeOut hne hbare hentry hsiblings' hascending))
    · rw [if_neg hgo]
      refine ⟨s, rfl, .refl hs fun _ _ _ _ hzero hmay => ?_⟩
      have hsome : siblings ≠ [] := fun hnil => hgo ⟨List.isEmpty_iff.mpr hnil, hzero, hmay⟩
      obtain ⟨child, hchild⟩ := List.exists_mem_of_ne_nil siblings hsome
      exact ⟨child, (listsBelow_iff hsiblings).mpr hchild⟩

section Leaf

variable {siblings : List DocId} (hsiblings : s.childrenOf parent = .ok siblings)
    (hascending : siblings.Pairwise (· < ·))

theorem pathEntryOf?_takenOut_self (x : DocId) :
    (s.takenOut id id parent siblings).pathEntryOf? x = s.pathEntryOf? x := by
  rw [pathEntryOf?_takenOut, if_neg fun h => h.2 rfl]

theorem hangsFrom_takenOut_self {x above : DocId} :
    (s.takenOut id id parent siblings).HangsFrom x above ↔ s.HangsFrom x above := by
  unfold HangsFrom
  rw [pathEntryOf?_takenOut_self]

theorem times_takenOut {current : DocId} : (s.takenOut id current parent siblings).times = s.times := by
  have hset : ∀ ids, (s.setChildren parent ids).times = s.times :=
    fun ids => by rw [sameButTree_setChildren s parent ids]
  unfold takenOut
  split
  · exact hset _
  · exact hset _

include hsiblings hascending

/-- The id itself goes last, when the folders above it are done with. -/
theorem Clears.erase {gone : DocId → Prop} (h : Clears prune id gone (s.takenOut id id parent siblings) s')
    (hfree : ∀ x, ¬ s.HangsFrom x id) : Clears prune id (fun x => x = id ∨ gone x) s (s'.erasePathEntry id) := by
  have hentry : ∀ x, (s'.erasePathEntry id).pathEntryOf? x = if x = id then .ok none else s'.pathEntryOf? x :=
    pathEntryOf?_erasePathEntry s' id
  refine ⟨h.readable.erasePathEntry id, fun x hx => ?_, fun x hx => ?_, fun above x hlisted hx => ?_,
    fun x above hangs hgone => ?_, fun x hx => ?_⟩
  · rw [hentry]
    split
    · rfl
    · exact h.away x (hx.resolve_left ‹_›)
  · rw [not_or] at hx
    rw [hentry, if_neg hx.1, h.stays x hx.2, pathEntryOf?_takenOut_self]
  · rw [not_or] at hx
    exact h.lists above x ((listsBelow_takenOut hsiblings hascending).mpr ⟨hlisted, fun hboth => hx.1 hboth.2⟩) hx.2
  · rcases hgone with rfl | hgone
    · exact absurd hangs (hfree x)
    · exact (h.below x above (hangsFrom_takenOut_self.mpr hangs) hgone).imp_right .inr
  · exact hx.elim .inl (h.pruned x)

omit hsiblings hascending in
theorem Thorough.erase {gone : DocId → Prop} (hup : s.HangsFrom id parent)
    (h : Thorough prune id gone (s.takenOut id id parent siblings) (· = parent)) :
    Thorough prune id (fun x => x = id ∨ gone x) s (s.HangsFrom id) := by
  intro x hx hmay hstays hbelow
  rw [not_or] at hstays
  obtain ⟨child, hchild, hleft, hangs⟩ := h x hx hmay hstays.2
    (hbelow.imp (fun hangs => hangs.unique hup) fun ⟨child, hchild, hangs⟩ =>
      ⟨child, hchild, hangsFrom_takenOut_self.mpr hangs⟩)
  exact ⟨child, hchild, not_or.mpr ⟨hchild, hleft⟩, hangsFrom_takenOut_self.mp hangs⟩

end Leaf

/-- Unlinking changes nothing if the id has no entry or something is listed below it. Else the entry goes, and with
it the folders above that are left with nothing below them. -/
theorem unlink_spec (hs : s.TreeReadable) (hlisted : ∀ x above, s.HangsFrom x above → s.ListsBelow above x)
    (prune : DocId → Bool) (id : DocId) : ∃ b s' gone, Store.unlink prune id s = .ok b s' ∧ Clears prune id gone s s' ∧
      (((∀ x, ¬ gone x) ∧ (s.HasEntry id → ∃ child, s.ListsBelow id child)) ∨
        (gone id ∧ s.HasEntry id ∧ ∀ ids, s.WayUp id ids → ids.length ≤ maxDepth → s.Linked →
          Thorough prune id gone s (s.HangsFrom id))) := by
  cases hpath : s.hasPath id with
  | false =>
    refine ⟨false, s, _, unlink_of_not_hasPath hpath, .refl hs, .inl ⟨fun _ => not_false, fun hentry => ?_⟩⟩
    rw [(hasPath_iff_hasEntry hs).mpr hentry] at hpath
    cases hpath
  | true =>
    obtain ⟨children, hchildren, _⟩ := hs.children id
    by_cases hempty : children = []
    · subst hempty
      obtain ⟨e, he⟩ := (hasPath_iff_hasEntry hs).mp hpath
      have hup : s.HangsFrom id e.parent := (Store.hangsFrom_iff he).mpr rfl
      have hfree : ∀ x, ¬ s.HangsFrom x id := by
        intro x hangs
        have hbelow := hlisted x id hangs
        rw [listsBelow_iff hchildren] at hbelow
        cases hbelow
      have hne : e.parent ≠ id := by
        intro heq
        rw [heq] at hup
        exact hfree id hup
      obtain ⟨siblings, hsiblings, hascending⟩ := hs.children e.parent
      have hlisted₁ : ∀ x above, (s.takenOut id id e.parent siblings).HangsFrom x above → x ≠ id →
          (s.takenOut id id e.parent siblings).ListsBelow above x := fun x above hangs hx =>
        (listsBelow_takenOut hsiblings hascending).mpr
          ⟨hlisted x above (hangsFrom_takenOut_self.mp hangs), fun h => hx h.2⟩
      obtain ⟨s', hrest, gone, hclears, hid, hthorough⟩ := goUp_spec 511 (treeReadable_takenOut hascending hs) hlisted₁
        (fun x hangs => hfree x (hangsFrom_takenOut_self.mp hangs)) hne
          ((childrenOf_takenOut hascending).trans (if_pos rfl))
      have hdetach : Store.detach prune id s = .ok () s' := by
        unfold Store.detach maxDepth
        rw [detachUp_succ he hsiblings]
        exact hrest
      refine ⟨true, _, _, unlink_of_detach hpath hchildren hdetach, hclears.erase hsiblings hascending hfree,
        .inr ⟨.inl rfl, ⟨e, he⟩, fun ids hway hlength hlinked => ?_⟩⟩
      obtain ⟨above, rfl, habove⟩ := hway.of_hangsFrom hup
      have hway₁ : (s.takenOut id id e.parent siblings).WayUp e.parent above :=
        habove.congr fun _ _ _ hangs => hangsFrom_takenOut_self.mpr hangs
      exact .erase hup (hthorough above hway₁ (Nat.le_of_succ_le_succ hlength)
        (hlinked.takeOut he hsiblings hascending))
    · refine ⟨false, s, _, unlink_of_children hpath hchildren hempty, .refl hs, .inl ⟨fun _ => not_false, fun _ => ?_⟩⟩
      obtain ⟨child, hchild⟩ := List.exists_mem_of_ne_nil children hempty
      exact ⟨child, (listsBelow_iff hchildren).mpr hchild⟩

end Unlink

/-! ### Changing a path -/

/-- How the change of a path goes that was planned: it is hung for the first time, or gets another name in its place, or
is taken out of where it is and hung elsewhere, after which the folder that it leaves may go. -/
theorem changePath_cases (hs : s.TreeReadable) {resolver : Resolver} {url : Bytes} {change : Draft.PathChange}
    (hplan : Draft.planPath s resolver id url = .ok change) (hchange : Draft.changePath id change s = .ok () s') :
    ∃ p, s.locate resolver id url = .ok (some p) ∧ p.id = id ∧
      ((¬ s.HasEntry id ∧ Store.attach p s = .ok () s') ∨
        (s'.children = s.children ∧ ∃ name name', s.pathEntryOf? id = .ok (some ⟨p.parent, name⟩) ∧
          ∀ x, s'.pathEntryOf? x = if x = id then .ok (some ⟨p.parent, name'⟩) else s.pathEntryOf? x) ∨
        ∃ old siblings s₁, s.HangsFrom id old ∧ old ≠ p.parent ∧ s.childrenOf old = .ok siblings ∧
          Store.attach p (s.takenOut id id old siblings) = .ok () s₁ ∧
          ((s.hasDocument old = false ∧ ∃ b, Store.unlink (fun folder => !s.hasDocument folder) old s₁ = .ok b s') ∨
            ((old = 0 ∨ s.hasDocument old = true) ∧ s' = s₁))) := by
  obtain ⟨p, hplace, hcases⟩ := Draft.planPath_spec hplan
  obtain ⟨hid, name, above, hparse, hpid, hpname, _⟩ := locate_spec hplace
  refine ⟨p, hplace, hpid, ?_⟩
  rcases hcases with ⟨hnone, rfl⟩ | ⟨e, he, rfl⟩
  · exact .inl ⟨not_hasEntry_of_none hnone, hchange⟩
  by_cases hparent : e.parent = p.parent
  · rw [if_pos hparent] at hchange
    have hname := (Path.parse_spec hparse).2.1 name List.mem_cons_self
    cases (rename_eq (hpname ▸ hname) he).symm.trans hchange
    refine .inr (.inl ⟨rfl, e.name, (PathEntry.mk e.parent p.name).storedName, ?_, fun x => ?_⟩)
    · rw [he, ← hparent]
    · rw [pathEntryOf?_setPathEntry s hid, ← hparent]
  · rw [if_neg hparent] at hchange
    obtain ⟨siblings, hsiblings, hascending⟩ := hs.children e.parent
    have hdetach : Store.detach (fun _ => false) id s = .ok () (s.takenOut id id e.parent siblings) := by
      unfold Store.detach maxDepth
      rw [detachUp_succ he hsiblings, if_neg (by simp)]
      rfl
    have hs₁ : (s.takenOut id id e.parent siblings).TreeReadable := treeReadable_takenOut hascending hs
    obtain ⟨_, s₁, hattach, _, hsame⟩ := attach_safe p _ hs₁
    have hdocuments : s₁.hasDocument = s.hasDocument := by
      have htimes : s₁.times = s.times := by
        rw [hsame]
        exact times_takenOut ..
      exact funext (hasDocument_congr htimes)
    have hget : (get : Edit Store) s₁ = .ok s₁ s₁ := rfl
    simp only [Draft.changePath] at hchange
    rw [bind_of_ok hdetach, bind_of_ok hattach, bind_of_ok hget, hdocuments] at hchange
    refine .inr (.inr ⟨e.parent, siblings, s₁, (Store.hangsFrom_iff he).mpr rfl, hparent, hsiblings, hattach, ?_⟩)
    by_cases hprune : e.parent ≠ 0 ∧ (!s.hasDocument e.parent) = true
    · rw [if_pos hprune] at hchange
      cases hunlink : Store.unlink (fun folder => !s.hasDocument folder) e.parent s₁ with
      | error cause s₂ =>
        rw [bind_of_error hunlink] at hchange
        cases hchange
      | ok b s₂ =>
        rw [bind_of_ok hunlink] at hchange
        cases hchange
        exact .inl ⟨by simpa using hprune.2, b, rfl⟩
    · rw [if_neg hprune] at hchange
      cases hchange
      refine .inr ⟨?_, rfl⟩
      by_cases hzero : e.parent = 0
      · exact .inl hzero
      · exact .inr (by simpa using not_and.mp hprune hzero)

end Store
end FileIndex
