import FileIndex.Proofs.Draft.Steps

/-!
# The two maps of the tree

The children of an id and the entries of ids say the same in two ways: who hangs directly below whom. Every edit changes
both. While an id is taken out of the tree to be hung elsewhere or to be removed, it is in no list of children and its
entry still tells where it was; nothing else is out of step.

* `Store.Linked`: the two maps agree, the parents in entries have entries, and names can stand in a path.
* `Store.LinkedBut`: so it is but for one id that is taken out. Nothing is taken out if this is 0: `linked_iff`.
* `LinkedBut.hang`, `LinkedBut.hangFolders`, `LinkedBut.attach`: hanging an id puts it back.
* `Linked.detach`, `LinkedBut.detachUp`, `Linked.unlink`: taking an id out, and its folders when they become empty.
* `Linked.changePath`: a planned change of a path, be it a new name, a new place or the first one.
-/

namespace FileIndex

namespace Store

/-! ### The two maps -/

/-- The id is among those listed below the other. -/
def ListsBelow (s : Store) (parent id : DocId) : Prop := ∃ ids, s.childrenOf parent = .ok ids ∧ id ∈ ids

/-- The entry of the id names the other as the one above it. -/
def HangsFrom (s : Store) (id parent : DocId) : Prop := ∃ name, s.pathEntryOf? id = .ok (some ⟨parent, name⟩)

/-- The id has an entry. -/
def HasEntry (s : Store) (id : DocId) : Prop := ∃ e, s.pathEntryOf? id = .ok (some e)

/-- The children and the entries agree on what hangs where, all up to the root, under names that can stand in a path. -/
structure Linked (s : Store) : Prop where
  readable : s.TreeReadable
  lists_iff : ∀ parent id, s.ListsBelow parent id ↔ s.HangsFrom id parent
  parents : ∀ id parent, s.HangsFrom id parent → parent ≠ 0 → s.HasEntry parent
  names : ∀ id e, s.pathEntryOf? id = .ok (some e) → e.name ≠ [] ∧ Path.slash ∉ e.name
  root : s.pathEntries.find? (DocId.toKey 0) = none

/-- The same but for an id that is taken out of the children of the one above it. -/
structure LinkedBut (out : DocId) (s : Store) : Prop where
  readable : s.TreeReadable
  lists_iff : ∀ parent id, s.ListsBelow parent id ↔ s.HangsFrom id parent ∧ id ≠ out
  parents : ∀ id parent, s.HangsFrom id parent → id ≠ out → parent ≠ 0 → s.HasEntry parent
  names : ∀ id e, s.pathEntryOf? id = .ok (some e) → e.name ≠ [] ∧ Path.slash ∉ e.name
  root : s.pathEntries.find? (DocId.toKey 0) = none

/-- The id can have something below it: it is the root, or has an entry. -/
def CanHold (s : Store) (id : DocId) : Prop := id = 0 ∨ s.HasEntry id

variable {s s' : Store} {out id parent other : DocId} {name : Bytes} {e : PathEntry}

@[simp] theorem pathEntryOf?_zero (s : Store) : s.pathEntryOf? 0 = .ok none := if_pos rfl

theorem not_hasEntry_of_none (h : s.pathEntryOf? id = .ok none) : ¬ s.HasEntry id := by
  rintro ⟨e, he⟩
  cases h.symm.trans he

theorem HasEntry.ne_zero (h : s.HasEntry id) : id ≠ 0 := by
  rintro rfl
  exact not_hasEntry_of_none s.pathEntryOf?_zero h

theorem HangsFrom.hasEntry (h : s.HangsFrom id parent) : s.HasEntry id := ⟨_, h.choose_spec⟩

theorem HangsFrom.ne_zero (h : s.HangsFrom id parent) : id ≠ 0 := h.hasEntry.ne_zero

theorem hangsFrom_iff (he : s.pathEntryOf? id = .ok (some e)) : s.HangsFrom id parent ↔ parent = e.parent := by
  unfold HangsFrom
  rw [he]
  constructor
  · rintro ⟨name, heq⟩
    cases heq
    rfl
  · rintro rfl
    exact ⟨e.name, rfl⟩

theorem listsBelow_iff {ids : List DocId} (hids : s.childrenOf parent = .ok ids) :
    s.ListsBelow parent id ↔ id ∈ ids := by
  unfold ListsBelow
  rw [hids]
  simp

theorem hasPath_iff_hasEntry (hs : s.TreeReadable) : s.hasPath id = true ↔ s.HasEntry id := by
  obtain ⟨entry, hentry⟩ := hs.entries id
  unfold HasEntry
  rw [hentry]
  unfold pathEntryOf? at hentry
  unfold hasPath ByteMap.contains
  by_cases hid : id = 0
  · rw [if_pos hid] at hentry
    cases hentry
    simp [hid]
  · rw [if_neg hid] at hentry
    cases hfind : s.pathEntries.find? (DocId.toKey id) with
    | none =>
      rw [hfind] at hentry
      cases hentry
      simp
    | some value =>
      simp only [hfind] at hentry
      cases hread : Malformed.orFail (PathEntry.decode value) with
      | error cause =>
        rw [hread] at hentry
        cases hentry
      | ok e =>
        rw [hread] at hentry
        cases hentry
        simp [hid]

theorem linked_iff : s.Linked ↔ s.LinkedBut 0 := by
  constructor
  · rintro ⟨hreadable, hlists, hparents, hnames, hroot⟩
    refine ⟨hreadable, fun parent id => ?_, fun id parent hfrom _ => hparents id parent hfrom, hnames, hroot⟩
    rw [hlists]
    exact (and_iff_left_of_imp HangsFrom.ne_zero).symm
  · rintro ⟨hreadable, hlists, hparents, hnames, hroot⟩
    refine ⟨hreadable, fun parent id => ?_, fun id parent hfrom => hparents id parent hfrom hfrom.ne_zero,
      hnames, hroot⟩
    rw [hlists]
    exact and_iff_left_of_imp HangsFrom.ne_zero

theorem Linked.congr (h : s.Linked) (hchildren : s'.children = s.children) (hentries : s'.pathEntries = s.pathEntries) :
    s'.Linked := by
  have hlists : ∀ parent id, s'.ListsBelow parent id ↔ s.ListsBelow parent id := by
    intro parent id
    unfold ListsBelow childrenOf
    rw [hchildren]
  have hof := pathEntryOf?_congr hentries
  refine ⟨h.readable.congr hchildren hentries, fun parent id => ?_, fun id parent => ?_, fun id e => ?_,
    hentries ▸ h.root⟩
  · rw [hlists, h.lists_iff]
    unfold HangsFrom
    rw [hof]
  · unfold HangsFrom HasEntry
    rw [hof, hof]
    exact h.parents id parent
  · rw [hof]
    exact h.names id e

@[simp] theorem pathEntryOf?_empty (id : DocId) : (∅ : Store).pathEntryOf? id = .ok none := by
  unfold pathEntryOf?
  split <;> rfl

theorem linked_empty : (∅ : Store).Linked := by
  refine ⟨treeReadable_empty, fun parent id => ⟨?_, ?_⟩, fun id parent hfrom => ?_, fun id e he => ?_, rfl⟩
  · rintro ⟨ids, hids, hmem⟩
    cases hids
    cases hmem
  · rintro ⟨name, he⟩
    simp at he
  · obtain ⟨name, he⟩ := hfrom
    simp at he
  · simp at he

/-! ### One entry differs -/

section Put

variable (hput : ∀ other, s'.pathEntryOf? other =
  if other = id then .ok (some ⟨parent, name⟩) else s.pathEntryOf? other) {child above : DocId}

include hput

/-- Only what was put hangs elsewhere. -/
theorem hangsFrom_of_put :
    s'.HangsFrom child above ↔ (child = id ∧ above = parent) ∨ (child ≠ id ∧ s.HangsFrom child above) := by
  unfold HangsFrom
  rw [hput]
  by_cases hchild : child = id
  · simp [hchild, eq_comm]
  · simp [hchild]

theorem HasEntry.of_put (h : s.HasEntry other) : s'.HasEntry other := by
  unfold HasEntry
  rw [hput]
  split
  · exact ⟨_, rfl⟩
  · exact h

theorem names_of_put (hname : name ≠ [] ∧ Path.slash ∉ name)
    (h : ∀ id e, s.pathEntryOf? id = .ok (some e) → e.name ≠ [] ∧ Path.slash ∉ e.name) :
    ∀ id e, s'.pathEntryOf? id = .ok (some e) → e.name ≠ [] ∧ Path.slash ∉ e.name := by
  intro other e he
  rw [hput] at he
  split at he
  · cases he
    exact hname
  · exact h other e he

end Put

section Gone

variable (hgone : ∀ other, s'.pathEntryOf? other = if other = id then .ok none else s.pathEntryOf? other)
  {child above : DocId}

include hgone

/-- Only what is gone hangs nowhere. -/
theorem hangsFrom_of_gone : s'.HangsFrom child above ↔ s.HangsFrom child above ∧ child ≠ id := by
  unfold HangsFrom
  rw [hgone]
  by_cases hchild : child = id
  · simp [hchild]
  · simp [hchild]

theorem HasEntry.of_gone (h : s.HasEntry other) (hother : other ≠ id) : s'.HasEntry other := by
  unfold HasEntry
  rwa [hgone, if_neg hother]

theorem names_of_gone (h : ∀ id e, s.pathEntryOf? id = .ok (some e) → e.name ≠ [] ∧ Path.slash ∉ e.name) :
    ∀ id e, s'.pathEntryOf? id = .ok (some e) → e.name ≠ [] ∧ Path.slash ∉ e.name := by
  intro other e he
  rw [hgone] at he
  split at he
  · cases he
  · exact h other e he

end Gone

theorem root_setPathEntry (h : s.pathEntries.find? (DocId.toKey 0) = none) (hid : id ≠ 0) (e : PathEntry) :
    (s.setPathEntry id e).pathEntries.find? (DocId.toKey 0) = none := by
  have hkey : DocId.toKey 0 ≠ DocId.toKey id := fun heq => hid (DocId.toKey_inj.mp heq).symm
  show (s.pathEntries.insert (DocId.toKey id) _).find? (DocId.toKey 0) = none
  rw [ByteMap.find?_insert, if_neg hkey, h]

theorem root_erasePathEntry (h : s.pathEntries.find? (DocId.toKey 0) = none) (id : DocId) :
    (s.erasePathEntry id).pathEntries.find? (DocId.toKey 0) = none := by
  show (s.pathEntries.erase (DocId.toKey id)).find? (DocId.toKey 0) = none
  rw [ByteMap.find?_erase, h, ite_self]

/-! ### Hanging -/

theorem storedName_of_length (h : e.name.length < UInt64.size) : e.storedName = e.name := by
  rw [PathEntry.storedName, Nat.mod_eq_of_lt h, List.take_length]

section HungBelow

variable {siblings : List DocId} (hsiblings : s.childrenOf parent = .ok siblings)
  (hascending : siblings.Pairwise (· < ·))

include hascending

theorem childrenOf_hungBelow : (s.hungBelow id parent name siblings).childrenOf other =
    if other = parent then .ok (Ascending.insert id siblings) else s.childrenOf other :=
  childrenOf_setChildren (Ascending.pairwise_insert hascending) other

theorem treeReadable_hungBelow (hs : s.TreeReadable) : (s.hungBelow id parent name siblings).TreeReadable :=
  (hs.setChildren parent (Ascending.pairwise_insert hascending)).setPathEntry id _

include hsiblings

/-- Hanging an id lists it below its new parent, and takes it from no other. -/
theorem listsBelow_hungBelow {child : DocId} : (s.hungBelow id parent name siblings).ListsBelow other child ↔
    (other = parent ∧ child = id) ∨ s.ListsBelow other child := by
  have hchildren : (s.hungBelow id parent name siblings).childrenOf other =
      if other = parent then .ok (Ascending.insert id siblings) else s.childrenOf other :=
    childrenOf_hungBelow hascending
  by_cases hother : other = parent
  · rw [if_pos hother] at hchildren
    rw [listsBelow_iff hchildren, Ascending.mem_insert, hother, listsBelow_iff hsiblings]
    simp
  · rw [if_neg hother] at hchildren
    unfold ListsBelow
    rw [hchildren]
    simp [hother]

omit hsiblings hascending in
theorem pathEntryOf?_hungBelow (hid : id ≠ 0) : (s.hungBelow id parent name siblings).pathEntryOf? other =
    if other = id then .ok (some ⟨parent, PathEntry.storedName ⟨parent, name⟩⟩) else s.pathEntryOf? other := by
  have hsame : (s.setChildren parent (Ascending.insert id siblings)).pathEntryOf? other = s.pathEntryOf? other :=
    pathEntryOf?_congr (pathEntries_setChildren ..) other
  rw [hungBelow, pathEntryOf?_setPathEntry _ hid, hsame]

end HungBelow

/-- An id is hung that had no entry, or was taken out, or hangs there already. -/
theorem LinkedBut.hang (h : s.LinkedBut out) (hid : id ≠ 0) (hname : name ≠ [] ∧ Path.slash ∉ name)
    (hlength : name.length < UInt64.size) (hparent : s.CanHold parent)
    (hold : ¬ s.HasEntry id ∨ id = out ∨ s.HangsFrom id parent) :
    ∃ s', Store.hang id parent name s = .ok () s' ∧ s'.LinkedBut (if id = out then 0 else out) ∧
      ∀ other, s'.pathEntryOf? other = if other = id then .ok (some ⟨parent, name⟩) else s.pathEntryOf? other := by
  obtain ⟨siblings, hsiblings, hascending⟩ := h.readable.children parent
  let s' := s.hungBelow id parent name siblings
  have hentry : ∀ other, s'.pathEntryOf? other =
      if other = id then .ok (some ⟨parent, name⟩) else s.pathEntryOf? other := by
    intro other
    rw [pathEntryOf?_hungBelow hid, storedName_of_length hlength]
  have hself : id ≠ if id = out then 0 else out := by
    split
    · exact hid
    · assumption
  have houtside : ∀ {child above}, child ≠ id → s.HangsFrom child above →
      (child ≠ (if id = out then 0 else out) ↔ child ≠ out) := by
    intro child above hchild hhangs
    split
    · rename_i hout
      exact iff_of_true hhangs.ne_zero (hout ▸ hchild)
    · rfl
  refine ⟨s', hang_eq hsiblings, ⟨treeReadable_hungBelow hascending h.readable, fun other child => ?_,
    fun child above hhangs hout hne => ?_, names_of_put hentry hname h.names, ?_⟩, hentry⟩
  · rw [listsBelow_hungBelow hsiblings hascending, h.lists_iff, hangsFrom_of_put hentry]
    by_cases hchild : child = id
    · subst hchild
      have hbefore : s.HangsFrom child other ∧ child ≠ out → other = parent := by
        rintro ⟨hhangs, hout⟩
        rcases hold with hnone | hsame | hthere
        · exact absurd hhangs.hasEntry hnone
        · exact absurd hsame hout
        · obtain ⟨name', he⟩ := hthere
          exact (hangsFrom_iff he).mp hhangs
      grind
    · have hiff := @houtside child other hchild
      grind
  · rcases (hangsFrom_of_put hentry).mp hhangs with ⟨_, rfl⟩ | ⟨hchild, hhangs⟩
    · exact (hparent.resolve_left hne).of_put hentry
    · exact (h.parents child above hhangs ((houtside hchild hhangs).mp hout) hne).of_put hentry
  · exact root_setPathEntry ((pathEntries_setChildren ..).symm ▸ h.root) hid _

/-- Folders can be hung below an id: they are different ones without entries, and their names can stand in a path. -/
structure Hangable (s : Store) (out anchor : DocId) (folders : List (DocId × Bytes)) : Prop where
  anchor : s.CanHold anchor
  nodup : (folders.map (·.1)).Nodup
  fresh : ∀ x ∈ folders, x.1 ≠ 0 ∧ x.1 ≠ out ∧ ¬ s.HasEntry x.1
  names : ∀ x ∈ folders, (x.2 ≠ [] ∧ Path.slash ∉ x.2) ∧ x.2.length < UInt64.size

/-- Folders that are missing are hung, and the lowest of them can hold what comes next. -/
theorem LinkedBut.hangFolders (h : s.LinkedBut out) {anchor : DocId} {folders : List (DocId × Bytes)}
    (hfolders : s.Hangable out anchor folders) :
    ∃ s', Store.hangFolders anchor folders s = .ok ((folders.head?.map (·.1)).getD anchor) s' ∧ s'.LinkedBut out ∧
      s'.CanHold ((folders.head?.map (·.1)).getD anchor) ∧
      ∀ other, other ∉ folders.map (·.1) → s'.pathEntryOf? other = s.pathEntryOf? other := by
  induction folders with
  | nil => exact ⟨s, rfl, h, hfolders.anchor, fun _ _ => rfl⟩
  | cons folder above ih =>
    obtain ⟨hanchor, hnodup, hfresh, hnames⟩ := hfolders
    obtain ⟨id, name⟩ := folder
    rw [List.map_cons, List.nodup_cons] at hnodup
    obtain ⟨⟨hid, hout, hnone⟩, hfresh⟩ := List.forall_mem_cons.mp hfresh
    obtain ⟨⟨hname, hlength⟩, hnames⟩ := List.forall_mem_cons.mp hnames
    obtain ⟨s₁, habove, h₁, hcan, hsame⟩ := ih ⟨hanchor, hnodup.2, hfresh, hnames⟩
    have hnone₁ : ¬ s₁.HasEntry id := by
      unfold HasEntry
      rw [hsame id hnodup.1]
      exact hnone
    obtain ⟨s₂, hhang, h₂, hentry⟩ := h₁.hang hid hname hlength hcan (.inl hnone₁)
    rw [if_neg hout] at h₂
    refine ⟨s₂, hangFolders_cons habove hhang, h₂, .inr ⟨_, (hentry id).trans (if_pos rfl)⟩, fun other hother => ?_⟩
    rw [List.map_cons, List.mem_cons, not_or] at hother
    rw [hentry, if_neg hother.1, hsame other hother.2]

/-- Everything that a placement hangs can be hung. -/
structure Placeable (s : Store) (out : DocId) (p : Placement) : Prop where
  folders : s.Hangable out p.anchor p.missing
  distinct : p.id ∉ p.missing.map (·.1)
  id_ne : p.id ≠ 0
  name : p.name ≠ [] ∧ Path.slash ∉ p.name
  length : p.name.length < UInt64.size

/-- A path is hung together with the folders that are missing above it. -/
theorem LinkedBut.attach {p : Placement} (h : s.LinkedBut out) (hp : s.Placeable out p)
    (hold : ¬ s.HasEntry p.id ∨ p.id = out ∨ s.HangsFrom p.id p.parent) :
    ∃ s', Store.attach p s = .ok () s' ∧ s'.LinkedBut (if p.id = out then 0 else out) := by
  obtain ⟨s₁, hfolders, h₁, hcan, hsame⟩ := h.hangFolders hp.folders
  have hold₁ : ¬ s₁.HasEntry p.id ∨ p.id = out ∨ s₁.HangsFrom p.id p.parent := by
    unfold HasEntry HangsFrom
    rw [hsame p.id hp.distinct]
    exact hold
  obtain ⟨s₂, hhang, h₂, _⟩ := h₁.hang hp.id_ne hp.name hp.length hcan hold₁
  exact ⟨s₂, attach_of_ok hfolders hhang, h₂⟩

/-- The folder directly above has an id. It is all that has to be found if it has a path; else it is missing, and
what is above it has to be found. -/
theorem missingFolders_cons {resolver : Resolver} {room : Nat} {name : Bytes} {above : List Bytes} {anchor : DocId}
    {missing : List (DocId × Bytes)}
    (h : s.missingFolders resolver room (name :: above) = .ok (some (anchor, missing))) :
    let folder := resolver (Path.render (name :: above))
    folder ≠ 0 ∧ ((s.hasPath folder = true ∧ anchor = folder ∧ missing = []) ∨
      (s.hasPath folder = false ∧ ∃ room' rest, missing = (folder, name) :: rest ∧
        s.missingFolders resolver room' above = .ok (some (anchor, rest)))) := by
  intro folder
  rw [missingFolders.eq_def] at h
  simp only at h
  split at h
  · cases h
  · rename_i hid
    refine ⟨hid, ?_⟩
    split at h
    · rename_i hpath
      cases h
      exact .inl ⟨hpath, rfl, rfl⟩
    · rename_i hpath
      refine .inr ⟨by simpa using hpath, ?_⟩
      cases room with
      | zero => cases h
      | succ room =>
        cases hrest : s.missingFolders resolver room above with
        | error cause =>
          simp only [hrest] at h
          cases h
        | ok found =>
          simp only [hrest] at h
          cases found with
          | none => cases h
          | some found =>
            cases h
            exact ⟨room, found.2, rfl, hrest⟩

theorem missingFolders_nil {resolver : Resolver} {room : Nat} :
    s.missingFolders resolver room [] = .ok (some (0, [])) := by
  cases room <;> rfl

theorem missingFolders_spec {resolver : Resolver} {room : Nat} {names : List Bytes} {anchor : DocId}
    {missing : List (DocId × Bytes)} (h : s.missingFolders resolver room names = .ok (some (anchor, missing))) :
    (anchor = 0 ∨ s.hasPath anchor = true) ∧
      ∀ x ∈ missing, x.1 ≠ 0 ∧ s.hasPath x.1 = false ∧ x.2 ∈ names := by
  induction names generalizing room anchor missing with
  | nil =>
    cases missingFolders_nil.symm.trans h
    exact ⟨.inl rfl, nofun⟩
  | cons name above ih =>
    obtain ⟨hid, ⟨hpath, rfl, rfl⟩ | ⟨hpath, room', rest, rfl, hrest⟩⟩ := missingFolders_cons h
    · exact ⟨.inr hpath, nofun⟩
    · obtain ⟨hanchor, hmissing⟩ := ih hrest
      refine ⟨hanchor, List.forall_mem_cons.mpr ⟨⟨hid, hpath, List.mem_cons_self⟩, fun x hx => ?_⟩⟩
      obtain ⟨hx, hxpath, hxname⟩ := hmissing x hx
      exact ⟨hx, hxpath, List.mem_cons_of_mem name hxname⟩

/-- The missing folders are the lowest of those above the path, and the anchor is the next one up. -/
theorem missingFolders_names {resolver : Resolver} {room : Nat} {names : List Bytes} {anchor : DocId}
    {missing : List (DocId × Bytes)} (h : s.missingFolders resolver room names = .ok (some (anchor, missing))) :
    ∃ above, names = missing.map (·.2) ++ above ∧
      ((above = [] ∧ anchor = 0) ∨ (above ≠ [] ∧ anchor = resolver (Path.render above) ∧ s.hasPath anchor = true)) := by
  induction names generalizing room anchor missing with
  | nil =>
    cases missingFolders_nil.symm.trans h
    exact ⟨[], rfl, .inl ⟨rfl, rfl⟩⟩
  | cons name above ih =>
    obtain ⟨_, ⟨hpath, rfl, rfl⟩ | ⟨_, room', rest, rfl, hrest⟩⟩ := missingFolders_cons h
    · exact ⟨name :: above, rfl, .inr ⟨List.cons_ne_nil name above, rfl, hpath⟩⟩
    · obtain ⟨further, rfl, hanchor⟩ := ih hrest
      exact ⟨further, rfl, hanchor⟩

/-- Where a path was found to belong it can be hung, if the ids to be hung there are different ones. -/
theorem placeable_of_locate {base : Store} {resolver : Resolver} {url : Bytes} {p : Placement}
    (hbase : base.TreeReadable) (h : base.locate resolver id url = .ok (some p)) (hlength : url.length < UInt64.size)
    (hnodup : (p.id :: p.missing.map (·.1)).Nodup) (hentries : s.pathEntries = base.pathEntries)
    (hout : out = 0 ∨ out = p.id) : s.Placeable out p := by
  obtain ⟨hid, name, above, hparse, hpid, hpname, hmissing⟩ := locate_spec h
  obtain ⟨_, hvalid, hrender⟩ := Path.parse_spec hparse
  obtain ⟨hanchor, hfresh⟩ := missingFolders_spec hmissing
  rw [List.nodup_cons] at hnodup
  have hshort : ∀ name' ∈ name :: above, name'.length < UInt64.size := fun name' hname' =>
    Nat.lt_of_le_of_lt (hrender ▸ Path.length_le_of_mem_render hname') hlength
  have hentry : ∀ {other}, s.HasEntry other ↔ base.HasEntry other := by
    intro other
    unfold HasEntry
    rw [pathEntryOf?_congr hentries]
  refine ⟨⟨?_, hnodup.2, fun x hx => ⟨(hfresh x hx).1, ?_, ?_⟩, fun x hx => ⟨?_, ?_⟩⟩, hnodup.1, ?_, ?_, ?_⟩
  · exact hanchor.imp_right fun hpath => hentry.mpr ((hasPath_iff_hasEntry hbase).mp hpath)
  · intro hsame
    rcases hout with hzero | hself
    · exact (hfresh x hx).1 (hsame.trans hzero)
    · exact hnodup.1 (hsame.trans hself ▸ List.mem_map_of_mem hx)
  · rw [hentry, ← hasPath_iff_hasEntry hbase, (hfresh x hx).2.1]
    exact Bool.false_ne_true
  · exact hvalid x.2 (List.mem_cons_of_mem name (hfresh x hx).2.2)
  · exact hshort x.2 (List.mem_cons_of_mem name (hfresh x hx).2.2)
  · exact hpid ▸ hid
  · exact hpname ▸ hvalid name List.mem_cons_self
  · exact hpname ▸ hshort name List.mem_cons_self

/-! ### Taking out -/

/-- Nothing is listed below the id. -/
def Bare (s : Store) (id : DocId) : Prop := ∀ child, ¬ s.ListsBelow id child

/-- The store after an id was taken out of the children of the one above it, and lost its entry if it is not the first
of those that are taken out. -/
def takenOut (s : Store) (id current parent : DocId) (siblings : List DocId) : Store :=
  if current ≠ id then (s.setChildren parent (siblings.erase current)).erasePathEntry current
  else s.setChildren parent (siblings.erase current)

theorem detachUp_succ {prune : DocId → Bool} {levels : Nat} {current : DocId} {siblings : List DocId}
    (he : s.pathEntryOf? current = .ok (some e)) (hsiblings : s.childrenOf e.parent = .ok siblings) :
    Store.detachUp prune id (levels + 1) current s =
      (if (siblings.erase current).isEmpty ∧ e.parent ≠ 0 ∧ prune e.parent then
        Store.detachUp prune id levels e.parent else pure ()) (s.takenOut id current e.parent siblings) := by
  have hread : Edit.read (·.pathEntryOf? current) s = .ok (some e) s := Edit.read_of_ok he
  have hread' : Edit.read (·.childrenOf e.parent) s = .ok siblings s := Edit.read_of_ok hsiblings
  rw [Store.detachUp, bind_of_ok hread]
  simp only
  rw [bind_of_ok hread']
  unfold takenOut
  split <;> rfl

section TakenOut

variable {current : DocId} {siblings : List DocId} (hsiblings : s.childrenOf parent = .ok siblings)
  (hascending : siblings.Pairwise (· < ·))

include hsiblings hascending

omit hsiblings in
theorem childrenOf_takenOut : (s.takenOut id current parent siblings).childrenOf other =
    if other = parent then .ok (siblings.erase current) else s.childrenOf other := by
  have hset : (s.setChildren parent (siblings.erase current)).childrenOf other =
      if other = parent then .ok (siblings.erase current) else s.childrenOf other :=
    childrenOf_setChildren (hascending.sublist List.erase_sublist) other
  unfold takenOut
  split <;> exact hset

theorem listsBelow_takenOut {child : DocId} : (s.takenOut id current parent siblings).ListsBelow other child ↔
    s.ListsBelow other child ∧ ¬ (other = parent ∧ child = current) := by
  have hnodup : siblings.Nodup := hascending.imp fun hlt heq => by grind
  unfold ListsBelow
  rw [childrenOf_takenOut hascending]
  by_cases hother : other = parent
  · rw [if_pos hother, hother, hsiblings]
    simp only [Except.ok.injEq, exists_eq_left', hnodup.mem_erase_iff]
    grind
  · rw [if_neg hother]
    simp [hother]

/-- Taking ids out lists nothing more below an id. -/
theorem Bare.takenOut (h : s.Bare other) : (s.takenOut id current parent siblings).Bare other :=
  fun child hchild => h child ((listsBelow_takenOut hsiblings hascending).mp hchild).1

omit hsiblings in
theorem bare_of_emptied (hempty : (siblings.erase current).isEmpty) :
    (s.takenOut id current parent siblings).Bare parent := by
  rintro child ⟨ids, hids, hmem⟩
  rw [childrenOf_takenOut hascending, if_pos rfl, List.isEmpty_iff.mp hempty] at hids
  cases hids
  cases hmem

omit hsiblings hascending in
theorem pathEntryOf?_takenOut : (s.takenOut id current parent siblings).pathEntryOf? other =
    if other = current ∧ current ≠ id then .ok none else s.pathEntryOf? other := by
  have hsame : (s.setChildren parent (siblings.erase current)).pathEntryOf? other = s.pathEntryOf? other :=
    pathEntryOf?_congr (pathEntries_setChildren ..) other
  unfold takenOut
  by_cases hcurrent : current ≠ id
  · rw [if_pos hcurrent, pathEntryOf?_erasePathEntry, hsame]
    simp [hcurrent]
  · rw [if_neg hcurrent, hsame, if_neg fun h => hcurrent h.2]

omit hsiblings hascending in
theorem pathEntries_find?_takenOut (key : Bytes) : (s.takenOut id current parent siblings).pathEntries.find? key =
    if key = DocId.toKey current ∧ current ≠ id then none else s.pathEntries.find? key := by
  unfold takenOut
  by_cases hcurrent : current ≠ id
  · rw [if_pos hcurrent]
    show ((s.setChildren parent _).pathEntries.erase (DocId.toKey current)).find? key = _
    rw [ByteMap.find?_erase, pathEntries_setChildren]
    simp [hcurrent]
  · rw [if_neg hcurrent, if_neg fun h => hcurrent h.2, pathEntries_setChildren]

omit hsiblings hascending in
theorem children_find?_takenOut {key : Bytes} (hkey : key ≠ DocId.toKey parent) :
    (s.takenOut id current parent siblings).children.find? key = s.children.find? key := by
  have hset : (s.setChildren parent (siblings.erase current)).children.find? key = s.children.find? key := by
    unfold setChildren
    split
    · exact (ByteMap.find?_erase ..).trans (if_neg hkey)
    · exact (ByteMap.find?_insert ..).trans (if_neg hkey)
  unfold takenOut
  split <;> exact hset

omit hsiblings in
theorem treeReadable_takenOut (hs : s.TreeReadable) : (s.takenOut id current parent siblings).TreeReadable := by
  have hset := hs.setChildren parent (hascending.sublist (List.erase_sublist (a := current)))
  unfold takenOut
  split
  · exact hset.erasePathEntry current
  · exact hset

omit hsiblings hascending in
theorem root_takenOut (h : s.pathEntries.find? (DocId.toKey 0) = none) :
    (s.takenOut id current parent siblings).pathEntries.find? (DocId.toKey 0) = none := by
  have hset : (s.setChildren parent (siblings.erase current)).pathEntries.find? (DocId.toKey 0) = none := by
    rw [pathEntries_setChildren, h]
  unfold takenOut
  split
  · exact root_erasePathEntry hset current
  · exact hset

end TakenOut

/-- The first id is taken out; its entry stays. -/
theorem Linked.takeOut (h : s.Linked) (he : s.pathEntryOf? id = .ok (some e)) {siblings : List DocId}
    (hsiblings : s.childrenOf e.parent = .ok siblings) (hascending : siblings.Pairwise (· < ·)) :
    (s.takenOut id id e.parent siblings).LinkedBut id := by
  have hentry : ∀ other, (s.takenOut id id e.parent siblings).pathEntryOf? other = s.pathEntryOf? other := by
    intro other
    rw [pathEntryOf?_takenOut, if_neg fun h => h.2 rfl]
  refine ⟨treeReadable_takenOut hascending h.readable, fun above child => ?_, fun child above hhangs _ hne => ?_,
    fun other e' he' => ?_, root_takenOut h.root⟩
  · rw [listsBelow_takenOut hsiblings hascending, h.lists_iff]
    have hsame : (s.takenOut id id e.parent siblings).HangsFrom child above ↔ s.HangsFrom child above := by
      unfold HangsFrom
      rw [hentry]
    rw [hsame]
    by_cases hchild : child = id
    · subst hchild
      rw [hangsFrom_iff he]
      grind
    · grind
  · unfold HangsFrom at hhangs
    unfold HasEntry
    rw [hentry] at hhangs ⊢
    exact h.parents child above hhangs hne
  · rw [hentry] at he'
    exact h.names other e' he'

/-- A folder on the way up that has nothing below it any more is taken out, and loses its entry. -/
theorem LinkedBut.takeOut (h : s.LinkedBut id) {current : DocId} (hne : current ≠ id) (hbare : s.Bare current)
    (he : s.pathEntryOf? current = .ok (some e)) {siblings : List DocId}
    (hsiblings : s.childrenOf e.parent = .ok siblings) (hascending : siblings.Pairwise (· < ·)) :
    (s.takenOut id current e.parent siblings).LinkedBut id := by
  have hentry : ∀ other, (s.takenOut id current e.parent siblings).pathEntryOf? other =
      if other = current then .ok none else s.pathEntryOf? other := by
    intro other
    rw [pathEntryOf?_takenOut]
    simp [hne]
  refine ⟨treeReadable_takenOut hascending h.readable, fun above child => ?_, fun child above hhangs hout hzero => ?_,
    names_of_gone hentry h.names, root_takenOut h.root⟩
  · rw [listsBelow_takenOut hsiblings hascending, h.lists_iff, hangsFrom_of_gone hentry]
    by_cases hchild : child = current
    · subst hchild
      rw [hangsFrom_iff he]
      grind
    · grind
  · have hbefore := ((hangsFrom_of_gone hentry).mp hhangs).1
    -- what hangs below something is listed there, so that the bare folder is above nothing
    have habove : above ≠ current := by
      rintro rfl
      exact hbare child ((h.lists_iff above child).mpr ⟨hbefore, hout⟩)
    exact (h.parents child above hbefore hout hzero).of_gone hentry habove

/-- On the way up, bare folders are taken out one after the other. -/
theorem LinkedBut.detachUp (prune : DocId → Bool) (levels : Nat) {current : DocId} (h : s.LinkedBut id)
    (hid : s.Bare id) (hne : current ≠ id) (hbare : s.Bare current) :
    ∃ s', Store.detachUp prune id levels current s = .ok () s' ∧ s'.LinkedBut id ∧ s'.Bare id := by
  induction levels generalizing current s with
  | zero => exact ⟨s, rfl, h, hid⟩
  | succ levels ih =>
    obtain ⟨entry, hentry⟩ := h.readable.entries current
    cases entry with
    | none =>
      have hread : Edit.read (·.pathEntryOf? current) s = .ok none s := Edit.read_of_ok hentry
      refine ⟨s, ?_, h, hid⟩
      rw [Store.detachUp, bind_of_ok hread]
      rfl
    | some e =>
      obtain ⟨siblings, hsiblings, hascending⟩ := h.readable.children e.parent
      have h' := h.takeOut hne hbare hentry hsiblings hascending
      have hid' : (s.takenOut id current e.parent siblings).Bare id := hid.takenOut hsiblings hascending
      rw [detachUp_succ hentry hsiblings]
      split
      · rename_i hgo
        have hlisted : s.ListsBelow e.parent current :=
          (h.lists_iff e.parent current).mpr ⟨(hangsFrom_iff hentry).mpr rfl, hne⟩
        exact ih h' hid' (fun hsame => hid current (hsame ▸ hlisted)) (bare_of_emptied hascending hgo.1)
      · exact ⟨_, rfl, h', hid'⟩

/-- An id that has an entry is taken out, and nothing goes with it. -/
theorem Linked.detach (h : s.Linked) (he : s.pathEntryOf? id = .ok (some e)) :
    ∃ s', Store.detach (fun _ => false) id s = .ok () s' ∧ s'.LinkedBut id ∧ s'.pathEntries = s.pathEntries := by
  obtain ⟨siblings, hsiblings, hascending⟩ := h.readable.children e.parent
  have hdetach : Store.detach (fun _ => false) id s = .ok () (s.takenOut id id e.parent siblings) := by
    unfold Store.detach maxDepth
    rw [detachUp_succ he hsiblings, if_neg (by simp)]
    rfl
  refine ⟨_, hdetach, h.takeOut he hsiblings hascending, ?_⟩
  unfold takenOut
  rw [if_neg (not_not_intro rfl), pathEntries_setChildren]

/-- An id that has nothing below it is taken out, and with it the folders above it that are left bare and may go. -/
theorem Linked.detach_of_bare (h : s.Linked) (prune : DocId → Bool) (he : s.pathEntryOf? id = .ok (some e))
    (hbare : s.Bare id) : ∃ s', Store.detach prune id s = .ok () s' ∧ s'.LinkedBut id ∧ s'.Bare id := by
  obtain ⟨siblings, hsiblings, hascending⟩ := h.readable.children e.parent
  have h' := h.takeOut he hsiblings hascending
  have hbare' : (s.takenOut id id e.parent siblings).Bare id := hbare.takenOut hsiblings hascending
  unfold Store.detach maxDepth
  rw [detachUp_succ he hsiblings]
  split
  · rename_i hgo
    have hlisted : s.ListsBelow e.parent id := (h.lists_iff e.parent id).mpr ((hangsFrom_iff he).mpr rfl)
    exact h'.detachUp prune _ hbare' (fun hsame => hbare id (hsame ▸ hlisted)) (bare_of_emptied hascending hgo.1)
  · exact ⟨_, rfl, h', hbare'⟩

/-- An id that is taken out and has nothing below it loses its entry. -/
theorem LinkedBut.erase (h : s.LinkedBut id) (hbare : s.Bare id) : (s.erasePathEntry id).Linked := by
  have hentry : ∀ other, (s.erasePathEntry id).pathEntryOf? other =
      if other = id then .ok none else s.pathEntryOf? other := fun other => pathEntryOf?_erasePathEntry ..
  refine ⟨h.readable.erasePathEntry id, fun above child => ?_, fun child above hhangs hzero => ?_,
    names_of_gone hentry h.names, root_erasePathEntry h.root id⟩
  · rw [hangsFrom_of_gone hentry]
    exact h.lists_iff above child
  · have hbefore := (hangsFrom_of_gone hentry).mp hhangs
    have habove : above ≠ id := by
      rintro rfl
      exact hbare child ((h.lists_iff above child).mpr hbefore)
    exact (h.parents child above hbefore.1 hbefore.2 hzero).of_gone hentry habove

/-- Unlinking leaves the tree alone if something is below the id, and takes the id away else. -/
theorem Linked.unlink (h : s.Linked) (prune : DocId → Bool) (id : DocId) :
    ∃ b s', Store.unlink prune id s = .ok b s' ∧ s'.Linked := by
  cases hpath : s.hasPath id with
  | false => exact ⟨false, s, unlink_of_not_hasPath hpath, h⟩
  | true =>
    obtain ⟨ids, hids, _⟩ := h.readable.children id
    by_cases hempty : ids = []
    · subst hempty
      have hbare : s.Bare id := by
        intro child hchild
        rw [listsBelow_iff hids] at hchild
        cases hchild
      obtain ⟨e, he⟩ := (hasPath_iff_hasEntry h.readable).mp hpath
      obtain ⟨s₁, hdetach, h₁, hbare₁⟩ := h.detach_of_bare prune he hbare
      exact ⟨true, _, unlink_of_detach hpath hids hdetach, h₁.erase hbare₁⟩
    · exact ⟨false, s, unlink_of_children hpath hids hempty, h⟩

/-! ### Changing a path -/

/-- A new name changes nothing of what hangs where. -/
theorem Linked.rename (h : s.Linked) (he : s.pathEntryOf? id = .ok (some e)) (hname : name ≠ [] ∧ Path.slash ∉ name)
    (hlength : name.length < UInt64.size) : (s.setPathEntry id { e with name }).Linked := by
  have hid : id ≠ 0 := HangsFrom.ne_zero ((hangsFrom_iff he).mpr rfl)
  have hentry : ∀ other, (s.setPathEntry id { e with name }).pathEntryOf? other =
      if other = id then .ok (some ⟨e.parent, name⟩) else s.pathEntryOf? other := by
    intro other
    rw [pathEntryOf?_setPathEntry s hid, storedName_of_length hlength]
  have hfrom : ∀ {child above}, (s.setPathEntry id { e with name }).HangsFrom child above ↔
    s.HangsFrom child above := by
    intro child above
    rw [hangsFrom_of_put hentry]
    by_cases hchild : child = id
    · subst hchild
      rw [hangsFrom_iff he]
      simp
    · simp [hchild]
  refine ⟨h.readable.setPathEntry id _, fun above child => ?_, fun child above hhangs hzero => ?_,
    names_of_put hentry hname h.names, root_setPathEntry h.root hid _⟩
  · rw [hfrom]
    exact h.lists_iff above child
  · exact (h.parents child above (hfrom.mp hhangs) hzero).of_put hentry

/-- The path of a document is changed as it was planned, if the ids to be hung are different ones. -/
theorem Linked.changePath (h : s.Linked) {resolver : Resolver} {url : Bytes} {change : Draft.PathChange}
    (hplan : Draft.planPath s resolver id url = .ok change) (hlength : url.length < UInt64.size)
    (hnodup : ∀ p, s.locate resolver id url = .ok (some p) → (p.id :: p.missing.map (·.1)).Nodup) :
    ∃ s', Draft.changePath id change s = .ok () s' ∧ s'.Linked := by
  obtain ⟨p, hlocate, hcases⟩ := Draft.planPath_spec hplan
  have hdistinct := hnodup p hlocate
  obtain ⟨_, name, above, hparse, hpid, hpname, _⟩ := locate_spec hlocate
  rcases hcases with ⟨hnone, rfl⟩ | ⟨e, he, rfl⟩
  · have hp := placeable_of_locate h.readable hlocate hlength hdistinct rfl (.inl rfl)
    have hentry : ¬ s.HasEntry p.id := not_hasEntry_of_none (hpid ▸ hnone)
    obtain ⟨s', hattach, h'⟩ := (linked_iff.mp h).attach hp (.inl hentry)
    rw [ite_self] at h'
    exact ⟨s', hattach, linked_iff.mpr h'⟩
  by_cases hparent : e.parent = p.parent
  · rw [if_pos hparent]
    obtain ⟨_, hvalid, hrender⟩ := Path.parse_spec hparse
    have hname := hvalid name List.mem_cons_self
    have hshort : name.length < UInt64.size :=
      Nat.lt_of_le_of_lt (hrender ▸ Path.length_le_of_mem_render List.mem_cons_self) hlength
    rw [← hpname] at hname hshort
    exact ⟨_, rename_eq hname he, h.rename he hname hshort⟩
  · rw [if_neg hparent]
    obtain ⟨s₁, hdetach, h₁, hentries⟩ := h.detach he
    have hp := placeable_of_locate h.readable hlocate hlength hdistinct hentries (.inr rfl)
    rw [← hpid] at h₁
    obtain ⟨s₂, hattach, h₂⟩ := h₁.attach hp (.inr (.inl rfl))
    rw [if_pos rfl, ← linked_iff] at h₂
    have hget : (get : Edit Store) s₂ = .ok s₂ s₂ := rfl
    simp only [Draft.changePath]
    rw [bind_of_ok hdetach, bind_of_ok hattach, bind_of_ok hget]
    by_cases hprune : e.parent ≠ 0 ∧ (!s₂.hasDocument e.parent) = true
    · obtain ⟨b, s₃, hunlink, h₃⟩ := h₂.unlink (fun folder => !s₂.hasDocument folder) e.parent
      rw [if_pos hprune, bind_of_ok hunlink]
      exact ⟨s₃, rfl, h₃⟩
    · rw [if_neg hprune]
      exact ⟨s₂, rfl, h₂⟩

end Store
end FileIndex
