import FileIndex.Proofs.Draft.Changes
import FileIndex.Proofs.Insertion
import FileIndex.Proofs.RoundTrip
import FileIndex.Proofs.Tree.Children

/-!
# Taking a path away that was just hung

To hang a path writes the entries of the document and of the folders that are missing above it. To unlink it again, with
these folders allowed to go, climbs the same way and undoes one level after the other. It climbs as many levels as there
may be folders missing, but the first of them is that of the document.

* `Store.Matched`: the two tables of the tree agree.
* `Store.Spare`: folders that are nowhere in the tree and may go.
* `detachUp_hungBelow`: one step of the climb takes out what was hung there. `climb_hangFolders`: a climb undoes the
  hanging of as many folders as it has levels. `climb_hangFolders_beside`: also while the document has its entry still.
* `unlink_attach`: what is left of a path that is hung and unlinked. `unlink_attach_of_lt`, `unlink_attach_of_eq`: it is
  nothing, or the topmost folder.
* `Store.unlink_putPath`: nothing is left exactly if fewer folders were missing than levels are followed.
-/

namespace FileIndex.Store

variable {s t : Store} {id other parent anchor : DocId} {name : Bytes} {siblings : List DocId} {prune : DocId → Bool}

/-- The two tables of the tree agree on what hangs where, what has something below it has an entry, and no empty list is
stored. -/
structure Matched (s : Store) : Prop where
  readable : s.TreeReadable
  tidy : s.ChildrenTidy
  lists_iff : ∀ parent id, s.ListsBelow parent id ↔ s.HangsFrom id parent
  parents : ∀ id parent, s.HangsFrom id parent → parent ≠ 0 → s.HasEntry parent

theorem Linked.matched (h : s.Linked) (htidy : s.ChildrenTidy) : s.Matched :=
  ⟨h.readable, htidy, h.lists_iff, h.parents⟩

theorem childrenTidy_empty : (∅ : Store).ChildrenTidy := nofun

theorem Matched.childrenOf (h : s.Matched) (hid : id ≠ 0) (hnew : ¬ s.HasEntry id) : s.childrenOf id = .ok [] := by
  obtain ⟨ids, hids, _⟩ := h.readable.children id
  rw [hids, Except.ok.injEq, List.eq_nil_iff_forall_not_mem]
  intro child hchild
  exact hnew (h.parents child id ((h.lists_iff id child).mp ⟨ids, hids, hchild⟩) hid)

theorem Matched.not_listsBelow (h : s.Matched) (hnew : ¬ s.HasEntry id) : ¬ s.ListsBelow parent id :=
  fun hlisted => hnew ((h.lists_iff parent id).mp hlisted).hasEntry

theorem find?_of_not_hasEntry (hs : s.TreeReadable) (hid : id ≠ 0) (hnew : ¬ s.HasEntry id) :
    s.pathEntries.find? (DocId.toKey id) = none := by
  rw [← hasPath_iff_hasEntry hs, hasPath] at hnew
  simpa [hid, ByteMap.contains] using hnew

/-! ### One level -/

theorem erasePathEntry_setPathEntry (h : s.pathEntries.find? (DocId.toKey id) = none) (e : PathEntry) :
    (s.setPathEntry id e).erasePathEntry id = s := by
  have hentries : (s.pathEntries.insert (DocId.toKey id) e.encode).erase (DocId.toKey id) = s.pathEntries := by
    apply ByteMap.ext_find?
    intro key
    rw [ByteMap.find?_erase, ByteMap.find?_insert]
    by_cases hkey : key = DocId.toKey id
    · rw [if_pos hkey, hkey, h]
    · rw [if_neg hkey, if_neg hkey]
  unfold setPathEntry erasePathEntry
  rw [hentries]

theorem SameButTree.eq (h : SameButTree s t) (hchildren : t.children = s.children)
    (hentries : t.pathEntries = s.pathEntries) : t = s := by
  rw [h, hchildren, hentries]

theorem ChildrenTidy.find?_eq (htidy : s.ChildrenTidy) (h : s.childrenOf parent = .ok siblings) :
    s.children.find? (DocId.toKey parent) = stored? IdList.encode siblings := by
  unfold Store.childrenOf at h
  cases hfind : s.children.find? (DocId.toKey parent) with
  | none =>
    rw [hfind] at h
    cases h
    rfl
  | some value =>
    obtain ⟨_, ids, _, hsome, hascending, _, rfl⟩ := htidy _ value hfind
    simp only [hfind, IdList.decode_encode hascending, Malformed.orFail, Except.ok.injEq] at h
    rw [← h, stored?, if_neg (by simpa using hsome)]

/-- What is stored of the children of an id can be stored again. -/
theorem setChildren_self (htidy : s.ChildrenTidy) (h : s.childrenOf parent = .ok siblings) :
    s.setChildren parent siblings = s := by
  refine (sameButTree_setChildren s parent siblings).eq (ByteMap.ext_find? fun key => ?_) (pathEntries_setChildren ..)
  by_cases hkey : key = DocId.toKey parent
  · rw [hkey, find?_setChildren_self, htidy.find?_eq h]
  · exact find?_setChildren hkey

theorem setChildren_setChildren (s : Store) (parent : DocId) (ids siblings : List DocId) :
    (s.setChildren parent ids).setChildren parent siblings = s.setChildren parent siblings := by
  have hsame : SameButTree (s.setChildren parent siblings)
    ((s.setChildren parent ids).setChildren parent siblings) := by
    unfold SameButTree setChildren
    cases siblings.isEmpty <;> cases ids.isEmpty <;> rfl
  refine hsame.eq (ByteMap.ext_find? fun key => ?_) ?_
  · by_cases hkey : key = DocId.toKey parent
    · rw [hkey, find?_setChildren_self, find?_setChildren_self]
    · rw [find?_setChildren hkey, find?_setChildren hkey, find?_setChildren hkey]
  · rw [pathEntries_setChildren, pathEntries_setChildren, pathEntries_setChildren]

/-- When the children of the parent are again what they were, only the entry is left of what was hung. -/
theorem setChildren_hungBelow (htidy : s.ChildrenTidy) (hsiblings : s.childrenOf parent = .ok siblings) :
    (s.hungBelow id parent name siblings).setChildren parent siblings = s.setPathEntry id ⟨parent, name⟩ := by
  have hcomm : (s.hungBelow id parent name siblings).setChildren parent siblings =
      ((s.setChildren parent (Ascending.insert id siblings)).setChildren parent siblings).setPathEntry id
        ⟨parent, name⟩ := by
    unfold hungBelow setChildren
    cases siblings.isEmpty <;> rfl
  rw [hcomm, setChildren_setChildren, setChildren_self htidy hsiblings]

/-! ### The climb -/

/-- No more folders are missing than are followed. -/
theorem length_le_of_missingFolders {resolver : Resolver} {room : Nat} {above : List Bytes}
    {missing : List (DocId × Bytes)} (h : s.missingFolders resolver room above = .ok (some (anchor, missing))) :
    missing.length ≤ room := by
  obtain ⟨k, _, hpassed, ⟨_, _, hsearch⟩ | ⟨_, _, _, _, hsearch⟩ | ⟨_, hsearch⟩⟩ :=
    missingFolders_search s resolver room above
  · cases h.symm.trans hsearch
  · cases h.symm.trans hsearch
  · cases h.symm.trans hsearch
    rw [foldersUpTo, List.length_map, List.length_range]
    by_contra hmore
    exact absurd (hpassed room (Nat.lt_of_not_le hmore)).2.2 (Nat.lt_irrefl room)

/-- Folders that are different ones, are nowhere in the tree and may go, and an anchor that may not. -/
structure Spare (s : Store) (prune : DocId → Bool) (id anchor : DocId) (folders : List (DocId × Bytes)) : Prop where
  stays : anchor = 0 ∨ prune anchor = false
  nodup : (folders.map (·.1)).Nodup
  zero : ∀ x ∈ folders, x.1 ≠ 0
  ne : ∀ x ∈ folders, x.1 ≠ id ∧ x.1 ≠ anchor
  rows : ∀ x ∈ folders, s.pathEntries.find? (DocId.toKey x.1) = none
  bare : ∀ x ∈ folders, s.childrenOf x.1 = .ok []
  unlisted : ∀ x ∈ folders, ∀ parent, ¬ s.ListsBelow parent x.1
  prune : ∀ x ∈ folders, prune x.1 = true

theorem Spare.of_cons {folder : DocId × Bytes} {above : List (DocId × Bytes)}
    (h : Spare s prune id anchor (folder :: above)) : Spare s prune id anchor above := by
  obtain ⟨hstay, hnodup, hzero, hne, hrows, hbare, hunlisted, hprune⟩ := h
  exact ⟨hstay, (List.nodup_cons.mp hnodup).2, (List.forall_mem_cons.mp hzero).2, (List.forall_mem_cons.mp hne).2,
    (List.forall_mem_cons.mp hrows).2, (List.forall_mem_cons.mp hbare).2, (List.forall_mem_cons.mp hunlisted).2,
    (List.forall_mem_cons.mp hprune).2⟩

theorem Spare.setPathEntry {folders : List (DocId × Bytes)} (h : Spare s prune id anchor folders) (e : PathEntry) :
    Spare (s.setPathEntry id e) prune id anchor folders := by
  refine ⟨h.stays, h.nodup, h.zero, h.ne, fun x hx => ?_, h.bare, h.unlisted, h.prune⟩
  have hkey : DocId.toKey x.1 ≠ DocId.toKey id := fun hsame => (h.ne x hx).1 (DocId.toKey_inj.mp hsame)
  exact (ByteMap.find?_insert ..).trans ((if_neg hkey).trans (h.rows x hx))

/-- Folders that hang in turn hang from the anchor or from one of those that follow the first. -/
theorem parent_of_mem_entriesInTurn {folders : List (DocId × Bytes)} {x : DocId × PathEntry}
    (hx : x ∈ entriesInTurn anchor folders) : x.2.parent = anchor ∨ x.2.parent ∈ folders.tail.map (·.1) := by
  induction folders with
  | nil => cases hx
  | cons folder above ih =>
    rcases List.mem_cons.mp hx with rfl | hx
    · cases above with
      | nil => exact .inl rfl
      | cons next above => exact .inr List.mem_cons_self
    · exact (ih hx).imp_right fun hmem => List.map_subset _ (List.tail_sublist above).subset hmem

/-- A folder that was hung for others to hang from it has nothing else below it: the next lower one was hung last. -/
theorem Gains.childrenOf_first {folder : DocId × Bytes} {above : List (DocId × Bytes)}
    (h : Gains (entriesInTurn anchor (folder :: above)) s t) (hspare : Spare s prune id anchor (folder :: above)) :
    t.childrenOf folder.1 = .ok [] := by
  refine h.childrenOf_eq_nil (hspare.bare folder List.mem_cons_self) fun x hx hsame => ?_
  rcases parent_of_mem_entriesInTurn hx with hanchor | habove
  · exact (hspare.ne folder List.mem_cons_self).2 (hsame.symm.trans hanchor)
  · rw [hsame] at habove
    exact (List.nodup_cons.mp hspare.nodup).1 habove

/-- A step of the climb takes out what was hung there, and goes on if it may. -/
theorem detachUp_hungBelow (htidy : t.ChildrenTidy) {current : DocId} (hzero : current ≠ 0)
    (hsiblings : t.childrenOf parent = .ok siblings) (hascending : siblings.Pairwise (· < ·))
    (hnew : current ∉ siblings)
    (levels : Nat) :
    Store.detachUp prune id (levels + 1) current (t.hungBelow current parent name siblings) =
      (if siblings.isEmpty ∧ parent ≠ 0 ∧ prune parent then Store.detachUp prune id levels parent else pure ())
        (if current ≠ id then (t.setPathEntry current ⟨parent, name⟩).erasePathEntry current
          else t.setPathEntry current ⟨parent, name⟩) := by
  have hentry : (t.hungBelow current parent name siblings).pathEntryOf? current =
      .ok (some ⟨parent, PathEntry.storedName ⟨parent, name⟩⟩) := (pathEntryOf?_hungBelow hzero).trans (if_pos rfl)
  have hchildren : (t.hungBelow current parent name siblings).childrenOf parent =
      .ok (Ascending.insert current siblings) := (childrenOf_hungBelow hascending).trans (if_pos rfl)
  have herase : (Ascending.insert current siblings).erase current = siblings := by
    rw [Draft.erase_insert_self hascending, List.erase_of_not_mem hnew]
  rw [detachUp_succ hentry hchildren, takenOut]
  dsimp only
  rw [herase, setChildren_hungBelow htidy hsiblings]

/-- A climb to the lowest of some folders that were hung, or to their anchor if there are none, undoes the hanging of as
many of them as it has levels. -/
theorem climb_hangFolders (hs : s.TreeReadable) (htidy : s.ChildrenTidy) {folders : List (DocId × Bytes)}
    (hspare : Spare s prune id anchor folders) (levels : Nat) :
    ∃ parent siblings t last t', Store.hangFolders anchor folders s = .ok parent t ∧
      t.childrenOf parent = .ok siblings ∧ Store.hangFolders anchor (folders.drop levels) s = .ok last t' ∧
      (if siblings.isEmpty ∧ parent ≠ 0 ∧ prune parent then Store.detachUp prune id levels parent else pure ()) t =
        .ok () t' := by
  induction folders generalizing levels with
  | nil =>
    obtain ⟨siblings, hsiblings, _⟩ := hs.children anchor
    have hstop : ¬ (siblings.isEmpty ∧ anchor ≠ 0 ∧ prune anchor) := by
      rintro ⟨_, hne, hmay⟩
      exact hspare.stays.elim hne fun hstays => Bool.noConfusion (hstays.symm.trans hmay)
    refine ⟨anchor, siblings, s, anchor, s, rfl, hsiblings, by rw [List.drop_nil]; rfl, ?_⟩
    rw [if_neg hstop]
    rfl
  | cons folder above ih =>
    obtain ⟨t₁, hrest, hgains⟩ := hangFolders_gains hs anchor hspare.of_cons.zero
    obtain ⟨siblings, hsiblings, hascending⟩ := hgains.readable.children ((above.map (·.1)).headD anchor)
    have hhung : Store.hangFolders anchor (folder :: above) s =
        .ok folder.1 (t₁.hungBelow folder.1 ((above.map (·.1)).headD anchor) folder.2 siblings) :=
      hangFolders_cons hrest (hang_eq hsiblings)
    obtain ⟨t, hhung', hgains'⟩ := hangFolders_gains hs anchor hspare.zero
    cases hhung.symm.trans hhung'
    have hgo : ([] : List DocId).isEmpty ∧ folder.1 ≠ 0 ∧ prune folder.1 :=
      ⟨rfl, hspare.zero _ List.mem_cons_self, hspare.prune _ List.mem_cons_self⟩
    cases levels with
    | zero =>
      refine ⟨folder.1, [], _, folder.1, _, hhung, hgains'.childrenOf_first hspare, hhung, ?_⟩
      rw [if_pos hgo]
      rfl
    | succ levels =>
      obtain ⟨_, siblings', t₂, last, t', hrest', hsiblings', hdrop, hclimb⟩ := ih hspare.of_cons levels
      cases hrest.symm.trans hrest'
      cases hsiblings.symm.trans hsiblings'
      refine ⟨folder.1, [], _, last, t', hhung, hgains'.childrenOf_first hspare, hdrop, ?_⟩
      have htidy₁ : t₁.ChildrenTidy := by
        have hleft := keeps_hangFolders anchor hspare.of_cons.zero s htidy
        rwa [hrest] at hleft
      have hother : folder.1 ∉ (entriesInTurn anchor above).map (·.1) := by
        rw [map_entriesInTurn]
        exact (List.nodup_cons.mp hspare.nodup).1
      have hrow : t₁.pathEntries.find? (DocId.toKey folder.1) = none :=
        (hgains.row_of_not_mem hother).trans (hspare.rows _ List.mem_cons_self)
      have hunlisted : folder.1 ∉ siblings := fun hmem => hspare.unlisted _ List.mem_cons_self _
        ((hgains.listsBelow_of_not_mem hother).mp ((listsBelow_iff hsiblings).mpr hmem))
      rw [if_pos hgo, detachUp_hungBelow htidy₁ (hspare.zero _ List.mem_cons_self) hsiblings hascending hunlisted,
        if_pos (hspare.ne _ List.mem_cons_self).1, erasePathEntry_setPathEntry hrow]
      exact hclimb

/-! ### Hanging beside another entry -/

theorem hungBelow_setPathEntry (hne : other ≠ id) (e : PathEntry) :
    (s.setPathEntry id e).hungBelow other parent name siblings =
      (s.hungBelow other parent name siblings).setPathEntry id e := by
  have hkey : DocId.toKey other ≠ DocId.toKey id := fun hsame => hne (DocId.toKey_inj.mp hsame)
  have hentries : ∀ entries : Table, ∀ value value',
      (entries.insert (DocId.toKey id) value).insert (DocId.toKey other) value' =
        (entries.insert (DocId.toKey other) value').insert (DocId.toKey id) value := by
    intro entries value value'
    apply ByteMap.ext_find?
    intro key
    simp only [ByteMap.find?_insert]
    by_cases hother : key = DocId.toKey other
    · rw [if_pos hother, if_pos hother, if_neg (hother ▸ hkey)]
    · rw [if_neg hother, if_neg hother]
  unfold hungBelow setPathEntry setChildren
  cases (Ascending.insert other siblings).isEmpty
  · simp [hentries]
  · simp [hentries]

/-- Folders can be hung before or after the entry of another id is written. -/
theorem hangFolders_setPathEntry (hs : s.TreeReadable) (anchor : DocId) {folders : List (DocId × Bytes)}
    (hid : id ∉ folders.map (·.1)) (e : PathEntry) : ∃ last t, Store.hangFolders anchor folders s = .ok last t ∧
      t.TreeReadable ∧ Store.hangFolders anchor folders (s.setPathEntry id e) = .ok last (t.setPathEntry id e) := by
  induction folders with
  | nil => exact ⟨anchor, s, rfl, hs, rfl⟩
  | cons folder above ih =>
    rw [List.map_cons, List.mem_cons, not_or] at hid
    obtain ⟨parent, t, hrest, ht, hrest'⟩ := ih hid.2
    obtain ⟨siblings, hsiblings, hascending⟩ := ht.children parent
    refine ⟨folder.1, _, hangFolders_cons hrest (hang_eq hsiblings), treeReadable_hungBelow hascending ht, ?_⟩
    rw [← hungBelow_setPathEntry (Ne.symm hid.1)]
    exact hangFolders_cons hrest' (hang_eq hsiblings)

/-- The climb is the same if another id has an entry that is taken out already. -/
theorem climb_hangFolders_beside (hs : s.TreeReadable) (htidy : s.ChildrenTidy) {folders : List (DocId × Bytes)}
    (hspare : Spare s prune id anchor folders) (hid : id ∉ folders.map (·.1)) (e : PathEntry) (levels : Nat) :
    ∃ parent siblings t last t', Store.hangFolders anchor folders s = .ok parent t ∧
      t.childrenOf parent = .ok siblings ∧ Store.hangFolders anchor (folders.drop levels) s = .ok last t' ∧
      (if siblings.isEmpty ∧ parent ≠ 0 ∧ prune parent then Store.detachUp prune id levels parent else pure ())
        (t.setPathEntry id e) = .ok () (t'.setPathEntry id e) := by
  obtain ⟨_, siblings, _, _, _, hhung, hsiblings, hdrop, hclimb⟩ :=
    climb_hangFolders (hs.setPathEntry id e) (htidy.congr rfl) (hspare.setPathEntry e) levels
  have hdropped : id ∉ (folders.drop levels).map (·.1) := fun hmem =>
    hid (List.map_subset _ (List.drop_subset _ _) hmem)
  obtain ⟨_, t, hbefore, _, hafter⟩ := hangFolders_setPathEntry hs anchor hid e
  obtain ⟨_, t', hbefore', _, hafter'⟩ := hangFolders_setPathEntry hs anchor hdropped e
  cases hhung.symm.trans hafter
  cases hdrop.symm.trans hafter'
  exact ⟨_, siblings, t, _, t', hbefore, hsiblings, hbefore', hclimb⟩

/-! ### A path that was just hung -/

section Attach

variable {p : Placement} (hs : s.Matched) (hp : s.Placed p) (hnodup : (p.id :: p.missing.map (·.1)).Nodup)
  (hprune : ∀ x ∈ p.missing, prune x.1 = true) (hkeeps : ∀ x, s.HasEntry x → prune x = false)

include hs hp hnodup hprune hkeeps

/-- The folders that are missing above a path can be hung and taken away again. -/
theorem Placed.spare : Spare s prune p.id p.anchor p.missing := by
  rw [List.nodup_cons] at hnodup
  have hmissing : ∀ x ∈ p.missing, x.1 ≠ 0 ∧ ¬ s.HasEntry x.1 := fun x hx => hp.missing x.1 (List.mem_map_of_mem hx)
  refine ⟨hp.anchor.imp_right (hkeeps p.anchor), hnodup.2, fun x hx => (hmissing x hx).1, fun x hx => ⟨?_, ?_⟩,
    fun x hx => find?_of_not_hasEntry hs.readable (hmissing x hx).1 (hmissing x hx).2,
    fun x hx => hs.childrenOf (hmissing x hx).1 (hmissing x hx).2, fun x hx _ => hs.not_listsBelow (hmissing x hx).2,
    hprune⟩
  · intro hsame
    exact hnodup.1 (hsame ▸ List.mem_map_of_mem hx)
  · intro hsame
    obtain hroot | hentry := hp.anchor
    · exact (hmissing x hx).1 (hsame.trans hroot)
    · exact (hmissing x hx).2 (hsame ▸ hentry)

omit hs hprune hkeeps in
/-- Nothing that is hung with a document hangs from it. -/
theorem Placed.ne_parent (hnew : ¬ s.HasEntry p.id) :
    p.id ≠ p.parent ∧ ∀ x ∈ entriesInTurn p.anchor p.missing, x.2.parent ≠ p.id := by
  rw [List.nodup_cons] at hnodup
  have hanchor : p.id ≠ p.anchor := by
    intro hsame
    obtain hroot | hentry := hp.anchor
    · exact hp.id_ne (hsame.trans hroot)
    · exact hnew (hsame ▸ hentry)
  refine ⟨?_, fun x hx hsame => ?_⟩
  · rw [parent_eq_headD]
    cases hmissing : p.missing with
    | nil => exact hanchor
    | cons folder above =>
      rw [hmissing] at hnodup
      exact (List.ne_and_not_mem_of_not_mem_cons hnodup.1).1
  · obtain htop | habove := parent_of_mem_entriesInTurn hx
    · exact hanchor (hsame.symm.trans htop)
    · rw [hsame] at habove
      exact hnodup.1 (List.map_subset _ (List.tail_sublist _).subset habove)

/-- A path that is hung and unlinked again leaves the folders that the climb has no levels for. -/
theorem unlink_attach (hnew : ¬ s.HasEntry p.id) : ∃ s₁ last s₂, Store.attach p s = .ok () s₁ ∧
    Store.hangFolders p.anchor (p.missing.drop (maxDepth - 1)) s = .ok last s₂ ∧
    Store.unlink prune p.id s₁ = .ok true s₂ := by
  have hspare := hp.spare hs hnodup hprune hkeeps
  have hapart := hp.ne_parent hnodup hnew
  rw [List.nodup_cons] at hnodup
  have hother : p.id ∉ (entriesInTurn p.anchor p.missing).map (·.1) := by
    rw [map_entriesInTurn]
    exact hnodup.1
  obtain ⟨_, siblings, t, last, s₂, hhung, hsiblings, hdrop, hclimb⟩ := climb_hangFolders_beside hs.readable hs.tidy
    hspare hnodup.1 ⟨p.parent, p.name⟩ (maxDepth - 1)
  obtain ⟨_, hhung', hgains⟩ := hangFolders_gains hs.readable p.anchor hspare.zero
  rw [← parent_eq_headD] at hhung'
  cases hhung.symm.trans hhung'
  obtain ⟨_, hsiblings', hascending⟩ := hgains.readable.children p.parent
  cases hsiblings.symm.trans hsiblings'
  have hunlisted : p.id ∉ siblings := fun hmem => hs.not_listsBelow hnew
    ((hgains.listsBelow_of_not_mem hother).mp ((listsBelow_iff hsiblings).mpr hmem))
  have htidy : t.ChildrenTidy := by
    have hleft := keeps_hangFolders p.anchor hspare.zero s hs.tidy
    rwa [hhung] at hleft
  have hbare : (t.hungBelow p.id p.parent p.name siblings).childrenOf p.id = .ok [] := by
    rw [childrenOf_hungBelow hascending, if_neg hapart.1]
    exact hgains.childrenOf_eq_nil (hs.childrenOf hp.id_ne hnew) hapart.2
  have hpath : (t.hungBelow p.id p.parent p.name siblings).hasPath p.id = true := by
    rw [hasPath_iff_hasEntry (treeReadable_hungBelow hascending hgains.readable)]
    exact ⟨_, (pathEntryOf?_hungBelow hp.id_ne).trans (if_pos rfl)⟩
  have hdetach : Store.detach prune p.id (t.hungBelow p.id p.parent p.name siblings) =
      .ok () (s₂.setPathEntry p.id ⟨p.parent, p.name⟩) := by
    unfold Store.detach
    rw [show maxDepth = maxDepth - 1 + 1 from rfl, detachUp_hungBelow htidy hp.id_ne hsiblings hascending hunlisted,
      if_neg (not_not_intro rfl)]
    exact hclimb
  have hrow : s₂.pathEntries.find? (DocId.toKey p.id) = none := by
    obtain ⟨_, hdrop', hgains'⟩ := hangFolders_gains hs.readable p.anchor fun x hx =>
      hspare.zero x (List.mem_of_mem_drop hx)
    cases hdrop.symm.trans hdrop'
    rw [hgains'.row_of_not_mem, find?_of_not_hasEntry hs.readable hp.id_ne hnew]
    rw [map_entriesInTurn]
    exact fun hmem => hnodup.1 (List.map_subset _ (List.drop_subset _ _) hmem)
  refine ⟨_, last, s₂, attach_of_ok hhung (hang_eq hsiblings), hdrop, ?_⟩
  rw [unlink_of_detach hpath hbare hdetach, erasePathEntry_setPathEntry hrow]

/-- Nothing is left if fewer folders were missing than levels are followed. -/
theorem unlink_attach_of_lt (hnew : ¬ s.HasEntry p.id) (hless : p.missing.length < maxDepth) :
    ∃ s₁, Store.attach p s = .ok () s₁ ∧ Store.unlink prune p.id s₁ = .ok true s := by
  obtain ⟨s₁, _, s₂, hattach, hdrop, hunlink⟩ := unlink_attach hs hp hnodup hprune hkeeps hnew
  rw [List.drop_of_length_le (Nat.le_sub_one_of_lt hless)] at hdrop
  cases hdrop
  exact ⟨s₁, hattach, hunlink⟩

/-- The topmost folder is left if as many were missing. -/
theorem unlink_attach_of_eq (hnew : ¬ s.HasEntry p.id) (hfull : p.missing.length = maxDepth) :
    ∃ s₁ top siblings, Store.attach p s = .ok () s₁ ∧ p.missing.getLast? = some top ∧
      s.childrenOf p.anchor = .ok siblings ∧
      Store.unlink prune p.id s₁ = .ok true (s.hungBelow top.1 p.anchor top.2 siblings) ∧
      s.hungBelow top.1 p.anchor top.2 siblings ≠ s := by
  obtain ⟨s₁, _, s₂, hattach, hdrop, hunlink⟩ := unlink_attach hs hp hnodup hprune hkeeps hnew
  have hone : (p.missing.drop (maxDepth - 1)).length = 1 := by
    rw [List.length_drop, hfull]
    rfl
  obtain ⟨top, htop⟩ := List.length_eq_one_iff.mp hone
  have hsplit : p.missing = p.missing.take (maxDepth - 1) ++ [top] := by
    rw [← htop, List.take_append_drop]
  have hmem : top ∈ p.missing := hsplit ▸ List.mem_append_right _ List.mem_cons_self
  obtain ⟨siblings, hsiblings, _⟩ := hs.readable.children p.anchor
  have hrest : Store.hangFolders p.anchor [] s = .ok p.anchor s := rfl
  rw [htop] at hdrop
  cases hdrop.symm.trans (hangFolders_cons hrest (hang_eq hsiblings))
  obtain ⟨hzero, hnone⟩ := hp.missing top.1 (List.mem_map_of_mem hmem)
  refine ⟨s₁, top, siblings, hattach, ?_, hsiblings, hunlink, fun hsame => hnone ?_⟩
  · rw [hsplit, List.getLast?_concat]
  · rw [← hsame]
    exact ⟨_, (pathEntryOf?_hungBelow hzero).trans (if_pos rfl)⟩

end Attach

/-! ### As many folders as are followed -/

/-- A known path and the folders above it have different ids. -/
theorem nodup_foldersUpTo (r : Naming) {name : Bytes} {above : List Bytes} (hknown : r.known (name :: above)) {k : Nat}
    (hk : k ≤ above.length) : (r.idOf (name :: above) :: (foldersUpTo r.resolve above k).map (·.1)).Nodup := by
  have hlevel : ∀ j, r.resolve.level (r.idOf (name :: above)) (name :: above) j = r.idOf ((name :: above).drop j) := by
    intro j
    cases j <;> rfl
  show (((r.idOf (name :: above), name) :: foldersUpTo r.resolve above k).map (·.1)).Nodup
  rw [levels_eq, List.map_map]
  refine List.Nodup.map_on (fun i hi j hj hsame => ?_) List.nodup_range
  dsimp only [Function.comp] at hsame
  rw [hlevel, hlevel,
    Naming.idOf_inj (hknown.of_suffix (List.drop_suffix i _)) (hknown.of_suffix (List.drop_suffix j _))] at hsame
  have hlength := congrArg List.length hsame
  rw [List.length_drop, List.length_drop, List.length_cons] at hlength
  rw [List.mem_range] at hi hj
  omega

/-- In the empty tree all folders above a known path are missing. -/
theorem locate_empty (r : Naming) {name : Bytes} {above : List Bytes} (hknown : r.known (name :: above))
    (hvalid : Path.Valid (name :: above)) (hroom : above.length ≤ maxDepth) :
    (∅ : Store).locate r.resolve (r.idOf (name :: above)) (Path.render (name :: above)) =
      .ok (some ⟨r.idOf (name :: above), name, 0, foldersUpTo r.resolve above above.length⟩) := by
  have hne := List.cons_ne_nil name above
  have hown : ¬ (above ≠ [] ∧ r.resolve (Path.render above) = r.idOf (name :: above)) := by
    rintro ⟨hsome, hsame⟩
    rw [Naming.idOf_cons] at hsame
    exact List.cons_ne_self name above (r.injective (r.up hknown) hknown hsome hne hsame).symm
  rw [locate_of_parse (Naming.idOf_ne_zero hne hknown) (Path.parse_render hne hvalid) hown]
  obtain ⟨k, hk, hpassed, ⟨hlt, hzero, _⟩ | ⟨rfl, hlt, _⟩ | ⟨hend, hsearch⟩⟩ :=
    missingFolders_search ∅ r.resolve maxDepth above
  · have hsome : above.drop k ≠ [] := by
      rw [ne_eq, List.drop_eq_nil_iff]
      exact Nat.not_le_of_lt hlt
    exact absurd hzero (Naming.idOf_ne_zero hsome ((r.up hknown).of_suffix (List.drop_suffix k above)))
  · exact absurd hlt (Nat.not_lt_of_ge hroom)
  · have hall : k = above.length := hend.resolve_right fun hpath =>
      not_hasEntry_of_none (pathEntryOf?_empty _) ((hasPath_iff_hasEntry treeReadable_empty).mp hpath)
    rw [hsearch, hall, List.drop_length]
    rfl

/-- A document that is hung in the empty tree below as many folders as are followed leaves one of them behind. -/
theorem exists_left_of_empty (r : Naming) {name : Bytes} {above : List Bytes} (hknown : r.known (name :: above))
    (hvalid : Path.Valid (name :: above)) (hfull : above.length = maxDepth) : ∃ p s₁ s₂,
      (∅ : Store).locate r.resolve (r.idOf (name :: above)) (Path.render (name :: above)) = .ok (some p) ∧
      (r.idOf (name :: above) :: p.missing.map (·.1)).Nodup ∧
      Store.putPath r.resolve (r.idOf (name :: above)) (Path.render (name :: above)) ∅ = .ok true s₁ ∧
      Store.unlink (fun x => decide (x ∈ p.missing.map (·.1))) (r.idOf (name :: above)) s₁ = .ok true s₂ ∧ s₂ ≠ ∅ := by
  have hnone : ∀ x, ¬ (∅ : Store).HasEntry x := fun x => not_hasEntry_of_none (pathEntryOf?_empty x)
  have hplace := locate_empty r hknown hvalid hfull.le
  have hp := placed_of_locate treeReadable_empty hplace
  have hids := nodup_foldersUpTo r hknown (Nat.le_refl above.length)
  have hlength : (foldersUpTo r.resolve above above.length).length = maxDepth := by
    rw [foldersUpTo, List.length_map, List.length_range, hfull]
  let prune : DocId → Bool := fun x => decide (x ∈ (foldersUpTo r.resolve above above.length).map (·.1))
  have hprune : ∀ x ∈ foldersUpTo r.resolve above above.length, prune x.1 = true := fun x hx =>
    decide_eq_true (List.mem_map_of_mem hx)
  obtain ⟨s₁, top, siblings, hattach, _, _, hunlink, hleft⟩ := unlink_attach_of_eq
    (linked_empty.matched childrenTidy_empty) hp hids hprune (fun x hx => absurd hx (hnone x)) (hnone _) hlength
  exact ⟨_, s₁, _, hplace, hids, putPath_of_attach hplace hattach, hunlink, hleft⟩

/-! ### Hanging and unlinking -/

/-- In a tree whose two tables agree, a path is hung whose folders have ids that differ from each other and from that of
the document, which has no entry. Then it is unlinked, and just the folders that were missing may go. This takes the
document away, and the tree is as it was before exactly if fewer folders were missing than levels are followed. If there
were as many, the topmost of them is left. -/
theorem unlink_putPath (hs : s.Matched) {resolver : Resolver} {url : Bytes} {p : Placement}
    (hplace : s.locate resolver id url = .ok (some p)) (hnew : ¬ s.HasEntry id)
    (hnodup : (id :: p.missing.map (·.1)).Nodup) (hprune : ∀ x ∈ p.missing, prune x.1 = true)
    (hkeeps : ∀ x, s.HasEntry x → prune x = false) :
    ∃ s₁ s₂, Store.putPath resolver id url s = .ok true s₁ ∧ Store.unlink prune id s₁ = .ok true s₂ ∧
      p.missing.length ≤ maxDepth ∧ (s₂ = s ↔ p.missing.length < maxDepth) ∧
      (p.missing.length = maxDepth → ∃ top siblings, p.missing.getLast? = some top ∧
        s.childrenOf p.anchor = .ok siblings ∧ s₂ = s.hungBelow top.1 p.anchor top.2 siblings) := by
  obtain ⟨_, _, _, _, rfl, _, hmissing⟩ := locate_spec hplace
  have hp := placed_of_locate hs.readable hplace
  have hlength := length_le_of_missingFolders hmissing
  rcases Nat.lt_or_eq_of_le hlength with hless | hfull
  · obtain ⟨s₁, hattach, hunlink⟩ := unlink_attach_of_lt hs hp hnodup hprune hkeeps hnew hless
    exact ⟨s₁, s, putPath_of_attach hplace hattach, hunlink, hlength, iff_of_true rfl hless,
      fun hfull => absurd hfull (Nat.ne_of_lt hless)⟩
  · obtain ⟨s₁, top, siblings, hattach, htop, hsiblings, hunlink, hleft⟩ :=
      unlink_attach_of_eq hs hp hnodup hprune hkeeps hnew hfull
    exact ⟨s₁, _, putPath_of_attach hplace hattach, hunlink, hlength, iff_of_false hleft (Nat.not_lt_of_ge hfull.ge),
      fun _ => ⟨top, siblings, htop, hsiblings, rfl⟩⟩

/-- A document in a missing folder, below a folder that is there, comes and goes without a trace. -/
theorem unlink_putPath_below_folder :
    let s : Store := (∅ : Store).hungBelow 7 0 [0x64] []
    let resolver : Resolver := .listed [([0x2F, 0x64], 7), ([0x2F, 0x64, 0x2F, 0x65], 8)]
    let url : Bytes := [0x2F, 0x64, 0x2F, 0x65, 0x2F, 0x66]
    let prune : DocId → Bool := (· == 8)
    s.Matched ∧ s.locate resolver 9 url = .ok (some ⟨9, [0x66], 7, [(8, [0x65])]⟩) ∧ ¬ s.HasEntry 9 ∧
      (∀ x, s.HasEntry x → prune x = false) ∧
      ∃ s₁, Store.putPath resolver 9 url s = .ok true s₁ ∧ Store.unlink prune 9 s₁ = .ok true s := by
  intro s resolver url prune
  have hempty : (∅ : Store).childrenOf 0 = .ok [] := rfl
  have hname : ([0x64] : Bytes) ≠ [] ∧ Path.slash ∉ ([0x64] : Bytes) := by decide
  have hroot : (∅ : Store).CanHold 0 := .inl rfl
  obtain ⟨s', hhang, hlinked, hentry⟩ := (linked_iff.mp linked_empty).hang (by decide : (7 : DocId) ≠ 0) hname
    (by decide) hroot (.inl (not_hasEntry_of_none (pathEntryOf?_empty 7)))
  cases hhang.symm.trans (hang_eq hempty)
  rw [ite_self, ← linked_iff] at hlinked
  have htidy : s.ChildrenTidy := keeps_hang (by decide : (7 : DocId) ≠ 0) 0 [0x64] ∅ childrenTidy_empty
  have honly : ∀ x, s.HasEntry x → x = 7 := by
    rintro x ⟨e, he⟩
    by_contra hne
    rw [hentry, if_neg hne, pathEntryOf?_empty] at he
    cases he
  have hplace : s.locate resolver 9 url = .ok (some ⟨9, [0x66], 7, [(8, [0x65])]⟩) := by decide +kernel
  have hkeeps : ∀ x, s.HasEntry x → prune x = false := by
    intro x hx
    rw [honly x hx]
    rfl
  have hnew : ¬ s.HasEntry 9 := fun hx => absurd (honly 9 hx) (by decide)
  obtain ⟨s₁, s₂, hput, hunlink, _, hsame, _⟩ := unlink_putPath (hlinked.matched htidy) hplace hnew (by decide)
    (by decide) hkeeps
  rw [hsame.mpr (by decide)] at hunlink
  exact ⟨hlinked.matched htidy, hplace, hnew, hkeeps, s₁, hput, hunlink⟩

/-- In the empty tree a document is hung below as many folders as are followed. When it is unlinked, one of
them stays. -/
theorem folder_left_by_unlink :
    let resolver := Naming.ladder.resolve
    let names : List Bytes := [0x61] :: rungs maxDepth
    let id := Naming.ladder.idOf names
    (∅ : Store).Matched ∧ ¬ (∅ : Store).HasEntry id ∧ ∃ p s₁ s₂,
      (∅ : Store).locate resolver id (Path.render names) = .ok (some p) ∧ (id :: p.missing.map (·.1)).Nodup ∧
      Store.putPath resolver id (Path.render names) ∅ = .ok true s₁ ∧
      Store.unlink (fun x => decide (x ∈ p.missing.map (·.1))) id s₁ = .ok true s₂ ∧ s₂ ≠ ∅ := by
  intro resolver names id
  have hnone : ¬ (∅ : Store).HasEntry id := not_hasEntry_of_none (pathEntryOf?_empty id)
  refine ⟨linked_empty.matched childrenTidy_empty, hnone, ?_⟩
  exact exists_left_of_empty .ladder ⟨maxDepth + 1, by decide, rfl⟩ (Path.parse_spec (parse_rungs maxDepth)).2.1
    List.length_replicate

end FileIndex.Store
