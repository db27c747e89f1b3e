import FileIndex.Proofs.Encoding.Sets
import FileIndex.Proofs.Tree.Links

/-!
# What hanging writes

Hanging ids writes an entry for each of them and lists each below the parent that its entry names. Nothing else is
written: no id loses a parent that it had been listed below.

* `Store.TreeLegible`: the values of the two tables of the tree can be read.
* `Store.entriesInTurn`: the entries of folders that hang in turn.
* `Store.Gains`: a tree has gained entries, and the links that go with them. Entries that come first count.
* `Gains.hang`, `hangFolders_gains`, `attach_gains`: so it has when ids are hung.
-/

namespace FileIndex

/-- What is true of the values of a table and of a new one is true with the new one entered. -/
theorem Table.forall_values_insert {P : Bytes → Prop} {t : Table}
    (ht : ∀ key value, t.find? key = some value → P value) (key : Bytes) {value : Bytes} (hvalue : P value) :
    ∀ key' value', (t.insert key value).find? key' = some value' → P value' := by
  intro key' value' hfind
  rw [ByteMap.find?_insert] at hfind
  by_cases hkey : key' = key
  · rw [if_pos hkey] at hfind
    cases hfind
    exact hvalue
  · rw [if_neg hkey] at hfind
    exact ht key' value' hfind

namespace Store

variable {s s' : Store} {id parent anchor : DocId} {name : Bytes}

/-- All values of the tree of paths can be read. -/
structure TreeLegible (s : Store) : Prop where
  children : ∀ key value, s.children.find? key = some value → ∃ ids, IdList.decode value = .ok ids
  pathEntries : ∀ key value, s.pathEntries.find? key = some value → ∃ e, PathEntry.decode value = .ok e

/-- Lists of children that can be read ascend. -/
theorem TreeLegible.readable (h : s.TreeLegible) : s.TreeReadable := by
  refine ⟨fun id => ?_, fun id => ?_⟩
  · unfold childrenOf
    cases hvalue : s.children.find? (DocId.toKey id) with
    | none => exact ⟨[], rfl, .nil⟩
    | some value =>
      obtain ⟨ids, hids⟩ := h.children _ value hvalue
      simp only [hids, Malformed.orFail]
      exact ⟨ids, rfl, IdList.ascends_of_decode hids⟩
  · unfold pathEntryOf?
    by_cases hid : id = 0
    · exact ⟨none, if_pos hid⟩
    · rw [if_neg hid]
      cases hvalue : s.pathEntries.find? (DocId.toKey id) with
      | none => exact ⟨none, rfl⟩
      | some value =>
        obtain ⟨e, he⟩ := h.pathEntries _ value hvalue
        simp only [he, Malformed.orFail]
        exact ⟨some e, rfl⟩

/-- The entries of folders that hang in turn, each from the next one and the last one from the anchor. -/
def entriesInTurn (anchor : DocId) : List (DocId × Bytes) → List (DocId × PathEntry)
  | [] => []
  | (id, name) :: above => (id, ⟨(above.map (·.1)).headD anchor, name⟩) :: entriesInTurn anchor above

/-- The tree has gained these entries, and for each of them the id is listed below the parent. Of two entries of one id
the first counts. What is stored under other keys is as before. -/
structure Gains (new : List (DocId × PathEntry)) (s s' : Store) : Prop where
  readable : s'.TreeReadable
  entries : ∀ x, s'.pathEntryOf? x =
    (new.lookup x).elim (s.pathEntryOf? x) fun e => .ok (some ⟨e.parent, e.storedName⟩)
  lists : ∀ above x, s'.ListsBelow above x ↔ s.ListsBelow above x ∨ ∃ e, (x, e) ∈ new ∧ e.parent = above
  entryRows : ∀ key, (∀ x ∈ new, key ≠ DocId.toKey x.1) → s'.pathEntries.find? key = s.pathEntries.find? key
  childRows : ∀ key, (∀ x ∈ new, key ≠ DocId.toKey x.2.parent) → s'.children.find? key = s.children.find? key
  rest : SameButTree s s'

theorem map_entriesInTurn (anchor : DocId) (folders : List (DocId × Bytes)) :
    (entriesInTurn anchor folders).map (·.1) = folders.map (·.1) := by
  induction folders with
  | nil => rfl
  | cons folder above ih => rw [entriesInTurn, List.map_cons, List.map_cons, ih]

theorem lookup_of_mem {new : List (DocId × PathEntry)} (hnodup : (new.map (·.1)).Nodup) {x : DocId} {e : PathEntry}
    (hx : (x, e) ∈ new) : new.lookup x = some e := by
  induction new with
  | nil => cases hx
  | cons first rest ih =>
    rw [List.map_cons, List.nodup_cons] at hnodup
    rw [List.lookup_cons]
    rcases List.mem_cons.mp hx with rfl | hx
    · rw [beq_self_eq_true]
    · have hne : x ≠ first.1 := fun heq => hnodup.1 (heq ▸ List.mem_map_of_mem hx)
      rw [beq_false_of_ne hne, ih hnodup.2 hx]

theorem Gains.entry_of_mem {new : List (DocId × PathEntry)} (h : Gains new s s') (hnodup : (new.map (·.1)).Nodup)
    {x : DocId} {e : PathEntry} (hx : (x, e) ∈ new) : s'.pathEntryOf? x = .ok (some ⟨e.parent, e.storedName⟩) := by
  rw [h.entries, lookup_of_mem hnodup hx]
  rfl

theorem Gains.entry_of_not_mem {new : List (DocId × PathEntry)} (h : Gains new s s') {x : DocId}
    (hx : x ∉ new.map (·.1)) : s'.pathEntryOf? x = s.pathEntryOf? x := by
  have hnone : new.lookup x = none := by
    rw [List.lookup_eq_none_iff]
    intro entry hentry
    rw [bne_iff_ne]
    rintro rfl
    exact hx (List.mem_map_of_mem hentry)
  rw [h.entries, hnone]
  rfl

theorem Gains.row_of_not_mem {new : List (DocId × PathEntry)} (h : Gains new s s') {x : DocId}
    (hx : x ∉ new.map (·.1)) : s'.pathEntries.find? (DocId.toKey x) = s.pathEntries.find? (DocId.toKey x) := by
  apply h.entryRows
  intro y hy hkey
  rw [DocId.toKey_inj] at hkey
  exact hx (hkey ▸ List.mem_map_of_mem hy)

theorem Gains.listsBelow_of_not_mem {new : List (DocId × PathEntry)} (h : Gains new s s') {above x : DocId}
    (hx : x ∉ new.map (·.1)) : s'.ListsBelow above x ↔ s.ListsBelow above x := by
  rw [h.lists, or_iff_left]
  rintro ⟨e, he, _⟩
  exact hx (List.mem_map_of_mem he)

/-- Nothing is below an id if nothing was and nothing was hung from it. -/
theorem Gains.childrenOf_eq_nil {new : List (DocId × PathEntry)} (h : Gains new s s') {x : DocId}
    (hbefore : s.childrenOf x = .ok []) (hnone : ∀ y ∈ new, y.2.parent ≠ x) : s'.childrenOf x = .ok [] := by
  obtain ⟨ids, hids, _⟩ := h.readable.children x
  rw [hids, Except.ok.injEq, List.eq_nil_iff_forall_not_mem]
  intro child hchild
  rcases (h.lists x child).mp ⟨ids, hids, hchild⟩ with hlisted | ⟨e, he, hparent⟩
  · rw [listsBelow_iff hbefore] at hlisted
    cases hlisted
  · exact hnone _ he hparent

theorem Gains.refl (hs : s.TreeReadable) : Gains [] s s :=
  ⟨hs, fun _ => rfl, fun _ _ => by simp, fun _ _ => rfl, fun _ _ => rfl, .refl s⟩

theorem find?_setChildren {ids : List DocId} {key : Bytes} (hkey : key ≠ DocId.toKey parent) :
    (s.setChildren parent ids).children.find? key = s.children.find? key := by
  unfold setChildren
  split
  · exact (ByteMap.find?_erase ..).trans (if_neg hkey)
  · exact (ByteMap.find?_insert ..).trans (if_neg hkey)

theorem find?_setChildren_self (s : Store) (parent : DocId) (ids : List DocId) :
    (s.setChildren parent ids).children.find? (DocId.toKey parent) = stored? IdList.encode ids := by
  unfold setChildren stored?
  split
  · exact (ByteMap.find?_erase ..).trans (if_pos rfl)
  · exact (ByteMap.find?_insert ..).trans (if_pos rfl)

/-- One more id is hung, wherever it was before. -/
theorem Gains.hang {new : List (DocId × PathEntry)} (h : Gains new s s') (hid : id ≠ 0) (parent : DocId)
    (name : Bytes) : ∃ s'', Store.hang id parent name s' = .ok () s'' ∧ Gains ((id, ⟨parent, name⟩) :: new) s s'' := by
  obtain ⟨siblings, hsiblings, hascending⟩ := h.readable.children parent
  refine ⟨s'.hungBelow id parent name siblings, hang_eq hsiblings, ?_⟩
  constructor
  · exact treeReadable_hungBelow hascending h.readable
  · intro x
    rw [pathEntryOf?_hungBelow hid, h.entries, List.lookup_cons]
    by_cases hx : x = id
    · rw [if_pos hx, beq_iff_eq.mpr hx]
      rfl
    · rw [if_neg hx, beq_false_of_ne hx]
  · intro above x
    rw [listsBelow_hungBelow hsiblings hascending, h.lists]
    simp only [List.mem_cons, Prod.mk.injEq]
    constructor
    · rintro (⟨habove, hx⟩ | hbefore | ⟨e, he, hparent⟩)
      · exact .inr ⟨_, .inl ⟨hx, rfl⟩, habove.symm⟩
      · exact .inl hbefore
      · exact .inr ⟨e, .inr he, hparent⟩
    · rintro (hbefore | ⟨e, ⟨hx, rfl⟩ | he, hparent⟩)
      · exact .inr (.inl hbefore)
      · exact .inl ⟨hparent.symm, hx⟩
      · exact .inr (.inr ⟨e, he, hparent⟩)
  · intro key hkeys
    obtain ⟨hkey, hkeys⟩ := List.forall_mem_cons.mp hkeys
    show ((s'.setChildren parent _).pathEntries.insert (DocId.toKey id) _).find? key = _
    rw [ByteMap.find?_insert, if_neg hkey, pathEntries_setChildren, h.entryRows key hkeys]
  · intro key hkeys
    obtain ⟨hkey, hkeys⟩ := List.forall_mem_cons.mp hkeys
    exact (find?_setChildren hkey).trans (h.childRows key hkeys)
  · exact (h.rest.trans (sameButTree_setChildren s' parent _)).trans rfl

/-- Folders are hung, each of them below the next one. -/
theorem hangFolders_gains (hs : s.TreeReadable) (anchor : DocId) {folders : List (DocId × Bytes)}
    (hzero : ∀ x ∈ folders, x.1 ≠ 0) :
    ∃ s', Store.hangFolders anchor folders s = .ok ((folders.map (·.1)).headD anchor) s' ∧
      Gains (entriesInTurn anchor folders) s s' := by
  induction folders with
  | nil => exact ⟨s, rfl, .refl hs⟩
  | cons folder rest ih =>
    obtain ⟨id, name⟩ := folder
    obtain ⟨hid, hrest⟩ := List.forall_mem_cons.mp hzero
    obtain ⟨s₁, habove, h₁⟩ := ih hrest
    obtain ⟨s₂, hhang, h₂⟩ := h₁.hang hid ((rest.map (·.1)).headD anchor) name
    exact ⟨s₂, hangFolders_cons habove hhang, h₂⟩

/-- A path is hung in its place together with the missing folders, which are hung as if it were one of them. -/
theorem attach_gains (hs : s.TreeReadable) {p : Placement} (hid : p.id ≠ 0) (hzero : ∀ x ∈ p.missing, x.1 ≠ 0) :
    ∃ s', Store.attach p s = .ok () s' ∧ Gains (entriesInTurn p.anchor ((p.id, p.name) :: p.missing)) s s' := by
  obtain ⟨s₁, hfolders, h₁⟩ := hangFolders_gains hs p.anchor hzero
  obtain ⟨s₂, hhang, h₂⟩ := h₁.hang hid ((p.missing.map (·.1)).headD p.anchor) p.name
  exact ⟨s₂, attach_of_ok hfolders hhang, h₂⟩

end Store
end FileIndex
