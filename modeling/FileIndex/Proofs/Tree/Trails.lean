import FileIndex.Proofs.Tree.Guards
import FileIndex.Proofs.Tree.Names

/-!
# Ids and names on the way up

A path is hung by the ids and the names of the folders above it, so that its way up is told by both at once. When an
id is hung elsewhere, the ways that come by it change from there on upwards, and all others stay as they are.

* `Store.Trail`: the ids with their names from an id up to the root. `Trail.wayUp`, `Trail.namedWay`: its two halves.
* `Trail.of_entry`, `Trail.congr`: a trail goes on from its entry, and stays where the entries on it do.
* `attach_trail`: the trail of a path that is hung.
* `Trail.rehung`: the trails after one id was hung elsewhere and some entries were taken away.
* `Trail.pathOf`: what the path of an id is.
-/

namespace FileIndex.Store

variable {s s' : Store} {id anchor parent x : DocId} {t old new : List (DocId × Bytes)} {e : PathEntry}

/-- The ids with their names from an id up to the root, which is not among them. -/
inductive Trail (s : Store) : DocId → List (DocId × Bytes) → Prop
  | root : Trail s 0 []
  | up {id : DocId} {e : PathEntry} {above : List (DocId × Bytes)} : s.pathEntryOf? id = .ok (some e) →
    Trail s e.parent above → Trail s id ((id, e.name) :: above)

theorem WayUp.exists_trail {ids : List DocId} (h : s.WayUp id ids) : ∃ t, s.Trail id t ∧ t.map (·.1) = ids := by
  induction h with
  | root => exact ⟨[], .root, rfl⟩
  | @up id parent above hangs _ ih =>
    obtain ⟨name, he⟩ := hangs
    obtain ⟨t, ht, rfl⟩ := ih
    exact ⟨(id, name) :: t, .up he ht, rfl⟩

namespace Trail

theorem wayUp (h : s.Trail id t) : s.WayUp id (t.map (·.1)) := by
  induction h with
  | root => exact .root
  | up he _ ih => exact .up ⟨_, he⟩ ih

theorem namedWay (h : s.Trail id t) : s.NamedWay id (t.map (·.2)) := by
  induction h with
  | root => exact .root
  | up he _ ih => exact .up he ih

/-- The trail goes on from what the id hangs from. -/
theorem of_entry (h : s.Trail id t) (he : s.pathEntryOf? id = .ok (some e)) :
    ∃ above, t = (id, e.name) :: above ∧ s.Trail e.parent above := by
  cases h with
  | root => cases s.pathEntryOf?_zero.symm.trans he
  | up he' habove =>
    cases he'.symm.trans he
    exact ⟨_, rfl, habove⟩

theorem unique {t' : List (DocId × Bytes)} (h : s.Trail id t) (h' : s.Trail id t') : t = t' := by
  induction h generalizing t' with
  | root =>
    cases h' with
    | root => rfl
    | up he _ => cases s.pathEntryOf?_zero.symm.trans he
  | up he _ ih =>
    obtain ⟨above, rfl, habove⟩ := h'.of_entry he
    rw [ih habove]

theorem hasEntry (h : s.Trail id t) (hx : x ∈ t.map (·.1)) : s.HasEntry x := h.wayUp.hasEntry hx

theorem congr (h : s.Trail id t) (hsame : ∀ x ∈ t.map (·.1), s'.pathEntryOf? x = s.pathEntryOf? x) : s'.Trail id t := by
  induction h with
  | root => exact .root
  | up he _ ih =>
    obtain ⟨hid, habove⟩ := List.forall_mem_cons.mp hsame
    exact .up (hid.trans he) (ih habove)

/-- The path of an id is written from the names on its trail, if that is not too long to be followed. -/
theorem pathOf (h : s.Trail id t) (hlength : t.length ≤ maxDepth + 1) :
    s.pathOf id = .ok (Path.render (t.map (·.2))) := by
  rw [h.namedWay.pathOf, List.length_map, if_pos hlength]

end Trail

/-! ### Hanging -/

theorem pathEntryOf?_of_hang (hs : s.TreeReadable) (hid : id ≠ 0) {name : Bytes} (hlength : name.length < UInt64.size)
    (h : Store.hang id parent name s = .ok () s') (x : DocId) :
    s'.pathEntryOf? x = if x = id then .ok (some ⟨parent, name⟩) else s.pathEntryOf? x := by
  obtain ⟨siblings, hsiblings, _⟩ := hs.children parent
  cases (hang_eq hsiblings).symm.trans h
  rw [pathEntryOf?_hungBelow hid, storedName_of_length hlength]

/-- The names of missing folders can be stored, and none of the folders is on the trail of the anchor. -/
structure Attachable (folders t : List (DocId × Bytes)) : Prop where
  nodup : (folders.map (·.1)).Nodup
  ne_zero : ∀ x ∈ folders, x.1 ≠ 0
  lengths : ∀ x ∈ folders, x.2.length < UInt64.size
  apart : ∀ x ∈ t.map (·.1), x ∉ folders.map (·.1)

/-- One more id is hung, and its trail goes on from that of its parent. -/
theorem Trail.hang (h : s.Trail parent t) (hs : s.TreeReadable) (hid : id ≠ 0) (hnew : id ∉ t.map (·.1)) {name : Bytes}
    (hlength : name.length < UInt64.size) (hhang : Store.hang id parent name s = .ok () s') :
    s'.Trail id ((id, name) :: t) := by
  have hentry := pathEntryOf?_of_hang hs hid hlength hhang
  refine .up ((hentry id).trans (if_pos rfl)) (h.congr fun x hx => ?_)
  rw [hentry, if_neg]
  rintro rfl
  exact hnew hx

/-- The trail of folders that are hung below an anchor, and the entries of all other ids. -/
theorem hangFolders_trail (hs : s.TreeReadable) (h : s.Trail anchor t) {folders : List (DocId × Bytes)}
    (hfolders : Attachable folders t) :
    ∃ s', Store.hangFolders anchor folders s = .ok ((folders.map (·.1)).headD anchor) s' ∧ s'.TreeReadable ∧
      s'.Trail ((folders.map (·.1)).headD anchor) (folders ++ t) ∧
      ∀ x, x ∉ folders.map (·.1) → s'.pathEntryOf? x = s.pathEntryOf? x := by
  induction folders with
  | nil => exact ⟨s, rfl, hs, h, fun _ _ => rfl⟩
  | cons folder rest ih =>
    obtain ⟨id, name⟩ := folder
    obtain ⟨hnodup, hzero, hlengths, hapart⟩ := hfolders
    rw [List.map_cons, List.nodup_cons] at hnodup
    obtain ⟨hid, hzero⟩ := List.forall_mem_cons.mp hzero
    obtain ⟨hlength, hlengths⟩ := List.forall_mem_cons.mp hlengths
    have hapart' : ∀ x ∈ t.map (·.1), x ≠ id ∧ x ∉ rest.map (·.1) := by
      intro x hx
      have hout := hapart x hx
      rwa [List.map_cons, List.mem_cons, not_or] at hout
    obtain ⟨s₁, habove, hs₁, htrail, hsame⟩ := ih ⟨hnodup.2, hzero, hlengths, fun x hx => (hapart' x hx).2⟩
    obtain ⟨s₂, hhang, hs₂, _, _⟩ := hang_spec hs₁ hid ((rest.map (·.1)).headD anchor) name
    have hnew : id ∉ (rest ++ t).map (·.1) := by
      rw [List.map_append, List.mem_append, not_or]
      exact ⟨hnodup.1, fun hmem => (hapart' id hmem).1 rfl⟩
    refine ⟨s₂, hangFolders_cons habove hhang, hs₂, htrail.hang hs₁ hid hnew hlength hhang, fun x hx => ?_⟩
    rw [List.map_cons, List.mem_cons, not_or] at hx
    rw [pathEntryOf?_of_hang hs₁ hid hlength hhang, if_neg hx.1, hsame x hx.2]

/-- The trail of a path that is hung in its place, and the entries of all ids that are not hung with it. -/
theorem attach_trail (hs : s.TreeReadable) {p : Placement} (h : s.Trail p.anchor t)
    (hp : Attachable ((p.id, p.name) :: p.missing) t) (hattach : Store.attach p s = .ok () s') :
    s'.Trail p.id ((p.id, p.name) :: (p.missing ++ t)) ∧
      ∀ x, x ∉ p.id :: p.missing.map (·.1) → s'.pathEntryOf? x = s.pathEntryOf? x := by
  obtain ⟨s'', hfolders, _, htrail, hsame⟩ := hangFolders_trail hs h hp
  unfold Store.attach at hattach
  cases hrest : Store.hangFolders p.anchor p.missing s with
  | error cause s₁ =>
    rw [bind_of_error hrest] at hattach
    cases hattach
  | ok parent s₁ =>
    rw [bind_of_ok hrest] at hattach
    cases (hangFolders_cons hrest hattach).symm.trans hfolders
    exact ⟨htrail, hsame⟩

/-! ### Hanging elsewhere -/

/-- Some entries are taken away and one id is hung elsewhere. A trail that comes by that id leads from there on
along its new trail, and any other that is left is as before. -/
theorem Trail.rehung (h : s.Trail x t) (hold : s.Trail id old) (hnew : s'.Trail id new) (hlinked' : s'.Linked)
    (hsame : ∀ x, x ≠ id → s.HasEntry x → s'.HasEntry x → s'.pathEntryOf? x = s.pathEntryOf? x) (hx : s'.CanHold x) :
    (∃ front, t = front ++ old ∧ s'.Trail x (front ++ new)) ∨ (id ∉ t.map (·.1) ∧ s'.Trail x t) := by
  induction h with
  | root => exact .inr ⟨List.not_mem_nil, .root⟩
  | @up x e above he habove ih =>
    have hentry : s.HasEntry x := ⟨e, he⟩
    by_cases hself : x = id
    · subst hself
      exact .inl ⟨[], (Trail.up he habove).unique hold, hnew⟩
    · have hentry' : s'.HasEntry x := hx.resolve_left hentry.ne_zero
      have he' : s'.pathEntryOf? x = .ok (some e) := (hsame x hself hentry hentry').trans he
      have hparent : s'.CanHold e.parent := by
        by_cases hzero : e.parent = 0
        · exact .inl hzero
        · exact .inr (hlinked'.parents x e.parent ((hangsFrom_iff he').mpr rfl) hzero)
      obtain ⟨front, rfl, htrail⟩ | ⟨hout, htrail⟩ := ih hparent
      · exact .inl ⟨(x, e.name) :: front, rfl, .up he' htrail⟩
      · refine .inr ⟨?_, .up he' htrail⟩
        rw [List.map_cons, List.mem_cons, not_or]
        exact ⟨Ne.symm hself, hout⟩

/-- A trail is left as it is where entries are only taken away, and not that of the id. -/
theorem Trail.kept (h : s.Trail x t) (hlinked' : s'.Linked)
    (hsame : ∀ x, s.HasEntry x → s'.HasEntry x → s'.pathEntryOf? x = s.pathEntryOf? x) (hx : s'.CanHold x) :
    s'.Trail x t := by
  -- the root is on no trail, and hangs where it did
  obtain ⟨front, rfl, htrail⟩ | ⟨_, htrail⟩ := h.rehung .root .root hlinked' (fun x _ => hsame x) hx
  · exact htrail
  · exact htrail

end FileIndex.Store
