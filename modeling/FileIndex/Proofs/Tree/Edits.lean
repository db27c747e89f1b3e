import FileIndex.Proofs.Encoding.Records
import FileIndex.Proofs.Path
import FileIndex.Store.Paths

/-!
# Changing the tree of paths

The changes of the tree read and write two tables. As long as these can be read, hanging an id and taking it
away never fail, and they leave all other tables alone.

* `Store.TreeReadable`: both tables can be read, whatever the id.
* `Store.SameButTree`: nothing but the tree differs.
* `Store.hungBelow`, `hang_eq`, `hangFolders_cons`, `attach_of_ok`: the steps in which a path is hung.
* `Edit.Safe`: a change of a readable tree that never fails, keeps it readable and touches nothing else.
* `unlink_of_not_hasPath`, `unlink_of_children`, `unlink_of_detach`: the ways in which unlinking an id goes.
* `attach_safe`, `detach_safe`, `unlink_safe`: the changes of the tree are safe. `putPath_cases` tells how
  hanging the path of a document ends.
* `locate_spec`, `rename_eq`: where a path was found to hang, and giving an id a new name.
-/

namespace FileIndex

/-! ### Steps of a computation -/

section Steps

variable {ε σ α β : Type} {m : EStateM ε σ α} {f : α → EStateM ε σ β} {s s' : σ}

theorem bind_of_ok {a : α} (h : m s = .ok a s') : (m >>= f) s = f a s' := by
  simp only [bind, EStateM.bind, h]

theorem bind_of_error {e : ε} (h : m s = .error e s') : (m >>= f) s = .error e s' := by
  simp only [bind, EStateM.bind, h]

end Steps

theorem Edit.read_of_ok {α : Type} {look : Store → Except Error α} {s : Store} {a : α} (h : look s = .ok a) :
    Edit.read look s = .ok a s := by
  rw [Edit.read, h]

theorem Edit.read_of_error {α : Type} {look : Store → Except Error α} {s : Store} {e : Error}
    (h : look s = .error e) : Edit.read look s = .error e s := by
  rw [Edit.read, h]

namespace Store

/-! ### The two tables -/

/-- The children and the entry of every id can be read, and the children ascend. -/
structure TreeReadable (s : Store) : Prop where
  children : ∀ id, ∃ ids, s.childrenOf id = .ok ids ∧ ids.Pairwise (· < ·)
  entries : ∀ id, ∃ e, s.pathEntryOf? id = .ok e

/-- Nothing but the tree of paths differs. -/
def SameButTree (s s' : Store) : Prop := s' = { s with children := s'.children, pathEntries := s'.pathEntries }

theorem SameButTree.refl (s : Store) : SameButTree s s := rfl

theorem SameButTree.trans {s s' s'' : Store} (h : SameButTree s s') (h' : SameButTree s' s'') : SameButTree s s'' := by
  unfold SameButTree at *
  rw [h', h]

theorem pathEntries_setChildren (s : Store) (parent : DocId) (ids : List DocId) :
    (s.setChildren parent ids).pathEntries = s.pathEntries := by
  unfold setChildren
  split <;> rfl

theorem childrenOf_setChildren {s : Store} {parent : DocId} {ids : List DocId} (h : ids.Pairwise (· < ·))
    (id : DocId) : (s.setChildren parent ids).childrenOf id = if id = parent then .ok ids else s.childrenOf id := by
  unfold setChildren
  by_cases hempty : ids = []
  · subst hempty
    simp only [childrenOf, List.isEmpty_nil, if_true, ByteMap.find?_erase, DocId.toKey_inj]
    by_cases hid : id = parent
    · simp [hid]
    · simp [hid]
  · have hne : ids.isEmpty = false := by simpa using hempty
    simp only [childrenOf, hne, Bool.false_eq_true, if_false, ByteMap.find?_insert, DocId.toKey_inj]
    by_cases hid : id = parent
    · simp [hid, IdList.decode_encode h, Malformed.orFail]
    · simp [hid]

theorem pathEntryOf?_setPathEntry (s : Store) {id : DocId} (hid : id ≠ 0) (e : PathEntry) (other : DocId) :
    (s.setPathEntry id e).pathEntryOf? other =
      if other = id then .ok (some ⟨e.parent, e.storedName⟩) else s.pathEntryOf? other := by
  unfold setPathEntry pathEntryOf?
  by_cases hzero : other = 0
  · subst hzero
    simp [Ne.symm hid]
  · simp only [hzero, if_false, ByteMap.find?_insert, DocId.toKey_inj]
    by_cases hother : other = id
    · simp [hother, PathEntry.decode_encode, Malformed.orFail, bind, Except.bind, pure, Except.pure]
    · simp [hother]

theorem pathEntryOf?_erasePathEntry (s : Store) (id other : DocId) :
    (s.erasePathEntry id).pathEntryOf? other = if other = id then .ok none else s.pathEntryOf? other := by
  unfold erasePathEntry pathEntryOf?
  by_cases hzero : other = 0
  · simp [hzero]
  · simp only [hzero, if_false, ByteMap.find?_erase, DocId.toKey_inj]
    by_cases hother : other = id
    · simp [hother]
    · simp [hother]

theorem TreeReadable.childrenRead {s : Store} (hs : s.TreeReadable) (parent : DocId) :
    ∃ ids, s.childrenOf parent = .ok ids :=
  (hs.children parent).imp fun _ hids => hids.1

theorem TreeReadable.setChildren {s : Store} (hs : s.TreeReadable) (parent : DocId) {ids : List DocId}
    (h : ids.Pairwise (· < ·)) : (s.setChildren parent ids).TreeReadable := by
  constructor
  · intro id
    rw [childrenOf_setChildren h]
    by_cases hid : id = parent
    · exact ⟨ids, by rw [if_pos hid], h⟩
    · rw [if_neg hid]
      exact hs.children id
  · intro id
    have hentry : (s.setChildren parent ids).pathEntryOf? id = s.pathEntryOf? id := by
      unfold pathEntryOf?
      rw [pathEntries_setChildren]
    rw [hentry]
    exact hs.entries id

theorem TreeReadable.setPathEntry {s : Store} (hs : s.TreeReadable) (id : DocId) (e : PathEntry) :
    (s.setPathEntry id e).TreeReadable := by
  refine ⟨hs.children, fun other => ?_⟩
  by_cases hid : id = 0
  · -- what is stored under the id 0 is never read
    subst hid
    by_cases hzero : other = 0
    · exact ⟨none, by rw [pathEntryOf?, if_pos hzero]⟩
    · have hsame : (s.setPathEntry 0 e).pathEntryOf? other = s.pathEntryOf? other := by
        unfold Store.setPathEntry pathEntryOf?
        simp only [hzero, if_false, ByteMap.find?_insert, DocId.toKey_inj]
      rw [hsame]
      exact hs.entries other
  · rw [pathEntryOf?_setPathEntry s hid]
    by_cases hother : other = id
    · exact ⟨_, if_pos hother⟩
    · rw [if_neg hother]
      exact hs.entries other

theorem TreeReadable.erasePathEntry {s : Store} (hs : s.TreeReadable) (id : DocId) :
    (s.erasePathEntry id).TreeReadable := by
  refine ⟨hs.children, fun other => ?_⟩
  rw [pathEntryOf?_erasePathEntry]
  by_cases hother : other = id
  · exact ⟨none, if_pos hother⟩
  · rw [if_neg hother]
    exact hs.entries other

theorem sameButTree_setChildren (s : Store) (parent : DocId) (ids : List DocId) :
    SameButTree s (s.setChildren parent ids) := by
  unfold setChildren
  split <;> rfl

theorem treeReadable_empty : (∅ : Store).TreeReadable := by
  refine ⟨fun id => ⟨[], rfl, .nil⟩, fun id => ⟨none, ?_⟩⟩
  unfold pathEntryOf?
  split <;> rfl

end Store

open Store

/-! ### Hanging, step by step -/

section Hanging

variable {s s₁ s₂ : Store} {id parent : DocId} {name : Bytes}

/-- The store after an id was hung below one that has these children. -/
def Store.hungBelow (s : Store) (id parent : DocId) (name : Bytes) (siblings : List DocId) : Store :=
  (s.setChildren parent (Ascending.insert id siblings)).setPathEntry id ⟨parent, name⟩

theorem hang_eq {siblings : List DocId} (h : s.childrenOf parent = .ok siblings) :
    hang id parent name s = .ok () (s.hungBelow id parent name siblings) := by
  have hread : Edit.read (·.childrenOf parent) s = .ok siblings s := Edit.read_of_ok h
  unfold hang
  rw [bind_of_ok hread]
  rfl

theorem hangFolders_cons {anchor : DocId} {above : List (DocId × Bytes)}
    (habove : hangFolders anchor above s = .ok parent s₁) (hhang : hang id parent name s₁ = .ok () s₂) :
    hangFolders anchor ((id, name) :: above) s = .ok id s₂ := by
  unfold hangFolders
  rw [bind_of_ok habove, bind_of_ok hhang]
  rfl

theorem attach_of_ok {p : Placement} (hfolders : hangFolders p.anchor p.missing s = .ok parent s₁)
    (hhang : hang p.id parent p.name s₁ = .ok () s₂) : attach p s = .ok () s₂ := by
  unfold attach
  rw [bind_of_ok hfolders]
  exact hhang

end Hanging

/-! ### Changes that never fail -/

/-- Of a readable tree, the change leaves a readable one; it does not fail and touches nothing else. -/
def Edit.Safe {α : Type} (m : Edit α) : Prop :=
  ∀ s, s.TreeReadable → ∃ a s', m s = .ok a s' ∧ s'.TreeReadable ∧ SameButTree s s'

theorem Edit.Safe.pure {α : Type} (a : α) : Edit.Safe (Pure.pure a) :=
  fun s hs => ⟨a, s, rfl, hs, .refl s⟩

theorem Edit.Safe.bind {α β : Type} {m : Edit α} {f : α → Edit β} (hm : Edit.Safe m) (hf : ∀ a, Edit.Safe (f a)) :
    Edit.Safe (m >>= f) := by
  intro s hs
  obtain ⟨a, s', hmove, hs', hsame⟩ := hm s hs
  obtain ⟨b, s'', hmove', hs'', hsame'⟩ := hf a s' hs'
  exact ⟨b, s'', by rw [bind_of_ok hmove, hmove'], hs'', hsame.trans hsame'⟩

theorem Edit.Safe.modify {change : Store → Store}
    (h : ∀ s : Store, s.TreeReadable → (change s).TreeReadable ∧ SameButTree s (change s)) :
    Edit.Safe (modify change) :=
  fun s hs => ⟨(), change s, rfl, (h s hs).1, (h s hs).2⟩

/-- Looking at the tree changes nothing; what it sees ascends. -/
theorem safe_read_children {β : Type} (id : DocId) {f : List DocId → Edit β}
    (hf : ∀ ids, ids.Pairwise (· < ·) → Edit.Safe (f ids)) : Edit.Safe (Edit.read (·.childrenOf id) >>= f) := by
  intro s hs
  obtain ⟨ids, hids, hascending⟩ := hs.children id
  have hread : Edit.read (·.childrenOf id) s = .ok ids s := Edit.read_of_ok hids
  rw [bind_of_ok hread]
  exact hf ids hascending s hs

theorem safe_read_entry {β : Type} (id : DocId) {f : Option PathEntry → Edit β} (hf : ∀ e, Edit.Safe (f e)) :
    Edit.Safe (Edit.read (·.pathEntryOf? id) >>= f) := by
  intro s hs
  obtain ⟨e, he⟩ := hs.entries id
  have hread : Edit.read (·.pathEntryOf? id) s = .ok e s := Edit.read_of_ok he
  rw [bind_of_ok hread]
  exact hf e s hs

theorem safe_setChildren (parent : DocId) {ids : List DocId} (h : ids.Pairwise (· < ·)) :
    Edit.Safe (modify (·.setChildren parent ids)) :=
  .modify fun s hs => ⟨hs.setChildren parent h, sameButTree_setChildren s parent ids⟩

theorem safe_setPathEntry (id : DocId) (e : PathEntry) : Edit.Safe (modify (·.setPathEntry id e)) :=
  .modify fun _ hs => ⟨hs.setPathEntry id e, rfl⟩

theorem safe_erasePathEntry (id : DocId) : Edit.Safe (modify (·.erasePathEntry id)) :=
  .modify fun _ hs => ⟨hs.erasePathEntry id, rfl⟩

theorem hang_safe (id parent : DocId) (name : Bytes) : Edit.Safe (hang id parent name) :=
  safe_read_children parent fun _ hascending =>
    .bind (safe_setChildren parent (Ascending.pairwise_insert hascending)) fun _ => safe_setPathEntry id ⟨parent, name⟩

theorem hangFolders_safe (anchor : DocId) (folders : List (DocId × Bytes)) :
    Edit.Safe (hangFolders anchor folders) := by
  induction folders with
  | nil => exact .pure anchor
  | cons folder above ih =>
    obtain ⟨id, name⟩ := folder
    exact .bind ih fun parent => .bind (hang_safe id parent name) fun _ => .pure id

theorem attach_safe (p : Placement) : Edit.Safe (attach p) :=
  .bind (hangFolders_safe p.anchor p.missing) fun parent => hang_safe p.id parent p.name

theorem detachUp_safe (prune : DocId → Bool) (id : DocId) (levels : Nat) (current : DocId) :
    Edit.Safe (detachUp prune id levels current) := by
  induction levels generalizing current with
  | zero => exact .pure ()
  | succ levels ih =>
    apply safe_read_entry current
    intro e
    cases e with
    | none => exact .pure ()
    | some e =>
      apply safe_read_children e.parent
      intro siblings hascending
      refine .bind (safe_setChildren e.parent (hascending.sublist List.erase_sublist)) fun _ => ?_
      let rest : Edit Unit :=
        if (siblings.erase current).isEmpty ∧ e.parent ≠ 0 ∧ prune e.parent then detachUp prune id levels e.parent
        else return
      have hrest : Edit.Safe rest := by
        by_cases hempty : (siblings.erase current).isEmpty ∧ e.parent ≠ 0 ∧ prune e.parent
        · simp only [rest, if_pos hempty]
          exact ih e.parent
        · simp only [rest, if_neg hempty]
          exact .pure ()
      show Edit.Safe (if current ≠ id then (modify (·.erasePathEntry current) >>= fun _ => rest) else rest)
      by_cases hcurrent : current ≠ id
      · rw [if_pos hcurrent]
        exact .bind (safe_erasePathEntry current) fun _ => hrest
      · rw [if_neg hcurrent]
        exact hrest

theorem detach_safe (prune : DocId → Bool) (id : DocId) : Edit.Safe (detach prune id) :=
  detachUp_safe prune id maxDepth id

section Unlink

variable {s s₁ : Store} {prune : DocId → Bool} {id : DocId} {ids : List DocId}

/-- Nothing happens to an id without an entry. -/
theorem unlink_of_not_hasPath (h : s.hasPath id = false) : unlink prune id s = .ok false s := by
  have hget : (get : Edit Store) s = .ok s s := rfl
  unfold unlink
  rw [bind_of_ok hget, h]
  rfl

/-- Nothing happens to an id that has something below it. -/
theorem unlink_of_children (hpath : s.hasPath id = true) (hids : s.childrenOf id = .ok ids) (hsome : ids ≠ []) :
    unlink prune id s = .ok false s := by
  have hget : (get : Edit Store) s = .ok s s := rfl
  have hread : Edit.read (·.childrenOf id) s = .ok ids s := Edit.read_of_ok hids
  unfold unlink
  rw [bind_of_ok hget, hpath]
  simp only [Bool.not_true, Bool.false_eq_true, if_false]
  rw [bind_of_ok hread, if_pos (by simpa using hsome)]
  rfl

/-- An id with nothing below it is taken out, and its entry is erased. -/
theorem unlink_of_detach (hpath : s.hasPath id = true) (hids : s.childrenOf id = .ok [])
    (hdetach : detach prune id s = .ok () s₁) : unlink prune id s = .ok true (s₁.erasePathEntry id) := by
  have hget : (get : Edit Store) s = .ok s s := rfl
  have hread : Edit.read (·.childrenOf id) s = .ok [] s := Edit.read_of_ok hids
  unfold unlink
  rw [bind_of_ok hget, hpath]
  simp only [Bool.not_true, Bool.false_eq_true, if_false]
  rw [bind_of_ok hread, if_neg (by simp), bind_of_ok hdetach]
  rfl

end Unlink

theorem unlink_safe (prune : DocId → Bool) (id : DocId) : Edit.Safe (unlink prune id) := by
  intro s hs
  cases hpath : s.hasPath id with
  | false => exact ⟨false, s, unlink_of_not_hasPath hpath, hs, .refl s⟩
  | true =>
    obtain ⟨ids, hids, _⟩ := hs.children id
    by_cases hempty : ids = []
    · subst hempty
      obtain ⟨_, s₁, hdetach, hs₁, hsame⟩ := detach_safe prune id s hs
      exact ⟨true, _, unlink_of_detach hpath hids hdetach, hs₁.erasePathEntry id, hsame.trans rfl⟩
    · exact ⟨false, s, unlink_of_children hpath hids hempty, hs, .refl s⟩

section PutPath

variable {s s' : Store} {resolver : Resolver} {id : DocId} {url : Bytes}

theorem putPath_of_locate_error {e : Error} (h : s.locate resolver id url = .error e) :
    putPath resolver id url s = .error e s :=
  bind_of_error (Edit.read_of_error h)

theorem putPath_of_locate_none (h : s.locate resolver id url = .ok none) : putPath resolver id url s = .ok false s := by
  have hread : Edit.read (·.locate resolver id url) s = .ok none s := Edit.read_of_ok h
  unfold putPath
  rw [bind_of_ok hread]
  rfl

theorem putPath_of_attach {p : Placement} (h : s.locate resolver id url = .ok (some p))
    (hattach : attach p s = .ok () s') :
    putPath resolver id url s = .ok true s' := by
  have hread : Edit.read (·.locate resolver id url) s = .ok (some p) s := Edit.read_of_ok h
  unfold putPath
  rw [bind_of_ok hread]
  exact bind_of_ok hattach

end PutPath

/-- Hanging a path fails before anything changes, or finds a folder without an id, or hangs the path. -/
theorem putPath_cases {s : Store} (hs : s.TreeReadable) (resolver : Resolver) (id : DocId) (url : Bytes) :
    (∃ e, s.locate resolver id url = .error e ∧ putPath resolver id url s = .error e s) ∨
    (s.locate resolver id url = .ok none ∧ putPath resolver id url s = .ok false s) ∨
    ∃ p s', s.locate resolver id url = .ok (some p) ∧ putPath resolver id url s = .ok true s' ∧
      attach p s = .ok () s' ∧ s'.TreeReadable ∧ SameButTree s s' := by
  cases hlocate : s.locate resolver id url with
  | error e => exact .inl ⟨e, rfl, putPath_of_locate_error hlocate⟩
  | ok place =>
    cases place with
    | none => exact .inr (.inl ⟨rfl, putPath_of_locate_none hlocate⟩)
    | some p =>
      obtain ⟨_, s', hattach, hs', hsame⟩ := attach_safe p s hs
      exact .inr (.inr ⟨p, s', rfl, putPath_of_attach hlocate hattach, hattach, hs', hsame⟩)

/-- A path was found to hang below the folders of its names. -/
theorem locate_spec {s : Store} {resolver : Resolver} {id : DocId} {url : Bytes} {p : Placement}
    (h : s.locate resolver id url = .ok (some p)) :
    id ≠ 0 ∧ ∃ name above, Path.parse url = .ok (name :: above) ∧ p.id = id ∧ p.name = name ∧
      s.missingFolders resolver maxDepth above = .ok (some (p.anchor, p.missing)) := by
  unfold locate at h
  by_cases hid : id = 0
  · rw [if_pos hid] at h
    cases h
  · rw [if_neg hid] at h
    refine ⟨hid, ?_⟩
    cases hparse : Path.parse url with
    | error e => rw [hparse] at h; cases h
    | ok names =>
      rw [hparse] at h
      cases names with
      | nil => cases h
      | cons name above =>
        simp only [bind, Except.bind, pure, Except.pure] at h
        split at h
        · cases h
        · cases hmissing : s.missingFolders resolver maxDepth above with
          | error e => rw [hmissing] at h; cases h
          | ok found =>
            rw [hmissing] at h
            cases found with
            | none => cases h
            | some found =>
              cases h
              exact ⟨name, above, rfl, rfl, rfl, hmissing⟩

theorem rename_eq {s : Store} {id : DocId} {name : Bytes} {e : PathEntry} (hname : name ≠ [] ∧ Path.slash ∉ name)
    (he : s.pathEntryOf? id = .ok (some e)) : rename id name s = .ok () (s.setPathEntry id { e with name }) := by
  have hvalid : (name.isEmpty || name.contains Path.slash) = false := by
    rw [Bool.or_eq_false_iff]
    exact ⟨by simpa using hname.1, by simpa using hname.2⟩
  have hread : Edit.read (·.pathEntryOf? id) s = .ok (some e) s := Edit.read_of_ok he
  unfold rename
  rw [hvalid]
  show (Edit.read (·.pathEntryOf? id) >>= _ : Edit Unit) s = _
  rw [bind_of_ok hread]
  rfl

end FileIndex
