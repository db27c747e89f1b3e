import FileIndex.Proofs.Tree.Links

/-!
# Stored lists of children

Whatever hangs where, the lists of children that are stored are not empty, ascend, and do not have the id 0. This asks
nothing of the tree and nothing of the ids that folders have.

* `Store.ChildrenTidy`: how lists of children are stored.
* `keeps_attach`, `keeps_unlink`, `keeps_changePath`: the edits of the tree keep it.
* `ChildrenTidy.step`: so does every kind of step of a change.
-/

namespace FileIndex

open Store

theorem Keeps.read {P : Store → Prop} {α : Type} (look : Store → Except Error α) : Keeps P (Edit.read look) := by
  intro s hs
  unfold Edit.read
  split <;> exact hs

namespace Store

/-- Stored are lists of children that ascend without the id 0, none of them empty, under the keys of ids. -/
def ChildrenTidy (s : Store) : Prop :=
  ∀ key value, s.children.find? key = some value →
    ∃ id ids, key = DocId.toKey id ∧ ids ≠ [] ∧ ids.Pairwise (· < ·) ∧ 0 ∉ ids ∧ value = IdList.encode ids

theorem ChildrenTidy.congr {s s' : Store} (h : s.ChildrenTidy) (hchildren : s'.children = s.children) :
    s'.ChildrenTidy := by
  unfold ChildrenTidy
  rw [hchildren]
  exact h

theorem ChildrenTidy.childrenOf {s : Store} (h : s.ChildrenTidy) (id : DocId) :
    ∃ ids, s.childrenOf id = .ok ids ∧ ids.Pairwise (· < ·) ∧ 0 ∉ ids := by
  unfold Store.childrenOf
  cases hfind : s.children.find? (DocId.toKey id) with
  | none => exact ⟨[], rfl, .nil, List.not_mem_nil⟩
  | some value =>
    obtain ⟨_, ids, _, _, hascending, hzero, rfl⟩ := h _ value hfind
    refine ⟨ids, ?_, hascending, hzero⟩
    simp only [IdList.decode_encode hascending, Malformed.orFail]

theorem ChildrenTidy.setChildren {s : Store} (h : s.ChildrenTidy) (parent : DocId) {ids : List DocId}
    (hascending : ids.Pairwise (· < ·)) (hzero : 0 ∉ ids) : (s.setChildren parent ids).ChildrenTidy := by
  intro key value hfind
  unfold Store.setChildren at hfind
  split at hfind
  · simp only [ByteMap.find?_erase] at hfind
    split at hfind
    · cases hfind
    · exact h key value hfind
  · rename_i hempty
    simp only [ByteMap.find?_insert] at hfind
    split at hfind
    · rename_i hkey
      cases hfind
      exact ⟨parent, ids, hkey, by simpa using hempty, hascending, hzero, rfl⟩
    · exact h key value hfind

end Store

/-- What is read of the children of an id ascends without the id 0. -/
theorem keeps_read_children {β : Type} (id : DocId) {f : List DocId → Edit β}
    (hf : ∀ ids, ids.Pairwise (· < ·) → 0 ∉ ids → Keeps ChildrenTidy (f ids)) :
    Keeps ChildrenTidy (Edit.read (·.childrenOf id) >>= f) := by
  intro s hs
  obtain ⟨ids, hids, hascending, hzero⟩ := hs.childrenOf id
  have hread : Edit.read (·.childrenOf id) s = .ok ids s := Edit.read_of_ok hids
  rw [bind_of_ok hread]
  exact hf ids hascending hzero s hs

theorem keeps_hang {id : DocId} (hid : id ≠ 0) (parent : DocId) (name : Bytes) :
    Keeps ChildrenTidy (hang id parent name) := by
  refine keeps_read_children parent fun siblings hascending hzero => .bind (.modify fun s hs => ?_) fun _ =>
    .modify fun s hs => hs.congr rfl
  refine hs.setChildren parent (Ascending.pairwise_insert hascending) fun hmem => ?_
  rcases Ascending.mem_insert.mp hmem with hself | hmem
  · exact hid hself.symm
  · exact hzero hmem

theorem keeps_hangFolders (anchor : DocId) {folders : List (DocId × Bytes)} (h : ∀ x ∈ folders, x.1 ≠ 0) :
    Keeps ChildrenTidy (hangFolders anchor folders) := by
  induction folders with
  | nil => exact .pure anchor
  | cons folder above ih =>
    obtain ⟨hid, habove⟩ := List.forall_mem_cons.mp h
    exact .bind (ih habove) fun parent => .bind (keeps_hang hid parent folder.2) fun _ => .pure folder.1

theorem keeps_attach {p : Placement} (hid : p.id ≠ 0) (h : ∀ x ∈ p.missing, x.1 ≠ 0) :
    Keeps ChildrenTidy (attach p) :=
  .bind (keeps_hangFolders p.anchor h) fun parent => keeps_hang hid parent p.name

theorem keeps_detachUp (prune : DocId → Bool) (id : DocId) (levels : Nat) (current : DocId) :
    Keeps ChildrenTidy (detachUp prune id levels current) := by
  induction levels generalizing current with
  | zero => exact .pure ()
  | succ levels ih =>
    refine .bind (.read _) fun e => ?_
    cases e with
    | none => exact .pure ()
    | some e =>
      refine keeps_read_children e.parent fun siblings hascending hzero => .bind (.modify fun s hs => ?_) fun _ => ?_
      · exact hs.setChildren e.parent (hascending.sublist List.erase_sublist)
          fun hmem => hzero (List.mem_of_mem_erase hmem)
      · exact .first (.modify fun s hs => hs.congr rfl) fun _ => .ite (ih e.parent) (.pure ())

theorem keeps_unlink (prune : DocId → Bool) (id : DocId) : Keeps ChildrenTidy (unlink prune id) := by
  refine .bind .get fun _ => .ite (.pure false) (.bind (.read _) fun _ => .ite (.pure false) ?_)
  exact .bind (keeps_detachUp prune id maxDepth id) fun _ => .bind (.modify fun s hs => hs.congr rfl)
    fun _ => .pure true

theorem keeps_rename (id : DocId) (name : Bytes) : Keeps ChildrenTidy (rename id name) := by
  unfold rename
  refine .first (.throw Error.invalidName) fun _ => .bind (.read _) fun e => ?_
  cases e with
  | none => exact .throw Error.noPathEntry
  | some e => exact .modify fun s hs => hs.congr rfl

/-- Where a path was found to hang, nothing gets the id 0. -/
theorem keeps_attach_of_locate {s : Store} {resolver : Resolver} {id : DocId} {url : Bytes} {p : Placement}
    (h : s.locate resolver id url = .ok (some p)) : Keeps ChildrenTidy (attach p) := by
  obtain ⟨hid, _, _, _, hpid, _, hmissing⟩ := locate_spec h
  exact keeps_attach (hpid ▸ hid) fun x hx => ((missingFolders_spec hmissing).2 x hx).1

theorem keeps_changePath {s : Store} {resolver : Resolver} {id : DocId} {url : Bytes} {change : Draft.PathChange}
    (h : Draft.planPath s resolver id url = .ok change) : Keeps ChildrenTidy (Draft.changePath id change) := by
  obtain ⟨p, hlocate, hcases⟩ := Draft.planPath_spec h
  have hattach := keeps_attach_of_locate hlocate
  rcases hcases with ⟨_, rfl⟩ | ⟨e, _, rfl⟩
  · exact hattach
  by_cases hparent : e.parent = p.parent
  · rw [if_pos hparent]
    exact keeps_rename id p.name
  · rw [if_neg hparent]
    refine .bind (keeps_detachUp _ id maxDepth id) fun _ => .bind hattach fun _ => .bind .get fun s => ?_
    exact .ite (.bind (keeps_unlink _ _) fun _ => .pure ()) (.pure ())

/-- Every kind of step keeps the lists of children as they should be stored. -/
theorem Store.ChildrenTidy.step {resolver : Resolver} {rule : Rule} {d d' : Draft}
    (hstep : Draft.Step resolver rule d d') (h : d.store.ChildrenTidy) : d'.store.ChildrenTidy := by
  cases hstep with
  | records hsame => exact h.congr (by rw [hsame])
  | attach hplace _ hattach =>
    have hleft := keeps_attach_of_locate hplace d.store h
    rwa [hattach] at hleft
  | change hplan _ hchange =>
    have hleft := keeps_changePath hplan d.store h
    rwa [hchange] at hleft
  | @unlink prune id _ _ hunlink =>
    have hleft := keeps_unlink prune id d.store h
    rwa [hunlink] at hleft
  | @fill doc selected dropped =>
    have hframe := Draft.sameButTerms_withFields doc selected Field.all (d.enqueueRemovals doc.id dropped)
    rw [Draft.enqueueRemovals_store] at hframe
    exact h.congr (by rw [hframe])
  | clear id => exact h.congr (by rw [Draft.sameButTerms_withoutFields id Field.all d])

end FileIndex
