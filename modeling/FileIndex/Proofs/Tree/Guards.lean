import FileIndex.Proofs.Tree.Pruning

/-!
# A changed path stays where it is

When a path is moved, the folder that it leaves may go, and folders above that one with it. If this does not take away
what was just hung, the path has its place, and to change it to the same place again changes nothing.

* `Store.Hung`: ids were hung, whichever they are. `hangFolders_hung`, `attach_hung`: that is what hanging a path does.
* `Store.Guarded`: ids that no climb from elsewhere takes away, for each has something listed below it that is one of
  them, or may not go, or is reached from them only. `detachUp_guarded`, `unlink_guarded`.
* `Store.Settled`: a path is in its place. `Settled.changePath`: changing it to where it is changes nothing.
  `settled_of_changePath`: so it is once it was changed, if its id is that of a document or is not above itself.
-/

namespace FileIndex.Store

variable {s s' : Store} {id parent current : DocId} {ids : List DocId} {prune : DocId → Bool} {Q : DocId → Prop}

/-! ### Hanging any ids -/

/-- The ids were hung, and each of them but the first has one of them listed below it. -/
structure Hung (ids : List DocId) (s s' : Store) : Prop where
  readable : s'.TreeReadable
  entries : ∀ x ∈ ids, s'.HasEntry x
  others : ∀ x, x ∉ ids → ∀ above, s'.HangsFrom x above ↔ s.HangsFrom x above
  grows : ∀ above x, s.ListsBelow above x → s'.ListsBelow above x
  held : ∀ x ∈ ids.tail, ∃ child ∈ ids, s'.ListsBelow x child

theorem Hung.nil (hs : s.TreeReadable) : Hung [] s s := ⟨hs, nofun, fun _ _ _ => Iff.rfl, fun _ _ h => h, nofun⟩

theorem Hung.hasEntry (h : Hung ids s s') {x : DocId} (hx : s.HasEntry x) : s'.HasEntry x := by
  by_cases hmem : x ∈ ids
  · exact h.entries x hmem
  · obtain ⟨above, hangs⟩ := hasEntry_iff_hangsFrom.mp hx
    exact ((h.others x hmem above).mpr hangs).hasEntry

/-- One more id is hung from the first of them. -/
theorem Hung.hang {anchor : DocId} (h : Hung ids s s') (hid : id ≠ 0) (name : Bytes) :
    ∃ s'', Store.hang id (ids.headD anchor) name s' = .ok () s'' ∧ Hung (id :: ids) s s'' ∧
      s''.ListsBelow (ids.headD anchor) id := by
  obtain ⟨s'', hhang, hs'', hfrom, hlists⟩ := hang_spec h.readable hid (ids.headD anchor) name
  have hself : s''.ListsBelow (ids.headD anchor) id := (hlists _ _).mpr (.inl ⟨rfl, rfl⟩)
  have hentry : ∀ x, x = id ∨ s'.HasEntry x → s''.HasEntry x := by
    intro x hx
    by_cases heq : x = id
    · exact ((hfrom x _).mpr (.inl ⟨heq, rfl⟩)).hasEntry
    · obtain ⟨above, hangs⟩ := hasEntry_iff_hangsFrom.mp (hx.resolve_left heq)
      exact ((hfrom x above).mpr (.inr ⟨heq, hangs⟩)).hasEntry
  refine ⟨s'', hhang, ⟨hs'', fun x hx => ?_, fun x hx above => ?_, fun above x hx => ?_, fun x hx => ?_⟩, hself⟩
  · exact hentry x ((List.mem_cons.mp hx).imp_right (h.entries x))
  · rw [List.mem_cons, not_or] at hx
    rw [hfrom, ← h.others x hx.2 above]
    simp [hx.1]
  · exact (hlists above x).mpr (.inr (h.grows above x hx))
  · cases ids with
    | nil => cases hx
    | cons first rest =>
      rcases List.mem_cons.mp hx with rfl | hx
      · exact ⟨id, List.mem_cons_self, hself⟩
      · obtain ⟨child, hchild, hlisted⟩ := h.held x hx
        exact ⟨child, List.mem_cons_of_mem id hchild, (hlists x child).mpr (.inr hlisted)⟩

theorem hangFolders_hung (hs : s.TreeReadable) (anchor : DocId) {folders : List (DocId × Bytes)}
    (hzero : ∀ x ∈ folders, x.1 ≠ 0) :
    ∃ s', Store.hangFolders anchor folders s = .ok ((folders.map (·.1)).headD anchor) s' ∧
      Hung (folders.map (·.1)) s s' := by
  induction folders with
  | nil => exact ⟨s, rfl, .nil hs⟩
  | cons folder rest ih =>
    obtain ⟨id, name⟩ := folder
    obtain ⟨hid, hrest⟩ := List.forall_mem_cons.mp hzero
    obtain ⟨s₁, habove, h₁⟩ := ih hrest
    obtain ⟨s₂, hhang, h₂, _⟩ := h₁.hang hid name
    exact ⟨s₂, hangFolders_cons habove hhang, h₂⟩

theorem find?_of_hang (hs : s.TreeReadable) {name : Bytes} (h : Store.hang id parent name s = .ok () s') :
    s'.pathEntries.find? (DocId.toKey id) = some (PathEntry.encode ⟨parent, name⟩) := by
  obtain ⟨siblings, hsiblings, _⟩ := hs.children parent
  cases (hang_eq hsiblings).symm.trans h
  exact (ByteMap.find?_insert ..).trans (if_pos rfl)

/-- A path is hung in its place, whichever ids that takes. -/
theorem attach_hung {p : Placement} (hs : s.TreeReadable) (hp : s.Placed p) (h : Store.attach p s = .ok () s') :
    Hung (p.id :: p.missing.map (·.1)) s s' ∧ s'.ListsBelow p.parent p.id ∧
      s'.pathEntries.find? (DocId.toKey p.id) = some (PathEntry.encode ⟨p.parent, p.name⟩) := by
  have hzero : ∀ x ∈ p.missing, x.1 ≠ 0 := fun x hx => (hp.missing x.1 (List.mem_map_of_mem hx)).1
  obtain ⟨s₁, hfolders, h₁⟩ := hangFolders_hung hs p.anchor hzero
  obtain ⟨s₂, hhang, h₂, hlisted⟩ := h₁.hang hp.id_ne p.name
  cases (attach_of_ok hfolders hhang).symm.trans h
  have hentry := find?_of_hang h₁.readable hhang
  rw [← parent_eq_headD] at hlisted hentry
  exact ⟨h₂, hlisted, hentry⟩

/-! ### What a climb leaves -/

/-- No climb from elsewhere takes these ids away. -/
def Guarded (prune : DocId → Bool) (Q : DocId → Prop) (s : Store) : Prop :=
  ∀ x, Q x → prune x = false ∨ (∃ child, Q child ∧ s.ListsBelow x child) ∨ ∀ y, s.HangsFrom y x → Q y

section TakenOut

variable {siblings : List DocId} (hsiblings : s.childrenOf parent = .ok siblings)

include hsiblings

/-- Taking out something else leaves them guarded. -/
theorem Guarded.takenOut (h : Guarded prune Q s) (hascending : siblings.Pairwise (· < ·)) (hcurrent : ¬ Q current) :
    Guarded prune Q (s.takenOut id current parent siblings) := by
  intro x hx
  refine (h x hx).imp_right (Or.imp ?_ ?_)
  · rintro ⟨child, hchild, hlisted⟩
    refine ⟨child, hchild, (listsBelow_takenOut hsiblings hascending).mpr ⟨hlisted, fun hboth => hcurrent ?_⟩⟩
    exact hboth.2 ▸ hchild
  · rintro hbelow y ⟨name, hy⟩
    rw [pathEntryOf?_takenOut] at hy
    split at hy
    · cases hy
    · exact hbelow y ⟨name, hy⟩

/-- The climb goes on only to what is not guarded. -/
theorem Guarded.not_of_emptied (h : Guarded prune Q s) (hcurrent : ¬ Q current) (hup : s.HangsFrom current parent)
    (hempty : (siblings.erase current).isEmpty) (hprune : prune parent = true) : ¬ Q parent := by
  intro hparent
  rcases h parent hparent with hstays | ⟨child, hchild, hlisted⟩ | hbelow
  · rw [hprune] at hstays
    cases hstays
  · have hmem := (listsBelow_iff hsiblings).mp hlisted
    have hne : child ≠ current := by
      rintro rfl
      exact hcurrent hchild
    have hleft := (List.mem_erase_of_ne hne).mpr hmem
    rw [List.isEmpty_iff.mp hempty] at hleft
    cases hleft
  · exact hcurrent (hbelow current hup)

end TakenOut

/-- What is guarded keeps its entry when others are taken out. -/
theorem detachUp_guarded (hs : s.TreeReadable) {levels : Nat} (hguarded : Guarded prune Q s) (hcurrent : ¬ Q current)
    (h : Store.detachUp prune id levels current s = .ok () s') {x : DocId} (hx : Q x) :
    s'.pathEntries.find? (DocId.toKey x) = s.pathEntries.find? (DocId.toKey x) := by
  induction levels generalizing s current with
  | zero =>
    cases h
    rfl
  | succ levels ih =>
    obtain ⟨entry, hentry⟩ := hs.entries current
    cases entry with
    | none =>
      have hread : Edit.read (·.pathEntryOf? current) s = .ok none s := Edit.read_of_ok hentry
      rw [Store.detachUp, bind_of_ok hread] at h
      cases h
      rfl
    | some e =>
      obtain ⟨siblings, hsiblings, hascending⟩ := hs.children e.parent
      have hne : x ≠ current := fun heq => hcurrent (heq ▸ hx)
      have hkept : (s.takenOut id current e.parent siblings).pathEntries.find? (DocId.toKey x) =
          s.pathEntries.find? (DocId.toKey x) := by
        rw [pathEntries_find?_takenOut, if_neg fun hgone => hne (DocId.toKey_inj.mp hgone.1)]
      rw [detachUp_succ hentry hsiblings] at h
      by_cases hgo : (siblings.erase current).isEmpty ∧ e.parent ≠ 0 ∧ prune e.parent
      · rw [if_pos hgo] at h
        have hparent := hguarded.not_of_emptied hsiblings hcurrent ((hangsFrom_iff hentry).mpr rfl) hgo.1 hgo.2.2
        rw [ih (treeReadable_takenOut hascending hs) (hguarded.takenOut hsiblings hascending hcurrent) hparent h, hkept]
      · rw [if_neg hgo] at h
        cases h
        exact hkept

theorem unlink_guarded (hs : s.TreeReadable) {b : Bool} (hguarded : Guarded prune Q s) (hid : ¬ Q id)
    (h : Store.unlink prune id s = .ok b s') {x : DocId} (hx : Q x) :
    s'.pathEntries.find? (DocId.toKey x) = s.pathEntries.find? (DocId.toKey x) := by
  obtain ⟨rfl, _⟩ | ⟨_, _, s₁, hdetach, rfl⟩ := unlink_cases hs h
  · rfl
  · have hne : x ≠ id := fun heq => hid (heq ▸ hx)
    show (s₁.pathEntries.erase (DocId.toKey id)).find? (DocId.toKey x) = _
    rw [ByteMap.find?_erase, if_neg (mt DocId.toKey_inj.mp hne)]
    exact detachUp_guarded hs hguarded hid hdetach hx

/-! ### Changing a path again -/

/-- The url has a place, and the entry of the id says just this place. -/
def Settled (resolver : Resolver) (id : DocId) (url : Bytes) (s : Store) : Prop :=
  ∃ p, s.locate resolver id url = .ok (some p) ∧
    s.pathEntries.find? (DocId.toKey id) = some (PathEntry.encode ⟨p.parent, p.name⟩)

variable {resolver : Resolver} {url : Bytes} {p : Placement}

/-- Where the id directly above has a path, it is all that has to be found. -/
theorem missingFolders_again {room : Nat} {names : List Bytes} {anchor : DocId} {missing : List (DocId × Bytes)}
    (h : s.missingFolders resolver room names = .ok (some (anchor, missing)))
    (hparent : (missing.map (·.1)).headD anchor = 0 ∨ s'.hasPath ((missing.map (·.1)).headD anchor) = true) :
    s'.missingFolders resolver room names = .ok (some ((missing.map (·.1)).headD anchor, [])) := by
  cases names with
  | nil =>
    cases missingFolders_nil.symm.trans h
    exact missingFolders_nil
  | cons name above =>
    obtain ⟨hid, hfound⟩ := missingFolders_cons h
    have hfirst : (missing.map (·.1)).headD anchor = resolver (Path.render (name :: above)) := by
      obtain ⟨_, rfl, rfl⟩ | ⟨_, _, _, rfl, _⟩ := hfound <;> rfl
    rw [hfirst] at hparent ⊢
    rw [missingFolders.eq_def]
    simp only
    rw [if_neg hid, if_pos (hparent.resolve_left hid)]

theorem locate_again (h : s.locate resolver id url = .ok (some p))
    (hparent : p.parent = 0 ∨ s'.hasPath p.parent = true) :
    s'.locate resolver id url = .ok (some ⟨id, p.name, p.parent, []⟩) := by
  obtain ⟨hid, name, above, hparse, _, hpname, hmissing⟩ := locate_spec h
  rw [parent_eq_headD] at hparent ⊢
  unfold locate at h ⊢
  rw [if_neg hid, hparse] at h ⊢
  simp only [bind, Except.bind, pure, Except.pure] at h ⊢
  split at h
  · cases h
  · rename_i hown
    rw [if_neg hown, missingFolders_again hmissing hparent, hpname]
    rfl

theorem pathEntryOf?_of_find? {e : PathEntry} (hid : id ≠ 0)
    (h : s.pathEntries.find? (DocId.toKey id) = some e.encode) :
    s.pathEntryOf? id = .ok (some ⟨e.parent, e.storedName⟩) := by
  unfold pathEntryOf?
  rw [if_neg hid, h]
  simp [PathEntry.decode_encode, Malformed.orFail, bind, Except.bind, pure, Except.pure]

/-- Places are found by the ids that have paths. -/
theorem locate_of_hasPath (h : ∀ x, s'.hasPath x = s.hasPath x) (resolver : Resolver) (id : DocId) (url : Bytes) :
    s'.locate resolver id url = s.locate resolver id url := by
  have hmissing : ∀ (names : List Bytes) (room : Nat),
      s'.missingFolders resolver room names = s.missingFolders resolver room names := by
    intro names
    induction names with
    | nil => exact fun room => by cases room <;> rfl
    | cons name above ih => exact fun room => by cases room <;> simp only [missingFolders, h, ih]
  unfold locate
  simp only [hmissing]

theorem Settled.congr (h : Settled resolver id url s) (hentries : s'.pathEntries = s.pathEntries) :
    Settled resolver id url s' := by
  obtain ⟨p, hlocate, hentry⟩ := h
  exact ⟨p, (locate_congr hentries ..).trans hlocate, hentries ▸ hentry⟩

/-- To change the path to where it is changes nothing. -/
theorem Settled.changePath (h : Settled resolver id url s) :
    ∃ change, Draft.planPath s resolver id url = .ok change ∧ Draft.changePath id change s = .ok () s := by
  obtain ⟨p, hlocate, hentry⟩ := h
  obtain ⟨hid, name, above, hparse, _, hpname, _⟩ := locate_spec hlocate
  have hvalid := (Path.parse_spec hparse).2.1 name List.mem_cons_self
  have hread := pathEntryOf?_of_find? hid hentry
  refine ⟨.rename p.name, ?_, (rename_eq (hpname ▸ hvalid) hread).trans ?_⟩
  · unfold Draft.planPath
    rw [hlocate]
    simp only [bind, Except.bind, hread, if_true, pure, Except.pure]
  · unfold setPathEntry
    rw [ByteMap.insert_eq_self hentry]

theorem hasPath_of_find? {x : DocId}
    (h : s'.pathEntries.find? (DocId.toKey x) = s.pathEntries.find? (DocId.toKey x)) : s'.hasPath x = s.hasPath x := by
  unfold hasPath ByteMap.contains
  rw [h]

/-- Another entry for an id that has one gives no path to anything. -/
theorem hasPath_setPathEntry (hs : s.TreeReadable) (hentry : s.HasEntry id) (e : PathEntry) (x : DocId) :
    (s.setPathEntry id e).hasPath x = s.hasPath x := by
  have hpath := (hasPath_iff_hasEntry hs).mpr hentry
  by_cases hx : x = id
  · subst hx
    rw [hpath]
    unfold hasPath ByteMap.contains at hpath ⊢
    rw [Bool.and_eq_true] at hpath
    rw [Bool.and_eq_true]
    refine ⟨hpath.1, ?_⟩
    show ((s.pathEntries.insert (DocId.toKey x) e.encode).find? (DocId.toKey x)).isSome = true
    rw [ByteMap.find?_insert, if_pos rfl]
    rfl
  · refine hasPath_of_find? ?_
    show (s.pathEntries.insert (DocId.toKey id) e.encode).find? (DocId.toKey x) = _
    rw [ByteMap.find?_insert, if_neg (mt DocId.toKey_inj.mp hx)]

/-- A path that was hung is in its place in every store that has kept its entry and that of the id directly above. -/
theorem Hung.settled {t : Store} (h : Hung (p.id :: p.missing.map (·.1)) s s') (hplaced : s.Placed p)
    (hentry : s'.pathEntries.find? (DocId.toKey p.id) = some (PathEntry.encode ⟨p.parent, p.name⟩))
    (hlocate : s.locate resolver p.id url = .ok (some p))
    (hkept : ∀ x, x = p.id ∨ x = p.parent →
      t.pathEntries.find? (DocId.toKey x) = s'.pathEntries.find? (DocId.toKey x)) :
    Settled resolver p.id url t := by
  have hparent : p.parent = 0 ∨ s'.HasEntry p.parent := by
    rw [parent_eq_headD]
    cases hmissing : p.missing.map (·.1) with
    | nil => exact hplaced.anchor.imp_right h.hasEntry
    | cons first rest => exact .inr (h.entries first (List.mem_cons_of_mem _ (hmissing ▸ List.mem_cons_self)))
  have hparent' : p.parent = 0 ∨ t.hasPath p.parent = true := by
    refine hparent.imp_right fun hentry => ?_
    rw [hasPath_of_find? (hkept p.parent (.inr rfl))]
    exact (hasPath_iff_hasEntry h.readable).mpr hentry
  exact ⟨_, locate_again hlocate hparent', (hkept p.id (.inl rfl)).trans hentry⟩

/-- What hangs below the id is reached from below it only, and what was hung holds what is listed below it. -/
theorem Hung.guarded (h : Hung (p.id :: p.missing.map (·.1)) s s') (hlisted : s'.ListsBelow p.parent p.id)
    (prune : DocId → Bool) : Guarded prune
      (fun x => x = p.parent ∨ x ∈ p.missing.map (·.1) ∨ Relation.ReflTransGen s.HangsFrom x p.id) s' := by
  rintro x (rfl | hx | hbelow)
  · exact .inr (.inl ⟨p.id, .inr (.inr .refl), hlisted⟩)
  · obtain ⟨child, hchild, hlisted'⟩ := h.held x hx
    refine .inr (.inl ⟨child, .inr ?_, hlisted'⟩)
    rcases List.mem_cons.mp hchild with rfl | hchild
    · exact .inr .refl
    · exact .inl hchild
  · refine .inr (.inr fun y hy => .inr ?_)
    by_cases hmem : y ∈ p.id :: p.missing.map (·.1)
    · rcases List.mem_cons.mp hmem with rfl | hmem
      · exact .inr .refl
      · exact .inl hmem
    · exact .inr (.head ((h.others y hmem x).mp hy) hbelow)

/-- An id that hangs where it is to hang gets the new name. -/
theorem eq_of_rename {change : Draft.PathChange} (hplan : Draft.planPath s resolver id url = .ok change)
    (hchange : Draft.changePath id change s = .ok () s') (hlocate : s.locate resolver id url = .ok (some p))
    (hangs : s.HangsFrom id p.parent) : s' = s.setPathEntry id ⟨p.parent, p.name⟩ := by
  obtain ⟨_, name, above, hparse, _, hpname, _⟩ := locate_spec hlocate
  have hvalid := (Path.parse_spec hparse).2.1 name List.mem_cons_self
  obtain ⟨p', hlocate', hcases⟩ := Draft.planPath_spec hplan
  cases hlocate.symm.trans hlocate'
  rcases hcases with ⟨hnone, _⟩ | ⟨e, he, rfl⟩
  · exact absurd hangs.hasEntry (not_hasEntry_of_none hnone)
  · have hparent : e.parent = p.parent := ((hangsFrom_iff he).mp hangs).symm
    rw [if_pos hparent] at hchange
    cases (rename_eq (hpname ▸ hvalid) he).symm.trans hchange
    rw [hparent]

theorem pathEntries_takenOut_self {siblings : List DocId} :
    (s.takenOut id id parent siblings).pathEntries = s.pathEntries := by
  unfold takenOut
  rw [if_neg (not_not_intro rfl), pathEntries_setChildren]

/-- A path that was changed is in its place, if nothing of what was hung went with the folder that it left. That is
so if the id is that of a document, which never goes, or if no way up from that folder comes by the id. -/
theorem settled_of_changePath (hs : s.TreeReadable) {change : Draft.PathChange}
    (hplan : Draft.planPath s resolver id url = .ok change) (hchange : Draft.changePath id change s = .ok () s')
    (hid : s.hasDocument id = true ∨ ¬ Relation.TransGen s.HangsFrom id id) : Settled resolver id url s' := by
  obtain ⟨p, hlocate, hpid, hcases⟩ := changePath_cases hs hplan hchange
  subst hpid
  have hplaced := placed_of_locate hs hlocate
  rcases hcases with ⟨_, hattach⟩ | ⟨_, name, _, hentry, _⟩
    | ⟨old, siblings, s₁, hangs, hold, hsiblings, hattach, hunlink⟩
  · obtain ⟨hung, _, hentry⟩ := attach_hung hs hplaced hattach
    exact hung.settled hplaced hentry hlocate fun _ _ => rfl
  · obtain rfl := eq_of_rename hplan hchange hlocate ⟨name, hentry⟩
    exact ⟨p, (locate_of_hasPath (hasPath_setPathEntry hs ⟨_, hentry⟩ _) ..).trans hlocate,
      (ByteMap.find?_insert ..).trans (if_pos rfl)⟩
  · have hascending : siblings.Pairwise (· < ·) := by
      obtain ⟨ids, hids, hascending⟩ := hs.children old
      cases hids.symm.trans hsiblings
      exact hascending
    have hentries : (s.takenOut p.id p.id old siblings).pathEntries = s.pathEntries := pathEntries_takenOut_self
    have hfrom : (s.takenOut p.id p.id old siblings).HangsFrom = s.HangsFrom :=
      funext fun x => funext fun above => propext (hangsFrom_congr hentries x above)
    have hplaced' : (s.takenOut p.id p.id old siblings).Placed p := by
      refine hplaced.congr fun x => ?_
      rw [hasEntry_iff_hangsFrom, hasEntry_iff_hangsFrom, hfrom]
    obtain ⟨hung, hlisted, hentry⟩ := attach_hung (treeReadable_takenOut hascending hs) hplaced' hattach
    have hsettled : ∀ {t : Store}, (∀ x, x = p.id ∨ x = p.parent →
        t.pathEntries.find? (DocId.toKey x) = s₁.pathEntries.find? (DocId.toKey x)) → Settled resolver p.id url t :=
      fun hkept => hung.settled hplaced' hentry ((locate_congr hentries ..).trans hlocate) hkept
    rcases hunlink with ⟨hnone, b, hunlink⟩ | ⟨_, rfl⟩
    · by_cases hmissing : old ∈ p.missing.map (·.1)
      · -- what was just hung below the old folder keeps it
        obtain ⟨child, _, hchild⟩ := hung.held old hmissing
        obtain ⟨rfl, _⟩ | ⟨_, hbare, _⟩ := unlink_cases hung.readable hunlink
        · exact hsettled fun _ _ => rfl
        · exact absurd hchild (hbare child)
      · rcases hid with hdocument | hacyclic
        · have hguarded : Guarded (fun folder => !s.hasDocument folder) (fun x => x = p.id ∨ x = p.parent) s₁ := by
            rintro x (rfl | rfl)
            · exact .inl (by simp [hdocument])
            · exact .inr (.inl ⟨p.id, .inl rfl, hlisted⟩)
          refine hsettled fun x hx => unlink_guarded hung.readable hguarded ?_ hunlink hx
          rintro (rfl | heq)
          · rw [hdocument] at hnone
            cases hnone
          · exact hold heq
        · have hguarded := hung.guarded hlisted fun folder => !s.hasDocument folder
          rw [hfrom] at hguarded
          refine hsettled fun x hx => unlink_guarded hung.readable hguarded ?_ hunlink ?_
          · rintro (heq | hmem | hbelow)
            · exact hold heq
            · exact hmissing hmem
            · exact hacyclic (.head' hangs hbelow)
          · rcases hx with rfl | habove
            · exact .inr (.inr .refl)
            · exact .inl habove
    · exact hsettled fun _ _ => rfl

end FileIndex.Store
