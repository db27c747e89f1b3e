import FileIndex.Proofs.Lookup
import FileIndex.Proofs.Transactions
import FileIndex.Proofs.Tree.Trails

/-!
# What a move does to paths

A document is taken out of its folder and hung elsewhere, with whatever is below it. From there on its path is the
new one, and all paths below it begin with that; every other path is what it was. The folders that it leaves behind go
as far as they are no documents and have nothing left below them. It is the same when it only gets another name in
its folder.

* `Path.FolderOf`: a path that leads on to another one.
* `Store.Rehung`: what the tree is after an id was hung in a place, be it where it was under another name or elsewhere.
  `rehung_of_changePath`: changing a path does this.
* `Draft.changed_of_replace`: replacing a document with its path changes the path as planned, and the tree in no
  other way.
* `Draft.pathOf_replaced`: what replacing makes of all paths.
-/

namespace FileIndex

/-- The path leads on to the other one. -/
def Path.FolderOf (folder url : Bytes) : Prop := folder ≠ [] ∧ ∃ rest, url = folder ++ Path.slash :: rest

theorem Path.folderOf_render {front above : List Bytes} (hfront : front ≠ []) (habove : above ≠ []) :
    FolderOf (render above) (render (front ++ above)) := by
  obtain ⟨name, rest, rfl⟩ := List.exists_cons_of_ne_nil hfront
  obtain ⟨name', rest', rfl⟩ := List.exists_cons_of_ne_nil habove
  obtain ⟨bytes, hbytes⟩ := render_cons_eq name rest
  obtain ⟨bytes', hbytes'⟩ := render_cons_eq name' rest'
  refine ⟨?_, bytes, by rw [render_append, hbytes]⟩
  rw [hbytes']
  exact List.cons_ne_nil slash bytes'

namespace Store

variable {s s₁ s' : Store} {id old x : DocId} {p : Placement} {t : List (DocId × Bytes)} {resolver : Resolver}
  {url : Bytes}

/-! ### Where a path is to hang -/

/-- Where a path was found to belong, it can be hung, if the id has an entry and is not on the way up from there. -/
theorem attachable_of_locate (hs : s.TreeReadable) (hlocate : s.locate resolver p.id url = .ok (some p))
    (hlength : url.length < UInt64.size) (hnodup : (p.missing.map (·.1)).Nodup) (hentry : s.HasEntry p.id)
    (ht : s.Trail p.anchor t) (hclear : p.id ∉ t.map (·.1)) : Attachable ((p.id, p.name) :: p.missing) t := by
  have hplaced := placed_of_locate hs hlocate
  have hfresh : ∀ x ∈ p.missing.map (·.1), ¬ s.HasEntry x := fun x hx => (hplaced.missing x hx).2
  have hall : (p.id :: p.missing.map (·.1)).Nodup := List.nodup_cons.mpr ⟨fun hmem => hfresh p.id hmem hentry, hnodup⟩
  have hplaceable : s.Placeable 0 p := placeable_of_locate hs hlocate hlength hall rfl (.inl rfl)
  refine ⟨hall, List.forall_mem_cons.mpr ⟨hplaced.id_ne, fun x hx => (hplaceable.folders.fresh x hx).1⟩,
    List.forall_mem_cons.mpr ⟨hplaceable.length, fun x hx => (hplaceable.folders.names x hx).2⟩, fun x hx => ?_⟩
  rw [List.map_cons, List.mem_cons, not_or]
  refine ⟨?_, fun hmem => hfresh x hmem (ht.hasEntry hx)⟩
  rintro rfl
  exact hclear hx

/-- Where an id hangs already, no folder is missing. -/
theorem missing_of_hangsFrom (h : s.Linked) (hplaced : s.Placed p) (hangs : s.HangsFrom id p.parent) :
    p.missing = [] := by
  cases hmissing : p.missing with
  | nil => rfl
  | cons folder rest =>
    have hparent : p.parent = folder.1 := by rw [parent_eq_headD, hmissing, List.map_cons, List.headD_cons]
    have hfolder := hplaced.missing folder.1 (by rw [hmissing, List.map_cons]; exact List.mem_cons_self)
    rw [hparent] at hangs
    exact absurd (h.parents id folder.1 hangs hfolder.1) hfolder.2

/-! ### After it is hung -/

/-- The id is hung in the place. Of all others, an entry is as before or lost, and only folders lose theirs that
are left behind. -/
structure Rehung (p : Placement) (t : List (DocId × Bytes)) (s s' : Store) : Prop where
  linked : s'.Linked
  trail : s'.Trail p.id ((p.id, p.name) :: (p.missing ++ t))
  same : ∀ x, x ≠ p.id → s.HasEntry x → s'.HasEntry x → s'.pathEntryOf? x = s.pathEntryOf? x
  lost : ∀ x, s.HasEntry x → (¬ s'.HasEntry x ↔ Deserted s s' p.id x)

/-- The id gets another name where it is. -/
theorem rehung_of_put (h : s.Linked) (hplaced : s.Placed p) (ht : s.Trail p.anchor t) (hclear : p.id ∉ t.map (·.1))
    (hangs : s.HangsFrom p.id p.parent) (hlinked' : s'.Linked)
    (hput : ∀ x, s'.pathEntryOf? x = if x = p.id then .ok (some ⟨p.parent, p.name⟩) else s.pathEntryOf? x) :
    Rehung p t s s' := by
  have hmissing := missing_of_hangsFrom h hplaced hangs
  have hparent : p.parent = p.anchor := by
    rw [parent_eq_headD, hmissing]
    rfl
  have hfrom : ∀ x above, s.HangsFrom x above → s'.HangsFrom x above := by
    intro x above hx
    rw [hangsFrom_of_put hput]
    by_cases hself : x = p.id
    · exact .inl ⟨hself, (hself ▸ hx).unique hangs⟩
    · exact .inr ⟨hself, hx⟩
  refine ⟨hlinked', ?_, fun x hx _ _ => (hput x).trans (if_neg hx), fun x hx => ?_⟩
  · have hkept : s'.Trail p.parent t := by
      rw [hparent]
      refine ht.congr fun x hx => (hput x).trans (if_neg ?_)
      rintro rfl
      exact hclear hx
    rw [hmissing]
    exact .up ((hput p.id).trans (if_pos rfl)) hkept
  · refine iff_of_false (not_not_intro (HasEntry.of_put hput hx)) fun ⟨habove, _, hbare⟩ => ?_
    exact hlinked'.not_bare_of_transGen (Relation.TransGen.mono hfrom _ _ habove) hbare

/-- The id was hung in the place, and the folder that it left is still to be looked at. -/
structure HungElsewhere (p : Placement) (t told : List (DocId × Bytes)) (s s₁ : Store) (old : DocId) : Prop where
  linked : s₁.Linked
  trail : s₁.Trail p.id ((p.id, p.name) :: (p.missing ++ t))
  trail_old : s₁.Trail old told
  same : ∀ x, x ≠ p.id → s.HasEntry x → s₁.pathEntryOf? x = s.pathEntryOf? x
  documents : s₁.hasDocument = s.hasDocument

/-- The id is taken out of where it was and hung in the place. -/
theorem hungElsewhere_of_attach (h : s.Linked) (hlocate : s.locate resolver p.id url = .ok (some p))
    (hlength : url.length < UInt64.size) (hnodup : (p.missing.map (·.1)).Nodup) (ht : s.Trail p.anchor t)
    (hclear : p.id ∉ t.map (·.1)) {name : Bytes} {told : List (DocId × Bytes)}
    (hold : s.Trail p.id ((p.id, name) :: told)) (hangs : s.HangsFrom p.id old) {siblings : List DocId}
    (hsiblings : s.childrenOf old = .ok siblings)
    (hattach : Store.attach p (s.takenOut p.id p.id old siblings) = .ok () s₁) : HungElsewhere p t told s s₁ old := by
  obtain ⟨name', he⟩ := hangs
  obtain ⟨_, hsiblings', hascending⟩ := h.readable.children old
  cases hsiblings.symm.trans hsiblings'
  have hout := h.takeOut he hsiblings hascending
  have hentries : (s.takenOut p.id p.id old siblings).pathEntries = s.pathEntries := pathEntries_takenOut_self
  have hof := pathEntryOf?_congr hentries
  have hattachable := attachable_of_locate h.readable hlocate hlength hnodup ⟨_, he⟩ ht hclear
  have hfresh := (placed_of_locate h.readable hlocate).missing
  obtain ⟨htrail, hsame⟩ := attach_trail hout.readable (ht.congr fun x _ => hof x) hattachable hattach
  have hkept : ∀ x, x ≠ p.id → s.HasEntry x → s₁.pathEntryOf? x = s.pathEntryOf? x := by
    intro x hx hentry
    rw [hsame x (by rw [List.mem_cons, not_or]; exact ⟨hx, fun hmem => (hfresh x hmem).2 hentry⟩), hof]
  have hlinked₁ : s₁.Linked := by
    have hp := placeable_of_locate h.readable hlocate hlength hattachable.nodup hentries (.inr rfl)
    obtain ⟨_, hattach', hlinked⟩ := hout.attach hp (.inr (.inl rfl))
    cases hattach.symm.trans hattach'
    rwa [if_pos rfl, ← linked_iff] at hlinked
  refine ⟨hlinked₁, htrail, ?_, hkept, funext (hasDocument_congr ?_)⟩
  · obtain ⟨above, heq, habove⟩ := hold.of_entry he
    cases heq
    refine habove.congr fun x hx => hkept x ?_ (habove.hasEntry hx)
    rintro rfl
    exact hold.wayUp.not_mem hx
  · obtain ⟨_, _, hattach', _, hframe⟩ := attach_safe p _ hout.readable
    cases hattach.symm.trans hattach'
    rw [hframe]
    exact times_takenOut

section HungElsewhere

variable {name : Bytes} {told : List (DocId × Bytes)} (h : HungElsewhere p t told s s₁ old)
  (hold : s.Trail p.id ((p.id, name) :: told)) (hangs : s.HangsFrom p.id old)

include h

theorem HungElsewhere.hasEntry (hx : s.HasEntry x) : s₁.HasEntry x := by
  by_cases hself : x = p.id
  · exact hself ▸ h.trail.hasEntry List.mem_cons_self
  · exact hx.imp fun _ he => (h.same x hself hx).trans he

include hold

/-- What was above the id is the folder that it left and what is above that. -/
theorem HungElsewhere.transGen_iff (hx : x ≠ 0) :
    Relation.TransGen s.HangsFrom p.id x ↔ Relation.ReflTransGen s₁.HangsFrom old x := by
  rw [hold.wayUp.transGen_iff hx, h.trail_old.wayUp.reflTransGen_iff hx]
  rfl

/-- A folder that stays for being the root or a document keeps all others above it. -/
theorem HungElsewhere.rehung (hstays : old = 0 ∨ s.hasDocument old = true) : Rehung p t s s₁ := by
  refine ⟨h.linked, h.trail, fun x hx hentry _ => h.same x hx hentry, fun x hx => ?_⟩
  refine iff_of_false (not_not_intro (h.hasEntry hx)) fun ⟨habove, hnone, hbare⟩ => ?_
  have hzero := hx.ne_zero
  obtain rfl | habove := Relation.reflTransGen_iff_eq_or_transGen.mp ((h.transGen_iff hold hzero).mp habove)
  · rcases hstays with rfl | hdocument
    · exact hzero rfl
    · rw [hnone] at hdocument
      cases hdocument
  · exact h.linked.not_bare_of_transGen habove hbare

/-- The folder that was left is unlinked if it is no document. -/
theorem HungElsewhere.rehung_of_unlink (hlength : told.length ≤ maxDepth) (hnone : s.hasDocument old = false) {b : Bool}
    (hunlink : Store.unlink (fun folder => !s.hasDocument folder) old s₁ = .ok b s') : Rehung p t s s' := by
  have hdocuments : ∀ x, s₁.hasDocument x = s.hasDocument x := congrFun h.documents
  rw [← h.documents] at hunlink
  have hway : s₁.HasEntry old → ∃ ids, s₁.WayUp old ids ∧ ids.length ≤ maxDepth := fun _ =>
    ⟨_, h.trail_old.wayUp, by rwa [List.length_map]⟩
  have hlost := fun {x : DocId} (hx : s.HasEntry x) =>
    h.linked.lost_iff hway hunlink ((hdocuments old).trans hnone) (h.hasEntry hx)
  obtain ⟨hunlinked, hlinked'⟩ := h.linked.unlinked_of_wayUp hway hunlink
  have hkept : ∀ x, s₁.HasEntry x → s'.HasEntry x → s'.pathEntryOf? x = s₁.pathEntryOf? x := fun _ _ =>
    hunlinked.thinned.same
  have hentry : s.HasEntry p.id := hold.hasEntry List.mem_cons_self
  have hstays : s'.HasEntry p.id := by
    refine not_not.mp fun hgone => ?_
    have habove := ((hlost hentry).mp hgone).1
    rw [← h.transGen_iff hold hentry.ne_zero] at habove
    exact hold.wayUp.not_transGen habove
  refine ⟨hlinked', h.trail.kept hlinked' hkept (.inr hstays), fun x hx hbefore hafter => ?_, fun x hx => ?_⟩
  · rw [hkept x (h.hasEntry hbefore) hafter, h.same x hx hbefore]
  · rw [hlost hx, ← h.transGen_iff hold hx.ne_zero, hdocuments]
    exact ⟨fun ⟨habove, hnone, hbare⟩ => ⟨habove, hnone, hbare⟩,
      fun ⟨habove, hnone, hbare⟩ => ⟨habove, hnone, hbare⟩⟩

end HungElsewhere

/-- To change the path of an id that has one hangs the id in its new place. -/
theorem rehung_of_changePath (h : s.Linked) (hways : ∀ id, s.HasEntry id → s.Traceable id) (hentry : s.HasEntry p.id)
    (hlength : url.length < UInt64.size) (hlocate : s.locate resolver p.id url = .ok (some p))
    (hnodup : (p.missing.map (·.1)).Nodup) (ht : s.Trail p.anchor t) (hclear : p.id ∉ t.map (·.1))
    {change : Draft.PathChange} (hplan : Draft.planPath s resolver p.id url = .ok change)
    (hchange : Draft.changePath p.id change s = .ok () s') : Rehung p t s s' := by
  obtain ⟨p', hlocate', _, hcases⟩ := changePath_cases h.readable hplan hchange
  cases hlocate.symm.trans hlocate'
  have hattachable := attachable_of_locate h.readable hlocate hlength hnodup hentry ht hclear
  rcases hcases with ⟨hnone, _⟩ | ⟨_, name, _, he, _⟩ | ⟨old, siblings, s₁, hangs, _, hsiblings, hattach, hrest⟩
  · exact absurd hentry hnone
  · have hangs : s.HangsFrom p.id p.parent := ⟨name, he⟩
    have hlinked' : s'.Linked := by
      obtain ⟨_, hchange', hlinked'⟩ := h.changePath hplan hlength fun p' hp' => by
        cases hlocate.symm.trans hp'
        exact hattachable.nodup
      cases hchange.symm.trans hchange'
      exact hlinked'
    have hplaced := placed_of_locate h.readable hlocate
    refine rehung_of_put h hplaced ht hclear hangs hlinked' fun x => ?_
    rw [eq_of_rename hplan hchange hlocate hangs, pathEntryOf?_setPathEntry s hplaced.id_ne,
      storedName_of_length (hattachable.lengths _ List.mem_cons_self)]
  · obtain ⟨ids, hway, _, hshort⟩ := hways p.id hentry
    obtain ⟨whole, hwhole, rfl⟩ := hway.exists_trail
    obtain ⟨name, he⟩ := hangs
    obtain ⟨told, rfl, _⟩ := hwhole.of_entry he
    have hung := hungElsewhere_of_attach h hlocate hlength hnodup ht hclear hwhole ⟨name, he⟩ hsiblings hattach
    rw [List.map_cons, List.length_cons, List.length_map] at hshort
    rcases hrest with ⟨hnone, b, hunlink⟩ | ⟨hstays, rfl⟩
    · exact hung.rehung_of_unlink hwhole (Nat.le_of_succ_le_succ hshort) hnone hunlink
    · exact hung.rehung hwhole hstays

/-! ### Paths -/

theorem Shallow.traceable (h : s.Shallow) (hid : s.HasEntry id) : s.Traceable id := by
  obtain ⟨ids, hway, hlength⟩ := h id hid
  refine ⟨ids, hway, ?_, Nat.le_succ_of_le hlength⟩
  rintro rfl
  cases hway
  exact hid.ne_zero rfl

/-- The id has the url for its path, and what is below it follows. Other paths are as before, and only folders
lose their entries that the id has left behind. -/
structure MovedTo (id : DocId) (url : Bytes) (s s' : Store) : Prop where
  self : s'.pathOf id = .ok url
  below : ∃ old, s.pathOf id = .ok old ∧ ∀ x, Relation.TransGen s.HangsFrom x id →
    ∃ rest, s.pathOf x = .ok (old ++ rest) ∧ s'.pathOf x = .ok (url ++ rest)
  others : ∀ x, ¬ Relation.ReflTransGen s.HangsFrom x id → s.HasEntry x → s'.HasEntry x → s'.pathOf x = s.pathOf x
  lost : ∀ x, s.HasEntry x → (¬ s'.HasEntry x ↔ Deserted s s' id x)

theorem MovedTo.congr {r r' : Store} (h : MovedTo id url s s') (hentries : r.pathEntries = s.pathEntries)
    (htimes : r.times = s.times) (hchildren' : r'.children = s'.children)
    (hentries' : r'.pathEntries = s'.pathEntries) :
    MovedTo id url r r' := by
  have hfrom : r.HangsFrom = s.HangsFrom :=
    funext fun x => funext fun above => propext (hangsFrom_congr hentries x above)
  have hbefore := pathOf_congr hentries
  have hafter := pathOf_congr hentries'
  refine ⟨(hafter id).trans h.self, ?_, fun x hout hx hx' => ?_, fun x hx => ?_⟩
  · simp only [hfrom, hbefore, hafter]
    exact h.below
  · rw [hfrom] at hout
    rw [hafter, hbefore, h.others x hout ((hasEntry_congr hentries x).mp hx) ((hasEntry_congr hentries' x).mp hx')]
  · rw [hasEntry_congr hentries', deserted_congr hentries htimes hchildren']
    exact h.lost x ((hasEntry_congr hentries x).mp hx)

/-- Where an id was hung below a folder with the path that the resolver was asked for, its path is the url. -/
theorem Rehung.movedTo (h : Rehung p t s s') (hways : ∀ id, s.HasEntry id → s.Traceable id) (hentry : s.HasEntry p.id)
    (hways' : ∀ id ids, s'.WayUp id ids → ids.length ≤ maxDepth + 1)
    (hurl : Path.render (p.name :: (p.missing ++ t).map (·.2)) = url) : MovedTo p.id url s s' := by
  have hbefore : ∀ {x}, s.HasEntry x → ∃ tx, s.Trail x tx ∧ s.pathOf x = .ok (Path.render (tx.map (·.2))) := by
    intro x hx
    obtain ⟨ids, hway, _, hlength⟩ := hways x hx
    obtain ⟨tx, htrail, rfl⟩ := hway.exists_trail
    exact ⟨tx, htrail, htrail.pathOf (by rwa [List.length_map] at hlength)⟩
  have hafter : ∀ {x tx}, s'.Trail x tx → s'.pathOf x = .ok (Path.render (tx.map (·.2))) := by
    intro x tx htrail
    have hlength := hways' x _ htrail.wayUp
    exact htrail.pathOf (by rwa [List.length_map] at hlength)
  obtain ⟨told, hold, hpath⟩ := hbefore hentry
  have hzero := hentry.ne_zero
  refine ⟨?_, ⟨_, hpath, fun x hx => ?_⟩, fun x hout hx hx' => ?_, h.lost⟩
  · rw [hafter h.trail, List.map_cons, hurl]
  · -- what is below the id is not above it, so that it keeps its entry
    have hentry' : s.HasEntry x := by
      obtain ⟨above, hangs, _⟩ := Relation.TransGen.head'_iff.mp hx
      exact hangs.hasEntry
    have hstays : s'.HasEntry x := not_not.mp fun hgone =>
      hold.wayUp.not_transGen (((h.lost x hentry').mp hgone).above.trans hx)
    obtain ⟨tx, htrail, hpath⟩ := hbefore hentry'
    have hmem : p.id ∈ tx.map (·.1) := (htrail.wayUp.reflTransGen_iff hzero).mp hx.to_reflTransGen
    obtain ⟨front, rfl, htrail'⟩ | ⟨hout, _⟩ := htrail.rehung hold h.trail h.linked h.same (.inr hstays)
    · refine ⟨Path.render (front.map (·.2)), ?_, ?_⟩
      · rw [hpath, List.map_append, Path.render_append]
      · rw [hafter htrail', List.map_append, List.map_cons, Path.render_append, hurl]
    · exact absurd hmem hout
  · obtain ⟨tx, htrail, hpath⟩ := hbefore hx
    obtain ⟨front, rfl, _⟩ | ⟨_, htrail'⟩ := htrail.rehung hold h.trail h.linked h.same (.inr hx')
    · refine absurd ((htrail.wayUp.reflTransGen_iff hzero).mpr ?_) hout
      obtain ⟨ids, hids⟩ := hold.wayUp.of_hangsFrom (hasEntry_iff_hangsFrom.mp hentry).choose_spec
      rw [List.map_append, hids.1]
      exact List.mem_append_right _ List.mem_cons_self
    · rw [hafter htrail', hpath]

/-- A changed path is what the url says, if the folders above it have the paths that they were resolved from. -/
theorem movedTo_of_changePath (h : s.Linked) (hways : ∀ id, s.HasEntry id → s.Traceable id) (hentry : s.HasEntry id)
    (hlength : url.length < UInt64.size)
    (hfolders : ∀ folder, Path.FolderOf folder url → s.hasPath (resolver folder) = true →
      s.pathOf (resolver folder) = .ok folder)
    (hplace : ∀ p, s.locate resolver id url = .ok (some p) →
      (p.missing.map (·.1)).Nodup ∧ ∀ ids, s.WayUp p.anchor ids → id ∉ ids)
    {change : Draft.PathChange} (hplan : Draft.planPath s resolver id url = .ok change)
    (hchange : Draft.changePath id change s = .ok () s')
    (hways' : ∀ id ids, s'.WayUp id ids → ids.length ≤ maxDepth + 1) : MovedTo id url s s' := by
  obtain ⟨p, hlocate, _⟩ := Draft.planPath_spec hplan
  obtain ⟨_, name, above, hparse, rfl, hpname, hmissing⟩ := locate_spec hlocate
  obtain ⟨hnodup, hclear⟩ := hplace p hlocate
  obtain ⟨further, rfl, hanchor⟩ := missingFolders_names hmissing
  have hrender := (Path.parse_spec hparse).2.2
  have hfound : ∃ t, s.Trail p.anchor t ∧ Path.render (t.map (·.2)) = Path.render further := by
    rcases hanchor with ⟨rfl, hzero⟩ | ⟨hne, hresolved, hpath⟩
    · exact ⟨[], hzero ▸ .root, rfl⟩
    · obtain ⟨ids, hway, _, hshort⟩ := hways p.anchor ((hasPath_iff_hasEntry h.readable).mp hpath)
      obtain ⟨t, ht, rfl⟩ := hway.exists_trail
      have hfolder : Path.FolderOf (Path.render further) url := by
        rw [← hrender, ← List.cons_append]
        exact Path.folderOf_render (List.cons_ne_nil name _) hne
      have hknown := hfolders _ hfolder (hresolved ▸ hpath)
      rw [← hresolved, ht.pathOf (by rwa [List.length_map] at hshort), Except.ok.injEq] at hknown
      exact ⟨t, ht, hknown⟩
  obtain ⟨t, ht, hnames⟩ := hfound
  refine (rehung_of_changePath h hways hentry hlength hlocate hnodup ht (hclear _ ht.wayUp) hplan hchange).movedTo hways
    hentry hways' ?_
  rw [← hrender, hpname, List.map_append, ← List.cons_append, ← List.cons_append, Path.render_append,
    Path.render_append, hnames]

end Store

namespace Draft

open Store

variable {resolver : Resolver} {doc : Document} {parts : Parts} {d d' : Draft}

/-- After its path, only records of a document are replaced, as far as that goes. -/
theorem keeps_records (hid : doc.id ≠ 0) (parts : Parts) (s : Store) :
    Keeps (fun d => SameButRecords s d.store) (do
      if parts.time then replaceTime doc
      if parts.payload then update (·.putPayload doc.id doc.payload)) := by
  have htime : Keeps (fun d => SameButRecords s d.store) (replaceTime doc) := by
    intro d hd
    cases hread : d.store.timeOf? doc.id with
    | ok time? =>
      rw [replaceTime_eq hid hread]
      exact (hd.trans (sameButRecords_withoutModified ..)).trans (sameButRecords_withTime ..)
    | error e =>
      unfold replaceTime
      rw [bind_of_error (look_of_error hread)]
      exact hd
  have hpayload : Keeps (fun d => SameButRecords s d.store) (update (·.putPayload doc.id doc.payload)) := by
    intro d hd
    rw [update_of_ok (putPayload_eq hid d.store doc.payload)]
    exact hd.trans (sameButRecords_withPayload ..)
  exact .first htime fun _ => .ite hpayload (.pure ())

/-- To replace a document with its path changes the path as planned, and the tree in no other way. -/
theorem changed_of_replace (htree : d.store.TreeReadable) (hurl : parts.url = true)
    (h : replace resolver doc parts d = .ok () d') :
    ∃ change s, planPath d.store resolver doc.id doc.url = .ok change ∧
      changePath doc.id change (refilled doc parts d).store = .ok () s ∧ SameButRecords s d'.store := by
  by_cases hid : doc.id = 0
  · rw [replace_zero hid] at h
    cases h
  cases hplan : planPath d.store resolver doc.id doc.url with
  | error e =>
    rw [replace_of_planPath_error hid hurl hplan] at h
    cases h
  | ok change =>
    have hterms := sameButTerms_refilled doc parts d
    obtain ⟨s, hchange, _⟩ := changePath_safe hplan (hterms.treeReadable htree) (by rw [hterms])
    have hedit : edit (changePath doc.id change) (refilled doc parts d) =
        .ok () { refilled doc parts d with store := s } := edit_of_ok hchange
    have hmodify : (modify fun d => d.enqueueRemovals doc.id (droppedTerms d.store doc.id parts) : Write Unit) d =
        .ok () (d.enqueueRemovals doc.id (droppedTerms d.store doc.id parts)) := rfl
    rw [replace_of_planPath_ok hid hurl hplan] at h
    unfold replaceWith at h
    rw [bind_of_ok hmodify, bind_of_ok (refill_eq hid parts d)] at h
    simp only at h
    rw [bind_of_ok hedit] at h
    have hkept := keeps_records hid parts s { refilled doc parts d with store := s } rfl
    rw [h] at hkept
    exact ⟨change, s, rfl, hchange, hkept⟩

/-- Let the maps of the tree agree, and let every entry have a way up that can be followed. A document that has an
entry is replaced with its path. Let the folders above its new path that have entries have the paths that they were
resolved from, let those that have none be resolved to different ids, and let the new path not lead through the document
itself. If no way up is too long to be followed afterwards either, the path of the document is the new one, all paths
below it begin with that instead of the old one, and all other paths are what they were. Folders lose their entries if
they are above the old path, are no documents and have nothing left below them, and nothing else does. -/
theorem pathOf_replaced (hlinked : d.store.Linked) (hways : ∀ id, d.store.HasEntry id → d.store.Traceable id)
    (hentry : d.store.HasEntry doc.id) (hurl : parts.url = true) (hlength : doc.url.length < UInt64.size)
    (hfolders : ∀ folder, Path.FolderOf folder doc.url → d.store.hasPath (resolver folder) = true →
      d.store.pathOf (resolver folder) = .ok folder)
    (hplace : ∀ p, d.store.locate resolver doc.id doc.url = .ok (some p) →
      (p.missing.map (·.1)).Nodup ∧ ∀ ids, d.store.WayUp p.anchor ids → doc.id ∉ ids)
    (hreplace : replace resolver doc parts d = .ok () d')
    (hways' : ∀ id ids, d'.store.WayUp id ids → ids.length ≤ maxDepth + 1) :
    MovedTo doc.id doc.url d.store d'.store := by
  obtain ⟨change, s, hplan, hchange, hrecords⟩ := changed_of_replace hlinked.readable hurl hreplace
  have hterms := sameButTerms_refilled doc parts d
  have hentries : (refilled doc parts d).store.pathEntries = d.store.pathEntries := by rw [hterms]
  have hwayUp := wayUp_congr (hangsFrom_congr hentries)
  have hmoved : MovedTo doc.id doc.url (refilled doc parts d).store s := by
    refine movedTo_of_changePath (hlinked.of_sameButTerms hterms) (fun id hid => ?_)
      ((hasEntry_congr hentries _).mpr hentry)
      hlength (fun folder hfolder hpath => ?_) (fun p hlocate => ?_) ((planPath_congr hentries ..).trans hplan) hchange
      fun id ids hway => hways' id ids ?_
    · obtain ⟨ids, hway, hshort⟩ := hways id ((hasEntry_congr hentries id).mp hid)
      exact ⟨ids, (hwayUp id ids).mpr hway, hshort⟩
    · rw [hasPath_congr hentries] at hpath
      rw [pathOf_congr hentries, hfolders folder hfolder hpath]
    · obtain ⟨hnodup, hclear⟩ := hplace p ((locate_congr hentries ..).symm.trans hlocate)
      exact ⟨hnodup, fun ids hway => hclear ids ((hwayUp _ ids).mp hway)⟩
    · exact (wayUp_congr (hangsFrom_congr (by rw [hrecords])) id ids).mpr hway
  exact hmoved.congr hentries.symm (by rw [hterms]) (by rw [hrecords]) (by rw [hrecords])

/-- A folder is moved with what is in it to below another one. A folder comes with its new path, and the one that
it leaves empty goes. -/
theorem pathOf_replaced_in_new_folder :
    let r : Resolver := fun folder =>
      if folder = [0x2F, 0x62] then 9 else if folder = [0x2F, 0x62, 0x2F, 0x63] then 6 else 0
    let s : Store := leftBy ((do
      let _ ← hangFolders 0 [(8, [0x65]), (7, [0x64]), (5, [0x61])]
      hang 9 0 [0x62] : Edit Unit) ∅)
    let doc : Document := { id := 7, url := [0x2F, 0x62, 0x2F, 0x63, 0x2F, 0x78] }
    let d : Draft := { store := s }
    let d' := leftBy (replace r doc .rename d)
    (s.Linked ∧ (∀ id, s.HasEntry id → s.Traceable id) ∧ s.HasEntry 7 ∧
      (∀ folder, Path.FolderOf folder doc.url → s.hasPath (r folder) = true → s.pathOf (r folder) = .ok folder) ∧
      (∀ p, s.locate r 7 doc.url = .ok (some p) →
        (p.missing.map (·.1)).Nodup ∧ ∀ ids, s.WayUp p.anchor ids → 7 ∉ ids) ∧
      replace r doc .rename d = .ok () d' ∧ ∀ id ids, d'.store.WayUp id ids → ids.length ≤ maxDepth + 1) ∧
      MovedTo 7 doc.url s d'.store ∧ d'.store.hasPath 5 = false ∧
        d'.store.pathOf 8 = .ok [0x2F, 0x62, 0x2F, 0x63, 0x2F, 0x78, 0x2F, 0x65] := by
  intro r s doc d d'
  have hlinked : s.Linked := by
    have hfolders : (∅ : Store).Hangable 0 0 [(8, [0x65]), (7, [0x64]), (5, [0x61])] :=
      ⟨.inl rfl, by decide, by simp [HasEntry], by decide⟩
    obtain ⟨s₁, hdown, hlinked₁, _, hsame⟩ := (linked_iff.mp linked_empty).hangFolders hfolders
    have hnew : ¬ s₁.HasEntry 9 := by
      unfold HasEntry
      rw [hsame 9 (by decide)]
      simp
    obtain ⟨s₂, hhang, hlinked₂, _⟩ := hlinked₁.hang (by decide : (9 : DocId) ≠ 0)
      (by decide : ([0x62] : Bytes) ≠ [] ∧ Path.slash ∉ [0x62]) (by decide) (.inl rfl) (.inl hnew)
    have hs : s = s₂ := by
      show leftBy ((Store.hangFolders 0 _ >>= fun _ => Store.hang 9 0 [0x62] : Edit Unit) ∅) = s₂
      rw [bind_of_ok hdown, hhang]
      rfl
    exact hs ▸ linked_iff.mpr hlinked₂
  have hfive : s.pathEntryOf? 5 = .ok (some ⟨0, [0x61]⟩) := by decide +kernel
  have hseven : s.pathEntryOf? 7 = .ok (some ⟨5, [0x64]⟩) := by decide +kernel
  have height : s.pathEntryOf? 8 = .ok (some ⟨7, [0x65]⟩) := by decide +kernel
  have hnine : s.pathEntryOf? 9 = .ok (some ⟨0, [0x62]⟩) := by decide +kernel
  have hway : s.WayUp 7 [7, 5] := .up ⟨_, hseven⟩ (.up ⟨_, hfive⟩ .root)
  have hway₉ : s.WayUp 9 [9] := .up ⟨_, hnine⟩ .root
  have hkeys : s.pathEntries.keys = [5, 7, 8, 9].map DocId.toKey := by decide +kernel
  have hshallow : s.Shallow := by
    apply shallow_of_keys hkeys
    intro id hid
    simp only [List.mem_cons, List.not_mem_nil, or_false] at hid
    obtain rfl | rfl | rfl | rfl := hid
    · exact ⟨[5], .up ⟨_, hfive⟩ .root, by decide⟩
    · exact ⟨_, hway, by decide⟩
    · exact ⟨_, .up ⟨_, height⟩ hway, by decide⟩
    · exact ⟨_, hway₉, by decide⟩
  have hways : ∀ id, s.HasEntry id → s.Traceable id := fun _ => hshallow.traceable
  have hfolders : ∀ folder, Path.FolderOf folder doc.url → s.hasPath (r folder) = true →
      s.pathOf (r folder) = .ok folder := by
    intro folder _ hpath
    by_cases hb : folder = [0x2F, 0x62]
    · subst hb
      decide +kernel
    · by_cases hc : folder = [0x2F, 0x62, 0x2F, 0x63]
      · subst hc
        cases hpath.symm.trans (by decide +kernel : _ = false)
      · have hzero : r folder = 0 := (if_neg hb).trans (if_neg hc)
        rw [hzero] at hpath
        cases hpath
  have hplace : ∀ p, s.locate r 7 doc.url = .ok (some p) →
      (p.missing.map (·.1)).Nodup ∧ ∀ ids, s.WayUp p.anchor ids → 7 ∉ ids := by
    intro p hp
    cases hp.symm.trans (by decide +kernel : _ = .ok (some ⟨7, [0x78], 9, [(6, [0x63])]⟩))
    refine ⟨by decide, fun ids hway => ?_⟩
    cases hway.unique hway₉
    decide
  have hreplace : replace r doc .rename d = .ok () d' := eq_ok_of_answerOf (by decide +kernel)
  have hways' : ∀ id ids, d'.store.WayUp id ids → ids.length ≤ maxDepth + 1 := by
    have hfolder : d'.store.pathEntryOf? 6 = .ok (some ⟨9, [0x63]⟩) := by decide +kernel
    have hmoved : d'.store.pathEntryOf? 7 = .ok (some ⟨6, [0x78]⟩) := by decide +kernel
    have hleaf : d'.store.pathEntryOf? 8 = .ok (some ⟨7, [0x65]⟩) := by decide +kernel
    have htop : d'.store.pathEntryOf? 9 = .ok (some ⟨0, [0x62]⟩) := by decide +kernel
    have hway : d'.store.WayUp 7 [7, 6, 9] := .up ⟨_, hmoved⟩ (.up ⟨_, hfolder⟩ (.up ⟨_, htop⟩ .root))
    have hkeys : d'.store.pathEntries.keys = [6, 7, 8, 9].map DocId.toKey := by decide +kernel
    have hshallow : d'.store.Shallow := by
      apply shallow_of_keys hkeys
      intro id hid
      simp only [List.mem_cons, List.not_mem_nil, or_false] at hid
      obtain rfl | rfl | rfl | rfl := hid
      · exact ⟨_, .up ⟨_, hfolder⟩ (.up ⟨_, htop⟩ .root), by decide⟩
      · exact ⟨_, hway, by decide⟩
      · exact ⟨_, .up ⟨_, hleaf⟩ hway, by decide⟩
      · exact ⟨_, .up ⟨_, htop⟩ .root, by decide⟩
    exact fun _ _ hway => Nat.le_succ_of_le (hshallow.length_le hway)
  have hentry : s.HasEntry 7 := ⟨_, hseven⟩
  exact ⟨⟨hlinked, hways, hentry, hfolders, hplace, hreplace, hways'⟩,
    pathOf_replaced hlinked hways hentry rfl (by decide) hfolders hplace hreplace hways', by decide +kernel,
    by decide +kernel⟩

end Draft
end FileIndex
