import FileIndex.Proofs.Draft.Outline
import FileIndex.Proofs.Hierarchy
import FileIndex.Proofs.Replacing
import FileIndex.Proofs.Tree.Ascent
import FileIndex.Proofs.Tree.Hanging

/-!
# The ids that an added document is listed below

A document can be added under an id that has a path already: the id of a folder that was hung for what is in it, or of a
document that was removed while something was below it. The path is hung anew, but is not taken out of where it was.

* `Draft.listsBelow_added`: what an added document is listed below: its new parent, and all that it was listed below.
* `Session.listsBelow_added_afterAt`: so it is in every run, and the new parent is the only one exactly if the id was
  listed nowhere else.
-/

namespace FileIndex

open Store

namespace Draft

variable {resolver : Resolver} {doc : Document} {d d' : Draft}

/-- Adding a document whose id has an entry gives it the parent of its new place and takes none away. -/
theorem listsBelow_added (hd : d.store.TreeReadable) (hentry : d.store.HasEntry doc.id)
    (hadd : add resolver doc d = .ok () d') : ∃ p, d.store.locate resolver doc.id doc.url = .ok (some p) ∧
      d'.store.HangsFrom doc.id p.parent ∧
      ∀ parent, d'.store.ListsBelow parent doc.id ↔ parent = p.parent ∨ d.store.ListsBelow parent doc.id := by
  rcases add_cases resolver doc hd with ⟨_, e, hfails⟩ | ⟨_, _, p, s, hplace, hattach, _, _, hadded⟩
  · rw [hfails] at hadd
    cases hadd
  rw [hadded] at hadd
  cases hadd
  obtain ⟨_, _, _, _, hid, _⟩ := locate_spec hplace
  have hp := placed_of_locate hd hplace
  -- the folders that are missing have no entries, so that the document is none of them
  have hother : doc.id ∉ p.missing.map (·.1) := fun hmem => (hp.missing doc.id hmem).2 hentry
  obtain ⟨s', hattach', hgains⟩ := attach_gains hd hp.id_ne fun x hx => (hp.missing x.1 (List.mem_map_of_mem hx)).1
  cases hattach.symm.trans hattach'
  rw [hid, entriesInTurn, ← parent_eq_headD] at hgains
  have houtline := sameOutline_entered doc { d with store := s }
  refine ⟨p, hplace, ?_, fun parent => ?_⟩
  · rw [hangsFrom_congr houtline.pathEntries]
    have hstored := hgains.entries doc.id
    rw [List.lookup_cons, beq_self_eq_true] at hstored
    exact ⟨_, hstored⟩
  · rw [listsBelow_congr houtline.children]
    refine (hgains.lists parent doc.id).trans ⟨?_, ?_⟩
    · rintro (hbefore | ⟨e, he, rfl⟩)
      · exact .inr hbefore
      · rcases List.mem_cons.mp he with hfirst | hrest
        · cases hfirst
          exact .inl rfl
        · rw [← map_entriesInTurn p.anchor] at hother
          exact absurd (List.mem_map_of_mem hrest) hother
    · rintro (rfl | hbefore)
      · exact .inr ⟨_, List.mem_cons_self, rfl⟩
      · exact .inl hbefore

end Draft

/-- A document is added in any run under an id that has a path already. Its entry names the parent of its new place, and
it is listed there and wherever it was listed before. So this is the only parent exactly if it was listed nowhere else,
and in a run in which the tree stays whole, exactly if it hung there before. -/
theorem Session.listsBelow_added_afterAt (resolver : Resolver) (moments : List Moment) (r : Resolver) (doc : Document)
    {d : Draft} (hd : (({ resolver } : Session).afterAt moments).draft = some d) (hentry : d.store.HasEntry doc.id) :
    let s := ({ resolver } : Session).afterAt moments
    let added := s.handleAt ⟨r, .write (.add doc)⟩
    added.1 = .ok () → ∃ d' p, added.2.draft = some d' ∧ d.store.locate r doc.id doc.url = .ok (some p) ∧
      d'.store.HangsFrom doc.id p.parent ∧
      (∀ parent, d'.store.ListsBelow parent doc.id ↔ parent = p.parent ∨ d.store.ListsBelow parent doc.id) ∧
      ((∃! parent, d'.store.ListsBelow parent doc.id) ↔
        ∀ parent, d.store.ListsBelow parent doc.id → parent = p.parent) ∧
      (({ resolver } : Session).ObeysAt pathRule.Allows moments →
        ((∃! parent, d'.store.ListsBelow parent doc.id) ↔ d.store.HangsFrom doc.id p.parent)) := by
  intro s added hok
  obtain ⟨d₀, d', hd₀, hrun⟩ := exists_run_of_ok hok
  cases hd.symm.trans hd₀
  have hreadable := (ascending_afterAt resolver moments d hd).2
  obtain ⟨p, hplace, hhangs, hlists⟩ := Draft.listsBelow_added hreadable.tree hentry hrun
  have honly : (∃! parent, d'.store.ListsBelow parent doc.id) ↔
      ∀ parent, d.store.ListsBelow parent doc.id → parent = p.parent := by
    constructor
    · intro hunique parent hbefore
      exact hunique.unique ((hlists parent).mpr (.inr hbefore)) ((hlists p.parent).mpr (.inl rfl))
    · intro hbefore
      exact ⟨p.parent, (hlists p.parent).mpr (.inl rfl), fun parent hparent =>
        ((hlists parent).mp hparent).elim id (hbefore parent)⟩
  refine ⟨d', p, congrArg (·.2.draft) (handle_write_of_ok hd₀ hrun), hplace, hhangs, hlists, honly, fun hobeys => ?_⟩
  obtain ⟨hlinked, _⟩ := keep_afterAt (P := fun d => d.store.Linked) Linked.step
    (fun hd _ hcommit => hd.of_sameButLists (Draft.sameButLists_commit hcommit)) linked_empty hobeys |>.2 d hd
  obtain ⟨e, he⟩ := hentry
  rw [honly, hangsFrom_iff he]
  constructor
  · intro hbefore
    exact (hbefore e.parent ((hlinked.lists_iff _ _).mpr ((hangsFrom_iff he).mpr rfl))).symm
  · intro hparent parent hbefore
    rw [hparent]
    exact (hangsFrom_iff he).mp ((hlinked.lists_iff _ _).mp hbefore)

/-- A folder is removed as a document while a file is in it, and is added again in its place. -/
theorem Session.listsBelow_added_afterAt_same_place :
    let r : Resolver := .listed [([0x2F, 0x64], 7)]
    let folder : Document := { id := 7, url := [0x2F, 0x64] }
    let moments : List Moment := [⟨r, .beginWrite⟩, ⟨r, .write (.add folder)⟩,
      ⟨r, .write (.add { id := 8, url := [0x2F, 0x64, 0x2F, 0x65] })⟩, ⟨r, .write (.remove 7)⟩]
    let s := ({ resolver := r } : Session).afterAt moments
    let added := s.handleAt ⟨r, .write (.add folder)⟩
    ({ resolver := r } : Session).ObeysAt pathRule.Allows moments ∧ added.1 = .ok () ∧
      ∃ d d', s.draft = some d ∧ added.2.draft = some d' ∧ d.store.HasEntry folder.id ∧
        d'.store.HangsFrom folder.id 0 ∧ ∃! parent, d'.store.ListsBelow parent folder.id := by
  intro r folder moments s added
  -- what is added has no path before the folder is removed
  have hplaces : ∀ {o : Option Draft} {d : Draft} {doc : Document} (p : Placement), o = some d →
      o.map (·.store.locate r doc.id doc.url) = some (.ok (some p)) → doc.url.length < UInt64.size →
      (p.id :: p.missing.map (·.1)).Nodup → o.map (·.store.pathEntryOf? doc.id) = some (.ok none) →
      ∀ p', d.store.locate r doc.id doc.url = .ok (some p') → pathRule.added d.store doc p' := by
    rintro o d doc p rfl hp hlength hnodup hnone p' hp'
    cases hp'.symm.trans (Option.some.inj hp)
    exact ⟨hlength, hnodup, fun e he => by cases he.symm.trans (Option.some.inj hnone)⟩
  have hobeys : ({ resolver := r } : Session).ObeysAt pathRule.Allows moments := by
    refine ⟨fun op d hop => ?_, fun op d hop hd => ?_, fun op d hop hd => ?_, fun op d hop _ => ?_, trivial⟩
    · cases hop
    · cases hop
      exact ⟨trivial, hplaces ⟨7, [0x64], 0, []⟩ hd (by decide +kernel) (by decide) (by decide) (by decide +kernel)⟩
    · cases hop
      exact ⟨trivial, hplaces ⟨8, [0x65], 7, []⟩ hd (by decide +kernel) (by decide) (by decide) (by decide +kernel)⟩
    · cases hop
      trivial
  have hok : added.1 = .ok () := by decide +kernel
  obtain ⟨d, _, hd, _⟩ := exists_run_of_ok hok
  have hentry : d.store.pathEntryOf? 7 = .ok (some ⟨0, [0x64]⟩) :=
    eq_of_draft hd (·.store.pathEntryOf? 7) _ (by decide +kernel)
  have hplaced : d.store.locate r 7 [0x2F, 0x64] = .ok (some ⟨7, [0x64], 0, []⟩) :=
    eq_of_draft hd (·.store.locate r 7 [0x2F, 0x64]) _ (by decide +kernel)
  obtain ⟨d', p, hd', hplace, hhangs, _, _, hunique⟩ :=
    listsBelow_added_afterAt r moments r folder hd ⟨_, hentry⟩ hok
  cases hplace.symm.trans hplaced
  exact ⟨hobeys, hok, d, d', hd, hd', ⟨_, hentry⟩, hhangs, (hunique hobeys).mpr ⟨_, hentry⟩⟩

/-- A folder is moved, removed as a document while a file is in it, and added again where it was first. All paths have
different ids, and the folder is listed below two parents. -/
theorem Session.two_parents_after_adding :
    let r : Resolver := .listed [([0x2F, 0x70], 1), ([0x2F, 0x70, 0x2F, 0x61], 10), ([0x2F, 0x71], 2),
      ([0x2F, 0x71, 0x2F, 0x61], 12), ([0x2F, 0x70, 0x2F, 0x61, 0x2F, 0x78], 11)]
    let folder : Document := { id := 10, url := [0x2F, 0x70, 0x2F, 0x61] }
    let moments : List Moment := [⟨r, .beginWrite⟩, ⟨r, .write (.add folder)⟩,
      ⟨r, .write (.add { id := 11, url := [0x2F, 0x70, 0x2F, 0x61, 0x2F, 0x78] })⟩,
      ⟨r, .write (.rename { id := 10, url := [0x2F, 0x71, 0x2F, 0x61] })⟩, ⟨r, .write (.remove 10)⟩]
    let s := ({ resolver := r } : Session).afterAt moments
    let added := s.handleAt ⟨r, .write (.add folder)⟩
    let paths : List Bytes := [[0x2F, 0x70], [0x2F, 0x71], [0x2F, 0x70, 0x2F, 0x61], [0x2F, 0x71, 0x2F, 0x61],
      [0x2F, 0x70, 0x2F, 0x61, 0x2F, 0x78]]
    (paths.map r).Nodup ∧ (∀ path ∈ paths, r path ≠ 0) ∧ added.1 = .ok () ∧
      ∃ d d', s.draft = some d ∧ added.2.draft = some d' ∧ d.store.HasEntry 10 ∧ d.store.hasDocument 10 = false ∧
        d'.store.ListsBelow 1 10 ∧ d'.store.ListsBelow 2 10 ∧ ¬ ∃! parent, d'.store.ListsBelow parent 10 := by
  intro r folder moments s added paths
  have hok : added.1 = .ok () := by decide +kernel
  obtain ⟨d, d', hd, hrun⟩ := exists_run_of_ok hok
  have hd' : added.2.draft = some d' := congrArg (·.2.draft) (handle_write_of_ok hd hrun)
  have hentry : d.store.pathEntryOf? 10 = .ok (some ⟨2, [0x61]⟩) :=
    eq_of_draft hd (·.store.pathEntryOf? 10) _ (by decide +kernel)
  have hgone : d.store.hasDocument 10 = false := eq_of_draft hd (·.store.hasDocument 10) _ (by decide +kernel)
  have hone : d'.store.ListsBelow 1 10 :=
    ⟨[10], eq_of_draft hd' (·.store.childrenOf 1) _ (by decide +kernel), by decide⟩
  have htwo : d'.store.ListsBelow 2 10 :=
    ⟨[10], eq_of_draft hd' (·.store.childrenOf 2) _ (by decide +kernel), by decide⟩
  refine ⟨by decide +kernel, by decide +kernel, hok, d, d', hd, hd', ⟨_, hentry⟩, hgone, hone, htwo, fun hunique => ?_⟩
  exact absurd (hunique.unique hone htwo) (by decide)

end FileIndex
