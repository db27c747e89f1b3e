import FileIndex.FileId
import FileIndex.Proofs.Tree.Links

/-!
# The hierarchy stays whole

Whatever is added, removed, renamed or moved, the ids that are listed below an id are those whose entries name it as the
one above them, and what an entry names so is the root or has an entry itself. The folders may get other ids from one
change to the next.

* `pathRule`: what is asked of the places where paths hang.
* `Store.Linked.step`: every kind of step keeps the two maps of the tree in agreement.
* `Session.linked_afterAt`: so they agree in every store of a run.
-/

namespace FileIndex

/-- The folders to be hung above a document have ids that differ from each other and from that of the document. What is
added has no path yet, or is already below the folder that it is added to. The length of a path is a machine word. -/
def pathRule : Rule where
  added s doc p := doc.url.length < UInt64.size ∧ (p.id :: p.missing.map (·.1)).Nodup ∧
    ∀ e, s.pathEntryOf? doc.id = .ok (some e) → e.parent = p.parent
  moved doc p := doc.url.length < UInt64.size ∧ (p.id :: p.missing.map (·.1)).Nodup

open Store

namespace Store

theorem Linked.of_sameButRecords {s s' : Store} (h : s.Linked) (hsame : SameButRecords s s') : s'.Linked :=
  h.congr (by rw [hsame]) (by rw [hsame])

theorem Linked.of_sameButTerms {s s' : Store} (h : s.Linked) (hsame : SameButTerms s s') : s'.Linked :=
  h.congr (by rw [hsame]) (by rw [hsame])

theorem Linked.of_sameButLists {s s' : Store} (h : s.Linked) (hsame : SameButLists s s') : s'.Linked :=
  h.congr (by rw [hsame]) (by rw [hsame])

/-- A document is hung where it was found to belong. -/
theorem Linked.attach {s : Store} (h : s.Linked) {resolver : Resolver} {doc : Document} {p : Placement}
    (hplace : s.locate resolver doc.id doc.url = .ok (some p)) (hadded : pathRule.added s doc p) :
    ∃ s', Store.attach p s = .ok () s' ∧ s'.Linked := by
  obtain ⟨hlength, hdistinct, hinPlace⟩ := hadded
  obtain ⟨_, _, _, _, hid, _⟩ := locate_spec hplace
  have hp := placeable_of_locate h.readable hplace hlength hdistinct rfl (.inl rfl)
  have hold : ¬ s.HasEntry p.id ∨ p.id = 0 ∨ s.HangsFrom p.id p.parent := by
    by_cases hentry : s.HasEntry p.id
    · obtain ⟨e, he⟩ := hentry
      rw [hangsFrom_iff he]
      exact .inr (.inr (hinPlace e (hid ▸ he)).symm)
    · exact .inl hentry
  obtain ⟨s', hattach, h'⟩ := (linked_iff.mp h).attach hp hold
  rw [ite_self] at h'
  exact ⟨s', hattach, linked_iff.mpr h'⟩

/-- Every kind of step keeps the maps of the tree in agreement. -/
theorem Linked.step {resolver : Resolver} {d d' : Draft} (hstep : Draft.Step resolver pathRule d d')
    (h : d.store.Linked) : d'.store.Linked := by
  cases hstep with
  | records hsame => exact h.of_sameButRecords hsame
  | attach hplace hadded hattach =>
    obtain ⟨s', hattach', h'⟩ := h.attach hplace hadded
    cases hattach.symm.trans hattach'
    exact h'
  | change hplan hmoved hchange =>
    obtain ⟨p, hplace, _⟩ := Draft.planPath_spec hplan
    obtain ⟨s', hchange', h'⟩ := h.changePath hplan (hmoved p hplace).1 fun p hplace => (hmoved p hplace).2
    cases hchange.symm.trans hchange'
    exact h'
  | @unlink prune id _ _ hunlink =>
    obtain ⟨b, s', hunlink', h'⟩ := h.unlink prune id
    cases hunlink.symm.trans hunlink'
    exact h'
  | @fill doc selected dropped =>
    have hframe := Draft.sameButTerms_withFields doc selected Field.all (d.enqueueRemovals doc.id dropped)
    rw [Draft.enqueueRemovals_store] at hframe
    exact h.of_sameButTerms hframe
  | clear id => exact h.of_sameButTerms (Draft.sameButTerms_withoutFields id Field.all d)

end Store

/-- In every store of a run, committed or open, the children and the entries of the tree agree, every id that has
something below it is the root or has an entry, names can stand in a path, and the id 0 is nowhere in the tree. -/
theorem Session.linked_afterAt (resolver : Resolver) (moments : List Moment)
    (h : ({ resolver } : Session).ObeysAt pathRule.Allows moments) :
    let s := ({ resolver } : Session).afterAt moments
    ∀ store, (store = s.committed ∨ ∃ d, s.draft = some d ∧ store = d.store) →
      store.Linked ∧ ∀ parent, ¬ store.ListsBelow parent 0 := by
  intro s store hstore
  obtain ⟨hcommitted, hdraft⟩ := keep_afterAt (P := fun d => d.store.Linked) Linked.step
    (fun hd _ hcommit => hd.of_sameButLists (Draft.sameButLists_commit hcommit)) linked_empty h
  have hlinked : store.Linked := by
    rcases hstore with rfl | ⟨d, hd, rfl⟩
    · exact hcommitted.1
    · exact (hdraft d hd).1
  exact ⟨hlinked, fun parent hzero => ((hlinked.lists_iff parent 0).mp hzero).ne_zero rfl⟩

/-- A document moves from one folder to another that was not known when it was added, and is removed. -/
theorem Session.linked_afterAt_move :
    let old : Document := { id := 7, url := [0x2F, 0x61, 0x2F, 0x62] }
    let new : Document := { id := 7, url := [0x2F, 0x63, 0x2F, 0x62] }
    let moments : List Moment := [⟨fun _ => 0, .beginWrite⟩, ⟨fun _ => 5, .write (.add old)⟩,
      ⟨fun _ => 6, .write (.replace new { url := true })⟩, ⟨fun _ => 0, .write (.remove 7)⟩, ⟨fun _ => 0, .commit⟩]
    let start : Session := { resolver := .nowhere }
    start.ObeysAt pathRule.Allows moments ∧ (start.afterAt moments).committed.Linked := by
  intro old new moments start
  -- one folder is missing at most
  have hfolders : ∀ (name : Bytes) {s : Store} {folder : DocId} {p : Placement} {url : Bytes}, folder ≠ 7 →
      Path.parse url = .ok [[0x62], name] → s.locate (fun _ => folder) 7 url = .ok (some p) →
      (p.id :: p.missing.map (·.1)).Nodup := by
    intro name s folder p url hne hparse hplace
    obtain ⟨_, _, _, hparse', hid, _, hmissing⟩ := locate_spec hplace
    cases hparse.symm.trans hparse'
    simp only [missingFolders, maxDepth] at hmissing
    split at hmissing
    · cases hmissing
    · split at hmissing
      · simp only [Except.ok.injEq, Option.some.injEq, Prod.mk.injEq] at hmissing
        simp [← hmissing.2]
      · simp only [bind, Except.bind, pure, Except.pure, Option.map_some, Except.ok.injEq, Option.some.injEq,
          Prod.mk.injEq] at hmissing
        simp [← hmissing.2, hid, Ne.symm hne]
  have hobeys : start.ObeysAt pathRule.Allows moments := by
    refine ⟨fun op d hop => ?_, fun op d hop hd => ?_, fun op d hop _ => ?_, fun op d hop _ => ?_, fun op d hop => ?_,
      trivial⟩
    · cases hop
    · cases hop
      cases hd
      refine ⟨trivial, fun p hplace => ⟨by decide, hfolders [0x61] (by decide) (by decide) hplace, fun e he => ?_⟩⟩
      cases he
    · cases hop
      exact ⟨trivial, fun _ p hplace => ⟨by decide, hfolders [0x63] (by decide) (by decide) hplace⟩⟩
    · cases hop
      trivial
    · cases hop
  exact ⟨hobeys, (linked_afterAt .nowhere moments hobeys _ (.inl rfl)).1⟩

end FileIndex
