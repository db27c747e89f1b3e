import FileIndex.Proofs.Draft.Steps

/-!
# What changes do to the tree and the times

The tree of paths and the times of documents are changed by a few steps only. A property of the two that these steps
keep holds throughout a run, whatever becomes of the terms.

* `Store.SameOutline`: the tree, the times and what is entered by modification time are the same.
* `Upkeep`: what has to be shown of a property of stores: it sees only these tables, and is kept when a path is hung and
  times are written, when a path is unlinked and the times go, and when a path is changed and times are rewritten.
* `Upkeep.run`: then every change keeps it. `Session.upkept_afterAt`: so it holds in every store of a run.
-/

namespace FileIndex

namespace Store

/-- The tree, the times and what is entered by modification time are the same. -/
structure SameOutline (s s' : Store) : Prop where
  children : s'.children = s.children
  pathEntries : s'.pathEntries = s.pathEntries
  times : s'.times = s.times
  modified : s'.modified = s.modified

variable {s s' : Store}

theorem SameButTerms.sameOutline (h : SameButTerms s s') : SameOutline s s' :=
  ⟨by rw [h], by rw [h], by rw [h], by rw [h]⟩

theorem SameButLists.sameOutline (h : SameButLists s s') : SameOutline s s' :=
  ⟨by rw [h], by rw [h], by rw [h], by rw [h]⟩

theorem SameButMarks.sameOutline (h : SameButMarks s s') : SameOutline s s' :=
  ⟨by rw [h], by rw [h], by rw [h], by rw [h]⟩

theorem SameOutline.readable (h : SameOutline s s') (hs : s.Readable) : s'.Readable := by
  refine ⟨hs.tree.congr h.children h.pathEntries, fun id => ?_⟩
  rw [timeOf?_congr h.times]
  exact hs.times id

theorem modified_rewritten (s : Store) (doc : Document) (parts : Parts) (time? : Option TimeInfo) :
    (s.rewritten doc parts time?).modified =
      if parts.time then (s.withoutModified doc.id time?).modified.insert (modifiedKey doc.time.modified doc.id) []
      else s.modified := by
  unfold rewritten
  cases parts.time <;> cases parts.payload <;> simp [withTime]

end Store

open Store

namespace Draft

/-- Changes leave a store that can be read. -/
theorem readable_run {resolver : Resolver} {d : Draft} (hd : d.store.Readable) (op : WriteOp) :
    (leftBy (run resolver op d)).store.Readable := by
  have hallowed : Rule.Allows {} resolver d op := by cases op <;> simp [Rule.Allows]
  exact (run_steps hd hallowed).2

/-- What an added document leaves of the tree and the times. -/
theorem sameOutline_entered (doc : Document) (d : Draft) :
    SameOutline (d.store.withTime doc.id doc.time) (entered doc d).store := by
  have hterms := sameButTerms_withFields doc (fun field => !(doc.terms field).isEmpty) Field.all
    { d with store := d.store.withTime doc.id doc.time }
  have hrecords := sameButRecords_entered doc d
  refine ⟨?_, ?_, times_entered doc d, modified_entered doc d⟩
  · rw [hrecords, hterms]
  · rw [hrecords, hterms]

end Draft

/-- What has to be shown of a property of the tree and the times for changes to keep it. A change that the rule allows
starts from stores of which more may be known, as long as removing a document keeps that as well: the documents of a
subtree are removed one after the other. -/
structure Upkeep (resolver : Resolver) (rule : Store → WriteOp → Prop) (before after : Store → Prop) : Prop where
  start : ∀ {s op}, after s → rule s op → before s
  weaken : ∀ {s}, before s → after s
  congr_before : ∀ {s s'}, SameOutline s s' → before s → before s'
  congr_after : ∀ {s s'}, SameOutline s s' → after s → after s'
  congr_rule : ∀ {s s' op}, SameOutline s s' → rule s op → rule s' op
  rename : ∀ {s doc}, rule s (.rename doc) → rule s (.replace doc .rename)
  add : ∀ {s s₁ : Store} {doc : Document} {p : Placement}, before s → s.Readable → rule s (.add doc) →
    s.hasDocument doc.id = false → s.locate resolver doc.id doc.url = .ok (some p) → attach p s = .ok () s₁ →
    SameButTree s s₁ → after (s₁.withTime doc.id doc.time)
  remove : ∀ {s s₁ : Store} {id : DocId} {b : Bool} {time? : Option TimeInfo}, before s → s.Readable → id ≠ 0 →
    s.timeOf? id = .ok time? → unlink (fun folder => !s.hasDocument folder) id s = .ok b s₁ → SameButTree s s₁ →
    before (s₁.withoutRecords id time?)
  replace : ∀ {s s₁ : Store} {doc : Document} {parts : Parts} {time? : Option TimeInfo}, before s → s.Readable →
    rule s (.replace doc parts) → doc.id ≠ 0 → s.timeOf? doc.id = .ok time? → SameButTree s s₁ →
    (parts.url = true → ∃ change, Draft.planPath s resolver doc.id doc.url = .ok change ∧
      Draft.changePath doc.id change s = .ok () s₁) →
    (parts.url = false → s₁ = s) → after (s₁.rewritten doc parts time?)

namespace Upkeep

variable {resolver : Resolver} {rule : Store → WriteOp → Prop} {before after : Store → Prop} {d : Draft}

theorem added (h : Upkeep resolver rule before after) {doc : Document} (hd : before d.store)
    (hreadable : d.store.Readable) (hop : rule d.store (.add doc)) :
    after (leftBy (Draft.add resolver doc d)).store := by
  rcases Draft.add_cases resolver doc hreadable.tree with
    ⟨_, e, hadd⟩ | ⟨_, hnew, p, s, hplace, hattach, _, hsame, hadd⟩
  · rw [hadd]
    exact h.weaken hd
  · rw [hadd, leftBy_ok]
    exact h.congr_after (Draft.sameOutline_entered doc { d with store := s })
      (h.add hd hreadable hop hnew hplace hattach hsame)

/-- Removing one document after the other keeps what may be known before a change. -/
theorem removed (h : Upkeep resolver rule before after) (id : DocId) :
    Keeps (fun d => before d.store ∧ d.store.Readable) (Draft.remove id) := by
  rintro d ⟨hd, hreadable⟩
  have hleft : (leftBy (Draft.run resolver (.remove id) d)).store.Readable := Draft.readable_run hreadable _
  refine ⟨?_, hleft⟩
  by_cases hid : id = 0
  · rw [hid, Draft.remove_zero]
    exact hd
  · obtain ⟨b, s, time?, htime, hunlink, _, hsame, hremove⟩ := Draft.remove_eq hid hreadable
    rw [hremove, leftBy_ok]
    have houtline := (Draft.sameButTerms_withoutFields id Field.all d).sameOutline
    have hprune : (fun folder => !d.store.hasDocument folder) =
        fun folder => !(Draft.withoutFields id Field.all d).store.hasDocument folder := by
      funext folder
      rw [hasDocument_congr houtline.times]
    rw [hprune] at hunlink
    exact h.remove (h.congr_before houtline hd) (houtline.readable hreadable) hid
      ((timeOf?_congr houtline.times id).trans htime) hunlink hsame

theorem replaced (h : Upkeep resolver rule before after) {doc : Document} {parts : Parts} (hd : before d.store)
    (hreadable : d.store.Readable) (hop : rule d.store (.replace doc parts)) :
    after (leftBy (Draft.replace resolver doc parts d)).store := by
  rcases Draft.replace_cases resolver doc parts hreadable with
    ⟨e, hreplace⟩ | ⟨hid, s, time?, htime, _, hsame, hurl, hpath, hreplace⟩
  · rw [hreplace]
    exact h.weaken hd
  · rw [hreplace, leftBy_ok]
    have houtline := (Draft.sameButTerms_refilled doc parts d).sameOutline
    refine h.replace (h.congr_before houtline hd) (houtline.readable hreadable) (h.congr_rule houtline hop) hid
      ((timeOf?_congr houtline.times doc.id).trans htime) hsame (fun hparts => ?_) hpath
    obtain ⟨change, hplan, hchange⟩ := hurl hparts
    exact ⟨change, (planPath_congr houtline.pathEntries resolver doc.id doc.url).trans hplan, hchange⟩

/-- Every allowed change keeps the property, whether it succeeds or fails. -/
theorem run (h : Upkeep resolver rule before after) {op : WriteOp} (hd : after d.store) (hreadable : d.store.Readable)
    (hop : rule d.store op) : after (leftBy (Draft.run resolver op d)).store := by
  have hbefore := h.start hd hop
  have hmark : Draft.Marks op → after (leftBy (Draft.run resolver op d)).store := by
    intro hmarks
    rcases Draft.mark_cases hmarks resolver d with ⟨e, hrun⟩ | ⟨s, hsame, hrun⟩
    · rw [hrun]
      exact hd
    · rw [hrun, leftBy_ok]
      exact h.congr_after hsame.sameOutline hd
  cases op with
  | add doc => exact h.added hbefore hreadable hop
  | remove id => exact h.weaken (h.removed id d ⟨hbefore, hreadable⟩).1
  | removeSubtree id => exact h.weaken (Draft.keeps_removeSubtree h.removed id d ⟨hbefore, hreadable⟩).1
  | replace doc parts => exact h.replaced hbefore hreadable hop
  | rename doc => exact h.replaced hbefore hreadable (h.rename hop)
  | addPending | removePending | addFailed | removeFailed => exact hmark trivial

end Upkeep

/-- What allowed changes keep holds in every store of a run, committed or open. -/
theorem Session.upkept_afterAt {rule : Resolver → Store → WriteOp → Prop} {before after : Store → Prop}
    (h : ∀ resolver, Upkeep resolver (rule resolver) before after) (hempty : after ∅) {resolver : Resolver}
    {moments : List Moment} (hobeys : ({ resolver } : Session).ObeysAt (fun r d op => rule r d.store op) moments) :
    let s := ({ resolver } : Session).afterAt moments
    ∀ store, (store = s.committed ∨ ∃ d, s.draft = some d ∧ store = d.store) → after store ∧ store.Readable := by
  have hinvariant : ∀ resolver, Invariant resolver (fun d op => rule resolver d.store op)
      (fun s => after s ∧ s.Readable) fun d => after d.store ∧ d.store.Readable := fun resolver =>
    { begun := fun _ hs => hs
      changed := fun _ op hd hop => ⟨(h resolver).run hd.1 hd.2 hop, Draft.readable_run hd.2 op⟩
      committed := fun _ _ hd hcommit =>
        ⟨(h resolver).congr_after (Draft.sameButLists_commit hcommit).sameOutline hd.1, hd.2.commit hcommit⟩ }
  have hstart : Invariant.Holds (fun s => after s ∧ s.Readable) (fun d => after d.store ∧ d.store.Readable)
      ({ resolver } : Session) := ⟨⟨hempty, readable_empty⟩, nofun⟩
  obtain ⟨hcommitted, hdraft⟩ := Invariant.afterAt hinvariant hstart hobeys
  rintro s store (rfl | ⟨d, hd, rfl⟩)
  · exact hcommitted
  · exact hdraft d hd

end FileIndex
