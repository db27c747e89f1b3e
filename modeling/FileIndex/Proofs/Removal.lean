import FileIndex.FileId
import FileIndex.Proofs.Draft.Changes
import FileIndex.Proofs.Hierarchy
import FileIndex.Proofs.ModificationTimes
import FileIndex.Proofs.Transactions
import FileIndex.Proofs.Tree.Pruning

/-!
# What is left of a removed document

The terms of a document tell in which lists it is, and its times tell where it is entered by modification time. Removing
it follows both, so that nothing is left of it if they tell the truth; whatever is stored of other documents stays.

* `Store.Forgets`, `Store.Spares`: nothing is stored of a document; the same is stored of it as before.
* `Store.Stripped`, `Store.Erased`: the records, and the lists with them, without those of a document. `Erased.forgets`,
  `Erased.spares`: what that means for the document and for all others.
* `Session.within_afterAt`: in every store of a run only listed documents have positions.
* `Draft.remove_stripped`: what removing makes of the records and the tree. `Draft.listsOf_removed`: where terms
  and lists agree, each list loses the document.
* `Store.Orderly`: a store in which terms and lists agree and the tree can be followed. `Session.orderly_afterAt`: a run
  stores such a one if these two hold. `Orderly.remove`: to remove a document leaves such a one without the document.
* `Session.agree_of_added`: where documents are only added, terms and lists agree.
* `Session.forgets_removed`: so nothing is left of the document, and nothing else goes but folders left behind.
-/

namespace FileIndex

open Store OccurrenceList

namespace Store

/-! ### Nothing, or the same -/

/-- The document is in no list, and has no records. -/
structure Forgets (s : Store) (id : DocId) : Prop where
  listed : ∀ t, id ∉ s.idsWith t
  placed : ∀ t, ∀ o ∈ s.occurrencesOf t, o.id ≠ id
  terms : ∀ field, s.hasTerms field id = false
  times : s.hasDocument id = false
  modified : ∀ time, s.modified.find? (modifiedKey time id) = none
  payload : s.hasPayload id = false
  contentPending : s.contentPending.find? (DocId.toKey id) = none
  failed : s.failed.find? (DocId.toKey id) = none

/-- The document is in the same lists with the same positions, and has the same records. -/
structure Spares (id : DocId) (s s' : Store) : Prop where
  listed : ∀ t, id ∈ s'.idsWith t ↔ id ∈ s.idsWith t
  placed : ∀ t o, o.id = id → (o ∈ s'.occurrencesOf t ↔ o ∈ s.occurrencesOf t)
  terms : ∀ field, (s'.termTable field).find? (DocId.toKey id) = (s.termTable field).find? (DocId.toKey id)
  times : s'.times.find? (DocId.toKey id) = s.times.find? (DocId.toKey id)
  modified : ∀ time, s'.modified.find? (modifiedKey time id) = s.modified.find? (modifiedKey time id)
  payload : s'.payloads.find? (DocId.toKey id) = s.payloads.find? (DocId.toKey id)
  contentPending : s'.contentPending.find? (DocId.toKey id) = s.contentPending.find? (DocId.toKey id)
  failed : s'.failed.find? (DocId.toKey id) = s.failed.find? (DocId.toKey id)

variable {s s' s'' : Store} {id other : DocId}

theorem Spares.refl (id : DocId) (s : Store) : Spares id s s :=
  ⟨fun _ => .rfl, fun _ _ _ => .rfl, fun _ => rfl, rfl, fun _ => rfl, rfl, rfl, rfl⟩

theorem Spares.trans (h : Spares id s s') (h' : Spares id s' s'') : Spares id s s'' where
  listed t := (h'.listed t).trans (h.listed t)
  placed t o ho := (h'.placed t o ho).trans (h.placed t o ho)
  terms field := (h'.terms field).trans (h.terms field)
  times := h'.times.trans h.times
  modified time := (h'.modified time).trans (h.modified time)
  payload := h'.payload.trans h.payload
  contentPending := h'.contentPending.trans h.contentPending
  failed := h'.failed.trans h.failed

theorem Spares.forgets (h : Spares id s s') (hforgets : s.Forgets id) : s'.Forgets id where
  listed t := mt (h.listed t).mp (hforgets.listed t)
  placed t o ho heq := hforgets.placed t o ((h.placed t o heq).mp ho) heq
  terms field := by
    rw [hasTerms, ByteMap.contains, h.terms]
    exact hforgets.terms field
  times := by
    rw [hasDocument, ByteMap.contains, h.times]
    exact hforgets.times
  modified time := (h.modified time).trans (hforgets.modified time)
  payload := by
    rw [hasPayload, ByteMap.contains, h.payload]
    exact hforgets.payload
  contentPending := h.contentPending.trans hforgets.contentPending
  failed := h.failed.trans hforgets.failed

theorem Spares.hasDocument (h : Spares id s s') : s'.hasDocument id = s.hasDocument id := by
  rw [Store.hasDocument, Store.hasDocument, ByteMap.contains, ByteMap.contains, h.times]

/-! ### Without a document -/

/-- The records are those of before without those of the document. -/
structure Stripped (id : DocId) (s s' : Store) : Prop where
  terms : ∀ field, s'.termTable field = (s.termTable field).erase (DocId.toKey id)
  times : s'.times = s.times.erase (DocId.toKey id)
  modified : ∃ time?, s.timeOf? id = .ok time? ∧ s'.modified = (s.withoutModified id time?).modified
  payloads : s'.payloads = s.payloads.erase (DocId.toKey id)
  contentPending : s'.contentPending = s.contentPending.erase (DocId.toKey id)
  failed : s'.failed = s.failed.erase (DocId.toKey id)

/-- The lists and the records are those of before without what was there of the document. -/
structure Erased (id : DocId) (s s' : Store) : Prop where
  lists : ∀ t, (s'.idsWith t, s'.occurrencesOf t) = Draft.applyChange (s.idsWith t, s.occurrencesOf t) (.remove id)
  records : Stripped id s s'

theorem Stripped.congr (h : Stripped id s s') (hsame : SameButLists s' s'') : Stripped id s s'' := by
  refine ⟨fun field => (hsame.termTable field).trans (h.terms field), ?_, ?_, ?_, ?_, ?_⟩
  all_goals rw [hsame]
  · exact h.times
  · exact h.modified
  · exact h.payloads
  · exact h.contentPending
  · exact h.failed

theorem find?_erase_toKey (t : Table) (hother : other ≠ id) :
    (t.erase (DocId.toKey id)).find? (DocId.toKey other) = t.find? (DocId.toKey other) := by
  rw [ByteMap.find?_erase, if_neg (mt DocId.toKey_inj.mp hother)]

theorem Stripped.hasTerm_iff (h : Stripped id s s') {t : Bytes} :
    s'.HasTerm other t ↔ other ≠ id ∧ s.HasTerm other t := by
  unfold HasTerm termsOf
  simp only [h.terms]
  by_cases hother : other = id
  · simp [hother]
  · simp only [find?_erase_toKey _ hother, hother, ne_eq, not_false_eq_true, true_and]

theorem Erased.idsWith (h : Erased id s s') (t : Bytes) : s'.idsWith t = (s.idsWith t).erase id :=
  congrArg (·.1) (h.lists t)

theorem Erased.occurrencesOf (h : Erased id s s') (t : Bytes) :
    s'.occurrencesOf t = (s.occurrencesOf t).filter (·.id != id) :=
  congrArg (·.2) (h.lists t)

/-- Nothing is left of the document, if it was in each list once and was entered where its times say. -/
theorem Erased.forgets (h : Erased id s s') (hnodup : ∀ t, (s.idsWith t).Nodup) (hdated : s.Dated) : s'.Forgets id := by
  have hgone : ∀ t : Table, (t.erase (DocId.toKey id)).find? (DocId.toKey id) = none := by simp
  refine ⟨fun t hid => ?_, fun t o ho => ?_, fun field => ?_, ?_, fun time => ?_, ?_, ?_, ?_⟩
  · rw [h.idsWith] at hid
    exact ((hnodup t).mem_erase_iff.mp hid).1 rfl
  · rw [h.occurrencesOf] at ho
    simpa using (List.mem_filter.mp ho).2
  · rw [hasTerms, ByteMap.contains, h.records.terms, hgone]
    rfl
  · rw [hasDocument, ByteMap.contains, h.records.times, hgone]
    rfl
  · obtain ⟨time?, htime, hmodified⟩ := h.records.modified
    rw [hmodified]
    cases hfind : (s.withoutModified id time?).modified.find? (modifiedKey time id) with
    | none => rfl
    | some value =>
      obtain ⟨_, other, _, hother, _, hkey⟩ := (hdated.withoutModified htime _ _).mp hfind
      exact absurd (modifiedKey_inj.mp hkey).2.symm hother
  · rw [hasPayload, ByteMap.contains, h.records.payloads, hgone]
    rfl
  · rw [h.records.contentPending, hgone]
  · rw [h.records.failed, hgone]

/-- Whatever is stored of another document is still there, and nothing more. -/
theorem Erased.spares (h : Erased id s s') (hother : other ≠ id) : Spares other s s' := by
  have hkept : ∀ t : Table, (t.erase (DocId.toKey id)).find? (DocId.toKey other) = t.find? (DocId.toKey other) :=
    fun t => find?_erase_toKey t hother
  refine ⟨fun t => ?_, fun t o ho => ?_, fun field => ?_, ?_, fun time => ?_, ?_, ?_, ?_⟩
  · rw [h.idsWith, List.mem_erase_of_ne hother]
  · rw [h.occurrencesOf, List.mem_filter, ho]
    simp [hother]
  · rw [h.records.terms, hkept]
  · rw [h.records.times, hkept]
  · obtain ⟨time?, _, hmodified⟩ := h.records.modified
    rw [hmodified]
    cases time? with
    | none => rfl
    | some info =>
      show (s.modified.erase (modifiedKey info.modified id)).find? (modifiedKey time other) = _
      rw [ByteMap.find?_erase, if_neg fun hkey => hother (modifiedKey_inj.mp hkey).2]
  · rw [h.records.payloads, hkept]
  · rw [h.records.contentPending, hkept]
  · rw [h.records.failed, hkept]

end Store

/-! ### Documents that have positions -/

/-- In every store of a run only listed documents have positions. -/
theorem Session.within_afterAt {resolver : Resolver} {moments : List Moment}
    (h : ({ resolver } : Session).ObeysAt sizedRule.Allows moments) (t : Bytes) :
    let s := (({ resolver } : Session).afterAt moments).committed
    ∀ o ∈ s.occurrencesOf t, o.id ∈ s.idsWith t := by
  intro s
  have hlasting := (lasting_ordered fun ps => (level_ofList ps).1).and Draft.lasting_within
  have hterms : ∀ doc, sizedRule.fit doc → ∀ field, Storable (doc.terms field).keys :=
    fun doc hdoc field => (hdoc field).1
  have hlisted := (keep_afterAt
    (P := Draft.Listed fun lists => Ordered Counted lists.2 ∧ ∀ o ∈ lists.2, o.id ∈ lists.1)
    (Draft.Listed.step hlasting hterms fun doc hdoc hid field t positions hfind =>
      ⟨⟨hid, (hdoc field).2 t positions hfind⟩, trivial⟩)
    (fun hd _ hcommit => hd.commit (fun ids os hlists => ?_) hcommit) (Draft.listed_empty ⟨.nil, nofun⟩) h).1.1
  · exact (hlisted.lists t).2
  · -- what cannot be read back leaves no positions at all
    obtain ⟨hordered, hwithin⟩ := hlists
    obtain ⟨_, hread⟩ | hread := hordered.read_encode
    · rw [hread]
      exact ⟨hordered, hwithin⟩
    · rw [hread]
      exact ⟨.nil, nofun⟩

/-! ### Removing -/

namespace Draft

variable {s : Store} {id : DocId}

/-- Where terms and lists agree, each list loses the document. -/
theorem listsOf_removed (hagree : ∀ t id, id ∈ s.idsWith t ↔ s.HasTerm id t)
    (hwithin : ∀ t, ∀ o ∈ s.occurrencesOf t, o.id ∈ s.idsWith t) (hascend : ({ store := s } : Draft).IdsAscend)
    (t : Bytes) : (withoutFields id Field.all { store := s }).listsOf t =
      applyChange (s.idsWith t, s.occurrencesOf t) (.remove id) := by
  rw [listsOf_withoutFields Field.nodup_all hascend]
  by_cases hterm : ∃ field ∈ Field.all, t ∈ s.termsOf field id
  · rw [if_pos hterm]
    rfl
  · rw [if_neg hterm]
    -- without the term the document is in none of its lists
    have hid : id ∉ s.idsWith t := by
      intro hid
      obtain ⟨field, ht⟩ := (hagree t id).mp hid
      exact hterm ⟨field, Field.mem_all field, ht⟩
    refine (applyChange_remove_of_absent hid fun o ho heq => hid ?_).symm
    exact heq ▸ hwithin t o ho

/-- Removing a document takes its records away and unlinks its path; its lists are left to the commit. -/
theorem remove_stripped (hid : id ≠ 0) (hreadable : s.Readable) (hlinked : s.Linked) (hshallow : s.Shallow) :
    ∃ d, remove id { store := s } = .ok () d ∧
      (∀ t, d.listsOf t = (withoutFields id Field.all { store := s }).listsOf t) ∧ Stripped id s d.store ∧
        Unlinked id s d.store ∧ d.store.Linked ∧ d.store.Shallow := by
  obtain ⟨b, s₁, time?, htime, hunlink, _, hsame, hremove⟩ := remove_eq (d := { store := s }) hid hreadable
  have hterms : SameButTerms s (withoutFields id Field.all { store := s }).store := sameButTerms_withoutFields ..
  have houtline := hterms.sameOutline
  have hrecords := sameButRecords_withoutRecords s₁ id time?
  have hindex := hsame.sameIndex.trans hrecords.sameIndex
  have hprune : (fun folder => !s.hasDocument folder) =
      fun folder => !(withoutFields id Field.all { store := s }).store.hasDocument folder := by
    funext folder
    rw [hasDocument_congr houtline.times]
  rw [hprune] at hunlink
  obtain ⟨hunlinked, hlinked', hshallow'⟩ :=
    (hlinked.of_sameButTerms hterms).unlinked (hshallow.congr houtline.pathEntries) hunlink
  refine ⟨_, hremove, listsOf_congr rfl hindex.postings hindex.occurrences,
    ⟨fun field => ?_, ?_, ⟨time?, htime, ?_⟩, ?_, ?_, ?_⟩,
    hunlinked.congr houtline.children.symm houtline.pathEntries.symm houtline.times.symm ?_ ?_,
    hlinked'.of_sameButRecords hrecords, hshallow'.congr ?_⟩
  · refine (hindex.termTable field).trans (ByteMap.ext_find? fun key => ?_)
    rw [find?_withoutFields, ByteMap.find?_erase]
    simp only [Field.mem_all, true_and]
  · rw [times_withoutRecords, hsame, hterms]
  · have hmodified : s₁.modified = s.modified := by rw [hsame, hterms]
    rw [modified_withoutRecords, modified_withoutModified_congr hmodified]
  · rw [payloads_withoutRecords, hsame, hterms]
  · rw [contentPending_withoutRecords, hsame, hterms]
  · rw [failed_withoutRecords, hsame, hterms]
  all_goals rw [hrecords]

end Draft

/-! ### Stores in order -/

/-- Terms and lists agree, only listed documents have positions, times are entered as they are, and the two maps of the
tree agree, with ways up that can be followed. What is stored can be read, and changes of it can be committed. -/
structure Store.Orderly (s : Store) : Prop where
  ready : ({ store := s } : Draft).Ready
  readable : s.Readable
  agree : ∀ t id, id ∈ s.idsWith t ↔ s.HasTerm id t
  within : ∀ t, ∀ o ∈ s.occurrencesOf t, o.id ∈ s.idsWith t
  dated : s.Dated
  linked : s.Linked
  shallow : s.Shallow

theorem Store.Orderly.nodup {s : Store} (h : s.Orderly) (t : Bytes) : (s.idsWith t).Nodup :=
  Draft.nodup_of_ascending (h.ready.listed.ascend t)

/-- A document is removed from a store in order, and this is committed. -/
theorem Store.Orderly.remove {s : Store} (h : s.Orderly) {id : DocId} (hid : id ≠ 0) :
    ∃ d s', Draft.remove id { store := s } = .ok () d ∧ d.Alike { store := s' } ∧ Erased id s s' ∧ Unlinked id s s' ∧
      s'.Orderly := by
  obtain ⟨d, hremove, hlists, hstripped, hunlinked, hlinked, hshallow⟩ :=
    Draft.remove_stripped hid h.readable h.linked h.shallow
  obtain ⟨hdated, hreadable⟩ : d.store.Dated ∧ d.store.Readable := by
    simpa only [hremove, leftBy] using (upkeep_dated .nowhere).removed id { store := s } ⟨h.dated, h.readable⟩
  have hready : d.Ready := by
    have hkeyed : ∀ c ∈ [(⟨.nowhere, .remove id⟩ : Change)], c.Keyed := by
      intro c hc doc hdoc
      rw [List.mem_singleton.mp hc] at hdoc
      cases hdoc
    have hleft := (h.ready.runAll h.readable hkeyed).1
    rwa [Draft.runAll_cons_of_ok (c := ⟨.nowhere, .remove id⟩) hremove] at hleft
  obtain ⟨s', hcommit, halike, hready'⟩ := hready.commit
  have hframe := Draft.sameButLists_commit hcommit
  have hids := (Draft.idsWith_commit hcommit hready.listed.ascend).1
  have hos := (Draft.occurrencesOf_commit hcommit fun t => (hready.listed.lists t).read_encode_of_level).1
  have herased : Erased id s s' := by
    refine ⟨fun t => ?_, hstripped.congr hframe⟩
    rw [hids, hos, ← Draft.listsOf_removed h.agree h.within h.ready.listed.ascend, ← hlists]
  have hmem : ∀ t other, other ∈ s'.idsWith t ↔ other ≠ id ∧ other ∈ s.idsWith t := fun t other => by
    rw [herased.idsWith, (h.nodup t).mem_erase_iff]
  refine ⟨d, s', hremove, halike, herased, hunlinked.congr rfl rfl rfl (by rw [hframe]) (by rw [hframe]),
    hready', hreadable.commit hcommit, fun t other => ?_, fun t o ho => ?_,
    hdated.congr (by rw [hframe]) (by rw [hframe]), hlinked.of_sameButLists hframe, hshallow.congr (by rw [hframe])⟩
  · rw [hmem, herased.records.hasTerm_iff, h.agree]
  · rw [herased.occurrencesOf, List.mem_filter] at ho
    exact (hmem t o.id).mpr ⟨by simpa using ho.2, h.within t o ho.1⟩

namespace Session

open Draft

/-- What a run has stored is in order, if terms and lists agree there, and the maps of the tree do. -/
theorem orderly_afterAt {resolver : Resolver} {moments : List Moment}
    (h : ({ resolver } : Session).ObeysAt sizedRule.Allows moments) :
    let s := (({ resolver } : Session).afterAt moments).committed
    (∀ t id, id ∈ s.idsWith t ↔ s.HasTerm id t) → s.Linked → s.Shallow → s.Orderly := by
  intro s hagree hlinked hshallow
  obtain ⟨hsized, hreadable⟩ := (keep_afterAt Sized.step Sized.commit sized_empty h).1
  exact ⟨hsized.ready, hreadable, hagree, fun t => within_afterAt h t,
    (upkept_afterAt upkeep_dated dated_empty (h.imp fun _ _ _ _ => trivial) s (.inl rfl)).1, hlinked, hshallow⟩

/-- Where documents are only added, terms and lists agree. -/
theorem agree_of_added {resolver : Resolver} {moments : List Moment}
    (h : ∀ m ∈ moments, ∀ op, m.event = .write op → ∃ doc, op = .add doc ∧ doc.Keyed) :
    let start : Session := { resolver }
    let s := (start.afterAt moments).committed
    start.ObeysAt sizedRule.Allows moments ∧ ∀ t id, id ∈ s.idsWith t ↔ ∃ field, t ∈ s.termsOf field id := by
  intro start s
  have hsized : start.ObeysAt sizedRule.Allows moments := .of_changes fun m hm op hop d => by
    obtain ⟨doc, rfl, hdoc⟩ := h m hm op hop
    exact ⟨hdoc.sized, fun _ _ => trivial⟩
  have hallowed : start.ObeysAt (fun _ => Allowed) moments := .of_changes fun m hm op hop d => by
    obtain ⟨doc, rfl, hdoc⟩ := h m hm op hop
    exact fun field => (hdoc.sized field).1
  have hstart : Invariant.Holds (fun s => ({ store := s } : Draft).Sound) Sound start :=
    ⟨sound_empty, fun d hd => nomatch hd⟩
  exact ⟨hsized, (Invariant.afterAt invariant_sound hstart hallowed).1.posted⟩

/-- A run that enters a document and one further down that has a term in common with it. The folder between them is no
document. -/
theorem orderly_below_document :
    let a : Bytes := [0x2F, 0x61]
    let r : Resolver := .listed [(a, 5), (a ++ [0x2F, 0x66], 7), (a ++ [0x2F, 0x66, 0x2F, 0x70], 6)]
    let above : Document := ({ id := 7, url := a ++ [0x2F, 0x66] } : Document).addTerm .fileName [0x78]
    let doc : Document :=
      ({ id := 9, url := a ++ [0x2F, 0x66, 0x2F, 0x70, 0x2F, 0x71] } : Document).addPosition .content [0x78] 3
    let moments : List Moment :=
      [⟨r, .beginWrite⟩, ⟨r, .write (.add above)⟩, ⟨r, .write (.add doc)⟩, ⟨r, .commit⟩]
    let start : Session := { resolver := r }
    let s := start.afterAt moments
    start.ObeysAt sizedRule.Allows moments ∧ s.readOnly = false ∧
      (∀ t id, id ∈ s.committed.idsWith t ↔ ∃ field, t ∈ s.committed.termsOf field id) ∧ s.committed.Linked ∧
      s.committed.Shallow := by
  intro a r above doc moments start s
  have habove : above.Keyed := (Document.Keyed.plain 7 _ _ _ _).addTerm .fileName (by decide)
  have hdoc : doc.Keyed := (Document.Keyed.plain 9 _ _ _ _).addPosition .content 3 (by decide)
  have hadded : ∀ m ∈ moments, ∀ op, m.event = .write op → ∃ doc, op = .add doc ∧ doc.Keyed := by
    intro m hm op hop
    simp only [moments, List.mem_cons, List.not_mem_nil, or_false] at hm
    obtain rfl | rfl | rfl | rfl := hm
    · cases hop
    · cases hop
      exact ⟨above, rfl, habove⟩
    · cases hop
      exact ⟨doc, rfl, hdoc⟩
    · cases hop
  obtain ⟨hsized, hagree⟩ := agree_of_added hadded
  have hpaths : start.ObeysAt pathRule.Allows moments := by
    refine ⟨fun op d hop => ?_, fun op d hop hd => ?_, fun op d hop hd => ?_, fun op d hop => ?_, trivial⟩
    · cases hop
    · cases hop
      cases hd
      refine ⟨trivial, fun p hp => ?_⟩
      cases hp.symm.trans (by decide +kernel : _ = .ok (some ⟨7, [0x66], 0, [(5, [0x61])]⟩))
      refine ⟨by decide, by decide, fun e he => ?_⟩
      cases he
    · cases hop
      have hplace := eq_of_draft hd (·.store.locate r doc.id doc.url) (.ok (some ⟨9, [0x71], 7, [(6, [0x70])]⟩))
        (by decide +kernel)
      have hnew := eq_of_draft hd (·.store.pathEntryOf? 9) (.ok none) (by decide +kernel)
      refine ⟨trivial, fun p hp => ?_⟩
      cases hp.symm.trans hplace
      refine ⟨by decide, by decide, fun e he => ?_⟩
      cases hnew.symm.trans he
    · cases hop
  have hlinked : s.committed.Linked := (keep_afterAt (P := fun d => d.store.Linked) Linked.step
    (fun hd _ hcommit => hd.of_sameButLists (sameButLists_commit hcommit)) linked_empty hpaths).1.1
  have hshallow : s.committed.Shallow := by
    have hkeys : s.committed.pathEntries.keys = [5, 6, 7, 9].map DocId.toKey := by decide +kernel
    have hfive : s.committed.pathEntryOf? 5 = .ok (some ⟨0, [0x61]⟩) := by decide +kernel
    have hseven : s.committed.pathEntryOf? 7 = .ok (some ⟨5, [0x66]⟩) := by decide +kernel
    have hsix : s.committed.pathEntryOf? 6 = .ok (some ⟨7, [0x70]⟩) := by decide +kernel
    have hnine : s.committed.pathEntryOf? 9 = .ok (some ⟨6, [0x71]⟩) := by decide +kernel
    have hway : s.committed.WayUp 6 [6, 7, 5] := .up ⟨_, hsix⟩ (.up ⟨_, hseven⟩ (.up ⟨_, hfive⟩ .root))
    apply shallow_of_keys hkeys
    intro id hid
    simp only [List.mem_cons, List.not_mem_nil, or_false] at hid
    obtain rfl | rfl | rfl | rfl := hid
    · exact ⟨[5], .up ⟨_, hfive⟩ .root, by decide⟩
    · exact ⟨_, hway, by decide⟩
    · exact ⟨[7, 5], .up ⟨_, hseven⟩ (.up ⟨_, hfive⟩ .root), by decide⟩
    · exact ⟨_, .up ⟨_, hnine⟩ hway, by decide⟩
  exact ⟨hsized, by decide +kernel, hagree, hlinked, hshallow⟩

/-- In a store of a run let terms and documents agree, let the maps of the tree agree, and let every way up be short
enough to be followed. A document that is removed there in a transaction of its own is in no list and has no records
afterwards. Its entry in the tree is gone unless something is below it. For every other id everything is as it was, but
folders above the document that are no documents go with it when they are left with nothing below them. -/
theorem forgets_removed (resolver : Resolver) (moments : List Moment)
    (h : ({ resolver } : Session).ObeysAt sizedRule.Allows moments) :
    let s := ({ resolver } : Session).afterAt moments
    s.readOnly = false → (∀ t id, id ∈ s.committed.idsWith t ↔ ∃ field, t ∈ s.committed.termsOf field id) →
      s.committed.Linked → s.committed.Shallow → ∀ (r : Resolver) (id : DocId), id ≠ 0 →
        ∃ t, s.transact [⟨r, .remove id⟩] = .ok ([.ok ()], t) ∧ t.committed.Forgets id ∧
          (∀ other, other ≠ id → Spares other s.committed t.committed) ∧ Unlinked id s.committed t.committed := by
  intro s hwritable hagree hlinked hshallow r id hid
  have horderly : s.committed.Orderly := orderly_afterAt h hagree hlinked hshallow
  obtain ⟨d, store, hremove, halike, herased, hunlinked, _⟩ := horderly.remove hid
  obtain ⟨t, htransact, rfl⟩ := transact_of_run (c := ⟨r, .remove id⟩) hwritable horderly.ready horderly.readable
    (fun doc hdoc => by cases hdoc) hremove halike
  exact ⟨t, htransact, herased.forgets horderly.nodup horderly.dated, fun other hother => herased.spares hother,
    hunlinked⟩

/-- A document is removed that has a term in common with one further up. The folder between them is no document and goes
with it; the one further up stays. -/
theorem forgets_removed_below_document :
    let a : Bytes := [0x2F, 0x61]
    let r : Resolver := .listed [(a, 5), (a ++ [0x2F, 0x66], 7), (a ++ [0x2F, 0x66, 0x2F, 0x70], 6)]
    let above : Document := ({ id := 7, url := a ++ [0x2F, 0x66] } : Document).addTerm .fileName [0x78]
    let doc : Document :=
      ({ id := 9, url := a ++ [0x2F, 0x66, 0x2F, 0x70, 0x2F, 0x71] } : Document).addPosition .content [0x78] 3
    let moments : List Moment :=
      [⟨r, .beginWrite⟩, ⟨r, .write (.add above)⟩, ⟨r, .write (.add doc)⟩, ⟨r, .commit⟩]
    let start : Session := { resolver := r }
    let s := start.afterAt moments
    (start.ObeysAt sizedRule.Allows moments ∧ s.readOnly = false ∧
      (∀ t id, id ∈ s.committed.idsWith t ↔ ∃ field, t ∈ s.committed.termsOf field id) ∧ s.committed.Linked ∧
      s.committed.Shallow) ∧
      ∃ t, s.transact [⟨r, .remove 9⟩] = .ok ([.ok ()], t) ∧ t.committed.Forgets 9 ∧
        (∀ other, other ≠ 9 → Spares other s.committed t.committed) ∧ Unlinked 9 s.committed t.committed ∧
          t.committed.pathEntryOf? 6 = .ok none ∧ t.committed.pathEntryOf? 7 = s.committed.pathEntryOf? 7 := by
  intro a r above doc moments start s
  obtain ⟨hsized, hwritable, hagree, hlinked, hshallow⟩ := orderly_below_document
  obtain ⟨t, htransact, hforgets, hspares, hunlinked⟩ :=
    forgets_removed r moments hsized hwritable hagree hlinked hshallow r 9 (by decide)
  have hfolder : (s.transact [⟨r, .remove 9⟩]).toOption.map (·.2.committed.pathEntryOf? 6) = some (.ok none) := by
    decide +kernel
  rw [htransact] at hfolder
  have hdocument : s.committed.hasDocument 7 = true := by decide +kernel
  have hstays : ¬ Deserted s.committed t.committed 9 7 := by
    intro hdeserted
    rw [hdeserted.noDocument] at hdocument
    cases hdocument
  exact ⟨⟨hsized, hwritable, hagree, hlinked, hshallow⟩, t, htransact, hforgets, hspares, hunlinked,
    Option.some.inj hfolder, hunlinked.others 7 (by decide) hstays⟩

end Session

end FileIndex
