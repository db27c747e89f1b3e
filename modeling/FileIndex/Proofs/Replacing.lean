import FileIndex.Proofs.Draft.Changes
import FileIndex.Proofs.Removal

/-!
# Replacing a document as a whole

Replacing every part of a document, and removing it and adding it again, queue different changes and write term sets in
different ways. What is stored in the end is the same but for the tree of paths and the marks.

* `Draft.Replaced`: what replacing parts of a document makes of everything but its path. `replaced_of_ok`:
  replacing does.
* `Draft.Cleared`, `Draft.Entered`: the same for removing and for adding.
* `Replaced.same_of_entered`: both ways leave the same rows and records.
* `Session.ascending_afterAt`: in every store of a run the ids of a term ascend.
* `Session.replaced_eq_readded`: so after every run both ways store the same.
-/

namespace FileIndex

open Store

namespace Draft

/-! ### What becomes of lists and records -/

/-- Parts of a document are replaced, whatever becomes of its path. -/
structure Replaced (doc : Document) (parts : Parts) (d d' : Draft) : Prop where
  queued : ∀ t, Queued t
    (losses doc.id (droppedTerms d.store doc.id parts) t ++ gains doc parts.terms Field.all t) d d'
  terms : ∀ field key, (d'.store.termTable field).find? key =
    if parts.terms field = true ∧ key = DocId.toKey doc.id then stored? TermSet.encode (doc.terms field).keys
    else (d.store.termTable field).find? key
  times : d'.store.times =
    if parts.time then d.store.times.insert (DocId.toKey doc.id) doc.time.encode else d.store.times
  modified : ∃ time?, d.store.timeOf? doc.id = .ok time? ∧ d'.store.modified =
    if parts.time then
      (d.store.withoutModified doc.id time?).modified.insert (modifiedKey doc.time.modified doc.id) []
    else d.store.modified
  payloads : ∀ key, d'.store.payloads.find? key =
    if parts.payload = true ∧ key = DocId.toKey doc.id then stored? (fun bytes => bytes) doc.payload
    else d.store.payloads.find? key
  contentPending : d'.store.contentPending = d.store.contentPending
  failed : d'.store.failed = d.store.failed

/-- The terms and the records of a document are taken away. -/
structure Cleared (id : DocId) (d d' : Draft) : Prop where
  queued : ∀ t, Queued t (losses id (Field.all.flatMap fun field => d.store.termsOf field id) t) d d'
  records : Stripped id d.store d'.store

/-- A document gets its terms and its records, whatever becomes of its path. -/
structure Entered (doc : Document) (d d' : Draft) : Prop where
  queued : ∀ t, Queued t (gains doc (fun field => !(doc.terms field).isEmpty) Field.all t) d d'
  terms : ∀ field key, (d'.store.termTable field).find? key =
    if (doc.terms field).isEmpty = false ∧ key = DocId.toKey doc.id then stored? TermSet.encode (doc.terms field).keys
    else (d.store.termTable field).find? key
  times : d'.store.times = d.store.times.insert (DocId.toKey doc.id) doc.time.encode
  modified : d'.store.modified = d.store.modified.insert (modifiedKey doc.time.modified doc.id) []
  payloads : d'.store.payloads =
    if doc.payload.isEmpty then d.store.payloads else d.store.payloads.insert (DocId.toKey doc.id) doc.payload

variable {resolver : Resolver} {doc : Document} {parts : Parts} {id : DocId} {d d' : Draft}

theorem payloads_rewritten (s : Store) (doc : Document) (parts : Parts) (time? : Option TimeInfo) (key : Bytes) :
    (s.rewritten doc parts time?).payloads.find? key =
      if parts.payload = true ∧ key = DocId.toKey doc.id then stored? (fun bytes => bytes) doc.payload
      else s.payloads.find? key := by
  have htimed : (if parts.time then (s.withoutModified doc.id time?).withTime doc.id doc.time else s).payloads =
      s.payloads := by
    split
    · exact payloads_withoutModified s doc.id time?
    · rfl
  unfold rewritten
  simp only
  cases parts.payload with
  | true =>
    simp only [if_true, true_and]
    rw [find?_withPayload, htimed]
  | false =>
    simp only [Bool.false_eq_true, if_false, false_and]
    rw [htimed]

theorem marks_rewritten (s : Store) (doc : Document) (parts : Parts) (time? : Option TimeInfo) :
    (s.rewritten doc parts time?).contentPending = s.contentPending ∧
    (s.rewritten doc parts time?).failed = s.failed := by
  unfold rewritten withPayload
  cases parts.time <;> cases parts.payload <;> cases doc.payload.isEmpty <;> cases time? <;> exact ⟨rfl, rfl⟩

/-- Replacing parts of a document leaves everything but its path as told. -/
theorem replaced_of_ok (hd : d.store.Readable) (h : replace resolver doc parts d = .ok () d') :
    doc.id ≠ 0 ∧ Replaced doc parts d d' := by
  rcases replace_cases resolver doc parts hd with ⟨e, hreplace⟩ | ⟨hid, s, time?, htime, _, hsame, _, _, hreplace⟩
  · rw [hreplace] at h
    cases h
  rw [hreplace] at h
  cases h
  have hterms := sameButTerms_refilled doc parts d
  have hrecords := sameButRecords_rewritten s doc parts time?
  have hindex := hsame.sameIndex.trans hrecords.sameIndex
  have hmarks := marks_rewritten s doc parts time?
  refine ⟨hid, fun t => ?_, fun field key => ?_, ?_, ⟨time?, htime, ?_⟩, fun key => ?_, ?_, ?_⟩
  · have hqueued := (Queued.removals t doc.id (droppedTerms d.store doc.id parts) d).trans
      (Queued.withFields t doc parts.terms Field.all _)
    exact hqueued.congr rfl hindex.postings hindex.occurrences
  · refine (congrArg (·.find? key) (hindex.termTable field)).trans ?_
    show ((refilled doc parts d).store.termTable field).find? key = _
    rw [refilled, find?_withFields, enqueueRemovals_store]
    simp only [Field.mem_all, true_and]
  · rw [times_rewritten, hsame, hterms]
  · have hmodified : s.modified = d.store.modified := by rw [hsame, hterms]
    rw [modified_rewritten, modified_withoutModified_congr hmodified, hmodified]
  · rw [payloads_rewritten, hsame, hterms]
  · rw [hmarks.1, hsame, hterms]
  · rw [hmarks.2, hsame, hterms]

/-- Removing a document leaves everything but its path as told. -/
theorem cleared_of_ok (hd : d.store.Readable) (h : remove id d = .ok () d') : Cleared id d d' := by
  by_cases hid : id = 0
  · rw [hid, remove_zero] at h
    cases h
  obtain ⟨b, s, time?, htime, _, _, hsame, hremove⟩ := remove_eq hid hd
  rw [hremove] at h
  cases h
  have hterms := sameButTerms_withoutFields id Field.all d
  have hrecords := sameButRecords_withoutRecords s id time?
  have hindex := hsame.sameIndex.trans hrecords.sameIndex
  refine ⟨fun t => (Queued.withoutFields t id Field.nodup_all d).congr rfl hindex.postings hindex.occurrences,
    fun field => ?_, ?_, ⟨time?, htime, ?_⟩, ?_, ?_, ?_⟩
  · refine (hindex.termTable field).trans (ByteMap.ext_find? fun key => ?_)
    rw [find?_withoutFields, ByteMap.find?_erase]
    simp only [Field.mem_all, true_and]
  · rw [times_withoutRecords, hsame, hterms]
  · have hmodified : s.modified = d.store.modified := by rw [hsame, hterms]
    rw [modified_withoutRecords, modified_withoutModified_congr hmodified]
  · rw [payloads_withoutRecords, hsame, hterms]
  · rw [contentPending_withoutRecords, hsame, hterms]
  · rw [failed_withoutRecords, hsame, hterms]

/-- Adding a document leaves everything but its path as told. -/
theorem entered_of_ok (hd : d.store.TreeReadable) (h : add resolver doc d = .ok () d') : Entered doc d d' := by
  rcases add_cases resolver doc hd with ⟨_, e, hadd⟩ | ⟨_, _, p, s, _, _, _, hsame, hadd⟩
  · rw [hadd] at h
    cases h
  rw [hadd] at h
  cases h
  let timed : Draft := { d with store := s.withTime doc.id doc.time }
  have hframe : SameIndex d.store timed.store :=
    hsame.sameIndex.trans (sameButRecords_withTime s doc.id doc.time).sameIndex
  have hrecords := sameButRecords_entered doc { d with store := s }
  refine ⟨fun t => ?_, fun field key => ?_, ?_, ?_, ?_⟩
  · have htimed : Queued t [] d timed := (Queued.refl t d).congr rfl hframe.postings hframe.occurrences
    have hfilled := htimed.trans (.withFields t doc (fun field => !(doc.terms field).isEmpty) Field.all timed)
    exact hfilled.congr rfl hrecords.sameIndex.postings hrecords.sameIndex.occurrences
  · refine (congrArg (·.find? key) (hrecords.sameIndex.termTable field)).trans ?_
    rw [find?_withFields]
    simp only [Field.mem_all, true_and, Bool.not_eq_true', ← hframe.termTable field]
    rfl
  · rw [times_entered, hsame]
  · rw [modified_entered, hsame]
  · rw [payloads_entered, hsame]

/-! ### Both ways -/

/-- A field without terms gives none. -/
theorem gains_of_nonempty (doc : Document) (selected : Field → Bool) (fields : List Field) (t : Bytes) :
    gains doc (fun field => selected field && !(doc.terms field).isEmpty) fields t = gains doc selected fields t := by
  unfold gains
  refine List.flatMap_congr fun field _ => ?_
  cases hempty : (doc.terms field).isEmpty with
  | false => simp [hempty]
  | true =>
    have hentries : (doc.terms field).entries = [] := List.isEmpty_iff.mp hempty
    simp [hentries]

/-- Losing a term, once or several times, and then the same gains leave the same. -/
theorem Queued.same_of_losses {d d₁ d₂ : Draft} {t : Bytes} {id : DocId} {lost lost' : List Bytes}
    {gained : List PostingChange} (hascend : d.IdsAscend) (h : Queued t (losses id lost t ++ gained) d d₁)
    (h' : Queued t (losses id lost' t ++ gained) d d₂) (hlost : t ∈ lost ↔ t ∈ lost') : d₂.rowsOf t = d₁.rowsOf t := by
  have hempty : losses id lost t = [] ↔ losses id lost' t = [] := by
    rw [← List.isEmpty_iff, ← List.isEmpty_iff, losses_isEmpty_iff, losses_isEmpty_iff, hlost]
  have hnodup := nodup_of_ascending (hascend t)
  have hlists : d₂.listsOf t = d₁.listsOf t := by
    rw [h.lists, h'.lists, List.foldl_append, List.foldl_append,
      foldl_losses hnodup fun _ => eq_remove_of_mem_losses, foldl_losses hnodup fun _ => eq_remove_of_mem_losses]
    simp only [List.isEmpty_iff, hempty]
  rw [h.rows, h'.rows]
  simp only [List.isEmpty_iff, List.append_eq_nil_iff, hempty, hlists]

/-- Replacing every part of a document leaves the same rows and records as removing and adding it. -/
theorem Replaced.same_of_entered {d d₁ d₂ d₃ : Draft} (hascend : d.IdsAscend) (h : Replaced doc .everything d d₁)
    (hcleared : Cleared doc.id d d₂) (hentered : Entered doc d₂ d₃) :
    (∀ t, d₃.rowsOf t = d₁.rowsOf t) ∧ (∀ field, d₃.store.termTable field = d₁.store.termTable field) ∧
      d₃.store.times = d₁.store.times ∧ d₃.store.modified = d₁.store.modified ∧
      d₃.store.payloads = d₁.store.payloads := by
  have hselected : ∀ field, Parts.everything.terms field = true := fun field => by cases field <;> rfl
  refine ⟨fun t => ?_, fun field => ByteMap.ext_find? fun key => ?_, ByteMap.ext_find? fun key => ?_, ?_,
    ByteMap.ext_find? fun key => ?_⟩
  · have hgains : gains doc (fun field => !(doc.terms field).isEmpty) Field.all t =
        gains doc Parts.everything.terms Field.all t := by
      rw [← gains_of_nonempty doc Parts.everything.terms]
      simp only [hselected, Bool.true_and]
    have hqueued := (hcleared.queued t).trans (hentered.queued t)
    rw [hgains] at hqueued
    refine (h.queued t).same_of_losses hascend hqueued ?_
    rw [mem_droppedTerms, List.mem_flatMap]
    simp [hselected, HasTerm, Field.mem_all]
  · rw [hentered.terms, h.terms, hcleared.records.terms, ByteMap.find?_erase]
    simp only [hselected, true_and]
    by_cases hkey : key = DocId.toKey doc.id
    · rw [if_pos hkey, if_pos hkey]
      cases hempty : (doc.terms field).isEmpty with
      | false => simp [hkey]
      | true =>
        have hkeys : (doc.terms field).keys = [] := by
          have hentries : (doc.terms field).entries = [] := List.isEmpty_iff.mp hempty
          rw [ByteMap.keys, hentries]
          rfl
        simp [hkeys, stored?]
    · rw [if_neg hkey, if_neg hkey, if_neg fun hboth => hkey hboth.2]
  · rw [hentered.times, h.times, hcleared.records.times]
    simp only [Parts.everything, if_true, ByteMap.find?_insert, ByteMap.find?_erase]
    split <;> simp_all
  · obtain ⟨time?, htime, hmodified⟩ := h.modified
    obtain ⟨time?', htime', hmodified'⟩ := hcleared.records.modified
    cases htime.symm.trans htime'
    rw [hentered.modified, hmodified, hmodified']
    rfl
  · rw [hentered.payloads, h.payloads, hcleared.records.payloads, stored?]
    by_cases hkey : key = DocId.toKey doc.id
    · cases hempty : doc.payload.isEmpty <;> simp [Parts.everything, hkey]
    · cases hempty : doc.payload.isEmpty <;> simp [Parts.everything, hkey]

theorem IdsAscend.step {rule : Rule} (h : d.IdsAscend) (hstep : Step resolver rule d d') : d'.IdsAscend := by
  rcases hstep.cases_index with ⟨hpending, hsame⟩ | ⟨doc, selected, dropped, _, _, _, rfl⟩ | ⟨id, rfl⟩
  · intro t
    rw [listsOf_congr hpending hsame.postings hsame.occurrences]
    exact h t
  · exact lasting_ascending.withFields (h.enqueueRemovals doc.id dropped) fun _ _ _ _ => trivial
  · exact lasting_ascending.withoutFields h id Field.all

end Draft

namespace Session

open Draft

/-- In the open transaction of every run the ids of a term ascend, and the tree and the times can be read. -/
theorem ascending_afterAt (resolver : Resolver) (moments : List Moment) :
    let s := ({ resolver } : Session).afterAt moments
    ∀ d, s.draft = some d → d.IdsAscend ∧ d.store.Readable := by
  have hallows : ∀ m ∈ moments, ∀ op, m.event = .write op → ∀ d, ({} : Rule).Allows m.resolver d op := by
    intro m _ op _ d
    cases op <;> simp [Rule.Allows]
  refine (keep_afterAt (P := IdsAscend) (fun hstep hd => hd.step hstep)
    (fun {d} hd {store} hcommit t => ?_) (fun t => ?_)
    (ObeysAt.of_changes hallows)).2
  · rw [listsOf_fresh, (idsWith_commit hcommit hd).1]
    exact hd t
  · rw [listsOf_empty]
    exact .nil

/-- In the open transaction of any run, whatever it has queued, replacing every part of a document stores the same as
removing and adding it, but for the tree of paths and the marks. -/
theorem replaced_eq_readded (resolver : Resolver) (moments : List Moment) (doc : Document) (r r₁ r₂ : Resolver) :
    let s := ({ resolver } : Session).afterAt moments
    ∀ t u t' u', s.writeAll [⟨r, .replace doc .everything⟩] = ([.ok ()], t) → t.commit = (.ok (), u) →
      s.writeAll [⟨r₁, .remove doc.id⟩, ⟨r₂, .add doc⟩] = ([.ok (), .ok ()], t') → t'.commit = (.ok (), u') →
      ∀ name, name ∉ [.children, .pathEntries, .contentPending, .failed] →
        u'.committed.table name = u.committed.table name := by
  intro s t u t' u' hwrite hcommit hwrite' hcommit' name hname
  obtain ⟨d, d₁, hd, ht, hrun⟩ := runAll_of_writeAll hwrite
  obtain ⟨_, d₃, hd', ht', hrun'⟩ := runAll_of_writeAll hwrite'
  cases hd.symm.trans hd'
  obtain ⟨hascend, hreadable⟩ := ascending_afterAt resolver moments d hd
  obtain ⟨_, hreplace, hend⟩ := runAll_cons_ok hrun
  cases (Prod.mk.inj hend).2
  obtain ⟨d₂, hremove, hrest⟩ := runAll_cons_ok hrun'
  obtain ⟨_, hadd, hend⟩ := runAll_cons_ok hrest
  cases (Prod.mk.inj hend).2
  have hleft : (leftBy (run r₁ (.remove doc.id) d)).store.Readable := readable_run hreadable _
  rw [hremove, leftBy_ok] at hleft
  obtain ⟨hrows, hterms, htimes, hmodified, hpayloads⟩ :=
    (replaced_of_ok hreadable hreplace).2.same_of_entered hascend (cleared_of_ok hreadable hremove)
      (entered_of_ok hleft.tree hadd)
  have hstored := commit_of_ok ht hcommit
  have hstored' := commit_of_ok ht' hcommit'
  have hframe := sameButLists_commit hstored
  have hframe' := sameButLists_commit hstored'
  obtain ⟨hpostings, hoccurrences⟩ := lists_of_commit hrows hstored hstored'
  have hfields : ∀ field, u'.committed.termTable field = u.committed.termTable field := fun field =>
    (hframe'.termTable field).trans ((hterms field).trans (hframe.termTable field).symm)
  cases name with
  | postings => exact hpostings
  | occurrences => exact hoccurrences
  | contentTerms => exact hfields .content
  | fileNameTerms => exact hfields .fileName
  | attributeTerms => exact hfields .attributes
  | times =>
    show u'.committed.times = u.committed.times
    rw [hframe, hframe']
    exact htimes
  | payloads =>
    show u'.committed.payloads = u.committed.payloads
    rw [hframe, hframe']
    exact hpayloads
  | modified =>
    show u'.committed.modified = u.committed.modified
    rw [hframe, hframe']
    exact hmodified
  | children | pathEntries | contentPending | failed => exact absurd (by decide) hname

/-- The open transaction has emptied a field of the document, which then gets one of its old terms in another field. -/
theorem replaced_eq_readded_emptied_field :
    let plain : Document := { id := 7, url := [0x2F, 0x61] }
    let old : Document := (plain.addPosition .content [0x78] 3).addTerm .fileName [0x79]
    let doc : Document := { (plain.addPosition .attributes [0x79] 5).addTerm .content [0x7A] with payload := [1] }
    let moments : List Moment := [⟨.nowhere, .beginWrite⟩, ⟨.nowhere, .write (.add old)⟩, ⟨.nowhere, .commit⟩,
      ⟨.nowhere, .beginWrite⟩, ⟨.nowhere, .write (.replace plain { contentTerms := true })⟩]
    let s := ({ resolver := .nowhere } : Session).afterAt moments
    let once := s.writeAll [⟨.nowhere, .replace doc .everything⟩]
    let twice := s.writeAll [⟨.nowhere, .remove doc.id⟩, ⟨.nowhere, .add doc⟩]
    (once.1 = [.ok ()] ∧ once.2.commit.1 = .ok ()) ∧ (twice.1 = [.ok (), .ok ()] ∧ twice.2.commit.1 = .ok ()) ∧
      ∀ name, name ∉ [.children, .pathEntries, .contentPending, .failed] →
        twice.2.commit.2.committed.table name = once.2.commit.2.committed.table name := by
  intro plain old doc moments s once twice
  have hwrite : once.1 = [.ok ()] := by decide +kernel
  have hcommit : once.2.commit.1 = .ok () := by decide +kernel
  have hwrite' : twice.1 = [.ok (), .ok ()] := by decide +kernel
  have hcommit' : twice.2.commit.1 = .ok () := by decide +kernel
  have hpair : ∀ {α β : Type} {p : α × β} {a : α}, p.1 = a → p = (a, p.2) := fun h => h ▸ rfl
  exact ⟨⟨hwrite, hcommit⟩, ⟨hwrite', hcommit'⟩, replaced_eq_readded .nowhere moments doc .nowhere .nowhere .nowhere
    _ _ _ _ (hpair hwrite) (hpair hcommit) (hpair hwrite') (hpair hcommit')⟩

end Session
end FileIndex
