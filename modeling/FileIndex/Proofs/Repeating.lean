import FileIndex.Proofs.Replacing
import FileIndex.Proofs.Tree.Guards

/-!
# Replacing a document again

To replace the same parts of a document by the same once more changes nothing, be it in the same transaction or in
a later one. The second time other terms are dropped than the first time, and the path gets its own name instead of
a place.

* `Draft.Replaced.listsOf_again`, `Draft.Replaced.records_again`: the lists and the records are as after the first time.
* `Draft.replace_again`: so is everything, if the path of the document is settled.
* `Session.replaced_again`: in a run this holds unless the path of an id that is no document is above itself.
* `Session.replaced_elsewhere`: else the first time can lose the path, and the second time finds it again.
-/

namespace FileIndex

open Store OccurrenceList

namespace Draft

variable {resolver : Resolver} {doc : Document} {parts : Parts} {d d₁ d₂ : Draft}

/-! ### Lists and records -/

theorem BothAscend.remove {lists : List DocId × List Occurrence} (h : BothAscend lists) (id : DocId) :
    BothAscend (applyChange lists (.remove id)) :=
  ⟨lasting_ascending.remove h.ids, h.occurrences.filter _⟩

/-- After parts of it were replaced, a document has the new terms in the fields that were, and the old ones
in others. -/
theorem Replaced.termsOf (h : Replaced doc parts d d₁) (hterms : ∀ field, Storable (doc.terms field).keys)
    (field : Field) : d₁.store.termsOf field doc.id =
      if parts.terms field = true then Ascending.ofList (doc.terms field).keys else d.store.termsOf field doc.id := by
  unfold Store.termsOf
  rw [h.terms]
  by_cases hfield : parts.terms field = true
  · rw [if_pos ⟨hfield, rfl⟩, if_pos hfield, read_stored (hterms field)]
  · rw [if_neg fun hboth => hfield hboth.1, if_neg hfield]

/-- The second time, a document loses what it gets and does not have in another field. -/
theorem Replaced.mem_dropped (h : Replaced doc parts d d₁) (hterms : ∀ field, Storable (doc.terms field).keys)
    {t : Bytes} : t ∈ droppedTerms d₁.store doc.id parts ↔ gains doc parts.terms Field.all t ≠ [] ∧
      ∀ field, parts.terms field = false → t ∉ d.store.termsOf field doc.id := by
  have hkept : (∀ field, parts.terms field = false → t ∉ d₁.store.termsOf field doc.id) ↔
      ∀ field, parts.terms field = false → t ∉ d.store.termsOf field doc.id := by
    refine forall_congr' fun field => forall_congr' fun hfield => ?_
    rw [h.termsOf hterms, if_neg (by rw [hfield]; exact Bool.false_ne_true)]
  rw [mem_droppedTerms, hkept]
  refine and_congr_left fun hnone => ?_
  rw [ne_eq, gains_eq_nil_iff]
  simp only [HasTerm, h.termsOf hterms, not_forall, not_not]
  constructor
  · rintro ⟨field, ht⟩
    by_cases hfield : parts.terms field = true
    · rw [if_pos hfield, Ascending.mem_ofList] at ht
      exact ⟨field, hfield, ht⟩
    · rw [if_neg hfield] at ht
      exact absurd ht (hnone field (by simpa using hfield))
  · rintro ⟨field, hfield, ht⟩
    refine ⟨field, ?_⟩
    rw [if_pos hfield, Ascending.mem_ofList]
    exact ht

/-- What is said of a draft in which terms and lists agree. -/
structure Consistent (id : DocId) (d : Draft) : Prop where
  order : ∀ t, BothAscend (d.listsOf t)
  posted : ∀ t, id ∈ (d.listsOf t).1 → d.store.HasTerm id t
  within : ∀ t, ∀ o ∈ (d.listsOf t).2, o.id ∈ (d.listsOf t).1

/-- A document loses a term that it has in no kept field, if it has it at all. -/
theorem Consistent.foldl_losses {t : Bytes} (h : Consistent doc.id d)
    (hfree : ∀ field, parts.terms field = false → t ∉ d.store.termsOf field doc.id) :
    (losses doc.id (droppedTerms d.store doc.id parts) t).foldl applyChange (d.listsOf t) =
      applyChange (d.listsOf t) (.remove doc.id) := by
  rw [Draft.foldl_losses (nodup_of_ascending (h.order t).ids) fun _ => eq_remove_of_mem_losses]
  split
  · rename_i hempty
    have hdropped := losses_isEmpty_iff.mp hempty
    have hid : doc.id ∉ (d.listsOf t).1 := fun hid => hdropped (mem_droppedTerms.mpr ⟨h.posted t hid, hfree⟩)
    exact (applyChange_remove_of_absent hid fun o ho heq => hid (heq ▸ h.within t o ho)).symm
  · rfl

/-- The second time nothing is made of the lists but what they are. -/
theorem Replaced.listsOf_again (hd : Consistent doc.id d) (hbuilt : doc.Built)
    (hterms : ∀ field, Storable (doc.terms field).keys) (h : Replaced doc parts d d₁) (h' : Replaced doc parts d₁ d₂)
    (t : Bytes) : d₂.listsOf t = d₁.listsOf t ∧ d₂.rowsOf t = d₁.rowsOf t := by
  have hqueued := h.queued t
  have hqueued' := h'.queued t
  have hdropped := h.mem_dropped hterms (t := t)
  have honly : OnlyGains doc.id (gains doc parts.terms Field.all t) := onlyGains_gains hbuilt _ _ _
  generalize gains doc parts.terms Field.all t = gained at hqueued hqueued' hdropped honly
  have hnil : ∀ {terms}, t ∉ terms → losses doc.id terms t = [] := fun ht =>
    List.isEmpty_iff.mp (losses_isEmpty_iff.mpr ht)
  by_cases hnone : gained = []
  · subst hnone
    rw [hnil fun ht => (hdropped.mp ht).1 rfl] at hqueued'
    exact ⟨hqueued'.lists, hqueued'.rows⟩
  · have hlists : d₂.listsOf t = d₁.listsOf t := by
      rw [hqueued'.lists, hqueued.lists, List.foldl_append, List.foldl_append]
      have horder := hd.order t
      by_cases hfree : ∀ field, parts.terms field = false → t ∉ d.store.termsOf field doc.id
      · -- what the document had of the term is forgotten both times
        rw [hd.foldl_losses hfree]
        have hcleared := horder.remove doc.id
        have hgot := hcleared.foldl_gains honly
        have hlost : (losses doc.id (droppedTerms d₁.store doc.id parts) t).isEmpty = false := by
          rw [Bool.eq_false_iff, ne_eq, losses_isEmpty_iff, not_not]
          exact hdropped.mpr ⟨hnone, hfree⟩
        rw [foldl_losses (nodup_of_ascending hgot.ids) fun _ => eq_remove_of_mem_losses, hlost,
          if_neg Bool.false_ne_true,
          forget_foldl_gains hcleared.ids honly, applyChange_remove_twice (nodup_of_ascending horder.ids)]
      · -- another field has the term, so that it is dropped neither time
        rw [hnil fun ht => hfree (mem_droppedTerms.mp ht).2, hnil fun ht => hfree (hdropped.mp ht).2]
        exact foldl_gains_twice horder honly
    refine ⟨hlists, ?_⟩
    rw [hqueued'.rows, hqueued.rows, hlists]
    simp only [List.isEmpty_iff, List.append_eq_nil_iff, hnone, and_false, if_false]

/-- The second time the records are written as they are. -/
theorem Replaced.records_again (h : Replaced doc parts d d₁) (h' : Replaced doc parts d₁ d₂) :
    (∀ field, d₂.store.termTable field = d₁.store.termTable field) ∧ d₂.store.times = d₁.store.times ∧
      d₂.store.modified = d₁.store.modified ∧ d₂.store.payloads = d₁.store.payloads := by
  refine ⟨fun field => ByteMap.ext_find? fun key => ?_, ?_, ?_, ByteMap.ext_find? fun key => ?_⟩
  · rw [h'.terms]
    split
    · rename_i hsame
      rw [h.terms, if_pos hsame]
    · rfl
  · rw [h'.times]
    split
    · rename_i hparts
      rw [h.times, if_pos hparts, ByteMap.insert_eq_self ((ByteMap.find?_insert ..).trans (if_pos rfl))]
    · rfl
  · obtain ⟨_, _, hmodified⟩ := h.modified
    obtain ⟨time?, htime, hmodified'⟩ := h'.modified
    rw [hmodified']
    split
    · rename_i hparts
      -- the times that are read are those that were written
      have htimes := h.times
      rw [if_pos hparts] at htimes hmodified
      rw [timeOf?_of_insert htimes, if_pos rfl] at htime
      cases htime
      show (d₁.store.modified.erase (modifiedKey doc.time.modified doc.id)).insert _ _ = _
      rw [ByteMap.insert_erase, hmodified, ByteMap.insert_eq_self ((ByteMap.find?_insert ..).trans (if_pos rfl))]
    · rfl
  · rw [h'.payloads]
    split
    · rename_i hsame
      rw [h.payloads, if_pos hsame]
    · rfl

/-! ### The whole draft -/

theorem sameButLists_of_tables {s s' : Store} (hterms : ∀ field, s'.termTable field = s.termTable field)
    (hchildren : s'.children = s.children) (hentries : s'.pathEntries = s.pathEntries) (htimes : s'.times = s.times)
    (hpayloads : s'.payloads = s.payloads) (hpending : s'.contentPending = s.contentPending)
    (hfailed : s'.failed = s.failed) (hmodified : s'.modified = s.modified) : SameButLists s s' := by
  have hcontent : s'.contentTerms = s.contentTerms := hterms .content
  have hfileName : s'.fileNameTerms = s.fileNameTerms := hterms .fileName
  have hattributes : s'.attributeTerms = s.attributeTerms := hterms .attributes
  unfold SameButLists
  rw [← hchildren, ← hentries, ← htimes, ← hpayloads, ← hpending, ← hfailed, ← hmodified, ← hcontent, ← hfileName,
    ← hattributes]

/-- After its path was replaced, a document has it in its place, if it is stored or its path was not above itself. -/
theorem settled_of_replace (hreadable : d.store.Readable)
    (hurl : parts.url = true → d.store.hasDocument doc.id = true ∨ ¬ Relation.TransGen d.store.HangsFrom doc.id doc.id)
    (h : replace resolver doc parts d = .ok () d₁) (hparts : parts.url = true) :
    Settled resolver doc.id doc.url d₁.store := by
  rcases replace_cases resolver doc parts hreadable with ⟨e, hreplace⟩ | ⟨_, s, time?, _, _, _, hchanged, _, hreplace⟩
  · cases hreplace.symm.trans h
  cases hreplace.symm.trans h
  obtain ⟨change, hplan, hchange⟩ := hchanged hparts
  have hrefilled := (sameButTerms_refilled doc parts d).sameOutline
  have hfrom : (refilled doc parts d).store.HangsFrom = d.store.HangsFrom :=
    funext fun x => funext fun above => propext (hangsFrom_congr hrefilled.pathEntries x above)
  have hsettled : Settled resolver doc.id doc.url s := by
    refine settled_of_changePath ((sameButTerms_refilled doc parts d).treeReadable hreadable.tree)
      ((planPath_congr hrefilled.pathEntries ..).trans hplan) hchange ?_
    rw [hasDocument_congr hrefilled.times, hfrom]
    exact hurl hparts
  refine hsettled.congr ?_
  show (s.rewritten doc parts time?).pathEntries = s.pathEntries
  rw [sameButRecords_rewritten s doc parts time?]

/-- Where terms and lists agree, replacing parts of a document again succeeds and leaves a draft that is like the one
before, if the document is stored or its path is not above itself. -/
theorem replace_again (hd : Consistent doc.id d) (hreadable : d.store.Readable) (hbuilt : doc.Built)
    (hterms : ∀ field, Storable (doc.terms field).keys)
    (hurl : parts.url = true → d.store.hasDocument doc.id = true ∨ ¬ Relation.TransGen d.store.HangsFrom doc.id doc.id)
    (h : replace resolver doc parts d = .ok () d₁) :
    ∃ d₂, replace resolver doc parts d₁ = .ok () d₂ ∧ d₁.Alike d₂ := by
  have hreadable₁ : d₁.store.Readable := by
    have hleft : (leftBy (run resolver (.replace doc parts) d)).store.Readable := readable_run hreadable _
    rw [show run resolver (.replace doc parts) d = .ok () d₁ from h] at hleft
    exact hleft
  obtain ⟨hid, hreplaced⟩ := replaced_of_ok hreadable h
  have hsettled : parts.url = true → Settled resolver doc.id doc.url d₁.store := settled_of_replace hreadable hurl h
  have hrefilled := (sameButTerms_refilled doc parts d₁).sameOutline
  obtain ⟨s₂, time?, _, _, _, hchanged, hunchanged, h'⟩ := replace_of_plan hreadable₁ hid fun hparts => by
    obtain ⟨change, hplan, _⟩ := (hsettled hparts).changePath
    exact ⟨change, hplan⟩
  have hpath : s₂ = (refilled doc parts d₁).store := by
    cases hparts : parts.url with
    | false => exact hunchanged hparts
    | true =>
      obtain ⟨change, hplan, hchange⟩ := hchanged hparts
      obtain ⟨change', hplan', hchange'⟩ := ((hsettled hparts).congr hrefilled.pathEntries).changePath
      rw [planPath_congr hrefilled.pathEntries, hplan] at hplan'
      cases hplan'
      cases hchange.symm.trans hchange'
      rfl
  subst hpath
  have hreplaced' := (replaced_of_ok hreadable₁ h').2
  obtain ⟨hfields, htimes, hmodified, hpayloads⟩ := hreplaced.records_again hreplaced'
  have hrecords := sameButRecords_rewritten (refilled doc parts d₁).store doc parts time?
  refine ⟨_, h', sameButLists_of_tables hfields ?_ ?_ htimes hpayloads hreplaced'.contentPending hreplaced'.failed
    hmodified, fun t => ?_, fun t => ?_⟩
  · rw [hrecords]
    exact hrefilled.children
  · rw [hrecords]
    exact hrefilled.pathEntries
  · exact (hreplaced.listsOf_again hd hbuilt hterms hreplaced' t).1
  · exact (hreplaced.listsOf_again hd hbuilt hterms hreplaced' t).2

end Draft

namespace Session

open Draft

/-- In a committed store of a run in which terms and documents agree, let parts of a document be replaced with success.
To replace them once more, in the same transaction or in a later one, succeeds and leaves the same tables. If the
path is among the parts, the id is to be that of a document, or not above itself in the tree. -/
theorem replaced_again (resolver : Resolver) (moments : List Moment)
    (h : ({ resolver } : Session).ObeysAt sizedRule.Allows moments) :
    let s := ({ resolver } : Session).afterAt moments
    (∀ t id, id ∈ s.committed.idsWith t ↔ ∃ field, t ∈ s.committed.termsOf field id) →
      ∀ (r : Resolver) (doc : Document) (parts : Parts), doc.Keyed →
        (parts.url = true → s.committed.hasDocument doc.id = true ∨
          ¬ Relation.TransGen s.committed.HangsFrom doc.id doc.id) →
        let c : Change := ⟨r, .replace doc parts⟩
        ∀ t, s.transact [c] = .ok ([.ok ()], t) →
          (∃ t', s.transact [c, c] = .ok ([.ok (), .ok ()], t') ∧
            ∀ name, t'.committed.table name = t.committed.table name) ∧
          ∃ t', t.transact [c] = .ok ([.ok ()], t') ∧ ∀ name, t'.committed.table name = t.committed.table name := by
  intro s hagree r doc parts hdoc hurl c t htransact
  obtain ⟨hsized, hreadable⟩ := (keep_afterAt Sized.step Sized.commit sized_empty h).1
  have hconsistent : Consistent doc.id { store := s.committed } :=
    ⟨fun t => ⟨hsized.listed.ascend t, (hsized.stored t).ascending⟩, fun t => (hagree t doc.id).mp, within_afterAt h⟩
  have hwritable := writable_of_transact htransact
  have hkeyed : ∀ n, ∀ c' ∈ List.replicate n c, c'.Keyed := by
    intro n c' hc' doc' hdoc'
    rw [List.eq_of_mem_replicate hc'] at hdoc'
    cases hdoc'
    exact hdoc
  obtain ⟨t₁, htransact₁, hfirst, hwritable₁, hready₁, hreadable₁⟩ :=
    transact_alike hwritable (.refl _) hsized.ready hreadable (hkeyed 1)
  obtain ⟨hanswers, rfl⟩ := Prod.mk.inj (Except.ok.inj (htransact₁.symm.trans htransact))
  obtain ⟨d₁, hrun, hleft⟩ := runAll_cons_ok (Prod.ext hanswers rfl)
  obtain ⟨d₂, hagain, halike⟩ : ∃ d₂, run c.resolver c.op d₁ = .ok () d₂ ∧ d₁.Alike d₂ :=
    replace_again hconsistent hreadable hdoc.1 (fun field => storable_of_holdsKey (hdoc.2 field)) hurl hrun
  have hd₁ : d₁.Alike { store := t₁.committed } := by
    have heq : d₁ = _ := (Prod.mk.inj hleft).2
    exact heq ▸ hfirst
  refine ⟨?_, ?_⟩
  · obtain ⟨t', htwice, hd₂, _⟩ := transact_alike hwritable (.refl _) hsized.ready hreadable (hkeyed 2)
    simp only [List.replicate] at htwice hd₂
    rw [runAll_cons_of_ok hrun, runAll_cons_of_ok hagain] at htwice hd₂
    exact ⟨t', htwice, fun name => by rw [(halike.trans hd₂).store_unique hd₁]⟩
  · obtain ⟨t', hlater, hd₂, _⟩ := transact_alike hwritable₁ hd₁ hready₁ hreadable₁ (hkeyed 1)
    simp only [List.replicate] at hlater hd₂
    rw [runAll_cons_of_ok hagain] at hlater hd₂
    exact ⟨t', hlater, fun name => by rw [(halike.trans hd₂).store_unique hd₁]⟩

/-- The content of a document is replaced together with its path, and its file name keeps a term that it had there. -/
theorem replaced_again_shared_term :
    let old : Document :=
      (({ id := 7, url := [0x2F, 0x61] } : Document).addPosition .content [0x78] 3).addTerm .fileName [0x78]
    let new : Document :=
      (({ id := 7, url := [0x2F, 0x62] } : Document).addPosition .content [0x78] 5).addTerm .content [0x79]
    let moments : List Moment :=
      [⟨.nowhere, .beginWrite⟩, ⟨.nowhere, .write (.add old)⟩, ⟨.nowhere, .commit⟩]
    let c : Change := ⟨.nowhere, .replace new { contentTerms := true, url := true }⟩
    let start : Session := { resolver := .nowhere }
    let s := start.afterAt moments
    (start.ObeysAt sizedRule.Allows moments ∧
      (∀ t id, id ∈ s.committed.idsWith t ↔ ∃ field, t ∈ s.committed.termsOf field id) ∧ new.Keyed ∧
      s.committed.hasDocument new.id = true) ∧
    ∃ t, s.transact [c] = .ok ([.ok ()], t) ∧
      (∃ t', s.transact [c, c] = .ok ([.ok (), .ok ()], t') ∧
        ∀ name, t'.committed.table name = t.committed.table name) ∧
      ∃ t', t.transact [c] = .ok ([.ok ()], t') ∧ ∀ name, t'.committed.table name = t.committed.table name := by
  intro old new moments c start s
  have hold : old.Keyed :=
    ((Document.Keyed.plain 7 _ _ _ _).addPosition .content 3 (by decide)).addTerm .fileName (by decide)
  have hnew : new.Keyed :=
    ((Document.Keyed.plain 7 _ _ _ _).addPosition .content 5 (by decide)).addTerm .content (by decide)
  have hadded : ∀ m ∈ moments, ∀ op, m.event = .write op → ∃ doc, op = .add doc ∧ doc.Keyed := by
    intro m hm op hop
    simp only [moments, List.mem_cons, List.not_mem_nil, or_false] at hm
    obtain rfl | rfl | rfl := hm
    · cases hop
    · cases hop
      exact ⟨old, rfl, hold⟩
    · cases hop
  obtain ⟨hsized, hagree⟩ := agree_of_added hadded
  have hdocument : s.committed.hasDocument new.id = true := by decide +kernel
  obtain ⟨t, htransact⟩ : ∃ t, s.transact [c] = .ok ([.ok ()], t) := exists_of_answers (by decide +kernel)
  exact ⟨⟨hsized, hagree, hnew, hdocument⟩, t, htransact,
    replaced_again .nowhere moments hsized hagree .nowhere new _ hnew (fun _ => .inl hdocument) t htransact⟩

/-- A folder was moved into one below it, and both were then removed as documents. To replace the upper one elsewhere
leaves it without a path, as the lower one is left with nothing below it and the way up from there comes by the
upper one. The second time it gets its path. -/
theorem replaced_elsewhere :
    let r : Resolver := .listed [([0x2F, 0x64], 7), ([0x2F, 0x64, 0x2F, 0x65], 8)]
    let moments : List Moment := [⟨r, .beginWrite⟩, ⟨r, .write (.add { id := 7, url := [0x2F, 0x64] })⟩,
      ⟨r, .write (.add { id := 8, url := [0x2F, 0x64, 0x2F, 0x65] })⟩,
      ⟨r, .write (.rename { id := 7, url := [0x2F, 0x64, 0x2F, 0x65, 0x2F, 0x78] })⟩,
      ⟨r, .write (.remove 7)⟩, ⟨r, .write (.remove 8)⟩, ⟨r, .commit⟩]
    let doc : Document := { id := 7, url := [0x2F, 0x7A] }
    let c : Change := ⟨r, .replace doc .everything⟩
    let s := ({ resolver := r } : Session).afterAt moments
    (({ resolver := r } : Session).ObeysAt sizedRule.Allows moments ∧
      (∀ t id, id ∈ s.committed.idsWith t ↔ ∃ field, t ∈ s.committed.termsOf field id) ∧ doc.Keyed) ∧
    ((s.transact [c]).toOption.map fun o => (o.1, o.2.committed.pathOf 7)) = some ([.ok ()], .ok []) ∧
    ((s.transact [c, c]).toOption.map fun o => (o.1, o.2.committed.pathOf 7)) = some ([.ok (), .ok ()], .ok doc.url) ∧
    ((s.transactAll [[c], [c]]).toOption.map fun o => (o.1, o.2.committed.pathOf 7)) =
      some ([.ok (), .ok ()], .ok doc.url) := by
  intro r moments doc c s
  have hplain : ∀ id url, ({ id, url } : Document).Keyed := fun id url => .plain id url _ _ _
  have hsized : ({ resolver := r } : Session).ObeysAt sizedRule.Allows moments := by
    refine .of_keyed fun m hm op hop doc hdoc => ?_
    simp only [moments, List.mem_cons, List.not_mem_nil, or_false] at hm
    obtain rfl | rfl | rfl | rfl | rfl | rfl | rfl := hm <;> cases hop <;> cases hdoc <;> exact hplain _ _
  have hagree : ∀ t id, id ∈ s.committed.idsWith t ↔ ∃ field, t ∈ s.committed.termsOf field id := by
    have hpostings : s.committed.postings = ∅ := by decide +kernel
    have hterms : ∀ field, s.committed.termTable field = ∅ := by
      intro field
      cases field <;> decide +kernel
    intro t id
    unfold Store.idsWith Store.termsOf
    simp only [hpostings, hterms]
    simp
  exact ⟨⟨hsized, hagree, hplain 7 _⟩, by decide +kernel, by decide +kernel, by decide +kernel⟩

end Session
end FileIndex
