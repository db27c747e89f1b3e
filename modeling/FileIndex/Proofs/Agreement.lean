import FileIndex.Proofs.Audits
import FileIndex.Proofs.Draft.Commit
import FileIndex.Proofs.Draft.Operations
import FileIndex.Proofs.Run

/-!
# Terms and documents agree

A term lists a document exactly if the document has the term in one of its fields. While a draft is open this is said
about the lists with the queued changes carried out; committing makes it true of what is stored.

* `Draft.Agrees`: the lists of a draft and its term sets agree. `Draft.Sound`: and only documents have terms.
* `Agrees.refill`, `Agrees.clear`: the two ways in which terms of a document change keep the agreement.
* `Draft.Allowed`: what may be overwritten has times, or gets them. `Sound.run`: every allowed change keeps soundness.
* `Session.agrees_after`: after every run terms and documents agree, and a check finds nothing.
-/

namespace FileIndex

namespace Store

/-- Stored are sets of terms only, under the keys of ids. -/
def TermsTidy (s : Store) : Prop :=
  ∀ field key value, (s.termTable field).find? key = some value →
    ∃ id terms, key = DocId.toKey id ∧ Storable terms ∧ value = TermSet.encode terms

/-- The lists of terms and the term sets are the same. -/
structure SameIndex (s s' : Store) : Prop where
  postings : s'.postings = s.postings
  occurrences : s'.occurrences = s.occurrences
  termTable : ∀ field, s'.termTable field = s.termTable field

theorem SameIndex.trans {s s' s'' : Store} (h : SameIndex s s') (h' : SameIndex s' s'') : SameIndex s s'' :=
  ⟨h'.postings.trans h.postings, h'.occurrences.trans h.occurrences,
    fun field => (h'.termTable field).trans (h.termTable field)⟩

theorem SameButTree.sameIndex {s s' : Store} (h : SameButTree s s') : SameIndex s s' := by
  unfold SameButTree at h
  refine ⟨by rw [h], by rw [h], fun field => ?_⟩
  rw [h]
  cases field <;> rfl

theorem SameButRecords.sameIndex {s s' : Store} (h : SameButRecords s s') : SameIndex s s' := by
  unfold SameButRecords at h
  refine ⟨by rw [h], by rw [h], fun field => ?_⟩
  rw [h]
  cases field <;> rfl

/-- Storing other lists leaves the term sets alone. -/
theorem SameButLists.termTable {s s' : Store} (h : SameButLists s s') (field : Field) :
    s'.termTable field = s.termTable field := by
  unfold SameButLists at h
  rw [h]
  cases field <;> rfl

theorem SameIndex.termsOf {s s' : Store} (h : SameIndex s s') (field : Field) (id : DocId) :
    s'.termsOf field id = s.termsOf field id := by
  unfold Store.termsOf
  rw [h.termTable]

theorem SameIndex.hasTerm {s s' : Store} (h : SameIndex s s') (id : DocId) (t : Bytes) :
    s'.HasTerm id t ↔ s.HasTerm id t := by
  unfold HasTerm
  simp only [h.termsOf]

end Store

namespace Draft

open Store

/-! ### Terms of several fields -/

section Fields

variable {doc : Document} {selected : Field → Bool} {d : Draft}

theorem termsOf_withFields (h : ∀ field, Storable (doc.terms field).keys) (field : Field) (id : DocId) :
    (withFields doc selected Field.all d).store.termsOf field id =
      if selected field = true ∧ id = doc.id then Ascending.ofList (doc.terms field).keys
      else d.store.termsOf field id := by
  unfold termsOf
  rw [find?_withFields]
  simp only [Field.mem_all, true_and, DocId.toKey_inj]
  by_cases hsame : selected field = true ∧ id = doc.id
  · rw [if_pos hsame, if_pos hsame, read_stored (h field)]
  · rw [if_neg hsame, if_neg hsame]

theorem termsOf_withoutFields (id : DocId) (field : Field) (other : DocId) :
    (withoutFields id Field.all d).store.termsOf field other =
      if other = id then [] else d.store.termsOf field other := by
  unfold termsOf
  rw [find?_withoutFields]
  simp only [Field.mem_all, true_and, DocId.toKey_inj]
  by_cases hother : other = id
  · rw [if_pos hother, if_pos hother]
    rfl
  · rw [if_neg hother, if_neg hother]

/-- A document has the terms of the fields that were filled, and in the others those that it had. -/
theorem hasTerm_withFields (h : ∀ field, Storable (doc.terms field).keys) (id : DocId) (t : Bytes) :
    (withFields doc selected Field.all d).store.HasTerm id t ↔
      (id = doc.id ∧ ∃ field, selected field = true ∧ t ∈ (doc.terms field).keys) ∨
        ∃ field, ¬ (selected field = true ∧ id = doc.id) ∧ t ∈ d.store.termsOf field id := by
  unfold HasTerm
  constructor
  · rintro ⟨field, ht⟩
    rw [termsOf_withFields h] at ht
    by_cases hsame : selected field = true ∧ id = doc.id
    · rw [if_pos hsame, Ascending.mem_ofList] at ht
      exact .inl ⟨hsame.2, field, hsame.1, ht⟩
    · rw [if_neg hsame] at ht
      exact .inr ⟨field, hsame, ht⟩
  · rintro (⟨hid, field, hselected, ht⟩ | ⟨field, hsame, ht⟩)
    · refine ⟨field, ?_⟩
      rw [termsOf_withFields h, if_pos ⟨hselected, hid⟩, Ascending.mem_ofList]
      exact ht
    · refine ⟨field, ?_⟩
      rw [termsOf_withFields h, if_neg hsame]
      exact ht

theorem hasTerm_withoutFields (id other : DocId) (t : Bytes) :
    (withoutFields id Field.all d).store.HasTerm other t ↔ other ≠ id ∧ d.store.HasTerm other t := by
  unfold HasTerm
  simp only [termsOf_withoutFields]
  by_cases hother : other = id
  · simp [hother]
  · simp [hother]

end Fields

/-! ### The agreement -/

/-- The lists of the terms and the sets of terms agree, and both are stored as they should be. -/
structure Agrees (d : Draft) : Prop where
  ascend : d.IdsAscend
  posted : ∀ t id, id ∈ (d.listsOf t).1 ↔ d.store.HasTerm id t
  lists : d.store.PostingsTidy
  sets : d.store.TermsTidy

/-- The agreement is about lists and term sets only. -/
theorem Agrees.of_sameIndex {d d' : Draft} (h : d.Agrees) (hpending : d'.pending = d.pending)
    (hsame : SameIndex d.store d'.store) : d'.Agrees := by
  have hlists : ∀ t, d'.listsOf t = d.listsOf t := listsOf_congr hpending hsame.postings hsame.occurrences
  refine ⟨fun t => hlists t ▸ h.ascend t, fun t id => ?_, PostingsTidy.congr hsame.postings h.lists,
    fun field key value hfind => ?_⟩
  · rw [hlists, hsame.hasTerm]
    exact h.posted t id
  · rw [hsame.termTable] at hfind
    exact h.sets field key value hfind

/-- The terms that only the selected fields of a document have are retracted, and then these fields are filled. -/
theorem Agrees.refill {d : Draft} (h : d.Agrees) {doc : Document} {selected : Field → Bool} {dropped : List Bytes}
    (hterms : ∀ field, Storable (doc.terms field).keys)
    (hdropped : ∀ t, t ∈ dropped ↔ d.store.HasTerm doc.id t ∧
      ∀ field, selected field = false → t ∉ d.store.termsOf field doc.id) :
    (withFields doc selected Field.all (d.enqueueRemovals doc.id dropped)).Agrees := by
  have hascend := h.ascend.enqueueRemovals doc.id dropped
  have hstore : (d.enqueueRemovals doc.id dropped).store = d.store := enqueueRemovals_store ..
  have hframe := sameButTerms_withFields doc selected Field.all (d.enqueueRemovals doc.id dropped)
  rw [hstore] at hframe
  refine ⟨lasting_ascending.withFields hascend fun _ _ _ _ => trivial, fun t id => ?_,
    PostingsTidy.congr (by rw [hframe]) h.lists, fun field key value hfind => ?_⟩
  · rw [tracked_ids.withFields, tracked_ids.enqueueRemovals h.ascend, h.posted, hasTerm_withFields hterms, hstore]
    simp only [Field.mem_all, true_and, and_true, ← mem_keys_iff]
    apply or_congr_right
    by_cases hid : id = doc.id
    · subst hid
      simp only [and_true, true_and, hdropped, not_and, not_forall, not_not, Bool.not_eq_true]
      constructor
      · rintro ⟨hhas, hkept⟩
        obtain ⟨field, hselected, ht⟩ := hkept hhas
        exact ⟨field, hselected, ht⟩
      · rintro ⟨field, hselected, ht⟩
        exact ⟨⟨field, ht⟩, fun _ => ⟨field, hselected, ht⟩⟩
    · simp [hid, HasTerm]
  · rw [find?_withFields, hstore] at hfind
    split at hfind
    · rename_i hkey
      unfold stored? at hfind
      split at hfind
      · cases hfind
      · cases hfind
        exact ⟨doc.id, _, hkey.2, hterms field, rfl⟩
    · exact h.sets field key value hfind

/-- All terms of a document are retracted. -/
theorem Agrees.clear {d : Draft} (h : d.Agrees) (id : DocId) : (withoutFields id Field.all d).Agrees := by
  have hframe := sameButTerms_withoutFields id Field.all d
  refine ⟨lasting_ascending.withoutFields h.ascend id Field.all, fun t other => ?_,
    PostingsTidy.congr (by rw [hframe]) h.lists, fun field key value hfind => ?_⟩
  · rw [tracked_ids.withoutFields Field.nodup_all h.ascend, h.posted, hasTerm_withoutFields]
    simp only [Field.mem_all, true_and]
    constructor
    · rintro ⟨hhas, hnot⟩
      refine ⟨fun hother => hnot ⟨hother, ?_⟩, hhas⟩
      subst hother
      exact hhas
    · rintro ⟨hother, hhas⟩
      exact ⟨hhas, fun hsame => hother hsame.1⟩
  · rw [find?_withoutFields] at hfind
    split at hfind
    · cases hfind
    · exact h.sets field key value hfind

/-! ### Changes -/

/-- Terms and documents agree, only documents have terms, and the records that changes rely on can be read. -/
structure Sound (d : Draft) : Prop extends d.Agrees where
  documents : ∀ id t, d.store.HasTerm id t → d.store.hasDocument id = true
  readable : d.store.Readable

/-- What is overwritten has times already, or gets them. The length of a term is a machine word, as that of every byte
string in memory is. -/
def Allowed (d : Draft) : WriteOp → Prop
  | .add doc => ∀ field, Storable (doc.terms field).keys
  | .replace doc parts =>
    (∀ field, Storable (doc.terms field).keys) ∧ (d.store.hasDocument doc.id = true ∨ parts.time = true)
  | .rename doc => (∀ field, Storable (doc.terms field).keys) ∧ d.store.hasDocument doc.id = true
  | _ => True

theorem Sound.add {d : Draft} (h : d.Sound) (resolver : Resolver) {doc : Document}
    (hterms : ∀ field, Storable (doc.terms field).keys) : (leftBy (add resolver doc d)).Sound := by
  rcases add_cases resolver doc h.readable.tree with
    ⟨_, e, hadd⟩ | ⟨_, hnew, _, s, _, _, hs, hsame, hadd⟩
  · rw [hadd]
    exact h
  · rw [hadd, leftBy_ok]
    let timed : Draft := { d with store := s.withTime doc.id doc.time }
    have hindex : SameIndex d.store timed.store :=
      hsame.sameIndex.trans (sameButRecords_withTime s doc.id doc.time).sameIndex
    have hnone : ∀ t, ¬ timed.store.HasTerm doc.id t := by
      intro t ht
      have hdoc := h.documents _ t ((hindex.hasTerm doc.id t).mp ht)
      rw [hnew] at hdoc
      cases hdoc
    have hagrees : timed.Agrees := h.toAgrees.of_sameIndex rfl hindex
    have hdropped : ∀ t, t ∈ ([] : List Bytes) ↔ timed.store.HasTerm doc.id t ∧
        ∀ field, (!(doc.terms field).isEmpty) = false → t ∉ timed.store.termsOf field doc.id := by
      intro t
      refine ⟨fun ht => ?_, fun ht => absurd ht.1 (hnone t)⟩
      cases ht
    have hfilled := hagrees.refill hterms hdropped
    rw [show timed.enqueueRemovals doc.id [] = timed from rfl] at hfilled
    have hrecords := sameButRecords_entered doc { d with store := s }
    have htimes := times_entered doc { d with store := s }
    have holdTimes : s.times = d.store.times := by rw [hsame]
    rw [holdTimes] at htimes
    have hentered : (entered doc { d with store := s }).Agrees :=
      hfilled.of_sameIndex (pending_entered doc { d with store := s }) hrecords.sameIndex
    refine ⟨hentered, fun id t ht => ?_, ?_, fun id => ?_⟩
    · rw [hasDocument_of_insert htimes, Bool.or_eq_true, decide_eq_true_eq]
      rcases (hasTerm_withFields hterms id t).mp ((hrecords.sameIndex.hasTerm id t).mp ht) with hself | ⟨field, _, hold⟩
      · exact .inl hself.1
      · exact .inr (h.documents id t ((hindex.hasTerm id t).mp ⟨field, hold⟩))
    · have hframe := sameButTerms_withFields doc (fun field => !(doc.terms field).isEmpty) Field.all timed
      have htree : timed.store.TreeReadable := (sameButRecords_withTime s doc.id doc.time).treeReadable hs
      exact hrecords.treeReadable (hframe.treeReadable htree)
    · rw [timeOf?_of_insert htimes]
      split
      · exact ⟨_, rfl⟩
      · exact h.readable.times id

theorem Sound.remove {d : Draft} (h : d.Sound) (id : DocId) : (leftBy (remove id d)).Sound := by
  by_cases hid : id = 0
  · rw [hid, remove_zero]
    exact h
  · obtain ⟨_, s, time?, _, _, hs, hsame, hremove⟩ := remove_eq hid h.readable
    rw [hremove, leftBy_ok]
    have hrecords := sameButRecords_withoutRecords s id time?
    have hindex := hsame.sameIndex.trans hrecords.sameIndex
    have hterms := sameButTerms_withoutFields id Field.all d
    have htimes : (s.withoutRecords id time?).times = d.store.times.erase (DocId.toKey id) := by
      have hold : s.times = d.store.times := by rw [hsame, hterms]
      rw [times_withoutRecords, hold]
    refine ⟨(h.toAgrees.clear id).of_sameIndex rfl hindex, fun other t ht => ?_, ?_, fun other => ?_⟩
    · obtain ⟨hother, hold⟩ := (hasTerm_withoutFields id other t).mp ((hindex.hasTerm other t).mp ht)
      show (s.withoutRecords id time?).hasDocument other = true
      rw [hasDocument_of_erase htimes, h.documents other t hold]
      simpa using hother
    · exact hrecords.treeReadable hs
    · show ∃ time, (s.withoutRecords id time?).timeOf? other = .ok time
      rw [timeOf?_of_erase htimes]
      split
      · exact ⟨_, rfl⟩
      · exact h.readable.times other

theorem mem_droppedTerms {s : Store} {id : DocId} {parts : Parts} {t : Bytes} :
    t ∈ droppedTerms s id parts ↔ s.HasTerm id t ∧ ∀ field, parts.terms field = false → t ∉ s.termsOf field id := by
  unfold droppedTerms HasTerm
  simp only [List.mem_filter, Ascending.mem_ofList, List.mem_flatMap, Field.mem_all, true_and, Bool.not_eq_true',
    List.contains_eq_mem, decide_eq_false_iff_not, not_exists, not_and]
  constructor
  · rintro ⟨⟨field, _, ht⟩, hkept⟩
    exact ⟨⟨field, ht⟩, hkept⟩
  · rintro ⟨⟨field, ht⟩, hkept⟩
    refine ⟨⟨field, ?_, ht⟩, hkept⟩
    by_contra hselected
    exact hkept field (by simpa using hselected) ht

theorem Sound.replace {d : Draft} (h : d.Sound) (resolver : Resolver) {doc : Document} {parts : Parts}
    (hterms : ∀ field, Storable (doc.terms field).keys)
    (hdoc : d.store.hasDocument doc.id = true ∨ parts.time = true) : (leftBy (replace resolver doc parts d)).Sound := by
  rcases replace_cases resolver doc parts h.readable with
    ⟨e, hreplace⟩ | ⟨_, s, time?, _, hs, hsame, _, _, hreplace⟩
  · rw [hreplace]
    exact h
  · rw [hreplace, leftBy_ok]
    have hrecords := sameButRecords_rewritten s doc parts time?
    have hindex := hsame.sameIndex.trans hrecords.sameIndex
    have hframe := sameButTerms_refilled doc parts d
    have hrefilled : (refilled doc parts d).Agrees := h.toAgrees.refill hterms fun t => mem_droppedTerms
    have htimes : (s.rewritten doc parts time?).times =
        if parts.time then d.store.times.insert (DocId.toKey doc.id) doc.time.encode else d.store.times := by
      have hold : s.times = d.store.times := by rw [hsame, hframe]
      rw [times_rewritten, hold]
    have hdocuments : ∀ id, id = doc.id ∨ d.store.hasDocument id = true →
        (s.rewritten doc parts time?).hasDocument id = true := by
      intro id hid
      cases htime : parts.time with
      | true =>
        rw [htime, if_pos rfl] at htimes
        rw [hasDocument_of_insert htimes, Bool.or_eq_true, decide_eq_true_eq]
        exact hid
      | false =>
        rw [htime, if_neg Bool.false_ne_true] at htimes
        rw [hasDocument_congr htimes]
        rcases hid with rfl | hid
        · exact hdoc.resolve_right (by rw [htime]; exact Bool.false_ne_true)
        · exact hid
    refine ⟨hrefilled.of_sameIndex rfl hindex, fun id t ht => hdocuments id ?_, ?_, fun id => ?_⟩
    · rcases (hasTerm_withFields hterms id t).mp ((hindex.hasTerm id t).mp ht) with hself | ⟨field, _, hold⟩
      · exact .inl hself.1
      · rw [enqueueRemovals_store] at hold
        exact .inr (h.documents id t ⟨field, hold⟩)
    · exact hrecords.treeReadable hs
    · show ∃ time, (s.rewritten doc parts time?).timeOf? id = .ok time
      cases htime : parts.time with
      | true =>
        rw [htime, if_pos rfl] at htimes
        rw [timeOf?_of_insert htimes]
        split
        · exact ⟨_, rfl⟩
        · exact h.readable.times id
      | false =>
        rw [htime, if_neg Bool.false_ne_true] at htimes
        rw [timeOf?_congr htimes]
        exact h.readable.times id

/-- What is known only of pending or failed documents may change freely. -/
theorem Sound.of_records {d : Draft} (h : d.Sound) {s : Store} (hsame : SameButRecords d.store s)
    (htimes : s.times = d.store.times) : ({ d with store := s } : Draft).Sound := by
  refine ⟨h.toAgrees.of_sameIndex rfl hsame.sameIndex, fun id t ht => ?_, ?_, fun id => ?_⟩
  · show s.hasDocument id = true
    rw [hasDocument_congr htimes]
    exact h.documents id t ((hsame.sameIndex.hasTerm id t).mp ht)
  · exact hsame.treeReadable h.readable.tree
  · show ∃ time, s.timeOf? id = .ok time
    rw [timeOf?_congr htimes]
    exact h.readable.times id

theorem keeps_removeSubtree {P : Draft → Prop} (h : ∀ id, Keeps P (remove id)) (id : DocId) :
    Keeps P (removeSubtree id) := by
  have hrequire : Keeps P (requireId id) := by
    intro d hd
    unfold requireId
    split <;> exact hd
  have hlook : Keeps P (look (·.subtree id)) := by
    intro d hd
    cases hsubtree : d.store.subtree id with
    | ok ids =>
      rw [look_of_ok hsubtree]
      exact hd
    | error e =>
      rw [look_of_error hsubtree]
      exact hd
  exact .bind hrequire fun _ => .bind hlook fun ids => .forM h ids.reverse

/-- Every allowed change keeps soundness, whether it succeeds or fails. -/
theorem Sound.run {d : Draft} (h : d.Sound) (resolver : Resolver) {op : WriteOp} (hop : Allowed d op) :
    (leftBy (run resolver op d)).Sound := by
  have hmark : Marks op → (leftBy (Draft.run resolver op d)).Sound := by
    intro hmarks
    rcases mark_cases hmarks resolver d with ⟨e, hrun⟩ | ⟨s, hsame, hrun⟩
    · rw [hrun]
      exact h
    · rw [hrun]
      exact h.of_records hsame.sameButRecords (by rw [hsame])
  cases op with
  | add doc => exact h.add resolver hop
  | remove id => exact h.remove id
  | removeSubtree id => exact keeps_removeSubtree (fun id d hd => hd.remove id) id d h
  | replace doc parts => exact h.replace resolver hop.1 hop.2
  | rename doc => exact h.replace resolver hop.1 (.inl hop.2)
  | addPending | removePending | addFailed | removeFailed => exact hmark trivial

/-! ### Runs -/

theorem listsOf_empty (t : Bytes) : ({ store := ∅ } : Draft).listsOf t = ([], []) := by
  rw [listsOf_fresh]
  unfold Store.idsWith Store.occurrencesOf
  split <;> rfl

theorem sound_empty : ({ store := ∅ } : Draft).Sound := by
  have hnone : ∀ id t, ¬ (∅ : Store).HasTerm id t := by
    rintro id t ⟨field, ht⟩
    cases field <;> cases ht
  refine ⟨⟨fun t => ?_, fun t id => ?_, fun t value h => ?_, fun field key value h => ?_⟩,
    fun id t h => ?_, ?_, fun id => ?_⟩
  · rw [listsOf_empty]
    exact .nil
  · rw [listsOf_empty]
    exact ⟨fun h => (nomatch h), fun h => absurd h (hnone id t)⟩
  · cases h
  · cases field <;> cases h
  · exact absurd h (hnone id t)
  · exact treeReadable_empty
  · exact ⟨none, rfl⟩

/-- What is committed is as sound as the draft: the lists become those that the draft had. -/
theorem Sound.commit {d : Draft} (h : d.Sound) {s : Store} (hcommit : d.commit = .ok s) :
    ({ store := s } : Draft).Sound := by
  have hframe := sameButLists_commit hcommit
  have hlists : ∀ t, (({ store := s } : Draft).listsOf t).1 = (d.listsOf t).1 := (idsWith_commit hcommit h.ascend).1
  have hsets := hframe.termTable
  have hhas : ∀ id t, s.HasTerm id t ↔ d.store.HasTerm id t := by
    intro id t
    unfold HasTerm termsOf
    simp only [hsets]
  have htimes : s.times = d.store.times := by rw [hframe]
  refine ⟨⟨fun t => ?_, fun t id => ?_, (idsWith_commit hcommit h.ascend).2 h.lists, fun field key value hfind => ?_⟩,
    fun id t ht => ?_, ?_, fun id => ?_⟩
  · rw [hlists]
    exact h.ascend t
  · rw [hlists, hhas]
    exact h.posted t id
  · rw [hsets] at hfind
    exact h.sets field key value hfind
  · rw [hasDocument_congr htimes]
    exact h.documents id t ((hhas id t).mp ht)
  · exact h.readable.tree.congr (by rw [hframe]) (by rw [hframe])
  · rw [timeOf?_congr htimes]
    exact h.readable.times id

/-- Transactions begin with what is sound, and commit it. -/
theorem invariant_sound (resolver : Resolver) :
    Invariant resolver Allowed (fun s => ({ store := s } : Draft).Sound) Draft.Sound where
  begun _ hs := hs
  changed _ _ hd hop := hd.run resolver hop
  committed _ _ hd hcommit := hd.commit hcommit

end Draft

/-! ### Checks -/

namespace Store

theorem TermsTidy.legible {s : Store} (hs : s.TermsTidy) : s.SetsLegible where
  keyed field key value hfind := by
    obtain ⟨id, _, hkey, _⟩ := hs field key value hfind
    exact ⟨id, hkey⟩
  read field key value hfind := by
    obtain ⟨_, terms, _, hterms, rfl⟩ := hs field key value hfind
    exact ⟨_, TermSet.decode_encode hterms⟩

theorem PostingsTidy.named {s : Store} (hs : s.PostingsTidy) : s.ListsNamed := by
  cases hfind : s.postings.find? [] with
  | none => exact hfind
  | some value => exact absurd rfl (ne_nil_of_holdsKey (hs [] value hfind).1)

/-- Where terms and documents agree, the check of terms goes through and finds nothing. -/
theorem auditTerms_of_agreeing {s : Store} (hs : s.TermsTidy)
    (h : ∀ t id, id ∈ s.idsWith t ↔ s.HasTerm id t) : ∃ checked, s.auditTerms = .ok ⟨checked, []⟩ := by
  obtain ⟨a, ha, _⟩ := auditTerms_spec hs.legible
  have hnone := (auditTerms_issues_eq_nil_iff hs.legible ha).mpr fun id t => (h t id).mpr
  exact ⟨a.checked, by rw [ha, ← hnone]⟩

/-- So does the check of lists. -/
theorem auditPostings_of_agreeing {s : Store} (hs : s.PostingsTidy)
    (h : ∀ t id, id ∈ s.idsWith t ↔ s.HasTerm id t) : s.auditPostings.issues = [] :=
  (auditPostings_issues_eq_nil_iff hs.named).mpr fun id t => (h t id).mp

end Store

/-- After every allowed run a term lists a document exactly if the document has the term in one of its fields, and
neither check finds an issue. -/
theorem Session.agrees_after (resolver : Resolver) (events : List Event)
    (h : ({ resolver } : Session).Obeys Draft.Allowed events) :
    let s := (({ resolver } : Session).after events).committed
    (∀ t id, id ∈ s.idsWith t ↔ ∃ field, t ∈ s.termsOf field id) ∧
      (∃ checked, s.auditTerms = .ok ⟨checked, []⟩) ∧ s.auditPostings.issues = [] := by
  intro s
  have hstart : Invariant.Holds (fun s => ({ store := s } : Draft).Sound) Draft.Sound ({ resolver } : Session) :=
    ⟨Draft.sound_empty, fun d hd => nomatch hd⟩
  have hsound : ({ store := s } : Draft).Sound := ((Draft.invariant_sound resolver).after hstart rfl h).1
  have hagree : ∀ t id, id ∈ s.idsWith t ↔ s.HasTerm id t := hsound.posted
  exact ⟨hagree, Store.auditTerms_of_agreeing hsound.sets hagree, Store.auditPostings_of_agreeing hsound.lists hagree⟩

/-- A term of two fields stays listed when one of the fields is emptied. -/
theorem Session.agrees_after_emptied_field :
    let x : TermMap := (∅ : TermMap).addTerm [0x78]
    let doc : Document := { id := 7, url := [0x2F, 0x61], contentTerms := x, fileNameTerms := x }
    let events : List Event :=
      [.beginWrite, .write (.add doc), .write (.replace { id := 7 } { contentTerms := true }), .commit]
    let start : Session := { resolver := fun _ => 0 }
    let s := (start.after events).committed
    start.Obeys Draft.Allowed events ∧ (∀ t id, id ∈ s.idsWith t ↔ ∃ field, t ∈ s.termsOf field id) ∧
      (∃ checked, s.auditTerms = .ok ⟨checked, []⟩) ∧ s.auditPostings.issues = [] := by
  intro x doc events start s
  have hx : ∀ field, Store.Storable (doc.terms field).keys := by
    intro field t ht
    cases field with
    | content | fileName =>
      rw [List.mem_singleton.mp ht]
      decide
    | attributes => cases ht
  have hobeys : start.Obeys Draft.Allowed events := by
    refine ⟨fun op d hop => ?_, fun op d hop _ => ?_, fun op d hop hd => ?_, fun op d hop => ?_, trivial⟩
    · cases hop
    · cases hop
      exact hx
    · cases hop
      refine ⟨fun field t ht => ?_, .inl (eq_of_draft hd (·.store.hasDocument 7) true (by decide))⟩
      cases field <;> cases ht
    · cases hop
  exact ⟨hobeys, agrees_after _ events hobeys⟩

end FileIndex
