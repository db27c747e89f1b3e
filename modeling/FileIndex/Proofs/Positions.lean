import FileIndex.FileId
import FileIndex.Proofs.Chronicle
import FileIndex.Proofs.Phrases

/-!
# Which positions are stored

The positions that the fields of a document give to a term are stored as one list, and what is stored of a field
does not tell its own apart. Where a field is overwritten, a term that it has alone starts anew; a term that a field
which stays has as well keeps the whole list, and so the positions of what was overwritten.

* `Imprint`, `Imprint.of`: what the changes that took effect leave of a document: the terms of each field as they were
  last written, and the positions that are left of what was overwritten.
* `Draft.Shows`: the terms and positions of a document are those of its imprint. `Shows.fill`: overwriting fields.
* `Draft.account_imprinted`: changes and commits carry this on for every document.
* `Session.positions_afterAt`: so it is after every run, and a phrase is found just where these positions follow each
  other. `Session.positions_afterAt_overwritten_content`: a phrase that is found in a document that no longer has it.
-/

namespace FileIndex

open OccurrenceList Store

theorem TermMap.mem_positions_iff {m : TermMap} {t : Bytes} {p : UInt32} :
    p ∈ m.positions t ↔ ∃ positions, m.find? t = some positions ∧ p ∈ positions := by
  unfold positions
  cases m.find? t <;> simp

/-! ### Imprints -/

/-- What the changes that took effect leave of a document. -/
structure Imprint where
  /-- The terms of each field, as it was last written. -/
  terms : Field → TermMap := fun _ => ∅
  /-- The positions of a term in what was overwritten while a field that stayed had the term. -/
  left : Bytes → List UInt32 := fun _ => []

namespace Imprint

/-- The positions that the fields give to a term. -/
def given (i : Imprint) (t : Bytes) : List UInt32 := Field.all.flatMap fun field => (i.terms field).positions t

/-- The positions that are stored of a term. -/
def stored (i : Imprint) (t : Bytes) : List UInt32 := Ascending.ofList (i.given t ++ i.left t)

/-- The selected fields are overwritten. Their positions are left with the terms that another field has. -/
def overwritten (i : Imprint) (doc : Document) (selected : Field → Bool) : Imprint where
  terms field := if selected field then doc.terms field else i.terms field
  left t :=
    if Field.all.any fun field => !selected field && (i.terms field).contains t then
      i.left t ++ (Field.all.filter selected).flatMap fun field => (i.terms field).positions t
    else []

/-- What a change that took effect leaves of a document. Of a document that is removed nothing is asked. -/
def record (id : DocId) (i : Imprint) : WriteOp → Imprint
  | .add doc => if doc.id = id then { terms := doc.terms } else i
  | .replace doc parts => if doc.id = id then i.overwritten doc parts.terms else i
  | .rename doc => if doc.id = id then i.overwritten doc Parts.rename.terms else i
  | _ => i

/-- What changes that took effect one after the other leave of a document. -/
def of (id : DocId) (ops : List WriteOp) : Imprint := ops.foldl (record id) {}

theorem of_append (id : DocId) (ops : List WriteOp) (op : WriteOp) : of id (ops ++ [op]) = (of id ops).record id op :=
  List.foldl_append

variable {i : Imprint} {doc : Document} {selected : Field → Bool} {t : Bytes} {p : UInt32}

theorem mem_stored_iff : p ∈ i.stored t ↔ p ∈ i.given t ∨ p ∈ i.left t := by
  rw [stored, Ascending.mem_ofList, List.mem_append]

/-- They are those that the fields give exactly if nothing else is left. -/
theorem stored_eq_iff : i.stored t = Ascending.ofList (i.given t) ↔ ∀ p ∈ i.left t, p ∈ i.given t := by
  constructor
  · intro heq p hp
    rw [← Ascending.mem_ofList, ← heq]
    exact mem_stored_iff.mpr (.inr hp)
  · intro hleft
    refine (Ascending.pairwise_ofList _).eq_of_mem_iff (Ascending.pairwise_ofList _) fun p => ?_
    rw [Ascending.mem_ofList, Ascending.mem_ofList, List.mem_append]
    exact or_iff_left_of_imp (hleft p)

/-- A list of what is stored is one of what the fields give exactly if nothing else is left. -/
theorem listed_iff {listed : List UInt32 → Prop} (h : ∀ ps, listed ps ↔ ps ≠ [] ∧ ps = i.stored t) :
    (∀ ps, listed ps ↔ ps ≠ [] ∧ ps = Ascending.ofList (i.given t)) ↔ ∀ p ∈ i.left t, p ∈ i.given t := by
  rw [← stored_eq_iff]
  constructor
  · intro hgiven
    by_cases hempty : i.stored t = []
    · refine stored_eq_iff.mpr fun p hp => ?_
      have hstored : p ∈ i.stored t := mem_stored_iff.mpr (.inr hp)
      rw [hempty] at hstored
      cases hstored
    · exact ((hgiven _).mp ((h _).mpr ⟨hempty, rfl⟩)).2
  · intro heq ps
    rw [h, heq]

theorem mem_given_iff : p ∈ i.given t ↔ ∃ field, p ∈ (i.terms field).positions t := by
  simp [given, Field.mem_all]

theorem mem_given_overwritten_iff : p ∈ (i.overwritten doc selected).given t ↔
    (∃ field, selected field = true ∧ p ∈ (doc.terms field).positions t) ∨
      ∃ field, selected field = false ∧ p ∈ (i.terms field).positions t := by
  rw [mem_given_iff, ← exists_or]
  refine exists_congr fun field => ?_
  unfold overwritten
  cases hselected : selected field <;> simp [hselected]

theorem mem_left_overwritten_iff : p ∈ (i.overwritten doc selected).left t ↔
    (∃ field, selected field = false ∧ t ∈ (i.terms field).keys) ∧
      (p ∈ i.left t ∨ ∃ field, selected field = true ∧ p ∈ (i.terms field).positions t) := by
  have hkept : (Field.all.any fun field => !selected field && (i.terms field).contains t) = true ↔
      ∃ field, selected field = false ∧ t ∈ (i.terms field).keys := by
    simp [Field.mem_all, ByteMap.contains, mem_keys_iff, Option.isSome_iff_exists]
  rw [← hkept]
  unfold overwritten
  by_cases hstays : (Field.all.any fun field => !selected field && (i.terms field).contains t) = true
  · simp only [hstays, if_true, true_and]
    simp [Field.mem_all]
  · simp only [hstays, Bool.false_eq_true, if_false, false_and, List.not_mem_nil]

/-- Writing all fields that have terms over nothing is writing the document. -/
theorem overwritten_blank (doc : Document) :
    ({} : Imprint).overwritten doc (fun field => !(doc.terms field).isEmpty) = { terms := doc.terms } := by
  unfold overwritten
  congr 1
  · funext field
    split
    · rfl
    · rename_i hempty
      have hentries : (doc.terms field).entries = [] := by simpa [ByteMap.isEmpty] using hempty
      exact (ByteMap.ext_find? fun key => by unfold ByteMap.find?; rw [hentries]; rfl)
  · funext t
    simp [ByteMap.contains]

end Imprint

namespace Draft

/-! ### One document -/

/-- The terms and the positions of a document are those of the imprint. -/
structure Shows (d : Draft) (id : DocId) (i : Imprint) : Prop where
  terms : ∀ field t, t ∈ d.store.termsOf field id ↔ t ∈ (i.terms field).keys
  positions : ∀ t p, HasPosition (d.listsOf t).2 id p ↔ p ∈ i.stored t

section Shows

variable {d d' : Draft} {id : DocId} {i : Imprint}

theorem Shows.of_sameIndex (h : d.Shows id i) (hpending : d'.pending = d.pending) (hsame : SameIndex d.store d'.store) :
    d'.Shows id i := by
  have hlists : ∀ t, d'.listsOf t = d.listsOf t := listsOf_congr hpending hsame.postings hsame.occurrences
  refine ⟨fun field t => ?_, fun t p => ?_⟩
  · rw [hsame.termsOf]
    exact h.terms field t
  · rw [hlists]
    exact h.positions t p

/-- Only terms that a document has get positions in it. -/
theorem hasTerm_of_hasPosition (hagrees : d.Agrees) (haligned : ∀ t, Aligned (d.listsOf t)) {t : Bytes} {p : UInt32}
    (h : HasPosition (d.listsOf t).2 id p) : d.store.HasTerm id t := by
  obtain ⟨o, ho, rfl, _⟩ := h
  exact (hagrees.posted t o.id).mp ((haligned t).within o ho)

/-- What has no terms shows the blank imprint. -/
theorem shows_blank (hagrees : d.Agrees) (haligned : ∀ t, Aligned (d.listsOf t)) (hnone : ∀ t, ¬ d.store.HasTerm id t) :
    d.Shows id {} := by
  refine ⟨fun field t => ?_, fun t p => ?_⟩
  · exact iff_of_false (fun ht => hnone t ⟨field, ht⟩) List.not_mem_nil
  · refine iff_of_false (fun hposition => hnone t (hasTerm_of_hasPosition hagrees haligned hposition)) ?_
    rw [Imprint.mem_stored_iff, Imprint.mem_given_iff]
    rintro (⟨_, hmem⟩ | hmem) <;> cases hmem

variable {doc : Document} {selected : Field → Bool} {dropped : List Bytes}

/-- The terms that only the selected fields of a document have are retracted, and then these fields are filled. -/
theorem Shows.fill (h : d.Shows doc.id i) (hagrees : d.Agrees) (haligned : ∀ t, Aligned (d.listsOf t))
    (hterms : ∀ field, Storable (doc.terms field).keys)
    (hdropped : ∀ t, t ∈ dropped ↔ d.store.HasTerm doc.id t ∧
      ∀ field, selected field = false → t ∉ d.store.termsOf field doc.id) :
    (withFields doc selected Field.all (d.enqueueRemovals doc.id dropped)).Shows doc.id
    (i.overwritten doc selected) := by
  refine ⟨fun field t => ?_, fun t p => ?_⟩
  · rw [termsOf_withFields hterms, enqueueRemovals_store]
    unfold Imprint.overwritten
    cases hselected : selected field with
    | true => simp [hselected, Ascending.mem_ofList]
    | false => simpa [hselected] using h.terms field t
  have hfilled :
      HasPosition ((withFields doc selected Field.all (d.enqueueRemovals doc.id dropped)).listsOf t).2 doc.id p ↔
      (∃ field, selected field = true ∧ p ∈ (doc.terms field).positions t) ∨
        HasPosition (d.listsOf t).2 doc.id p ∧ t ∉ dropped := by
    rw [(tracked_position p).withFields, (tracked_position p).enqueueRemovals hagrees.ascend]
    simp [Field.mem_all, TermMap.mem_positions_iff]
  rw [hfilled, Imprint.mem_stored_iff, Imprint.mem_given_overwritten_iff, Imprint.mem_left_overwritten_iff, or_assoc]
  refine or_congr_right ?_
  by_cases hstays : ∃ field, selected field = false ∧ t ∈ (i.terms field).keys
  -- a field that stays has the term: all of its positions stay
  · have hkept : t ∉ dropped := by
      obtain ⟨field, hselected, hmem⟩ := hstays
      exact fun ht => ((hdropped t).mp ht).2 field hselected ((h.terms field t).mpr hmem)
    have hsplit : (∃ field, p ∈ (i.terms field).positions t) ↔
        (∃ field, selected field = false ∧ p ∈ (i.terms field).positions t) ∨
          ∃ field, selected field = true ∧ p ∈ (i.terms field).positions t := by
      rw [← exists_or]
      refine exists_congr fun field => ?_
      cases hselected : selected field <;> simp
    rw [and_iff_left hkept, h.positions, Imprint.mem_stored_iff, Imprint.mem_given_iff, hsplit, or_assoc,
      and_iff_right hstays]
    exact or_congr_right or_comm
  -- none has it: whatever the term had is retracted
  · have hgone : ¬ (HasPosition (d.listsOf t).2 doc.id p ∧ t ∉ dropped) := by
      rintro ⟨hposition, hkept⟩
      refine hkept ((hdropped t).mpr ⟨hasTerm_of_hasPosition hagrees haligned hposition, fun field hselected ht => ?_⟩)
      exact hstays ⟨field, hselected, (h.terms field t).mp ht⟩
    have hnone : ¬ ∃ field, selected field = false ∧ p ∈ (i.terms field).positions t := by
      rintro ⟨field, hselected, hmem⟩
      obtain ⟨positions, hfind, _⟩ := TermMap.mem_positions_iff.mp hmem
      exact hstays ⟨field, hselected, mem_keys_iff.mpr ⟨positions, hfind⟩⟩
    simp only [hgone, hnone, hstays, false_and, or_self]

/-- Other documents keep what they show. -/
theorem Shows.fill_other (h : d.Shows id i) (hascend : d.IdsAscend) (hterms : ∀ field, Storable (doc.terms field).keys)
    (hid : id ≠ doc.id) : (withFields doc selected Field.all (d.enqueueRemovals doc.id dropped)).Shows id i := by
  refine ⟨fun field t => ?_, fun t p => ?_⟩
  · rw [termsOf_withFields hterms, if_neg fun hsame => hid hsame.2, enqueueRemovals_store]
    exact h.terms field t
  · rw [(tracked_position p).withFields, (tracked_position p).enqueueRemovals hascend, h.positions]
    simp [hid]

theorem Shows.clear_other (h : d.Shows id i) (hascend : d.IdsAscend) {other : DocId} (hid : id ≠ other) :
    (withoutFields other Field.all d).Shows id i := by
  refine ⟨fun field t => ?_, fun t p => ?_⟩
  · rw [termsOf_withoutFields, if_neg hid]
    exact h.terms field t
  · rw [(tracked_position p).withoutFields Field.nodup_all hascend, h.positions]
    simp [hid]

end Shows

/-! ### All documents -/

/-- Every document shows its imprint. -/
def Imprinted (imprint : DocId → Imprint) (d : Draft) : Prop :=
  ∀ id, d.store.hasDocument id = true → d.Shows id (imprint id)

/-- After a change every document shows what the change leaves of it, or the same as before if the change failed. -/
def ImprintedBy (imprint : DocId → Imprint) (op : WriteOp) : EStateM.Result Error Draft Unit → Prop
  | .ok _ d => d.Imprinted fun id => (imprint id).record id op
  | .error _ d => d.Imprinted imprint

/-- What is asked of a change: documents are built of terms, and what is overwritten is a document. -/
def Rewrites (d : Draft) : WriteOp → Prop
  | .add doc => builtRule.fit doc
  | .replace doc _ | .rename doc => builtRule.fit doc ∧ d.store.hasDocument doc.id = true
  | _ => True

section Imprinted

variable {imprint : DocId → Imprint} {d d' : Draft} {op : WriteOp}

theorem Rewrites.allowed (h : d.Rewrites op) : Allowed d op := by
  cases op with
  | add doc => exact h.2
  | replace doc parts => exact ⟨h.1.2, .inl h.2⟩
  | rename doc => exact ⟨h.1.2, h.2⟩
  | remove | removeSubtree | addPending | removePending | addFailed | removeFailed => trivial

theorem Rewrites.allows (h : d.Rewrites op) (resolver : Resolver) : builtRule.Allows resolver d op := by
  refine Change.allows_of_fit (c := ⟨resolver, op⟩) (fun doc hdoc => ?_) d
  cases op with
  | add => exact Option.some.inj hdoc ▸ h
  | replace | rename => exact Option.some.inj hdoc ▸ h.1
  | remove | removeSubtree | addPending | removePending | addFailed | removeFailed => cases hdoc

theorem Imprinted.of_sameIndex (h : d.Imprinted imprint) (hpending : d'.pending = d.pending)
    (hsame : SameIndex d.store d'.store)
    (hdocuments : ∀ id, d'.store.hasDocument id = true → d.store.hasDocument id = true) : d'.Imprinted imprint :=
  fun id hid => (h id (hdocuments id hid)).of_sameIndex hpending hsame

/-- A change that is about no terms leaves the imprints. -/
theorem Imprinted.by_of_leftBy {r : EStateM.Result Error Draft Unit} (h : (leftBy r).Imprinted imprint)
    (hop : ∀ id i, Imprint.record id i op = i) : ImprintedBy imprint op r := by
  cases r with
  | ok _ d =>
    intro id hid
    simp only [hop]
    exact h id hid
  | error e d => exact h

theorem Imprinted.add (h : d.Imprinted imprint) (hsound : d.Sound) (haligned : ∀ t, Aligned (d.listsOf t))
    (resolver : Resolver) {doc : Document} (hterms : ∀ field, Storable (doc.terms field).keys) :
    ImprintedBy imprint (.add doc) (Draft.add resolver doc d) := by
  rcases add_cases resolver doc hsound.readable.tree with ⟨_, e, hadd⟩ | ⟨_, hnew, _, s, _, _, _, hsame, hadd⟩
  · rw [hadd]
    exact h
  rw [hadd]
  let timed : Draft := { d with store := s.withTime doc.id doc.time }
  have hindex : SameIndex d.store timed.store :=
    hsame.sameIndex.trans (sameButRecords_withTime s doc.id doc.time).sameIndex
  have hlists : ∀ t, timed.listsOf t = d.listsOf t := listsOf_congr rfl hindex.postings hindex.occurrences
  have hagrees : timed.Agrees := hsound.toAgrees.of_sameIndex rfl hindex
  have hpending := pending_entered doc { d with store := s }
  have hrecords := (sameButRecords_entered doc { d with store := s }).sameIndex
  intro id hid
  show Shows _ id (if doc.id = id then { terms := doc.terms } else imprint id)
  by_cases heq : doc.id = id
  · subst heq
    have hnone : ∀ t, ¬ timed.store.HasTerm doc.id t := by
      intro t ht
      have hdoc := hsound.documents doc.id t ((hindex.hasTerm doc.id t).mp ht)
      rw [hnew] at hdoc
      cases hdoc
    have haligned' : ∀ t, Aligned (timed.listsOf t) := fun t => (hlists t).symm ▸ haligned t
    have hdropped : ∀ t, t ∈ ([] : List Bytes) ↔ timed.store.HasTerm doc.id t ∧
        ∀ field, (!(doc.terms field).isEmpty) = false → t ∉ timed.store.termsOf field doc.id :=
      fun t => iff_of_false List.not_mem_nil fun ht => hnone t ht.1
    have hfilled := (shows_blank hagrees haligned' hnone).fill hagrees haligned' hterms hdropped
    rw [Imprint.overwritten_blank] at hfilled
    rw [if_pos rfl]
    exact hfilled.of_sameIndex hpending hrecords
  · rw [if_neg heq]
    have htimes : (entered doc { d with store := s }).store.times =
        s.times.insert (DocId.toKey doc.id) doc.time.encode :=
      times_entered doc { d with store := s }
    rw [hasDocument_of_insert htimes, hasDocument_congr (by rw [hsame]), Bool.or_eq_true, decide_eq_true_eq] at hid
    have hbefore : timed.Shows id (imprint id) := (h id (hid.resolve_left (Ne.symm heq))).of_sameIndex rfl hindex
    have hfilled : (withFields doc (fun field => !(doc.terms field).isEmpty) Field.all
        (timed.enqueueRemovals doc.id [])).Shows id (imprint id) :=
      hbefore.fill_other hagrees.ascend hterms (Ne.symm heq)
    exact hfilled.of_sameIndex hpending hrecords

theorem Imprinted.replace (h : d.Imprinted imprint) (hsound : d.Sound) (haligned : ∀ t, Aligned (d.listsOf t))
    (resolver : Resolver) {doc : Document} (parts : Parts) (hterms : ∀ field, Storable (doc.terms field).keys)
    (hdoc : d.store.hasDocument doc.id = true) :
    ImprintedBy imprint (.replace doc parts) (Draft.replace resolver doc parts d) := by
  rcases replace_cases resolver doc parts hsound.readable with
    ⟨e, hreplace⟩ | ⟨_, s, time?, _, _, hsame, _, _, hreplace⟩
  · rw [hreplace]
    exact h
  rw [hreplace]
  have hindex := hsame.sameIndex.trans (sameButRecords_rewritten s doc parts time?).sameIndex
  intro id hid
  show Shows _ id (if doc.id = id then (imprint id).overwritten doc parts.terms else imprint id)
  by_cases heq : doc.id = id
  · subst heq
    have hfilled : (refilled doc parts d).Shows doc.id ((imprint doc.id).overwritten doc parts.terms) :=
      (h doc.id hdoc).fill hsound.toAgrees haligned hterms fun t => mem_droppedTerms
    rw [if_pos rfl]
    exact hfilled.of_sameIndex rfl hindex
  · rw [if_neg heq]
    have hbefore : d.store.hasDocument id = true := by
      have htimes := times_rewritten s doc parts time?
      have hold : s.times = d.store.times := by rw [hsame, sameButTerms_refilled doc parts d]
      change (s.rewritten doc parts time?).hasDocument id = true at hid
      cases htime : parts.time with
      | true =>
        rw [htime, if_pos rfl] at htimes
        rw [hasDocument_of_insert htimes, hasDocument_congr hold, Bool.or_eq_true, decide_eq_true_eq] at hid
        exact hid.resolve_left (Ne.symm heq)
      | false =>
        rw [htime, if_neg Bool.false_ne_true] at htimes
        rwa [hasDocument_congr htimes, hasDocument_congr hold] at hid
    have hfilled : (refilled doc parts d).Shows id (imprint id) :=
      (h id hbefore).fill_other hsound.ascend hterms (Ne.symm heq)
    exact hfilled.of_sameIndex rfl hindex

/-- Removing one document after the other leaves those that stay as they are. -/
theorem keeps_imprinted_remove (id : DocId) : Keeps (fun d => d.Sound ∧ d.Imprinted imprint) (Draft.remove id) := by
  rintro d ⟨hsound, h⟩
  refine ⟨hsound.remove id, ?_⟩
  by_cases hid : id = 0
  · rw [hid, remove_zero]
    exact h
  obtain ⟨_, s, time?, _, _, _, hsame, hremove⟩ := remove_eq hid hsound.readable
  rw [hremove, leftBy_ok]
  have hindex := hsame.sameIndex.trans (sameButRecords_withoutRecords s id time?).sameIndex
  intro other hother
  have htimes : s.times = d.store.times := by rw [hsame, sameButTerms_withoutFields id Field.all d]
  change (s.withoutRecords id time?).hasDocument other = true at hother
  rw [hasDocument_of_erase (times_withoutRecords s id time?), hasDocument_congr htimes, Bool.and_eq_true,
    decide_eq_true_eq] at hother
  exact ((h other hother.2).clear_other hsound.ascend hother.1).of_sameIndex rfl hindex

/-- Every change leaves of the documents what it is to leave, whether it succeeds or fails. -/
theorem Imprinted.run (h : d.Imprinted imprint) (hsound : d.Sound) (haligned : ∀ t, Aligned (d.listsOf t))
    (resolver : Resolver) (hop : d.Rewrites op) : ImprintedBy imprint op (Draft.run resolver op d) := by
  have hmark : Marks op → (leftBy (Draft.run resolver op d)).Imprinted imprint := by
    intro hmarks
    rcases mark_cases hmarks resolver d with ⟨e, hrun⟩ | ⟨s, hsame, hrun⟩
    · rw [hrun]
      exact h
    · rw [hrun]
      have htimes : s.times = d.store.times := by rw [hsame]
      exact h.of_sameIndex rfl hsame.sameButRecords.sameIndex fun id hid => by rwa [← hasDocument_congr htimes]
  cases op with
  | add doc => exact h.add hsound haligned resolver hop.2
  | remove id => exact by_of_leftBy (keeps_imprinted_remove id d ⟨hsound, h⟩).2 fun _ _ => rfl
  | removeSubtree id =>
    exact by_of_leftBy (keeps_removeSubtree keeps_imprinted_remove id d ⟨hsound, h⟩).2 fun _ _ => rfl
  | replace doc parts => exact h.replace hsound haligned resolver parts hop.1.2 hop.2
  | rename doc => exact h.replace hsound haligned resolver .rename hop.1.2 hop.2
  | addPending | removePending | addFailed | removeFailed => exact by_of_leftBy (hmark trivial) fun _ _ => rfl

/-- A commit stores what the documents show. -/
theorem Imprinted.commit (h : d.Imprinted imprint) (htidy : d.Tidy) {s : Store} (hcommit : d.commit = .ok s) :
    ({ store := s } : Draft).Imprinted imprint := by
  have hframe := sameButLists_commit hcommit
  have hread : ∀ t, readOccurrences (OccurrenceList.encode (d.listsOf t).2) = (d.listsOf t).2 :=
    fun t => (htidy.listed.lists t).neat.read_encode
  intro id hid
  rw [hasDocument_congr (by rw [hframe])] at hid
  refine ⟨fun field t => ?_, fun t p => ?_⟩
  · have hterms : s.termsOf field id = d.store.termsOf field id := by
      unfold Store.termsOf
      rw [hframe.termTable]
    exact hterms ▸ (h id hid).terms field t
  · have hlists : (({ store := s } : Draft).listsOf t).2 = (d.listsOf t).2 := (occurrencesOf_commit hcommit hread).1 t
    rw [hlists]
    exact (h id hid).positions t p

/-- Changes and commits carry on what documents show. -/
theorem account_imprinted (resolver : Resolver) :
    Account resolver Rewrites fun ops d => d.Sound ∧ d.Tidy ∧ d.Imprinted (Imprint.of · ops) := by
  have hkeeps : ∀ {d op}, d.Sound → d.Tidy → d.Rewrites op →
      (leftBy (Draft.run resolver op d)).Sound ∧ (leftBy (Draft.run resolver op d)).Tidy := fun hsound htidy hop =>
    ⟨hsound.run resolver hop.allowed, (keep_run Tidy.step htidy hsound.readable (hop.allows resolver)).1⟩
  refine ⟨fun {ops d op d'} hd hop hrun => ?_, fun {ops d op e d'} hd hop hrun => ?_, fun hd hcommit =>
    ⟨hd.1.commit hcommit, hd.2.1.commit hcommit, hd.2.2.commit hd.2.1 hcommit⟩⟩
  · obtain ⟨hsound, htidy, h⟩ := hd
    have hleft := hkeeps hsound htidy hop
    have hshows := h.run hsound htidy.listed.lists resolver hop
    rw [hrun] at hleft hshows
    refine ⟨hleft.1, hleft.2, ?_⟩
    simp only [Imprint.of_append]
    exact hshows
  · obtain ⟨hsound, htidy, h⟩ := hd
    have hleft := hkeeps hsound htidy hop
    have hshows := h.run hsound htidy.listed.lists resolver hop
    rw [hrun] at hleft hshows
    exact ⟨hleft.1, hleft.2, hshows⟩

end Imprinted
end Draft

namespace Session

/-- After every run in which documents are built of terms and only documents are overwritten, the positions that are
stored of a term in a document are those that its fields give it, and those that are left of fields which were
overwritten while another one had the term. So they are those that the fields give exactly if no others are left. A
phrase is found just where the stored positions follow each other. -/
theorem positions_afterAt (resolver : Resolver) (moments : List Moment)
    (h : ({ resolver } : Session).ObeysAt (fun _ => Draft.Rewrites) moments) :
    let s := (({ resolver } : Session).afterAt moments).committed
    let imprint := fun id => Imprint.of id (({ resolver } : Session).written moments)
    (∀ id, s.hasDocument id = true → ∀ t,
      (∀ ps, ⟨id, ps⟩ ∈ s.occurrencesOf t ↔ ps ≠ [] ∧ ps = (imprint id).stored t) ∧
      ((∀ ps, ⟨id, ps⟩ ∈ s.occurrencesOf t ↔ ps ≠ [] ∧ ps = Ascending.ofList ((imprint id).given t)) ↔
        ∀ p ∈ (imprint id).left t, p ∈ (imprint id).given t)) ∧
    ∀ ws : List Bytes, 2 ≤ ws.length →
      ∃ q ids, Query.phraseOf ws = .ok q ∧ s.search q none = .ok ids ∧ ids.Pairwise (· < ·) ∧
        ∀ id, id ∈ ids ↔ s.hasDocument id = true ∧
          ∃ start, ∀ i (h : i < ws.length), ∃ p ∈ (imprint id).stored ws[i], p.toNat = start + i := by
  intro s imprint
  have hstart : Account.Holds (fun ops d => d.Sound ∧ d.Tidy ∧ d.Imprinted (Imprint.of · ops)) {}
      ({ resolver } : Session) := by
    refine ⟨⟨Draft.sound_empty, Draft.tidy_empty, fun id hid => ?_⟩, .none⟩
    cases hid
  obtain ⟨⟨hsound, htidy, himprinted⟩, _⟩ := Account.afterAt Draft.account_imprinted hstart h
  have hshows : ∀ id, s.hasDocument id = true → ∀ t p, HasPosition (s.occurrencesOf t) id p ↔
    p ∈ (imprint id).stored t :=
    fun id hid => (himprinted id hid).positions
  have haligned : ∀ t, Aligned (s.idsWith t, s.occurrencesOf t) := htidy.listed.lists
  have hdocument : ∀ {id t p}, HasPosition (s.occurrencesOf t) id p → s.hasDocument id = true := fun hposition =>
    hsound.documents _ _ (Draft.hasTerm_of_hasPosition hsound.toAgrees htidy.listed.lists hposition)
  refine ⟨fun id hid t => ?_, fun ws hws => ?_⟩
  · have hlisted : ∀ ps, ⟨id, ps⟩ ∈ s.occurrencesOf t ↔ ps ≠ [] ∧ ps = (imprint id).stored t := fun _ =>
      (haligned t).neat.mem_iff (Ascending.pairwise_ofList _) (hshows id hid t)
    exact ⟨hlisted, Imprint.listed_iff hlisted⟩
  have hne : ws ≠ [] := List.ne_nil_of_length_pos (by omega)
  obtain ⟨q, ids, hq, hsearch, hascending, hmem⟩ := (wellFormed_of_tidy htidy).sorted.search_phraseOf hne
  refine ⟨q, ids, hq, hsearch, hascending, fun id => ?_⟩
  rw [hmem, matches_phrase_iff hws]
  constructor
  · rintro ⟨start, hall⟩
    have hid : s.hasDocument id = true := by
      obtain ⟨o, ho, hid, p, hp, _⟩ := hall 0 (by omega)
      exact hdocument ⟨o, ho, hid, hp⟩
    refine ⟨hid, start, fun i hi => ?_⟩
    obtain ⟨o, ho, hoid, p, hp, heq⟩ := hall i hi
    exact ⟨p, (hshows id hid _ p).mp ⟨o, ho, hoid, hp⟩, heq⟩
  · rintro ⟨hid, start, hall⟩
    refine ⟨start, fun i hi => ?_⟩
    obtain ⟨p, hp, heq⟩ := hall i hi
    obtain ⟨o, ho, hoid, hp'⟩ := (hshows id hid _ p).mpr hp
    exact ⟨o, ho, hoid, p, hp', heq⟩

/-- The content of a document is overwritten while the name of its file has one of the words. The document is
still found by the phrase, although no field gives a position to that word. -/
theorem positions_afterAt_overwritten_content :
    let plain : Document := { id := 5, url := [0x2F, 0x64] }
    let old := ((plain.addPosition .content [0x61] 1).addPosition .content [0x62] 2).addTerm .fileName [0x61]
    let new := plain.addPosition .content [0x62] 2
    let moments : List Moment := [⟨.nowhere, .beginWrite⟩, ⟨.nowhere, .write (.add old)⟩, ⟨.nowhere, .commit⟩,
      ⟨.nowhere, .beginWrite⟩, ⟨.nowhere, .write (.replace new { contentTerms := true })⟩, ⟨.nowhere, .commit⟩]
    let start : Session := { resolver := .nowhere }
    let s := (start.afterAt moments).committed
    s.hasDocument 5 = true ∧ (Imprint.of 5 (start.written moments)).given [0x61] = [] ∧
      s.occurrencesOf [0x61] = [⟨5, [1]⟩] ∧
      s.search (.composite .phrase [.term [0x61], .term [0x62]]) none = .ok [5] := by
  intro plain old new moments start s
  refine ⟨?_, ?_, ?_, ?_⟩ <;> decide +kernel

/-- Once the name of its file no longer has the word either, nothing of the old positions is left. -/
theorem positions_afterAt_renamed :
    let plain : Document := { id := 5, url := [0x2F, 0x64] }
    let old := ((plain.addPosition .content [0x61] 1).addPosition .content [0x62] 2).addTerm .fileName [0x61]
    let new := plain.addPosition .content [0x62] 2
    let moments : List Moment := [⟨.nowhere, .beginWrite⟩, ⟨.nowhere, .write (.add old)⟩, ⟨.nowhere, .commit⟩,
      ⟨.nowhere, .beginWrite⟩, ⟨.nowhere, .write (.replace new { contentTerms := true })⟩,
      ⟨.nowhere, .write (.rename (plain.addTerm .fileName [0x63]))⟩, ⟨.nowhere, .commit⟩]
    let start : Session := { resolver := .nowhere }
    let s := (start.afterAt moments).committed
    start.ObeysAt (fun _ => Draft.Rewrites) moments ∧ (∀ ps, ⟨5, ps⟩ ∉ s.occurrencesOf [0x61]) ∧
      ⟨5, [2]⟩ ∈ s.occurrencesOf [0x62] := by
  intro plain old new moments start s
  have hplain : plain.Keyed := .plain 5 _ _ _ _
  have hold : old.Keyed :=
    ((hplain.addPosition .content 1 (by decide)).addPosition .content 2 (by decide)).addTerm .fileName (by decide)
  have hnew : new.Keyed := hplain.addPosition .content 2 (by decide)
  have hrenamed : (plain.addTerm .fileName [0x63]).Keyed := hplain.addTerm .fileName (by decide)
  have hobeys : start.ObeysAt (fun _ => Draft.Rewrites) moments := by
    refine ⟨fun op d hop => ?_, fun op d hop _ => ?_, fun op d hop => ?_, fun op d hop => ?_, fun op d hop hd => ?_,
      fun op d hop hd => ?_, fun op d hop => ?_, trivial⟩
    · cases hop
    · cases hop
      exact hold.built
    · cases hop
    · cases hop
    · cases hop
      exact ⟨hnew.built, eq_of_draft hd (·.store.hasDocument 5) true (by decide +kernel)⟩
    · cases hop
      exact ⟨hrenamed.built, eq_of_draft hd (·.store.hasDocument 5) true (by decide +kernel)⟩
    · cases hop
  obtain ⟨hstored, _⟩ := positions_afterAt .nowhere moments hobeys
  have hlive : s.hasDocument 5 = true := by decide +kernel
  refine ⟨hobeys, fun ps hmem => ?_, ((hstored 5 hlive [0x62]).1 [2]).mpr (by decide +kernel)⟩
  obtain ⟨hne, hps⟩ := ((hstored 5 hlive [0x61]).1 ps).mp hmem
  exact hne (hps.trans (by decide +kernel))

end Session
end FileIndex
