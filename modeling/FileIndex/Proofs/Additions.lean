import FileIndex.Proofs.Replacing

/-!
# What is stored of an added document

A document is taken for new if it has no times. Terms and a payload that were written under its id all the same stay
where the document has none itself, and the lists of the terms that it does not have keep it.

* `Store.HoldsJust`: stored of a document is what it has. `Draft.Vacant`: nothing is left under its id that would stay.
* `Entered.mem_ids`, `Entered.termsOf`, `Entered.payloadOf`: the lists, the terms and the payload of an added document.
* `Store.PayloadsOwned`: payloads are those of documents. `PayloadsOwned.run`: allowed changes keep it.
  `Session.owned_afterAt`: so it is in every run of them. `Sound.vacant`: then nothing is left under a new id.
* `Session.stored_of_added`: what a commit stores of an added document, and that it is just what the document has if all
  that was overwritten before were documents.
-/

namespace FileIndex

open Store

theorem Ascending.ofList_keys {α : Type} (m : ByteMap α) : Ascending.ofList m.keys = m.keys :=
  (Ascending.pairwise_ofList m.keys).eq_of_mem_iff (List.pairwise_map.mpr m.ascending) fun _ => Ascending.mem_ofList

namespace Store

/-- Stored of the document are its terms and its payload, and nothing else. -/
structure HoldsJust (s : Store) (doc : Document) : Prop where
  posted : ∀ t, doc.id ∈ s.idsWith t ↔ ∃ field, t ∈ (doc.terms field).keys
  terms : ∀ field, s.termsOf field doc.id = (doc.terms field).keys
  payload : s.payloadOf doc.id = doc.payload

/-- Payloads are those of documents. -/
def PayloadsOwned (s : Store) : Prop := ∀ id, s.hasPayload id = true → s.hasDocument id = true

end Store

namespace Draft

variable {resolver : Resolver} {doc : Document} {parts : Parts} {id : DocId} {d d' : Draft}

/-- What is left under the id of the document is overwritten when it is added. -/
structure Vacant (d : Draft) (doc : Document) : Prop where
  posted : ∀ t, doc.id ∈ (d.listsOf t).1 → ∃ field, t ∈ (doc.terms field).keys
  terms : ∀ field, (doc.terms field).isEmpty = true → d.store.termsOf field doc.id = []
  payload : doc.payload.isEmpty = true → d.store.payloadOf doc.id = []

/-! ### What is entered -/

theorem mem_foldl_adds {changes : List PostingChange} (h : ∀ c ∈ changes, ∃ positions, c = .add ⟨id, positions⟩)
    (lists : List DocId × List Occurrence) :
    id ∈ (changes.foldl applyChange lists).1 ↔ changes ≠ [] ∨ id ∈ lists.1 := by
  induction changes generalizing lists with
  | nil => simp
  | cons c cs ih =>
    obtain ⟨⟨positions, rfl⟩, hcs⟩ := List.forall_mem_cons.mp h
    rw [List.foldl_cons, ih hcs]
    show _ ∨ id ∈ Ascending.insert id lists.1 ↔ _
    simp [Ascending.mem_insert]

/-- An added document is listed with the terms that it has and those that it was listed with before. -/
theorem Entered.mem_ids (h : Entered doc d d') (t : Bytes) :
    doc.id ∈ (d'.listsOf t).1 ↔ (∃ field, t ∈ (doc.terms field).keys) ∨ doc.id ∈ (d.listsOf t).1 := by
  have hadds : ∀ c ∈ gains doc (fun field => !(doc.terms field).isEmpty) Field.all t,
      ∃ positions, c = .add ⟨doc.id, positions⟩ := by
    intro c hc
    obtain ⟨field, _, hc⟩ := List.mem_flatMap.mp hc
    split at hc
    · obtain ⟨e, _, rfl⟩ := List.mem_map.mp hc
      exact ⟨e.2, rfl⟩
    · cases hc
  rw [(h.queued t).lists, mem_foldl_adds hadds, ne_eq, gains_eq_nil_iff]
  refine or_congr_left ?_
  simp only [not_forall, not_not]
  constructor
  · rintro ⟨field, _, ht⟩
    exact ⟨field, ht⟩
  · rintro ⟨field, ht⟩
    refine ⟨field, ?_, ht⟩
    obtain ⟨e, he, _⟩ := List.mem_map.mp ht
    rw [ByteMap.isEmpty, Bool.not_eq_true', List.isEmpty_eq_false_iff]
    exact List.ne_nil_of_mem he

/-- An added document has its own terms in the fields in which it has any, and what was there in the others. -/
theorem Entered.termsOf (h : Entered doc d d') (hterms : ∀ field, Storable (doc.terms field).keys) (field : Field) :
    d'.store.termsOf field doc.id =
      if (doc.terms field).isEmpty then d.store.termsOf field doc.id else (doc.terms field).keys := by
  unfold Store.termsOf
  rw [h.terms]
  cases hempty : (doc.terms field).isEmpty with
  | true => simp
  | false => simp [read_stored (hterms field), Ascending.ofList_keys]

theorem Entered.payloadOf (h : Entered doc d d') :
    d'.store.payloadOf doc.id = if doc.payload.isEmpty then d.store.payloadOf doc.id else doc.payload := by
  unfold Store.payloadOf
  rw [h.payloads]
  cases doc.payload.isEmpty with
  | true => rfl
  | false => simp

end Draft

/-! ### Payloads -/

namespace Store

open Draft

variable {resolver : Resolver} {doc : Document} {parts : Parts} {id : DocId} {d d' : Draft}

/-- Whether payloads are those of documents is a matter of the one id whose records change. -/
theorem PayloadsOwned.of_tables (id : DocId) {s s' : Store} (h : s.PayloadsOwned)
    (hothers : ∀ other, other ≠ id → s'.payloads.find? (DocId.toKey other) = s.payloads.find? (DocId.toKey other) ∧
      s'.hasDocument other = s.hasDocument other)
    (hself : s'.hasPayload id = true → s'.hasDocument id = true) : s'.PayloadsOwned := by
  intro other hother
  by_cases hid : other = id
  · subst hid
    exact hself hother
  · obtain ⟨hpayload, hdocument⟩ := hothers other hid
    rw [hdocument]
    refine h other ?_
    unfold hasPayload ByteMap.contains at hother ⊢
    rwa [← hpayload]

theorem PayloadsOwned.add (h : d.store.PayloadsOwned) (hentered : Entered doc d d') : d'.store.PayloadsOwned := by
  have hdocument := hasDocument_of_insert hentered.times
  refine .of_tables doc.id h (fun other hother => ⟨?_, ?_⟩) fun _ => ?_
  · have hkey : DocId.toKey other ≠ DocId.toKey doc.id := fun hsame => hother (DocId.toKey_inj.mp hsame)
    rw [hentered.payloads]
    split
    · rfl
    · exact (ByteMap.find?_insert ..).trans (if_neg hkey)
  · rw [hdocument]
    simp [hother]
  · rw [hdocument]
    simp

theorem PayloadsOwned.remove (h : d.store.PayloadsOwned) (hcleared : Cleared id d d') : d'.store.PayloadsOwned := by
  have hdocument := hasDocument_of_erase hcleared.records.times
  refine .of_tables id h (fun other hother => ⟨?_, ?_⟩) fun hself => ?_
  · rw [hcleared.records.payloads]
    exact find?_erase_toKey _ hother
  · rw [hdocument]
    simp [hother]
  · rw [hasPayload, ByteMap.contains, hcleared.records.payloads, ByteMap.find?_erase, if_pos rfl] at hself
    cases hself

theorem PayloadsOwned.replace (h : d.store.PayloadsOwned) (hreplaced : Replaced doc parts d d')
    (hdoc : d.store.hasDocument doc.id = true ∨ parts.time = true) : d'.store.PayloadsOwned := by
  have hdocument : ∀ other, d'.store.hasDocument other =
    (parts.time && other = doc.id || d.store.hasDocument other) := by
    intro other
    have htimes := hreplaced.times
    cases hparts : parts.time with
    | true =>
      rw [hparts, if_pos rfl] at htimes
      rw [hasDocument_of_insert htimes, Bool.true_and]
    | false =>
      rw [hparts, if_neg Bool.false_ne_true] at htimes
      rw [hasDocument_congr htimes, Bool.false_and, Bool.false_or]
  refine .of_tables doc.id h (fun other hother => ⟨?_, ?_⟩) fun _ => ?_
  · rw [hreplaced.payloads, if_neg fun hboth => hother (DocId.toKey_inj.mp hboth.2)]
  · rw [hdocument]
    simp [hother]
  · rw [hdocument]
    obtain hstored | htime := hdoc
    · simp [hstored]
    · simp [htime]

/-- Every allowed change keeps it, whether it succeeds or fails. -/
theorem PayloadsOwned.run (h : d.store.PayloadsOwned) (hreadable : d.store.Readable) {op : WriteOp}
    (hop : Allowed d op) : (leftBy (Draft.run resolver op d)).store.PayloadsOwned := by
  have hremove : ∀ id, Keeps (fun d => d.store.PayloadsOwned ∧ d.store.Readable) (Draft.remove id) := by
    rintro id d ⟨hd, hreadable⟩
    have hleft : (leftBy (Draft.run resolver (.remove id) d)).store.Readable := readable_run hreadable (.remove id)
    refine ⟨?_, hleft⟩
    by_cases hid : id = 0
    · rw [hid, remove_zero]
      exact hd
    · obtain ⟨_, _, _, _, _, _, _, hremove⟩ := remove_eq hid hreadable
      rw [hremove]
      exact hd.remove (cleared_of_ok hreadable hremove)
  have hreplace : ∀ (doc : Document) (parts : Parts), (d.store.hasDocument doc.id = true ∨ parts.time = true) →
      (leftBy (Draft.replace resolver doc parts d)).store.PayloadsOwned := by
    intro doc parts hdoc
    rcases replace_cases resolver doc parts hreadable with ⟨e, hreplace⟩ | ⟨_, _, _, _, _, _, _, _, hreplace⟩
    · rw [hreplace]
      exact h
    · rw [hreplace]
      exact h.replace (replaced_of_ok hreadable hreplace).2 hdoc
  have hmark : Marks op → (leftBy (Draft.run resolver op d)).store.PayloadsOwned := by
    intro hmarks
    rcases mark_cases hmarks resolver d with ⟨e, hrun⟩ | ⟨s, hsame, hrun⟩
    · rw [hrun]
      exact h
    · rw [hrun, leftBy_ok, hsame]
      exact h
  cases op with
  | add doc =>
    rcases add_cases resolver doc hreadable.tree with ⟨_, e, hadd⟩ | ⟨_, _, _, _, _, _, _, _, hadd⟩
    · rw [show Draft.run resolver (.add doc) d = _ from hadd]
      exact h
    · rw [show Draft.run resolver (.add doc) d = _ from hadd]
      exact h.add (entered_of_ok hreadable.tree hadd)
  | remove id => exact (hremove id d ⟨h, hreadable⟩).1
  | removeSubtree id => exact (keeps_removeSubtree hremove id d ⟨h, hreadable⟩).1
  | replace doc parts => exact hreplace doc parts hop.2
  | rename doc => exact hreplace doc .rename (.inl hop.2)
  | addPending | removePending | addFailed | removeFailed => exact hmark trivial

theorem PayloadsOwned.commit (h : d.store.PayloadsOwned) {s : Store} (hcommit : d.commit = .ok s) :
    s.PayloadsOwned := by
  rw [sameButLists_commit hcommit]
  exact h

end Store

namespace Draft

variable {doc : Document} {d : Draft}

/-- Where only documents have terms and payloads, nothing is left under an id that is none. -/
theorem Sound.vacant (h : d.Sound) (howned : d.store.PayloadsOwned) (hnew : d.store.hasDocument doc.id = false) :
    d.Vacant doc := by
  have hnone : ∀ t, ¬ d.store.HasTerm doc.id t := fun t ht => by
    rw [h.documents doc.id t ht] at hnew
    cases hnew
  refine ⟨fun t ht => absurd ((h.posted t doc.id).mp ht) (hnone t), fun field _ => ?_, fun _ => ?_⟩
  · rw [List.eq_nil_iff_forall_not_mem]
    exact fun t ht => hnone t ⟨field, ht⟩
  · cases hfind : d.store.payloads.find? (DocId.toKey doc.id) with
    | none => rw [Store.payloadOf, hfind]; rfl
    | some value =>
      have hpayload : d.store.hasPayload doc.id = true := by rw [hasPayload, ByteMap.contains, hfind]; rfl
      rw [howned doc.id hpayload] at hnew
      cases hnew

/-- What an added document carries beside its own is what was left under its id. -/
theorem holdsJust_iff_vacant {s : Store}
    (hposted : ∀ t, doc.id ∈ s.idsWith t ↔ (∃ field, t ∈ (doc.terms field).keys) ∨ doc.id ∈ (d.listsOf t).1)
    (hterms : ∀ field, s.termsOf field doc.id =
      if (doc.terms field).isEmpty then d.store.termsOf field doc.id else (doc.terms field).keys)
    (hpayload : s.payloadOf doc.id = if doc.payload.isEmpty then d.store.payloadOf doc.id else doc.payload) :
    s.HoldsJust doc ↔ d.Vacant doc := by
  have hkeys : ∀ field, (doc.terms field).isEmpty = true → (doc.terms field).keys = [] := by
    intro field hempty
    rw [ByteMap.keys, List.isEmpty_iff.mp hempty, List.map_nil]
  constructor
  · intro h
    refine ⟨fun t ht => (h.posted t).mp ((hposted t).mpr (.inr ht)), fun field hempty => ?_, fun hempty => ?_⟩
    · have hsame := (hterms field).symm.trans (h.terms field)
      rwa [if_pos hempty, hkeys field hempty] at hsame
    · have hnil : doc.payload = [] := List.isEmpty_iff.mp hempty
      have hsame := hpayload.symm.trans h.payload
      rwa [if_pos hempty, hnil] at hsame
  · intro h
    refine ⟨fun t => (hposted t).trans (or_iff_left_of_imp (h.posted t)), fun field => ?_, ?_⟩
    · rw [hterms]
      split_ifs with hempty
      · rw [h.terms field hempty, hkeys field hempty]
      · rfl
    · rw [hpayload]
      split_ifs with hempty
      · have hnil : doc.payload = [] := List.isEmpty_iff.mp hempty
        rw [h.payload hempty, hnil]
      · rfl

end Draft

/-- In the open transaction of a run of allowed changes, terms and payloads are those of documents. -/
theorem Session.owned_afterAt {resolver : Resolver} {moments : List Moment}
    (hobeys : ({ resolver } : Session).ObeysAt (fun _ => Draft.Allowed) moments) :
    ∀ d, (({ resolver } : Session).afterAt moments).draft = some d → d.Sound ∧ d.store.PayloadsOwned := by
  have hinvariant : ∀ resolver, Invariant resolver Draft.Allowed
      (fun s => ({ store := s } : Draft).Sound ∧ s.PayloadsOwned) (fun d => d.Sound ∧ d.store.PayloadsOwned) := by
    intro resolver
    constructor
    · exact fun _ hs => hs
    · exact fun d op hd hop => ⟨hd.1.run resolver hop, hd.2.run hd.1.readable hop⟩
    · exact fun d s hd hcommit => ⟨hd.1.commit hcommit, hd.2.commit hcommit⟩
  have hstart : Invariant.Holds (fun s => ({ store := s } : Draft).Sound ∧ s.PayloadsOwned)
      (fun d => d.Sound ∧ d.store.PayloadsOwned) ({ resolver } : Session) := ⟨⟨Draft.sound_empty, nofun⟩, nofun⟩
  exact (Invariant.afterAt hinvariant hstart hobeys).2

/-- A document is added in any run, and the transaction commits. Stored of it are its terms and those that it was listed
with before, its own terms in the fields in which it has any and what was there in the others, and its payload or, if it
is empty, what was there. This is just what the document has exactly if nothing is left under its id, and so it is
if all that was overwritten in the run were documents, or became such. -/
theorem Session.stored_of_added (resolver : Resolver) (moments : List Moment) (r : Resolver) {doc : Document}
    (hsized : ∀ field, Storable (doc.terms field).keys) {d : Draft}
    (hd : (({ resolver } : Session).afterAt moments).draft = some d) {added ended : Session}
    (hadded : (({ resolver } : Session).afterAt moments).handleAt ⟨r, .write (.add doc)⟩ = (.ok (), added))
    (hended : added.handle .commit = (.ok (), ended)) :
    (∀ t, doc.id ∈ ended.committed.idsWith t ↔ (∃ field, t ∈ (doc.terms field).keys) ∨ doc.id ∈ (d.listsOf t).1) ∧
    (∀ field, ended.committed.termsOf field doc.id =
      if (doc.terms field).isEmpty then d.store.termsOf field doc.id else (doc.terms field).keys) ∧
    ended.committed.payloadOf doc.id = (if doc.payload.isEmpty then d.store.payloadOf doc.id else doc.payload) ∧
    (ended.committed.HoldsJust doc ↔ d.Vacant doc) ∧
    (({ resolver } : Session).ObeysAt (fun _ => Draft.Allowed) moments → ended.committed.HoldsJust doc) := by
  obtain ⟨d₀, d', hd₀, hrun⟩ := exists_run_of_ok (congrArg Prod.fst hadded)
  cases hd.symm.trans hd₀
  have hreadable := (ascending_afterAt resolver moments d hd).2
  have hentered := Draft.entered_of_ok hreadable.tree hrun
  have hwritten := handle_write_of_ok hd₀ hrun
  have hd' : added.draft = some d' := by
    rw [show added = _ from congrArg Prod.snd (hadded.symm.trans hwritten)]
  -- the draft that is committed is the open one of a run that is longer by the addition
  have hascend : d'.IdsAscend := by
    refine (ascending_afterAt resolver (moments ++ [⟨r, .write (.add doc)⟩]) d' ?_).1
    rw [afterAt, List.foldl_append]
    exact (congrArg (·.2.draft) hadded).trans hd'
  have hcommit : d'.commit = .ok ended.committed := commit_of_ok hd' hended
  have hframe := Draft.sameButLists_commit hcommit
  have hposted : ∀ t, doc.id ∈ ended.committed.idsWith t ↔
      (∃ field, t ∈ (doc.terms field).keys) ∨ doc.id ∈ (d.listsOf t).1 := by
    intro t
    rw [(Draft.idsWith_commit hcommit hascend).1 t]
    exact hentered.mem_ids t
  have hterms : ∀ field, ended.committed.termsOf field doc.id =
      if (doc.terms field).isEmpty then d.store.termsOf field doc.id else (doc.terms field).keys := by
    intro field
    rw [← hentered.termsOf hsized, Store.termsOf, Store.termsOf, hframe.termTable]
  have hpayload : ended.committed.payloadOf doc.id =
      if doc.payload.isEmpty then d.store.payloadOf doc.id else doc.payload := by
    rw [← hentered.payloadOf, hframe]
    rfl
  have hjust := Draft.holdsJust_iff_vacant hposted hterms hpayload
  refine ⟨hposted, hterms, hpayload, hjust, fun hobeys => hjust.mpr ?_⟩
  have hnew : d.store.hasDocument doc.id = false := by
    rcases Draft.add_cases r doc hreadable.tree with ⟨_, e, hfails⟩ | ⟨_, hnew, _⟩
    · cases hfails.symm.trans hrun
    · exact hnew
  obtain ⟨hsound, howned⟩ := owned_afterAt hobeys d hd
  exact hsound.vacant howned hnew

/-- A document is removed and another one is added under its id, with terms in another field and without a payload. -/
theorem Session.stored_of_added_in_place :
    let old : Document := ({ id := 7, url := [0x2F, 0x61], payload := [0x70] } : Document).addTerm .content [0x78]
    let new : Document := ({ id := 7, url := [0x2F, 0x62] } : Document).addTerm .fileName [0x79]
    let moments : List Moment := [⟨.nowhere, .beginWrite⟩, ⟨.nowhere, .write (.add old)⟩, ⟨.nowhere, .commit⟩,
      ⟨.nowhere, .beginWrite⟩, ⟨.nowhere, .write (.remove 7)⟩]
    let start : Session := { resolver := .nowhere }
    let added := (start.afterAt moments).handleAt ⟨.nowhere, .write (.add new)⟩
    let ended := added.2.handle .commit
    start.ObeysAt (fun _ => Draft.Allowed) moments ∧ (∀ field, Storable (new.terms field).keys) ∧ added.1 = .ok () ∧
      ended.1 = .ok () ∧ ended.2.committed.HoldsJust new := by
  intro old new moments start added ended
  have hold : ∀ field, Storable (old.terms field).keys := by
    intro field t ht
    cases field with
    | content =>
      rw [List.mem_singleton.mp ht]
      decide
    | fileName | attributes => cases ht
  have hnew : ∀ field, Storable (new.terms field).keys := by
    intro field t ht
    cases field with
    | fileName =>
      rw [List.mem_singleton.mp ht]
      decide
    | content | attributes => cases ht
  have hobeys : start.ObeysAt (fun _ => Draft.Allowed) moments := by
    refine .of_changes fun m hm op hop d => ?_
    simp only [moments, List.mem_cons, List.not_mem_nil, or_false] at hm
    obtain rfl | rfl | rfl | rfl | rfl := hm <;> cases hop
    · exact hold
    · trivial
  have hadded : added.1 = .ok () := by decide +kernel
  have hended : ended.1 = .ok () := by decide +kernel
  obtain ⟨d, hd⟩ : ∃ d, (start.afterAt moments).draft = some d := Option.isSome_iff_exists.mp (by decide +kernel)
  have hsession : added = (.ok (), added.2) := Prod.fst_eq_iff.mp hadded
  have hcommit : added.2.handle .commit = (.ok (), ended.2) := Prod.fst_eq_iff.mp hended
  obtain ⟨_, _, _, _, hjust⟩ := stored_of_added .nowhere moments .nowhere hnew hd hsession hcommit
  exact ⟨hobeys, hnew, hadded, hended, hjust hobeys⟩

/-- Terms were stored under an id that was never that of a document. The document that is added under it later
has another term and is found by both. -/
theorem Session.stale_term_of_added :
    let stray : Document := ({ id := 5 } : Document).addTerm .content [0x61]
    let doc : Document := ({ id := 5, url := [0x2F, 0x78] } : Document).addTerm .content [0x62]
    let moments : List Moment := [⟨.nowhere, .beginWrite⟩, ⟨.nowhere, .write (.replace stray { contentTerms := true })⟩,
      ⟨.nowhere, .commit⟩, ⟨.nowhere, .beginWrite⟩]
    let added := (({ resolver := .nowhere } : Session).afterAt moments).handleAt ⟨.nowhere, .write (.add doc)⟩
    let ended := added.2.handle .commit
    let store := ended.2.committed
    doc.Keyed ∧ added.1 = .ok () ∧ ended.1 = .ok () ∧ doc.id ∈ store.idsWith [0x61] ∧
      (∀ field, [0x61] ∉ (doc.terms field).keys) ∧ ¬ store.HoldsJust doc := by
  intro stray doc moments added ended store
  have hkeyed : doc.Keyed := (Document.Keyed.plain 5 _ _ _ _).addTerm .content (by decide)
  have hlisted : doc.id ∈ store.idsWith [0x61] := by decide +kernel
  have hnone : ∀ field, [0x61] ∉ (doc.terms field).keys := by
    intro field
    cases field <;> decide
  refine ⟨hkeyed, by decide +kernel, by decide +kernel, hlisted, hnone, fun hjust => ?_⟩
  obtain ⟨field, ht⟩ := (hjust.posted [0x61]).mp hlisted
  exact hnone field ht

end FileIndex
