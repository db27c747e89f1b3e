import FileIndex.Proofs.Draft.Parallel
import FileIndex.Proofs.Ledger.Tables

/-!
# Changes under one term

Two drafts that queued different changes can still stand for the same lists. Under each term only the changes that were
queued there count: they make the lists of the term, and if there are any, the lists are what a commit will store.

* `Draft.Queued`: from one draft to another these changes were queued under a term. `Queued.withFields`,
  `Queued.withoutFields`, `Queued.removals`: filling and clearing the fields of a document.
* `foldl_losses`: a document that loses a term several times loses it once.
* `forget_foldl_gains`, `foldl_gains_twice`: what a document gets is forgotten when it loses the term, and getting it
  again changes nothing.
* `lists_of_commit`: drafts that leave the same rows are committed to the same lists.
-/

namespace FileIndex

open OccurrenceList Store

namespace Draft

/-! ### What is queued -/

/-- The bytes that a commit stores for these lists. -/
def rowsFor (lists : List DocId × List Occurrence) : Option Bytes × Option Bytes :=
  (stored? IdList.encode lists.1, stored? OccurrenceList.encode lists.2)

/-- From the first draft to the second, these changes were queued under the term. -/
structure Queued (t : Bytes) (changes : List PostingChange) (d d' : Draft) : Prop where
  lists : d'.listsOf t = changes.foldl applyChange (d.listsOf t)
  rows : d'.rowsOf t = if changes.isEmpty then d.rowsOf t else rowsFor (d'.listsOf t)

variable {d d' d'' : Draft} {t : Bytes} {changes changes' : List PostingChange}

namespace Queued

theorem refl (t : Bytes) (d : Draft) : Queued t [] d d := ⟨rfl, rfl⟩

theorem trans (h : Queued t changes d d') (h' : Queued t changes' d' d'') : Queued t (changes ++ changes') d d'' := by
  refine ⟨by rw [h'.lists, h.lists, List.foldl_append], ?_⟩
  rw [h'.rows, h.rows]
  cases changes' with
  | cons c cs => simp
  | nil =>
    have hlists : d''.listsOf t = d'.listsOf t := h'.lists
    simp [hlists]

/-- The lists and the queue are the same. -/
theorem congr (h : Queued t changes d d') (hpending : d''.pending = d'.pending)
    (hpostings : d''.store.postings = d'.store.postings) (hoccurrences : d''.store.occurrences = d'.store.occurrences) :
    Queued t changes d d'' := by
  have hlists := listsOf_congr hpending hpostings hoccurrences t
  refine ⟨hlists.trans h.lists, ?_⟩
  rw [rowsOf_congr hpending hpostings hoccurrences t, hlists, h.rows]

theorem enqueue (t term : Bytes) (change : PostingChange) (d : Draft) :
    Queued t (if term = t then [change] else []) d (d.enqueue term change) := by
  by_cases ht : term = t
  · subst ht
    refine ⟨?_, ?_⟩
    · rw [listsOf_enqueue, if_pos rfl, if_pos rfl]
      rfl
    · rw [rowsOf_enqueue, listsOf_enqueue, if_pos rfl, if_pos rfl, if_pos rfl]
      rfl
  · refine ⟨?_, ?_⟩
    · rw [listsOf_enqueue, if_neg (Ne.symm ht), if_neg ht]
      rfl
    · rw [rowsOf_enqueue, if_neg (Ne.symm ht), if_neg ht]
      rfl

/-- Changes are queued one after the other, each under a term of its own. -/
theorem foldl {α : Type} (t : Bytes) (term : α → Bytes) (change : α → PostingChange) (l : List α) (d : Draft) :
    Queued t ((l.filter fun a => term a = t).map change) d (l.foldl (fun d a => d.enqueue (term a) (change a)) d) := by
  induction l generalizing d with
  | nil => exact refl t d
  | cons a l ih =>
    have hcons : ((a :: l).filter fun a => term a = t).map change =
        (if term a = t then [change a] else []) ++ (l.filter fun a => term a = t).map change := by
      rw [List.filter_cons]
      split <;> simp_all
    rw [hcons]
    exact (enqueue t (term a) (change a) d).trans (ih _)

end Queued

/-- What a document gets under a term that has it in these fields. -/
def gains (doc : Document) (selected : Field → Bool) (fields : List Field) (t : Bytes) : List PostingChange :=
  fields.flatMap fun field => if selected field then
    ((doc.terms field).entries.filter fun e => e.1 = t).map fun e => .add ⟨doc.id, e.2⟩ else []

/-- What a document loses under a term, if it loses these. -/
def losses (id : DocId) (terms : List Bytes) (t : Bytes) : List PostingChange :=
  (terms.filter fun term => term = t).map fun _ => .remove id

theorem losses_isEmpty_iff {id : DocId} {terms : List Bytes} : (losses id terms t).isEmpty = true ↔ t ∉ terms := by
  rw [losses, List.isEmpty_map, List.isEmpty_iff, List.filter_eq_nil_iff]
  simp only [decide_eq_true_eq]
  exact ⟨fun h ht => h t ht rfl, fun h term hterm heq => h (heq ▸ hterm)⟩

theorem eq_remove_of_mem_losses {id : DocId} {terms : List Bytes} {c : PostingChange} (h : c ∈ losses id terms t) :
    c = .remove id := by
  obtain ⟨_, _, rfl⟩ := List.mem_map.mp h
  rfl

theorem Queued.removals (t : Bytes) (id : DocId) (terms : List Bytes) (d : Draft) :
    Queued t (losses id terms t) d (d.enqueueRemovals id terms) :=
  .foldl t (fun term => term) (fun _ => .remove id) terms d

theorem Queued.withFields (t : Bytes) (doc : Document) (selected : Field → Bool) (fields : List Field) (d : Draft) :
    Queued t (gains doc selected fields t) d (withFields doc selected fields d) := by
  induction fields generalizing d with
  | nil => exact .refl t d
  | cons field fields ih =>
    refine .trans ?_ (ih _)
    show Queued t (if selected field = true then _ else _) d (if selected field = true then _ else _)
    by_cases hselected : selected field = true
    · rw [if_pos hselected, if_pos hselected]
      have hsame := sameButTerms_withTerms d.store field doc.id (doc.terms field).keys
      have hqueued : Queued t _ d (d.enqueueTerms doc.id (doc.terms field)) :=
        .foldl t (·.1) (fun e => .add ⟨doc.id, e.2⟩) (doc.terms field).entries d
      refine hqueued.congr rfl ?_ ?_
      · show (d.store.withTerms field doc.id (doc.terms field).keys).postings =
          (d.enqueueTerms doc.id (doc.terms field)).store.postings
        rw [hsame, enqueueTerms_store]
      · show (d.store.withTerms field doc.id (doc.terms field).keys).occurrences =
          (d.enqueueTerms doc.id (doc.terms field)).store.occurrences
        rw [hsame, enqueueTerms_store]
    · rw [if_neg hselected, if_neg hselected]
      exact .refl t d

/-- A document loses the terms of each field in turn. -/
theorem Queued.withoutFields (t : Bytes) (id : DocId) {fields : List Field} (hfields : fields.Nodup) (d : Draft) :
    Queued t (losses id (fields.flatMap fun field => d.store.termsOf field id) t) d (withoutFields id fields d) := by
  induction fields generalizing d with
  | nil => exact .refl t d
  | cons field fields ih =>
    obtain ⟨hfield, hfields⟩ := List.nodup_cons.mp hfields
    have hlosses : losses id ((field :: fields).flatMap fun field => d.store.termsOf field id) t =
        losses id (d.store.termsOf field id) t ++
          losses id (fields.flatMap fun field => d.store.termsOf field id) t := by
      simp [losses]
    -- the other fields still have their terms when this one is cleared
    have hrest : (fields.flatMap fun other => (withoutField id d field).store.termsOf other id) =
        fields.flatMap fun other => d.store.termsOf other id := by
      refine List.flatMap_congr fun other hother => ?_
      have hne : other ≠ field := fun heq => hfield (heq ▸ hother)
      have herased := termsOf_eraseTerms d.store field id other id
      rwa [if_neg fun hsame => hne hsame.1] at herased
    have hfirst : Queued t (losses id (d.store.termsOf field id) t) d (withoutField id d field) := by
      have hsame := sameButTerms_setTermTable d.store field ((d.store.termTable field).erase (DocId.toKey id))
      refine (Queued.removals t id (d.store.termsOf field id) d).congr rfl ?_ ?_
      · show (d.store.eraseTerms field id).postings = _
        rw [eraseTerms, hsame, enqueueRemovals_store]
      · show (d.store.eraseTerms field id).occurrences = _
        rw [eraseTerms, hsame, enqueueRemovals_store]
    rw [hlosses, ← hrest]
    exact hfirst.trans (ih hfields _)

/-- Drafts that leave the same rows are committed to the same lists. -/
theorem lists_of_commit {s s' : Store} (hrows : ∀ t, d'.rowsOf t = d.rowsOf t) (hcommit : d.commit = .ok s)
    (hcommit' : d'.commit = .ok s') : s'.postings = s.postings ∧ s'.occurrences = s.occurrences := by
  have hfound : ∀ t, (s'.postings.find? t, s'.occurrences.find? t) = (s.postings.find? t, s.occurrences.find? t) := by
    intro t
    exact (rowsOf_commit hcommit' t).trans ((hrows t).trans (rowsOf_commit hcommit t).symm)
  exact ⟨ByteMap.ext_find? fun t => congrArg (·.1) (hfound t), ByteMap.ext_find? fun t => congrArg (·.2) (hfound t)⟩

/-! ### Losing -/

variable {lists : List DocId × List Occurrence} {id : DocId}

/-- A document that loses a term several times loses it once. -/
theorem foldl_losses (hnodup : lists.1.Nodup) (h : ∀ c ∈ changes, c = .remove id) :
    changes.foldl applyChange lists = if changes.isEmpty then lists else applyChange lists (.remove id) := by
  induction changes generalizing lists with
  | nil => rfl
  | cons c cs ih =>
    obtain ⟨rfl, hcs⟩ := List.forall_mem_cons.mp h
    rw [List.foldl_cons, ih (hnodup.erase id) hcs, applyChange_remove_twice hnodup, ite_self]
    rfl

/-- A document that is in neither list loses nothing. -/
theorem applyChange_remove_of_absent (hids : id ∉ lists.1) (hos : ∀ o ∈ lists.2, o.id ≠ id) :
    applyChange lists (.remove id) = lists := by
  have hkept : lists.2.filter (·.id != id) = lists.2 := by
    rw [List.filter_eq_self]
    intro o ho
    simpa using hos o ho
  show (lists.1.erase id, lists.2.filter (·.id != id)) = lists
  rw [List.erase_of_not_mem hids, hkept]

/-! ### Getting -/

theorem erase_insert_self {ids : List DocId} (h : ids.Pairwise (· < ·)) (id : DocId) :
    (Ascending.insert id ids).erase id = ids.erase id := by
  have hinserted : (Ascending.insert id ids).Pairwise (· < ·) := Ascending.pairwise_insert h
  refine (hinserted.sublist List.erase_sublist).eq_of_mem_iff (h.sublist List.erase_sublist) fun other => ?_
  rw [(nodup_of_ascending hinserted).mem_erase_iff, (nodup_of_ascending h).mem_erase_iff, Ascending.mem_insert]
  grind

theorem filter_insertOccurrence (o : Occurrence) (os : List Occurrence) :
    (insertOccurrence o os).filter (·.id != o.id) = os.filter (·.id != o.id) := by
  induction os with
  | nil => simp [insertOccurrence]
  | cons x xs ih =>
    rw [insertOccurrence]
    split
    · rw [List.filter_cons, List.filter_cons, ih]
    · split
      · rename_i heq
        simp [heq]
      · simp

/-- What a document gets is forgotten when it loses the term. -/
theorem remove_add (hascend : lists.1.Pairwise (· < ·)) (o : Occurrence) :
    applyChange (applyChange lists (.add o)) (.remove o.id) = applyChange lists (.remove o.id) := by
  have hos : (if o.positions.isEmpty then lists.2 else insertOccurrence o lists.2).filter (·.id != o.id) =
      lists.2.filter (·.id != o.id) := by
    split
    · rfl
    · exact filter_insertOccurrence o lists.2
  exact Prod.ext (erase_insert_self hascend o.id) hos

/-- The changes give the term to the document, at ascending positions, and do nothing else. -/
def OnlyGains (id : DocId) (changes : List PostingChange) : Prop :=
  ∀ c ∈ changes, ∃ positions, c = .add ⟨id, positions⟩ ∧ positions.Pairwise (· < ·)

theorem onlyGains_gains {doc : Document} (h : doc.Built) (selected : Field → Bool) (fields : List Field) (t : Bytes) :
    OnlyGains doc.id (gains doc selected fields t) := by
  intro c hc
  obtain ⟨field, _, hc⟩ := List.mem_flatMap.mp hc
  split at hc
  · obtain ⟨e, he, rfl⟩ := List.mem_map.mp hc
    have hfind := ByteMap.find?_eq_some_iff.mpr (List.mem_of_mem_filter he)
    exact ⟨e.2, rfl, h.ascending field e.1 e.2 hfind⟩
  · cases hc

theorem gains_eq_nil_iff {doc : Document} {selected : Field → Bool} :
    gains doc selected Field.all t = [] ↔ ∀ field, selected field = true → t ∉ (doc.terms field).keys := by
  unfold gains
  rw [List.flatMap_eq_nil_iff]
  refine ⟨fun h field hselected => ?_, fun h field _ => ?_⟩
  · have hnone := h field (Field.mem_all field)
    rw [if_pos hselected, List.map_eq_nil_iff, List.filter_eq_nil_iff] at hnone
    intro ht
    obtain ⟨e, he, rfl⟩ := List.mem_map.mp ht
    exact hnone e he (decide_eq_true rfl)
  · split
    · rename_i hselected
      rw [List.map_eq_nil_iff, List.filter_eq_nil_iff]
      intro e he ht
      exact h field hselected (of_decide_eq_true ht ▸ List.mem_map_of_mem he)
    · rfl

theorem forget_foldl_gains (hascend : lists.1.Pairwise (· < ·)) (h : OnlyGains id changes) :
    applyChange (changes.foldl applyChange lists) (.remove id) = applyChange lists (.remove id) := by
  induction changes generalizing lists with
  | nil => rfl
  | cons c cs ih =>
    obtain ⟨⟨positions, rfl, _⟩, hcs⟩ := List.forall_mem_cons.mp h
    rw [List.foldl_cons, ih (lasting_ascending.add hascend trivial) hcs]
    exact remove_add hascend ⟨id, positions⟩

/-! ### Getting again -/

/-- The ids of both lists ascend. -/
structure BothAscend (lists : List DocId × List Occurrence) : Prop where
  ids : lists.1.Pairwise (· < ·)
  occurrences : lists.2.Pairwise (·.id < ·.id)

/-- The document has the term at these positions and perhaps at more. -/
structure Has (id : DocId) (positions : List UInt32) (lists : List DocId × List Occurrence) : Prop where
  listed : id ∈ lists.1
  placed : positions = [] ∨ ∃ o ∈ lists.2, o.id = id ∧ o.positions.Pairwise (· < ·) ∧ positions ⊆ o.positions

section Insert

variable {os : List Occurrence} {o x : Occurrence}

theorem pairwise_insertOccurrence (h : os.Pairwise (·.id < ·.id)) (o : Occurrence) :
    (insertOccurrence o os).Pairwise (·.id < ·.id) := by
  induction os with
  | nil => exact List.pairwise_singleton ..
  | cons x xs ih =>
    obtain ⟨hx, hxs⟩ := List.pairwise_cons.mp h
    rw [insertOccurrence]
    split
    · rename_i hbefore
      refine List.pairwise_cons.mpr ⟨fun y hy => ?_, ih hxs⟩
      rcases id_of_mem_insertOccurrence hy with hself | ⟨z, hz, hsame⟩
      · exact hself ▸ hbefore
      · exact hsame ▸ hx z hz
    · split
      · exact List.pairwise_cons.mpr ⟨hx, hxs⟩
      · rename_i hbefore hsame
        have hfirst : o.id < x.id := by grind
        exact List.pairwise_cons.mpr
          ⟨List.forall_mem_cons.mpr ⟨hfirst, fun y hy => UInt64.lt_trans hfirst (hx y hy)⟩, h⟩

/-- What the document has already is united with what it gets. -/
theorem mem_insertOccurrence_of_mem (h : os.Pairwise (·.id < ·.id)) (hx : x ∈ os) (hid : x.id = o.id) :
    ⟨x.id, Ascending.ofList (x.positions ++ o.positions)⟩ ∈ insertOccurrence o os := by
  induction os with
  | nil => cases hx
  | cons y ys ih =>
    obtain ⟨hy, hys⟩ := List.pairwise_cons.mp h
    rw [insertOccurrence]
    rcases List.mem_cons.mp hx with rfl | hx
    · rw [if_neg (by grind), if_pos hid]
      exact List.mem_cons_self
    · rw [if_pos (hid ▸ hy x hx)]
      exact List.mem_cons_of_mem y (ih hys hx)

/-- If it adds nothing, nothing changes. -/
theorem insertOccurrence_of_subset (h : os.Pairwise (·.id < ·.id)) (hx : x ∈ os) (hid : x.id = o.id)
    (hascending : x.positions.Pairwise (· < ·)) (hsub : o.positions ⊆ x.positions) : insertOccurrence o os = os := by
  induction os with
  | nil => cases hx
  | cons y ys ih =>
    obtain ⟨hy, hys⟩ := List.pairwise_cons.mp h
    rw [insertOccurrence]
    rcases List.mem_cons.mp hx with rfl | hx
    · have hpositions : Ascending.ofList (x.positions ++ o.positions) = x.positions := by
        refine (Ascending.pairwise_ofList _).eq_of_mem_iff hascending fun p => ?_
        rw [Ascending.mem_ofList, List.mem_append]
        exact or_iff_left_of_imp fun hp => hsub hp
      rw [if_neg (by grind), if_pos hid, hpositions]
    · rw [if_pos (hid ▸ hy x hx), ih hys hx]

/-- Afterwards the document has what it got. -/
theorem exists_mem_insertOccurrence (o : Occurrence) (hascending : o.positions.Pairwise (· < ·))
    (os : List Occurrence) :
    ∃ x ∈ insertOccurrence o os, x.id = o.id ∧ x.positions.Pairwise (· < ·) ∧ o.positions ⊆ x.positions := by
  induction os with
  | nil => exact ⟨o, List.mem_singleton_self o, rfl, hascending, List.Subset.refl _⟩
  | cons y ys ih =>
    rw [insertOccurrence]
    split
    · obtain ⟨x, hx, hrest⟩ := ih
      exact ⟨x, List.mem_cons_of_mem y hx, hrest⟩
    · split
      · rename_i hid
        refine ⟨_, List.mem_cons_self, hid, Ascending.pairwise_ofList _, fun p hp => ?_⟩
        exact Ascending.mem_ofList.mpr (List.mem_append_right _ hp)
      · exact ⟨o, List.mem_cons_self, rfl, hascending, List.Subset.refl _⟩

end Insert

variable {positions : List UInt32}

theorem BothAscend.add (h : BothAscend lists) (o : Occurrence) : BothAscend (applyChange lists (.add o)) := by
  refine ⟨lasting_ascending.add h.ids trivial, ?_⟩
  show (if o.positions.isEmpty then lists.2 else insertOccurrence o lists.2).Pairwise (·.id < ·.id)
  split
  · exact h.occurrences
  · exact pairwise_insertOccurrence h.occurrences o

theorem has_add (hascending : positions.Pairwise (· < ·)) (lists : List DocId × List Occurrence) :
    Has id positions (applyChange lists (.add ⟨id, positions⟩)) := by
  refine ⟨Ascending.mem_insert.mpr (.inl rfl), ?_⟩
  by_cases hempty : positions = []
  · exact .inl hempty
  · have hlists : (applyChange lists (.add ⟨id, positions⟩)).2 = insertOccurrence ⟨id, positions⟩ lists.2 :=
      if_neg (by simpa using hempty)
    rw [hlists]
    exact .inr (exists_mem_insertOccurrence ⟨id, positions⟩ hascending lists.2)

/-- What the document has is not lost when it gets more. -/
theorem Has.add (h : Has id positions lists) (horder : BothAscend lists) (more : List UInt32) :
    Has id positions (applyChange lists (.add ⟨id, more⟩)) := by
  refine ⟨Ascending.mem_insert.mpr (.inr h.listed), h.placed.imp_right ?_⟩
  rintro ⟨o, ho, hid, hascending, hsub⟩
  show ∃ o ∈ (if more.isEmpty then lists.2 else insertOccurrence ⟨id, more⟩ lists.2), _
  split
  · exact ⟨o, ho, hid, hascending, hsub⟩
  · refine ⟨_, mem_insertOccurrence_of_mem horder.occurrences ho hid, hid, Ascending.pairwise_ofList _, fun p hp => ?_⟩
    exact Ascending.mem_ofList.mpr (List.mem_append_left _ (hsub hp))

/-- Getting what it has leaves a document as it is. -/
theorem Has.add_eq (h : Has id positions lists) (horder : BothAscend lists) :
    applyChange lists (.add ⟨id, positions⟩) = lists := by
  have hids : Ascending.insert id lists.1 = lists.1 := by
    refine (Ascending.pairwise_insert horder.ids).eq_of_mem_iff horder.ids fun other => ?_
    rw [Ascending.mem_insert]
    exact or_iff_right_of_imp fun hself => hself ▸ h.listed
  have hos : (if positions.isEmpty then lists.2 else insertOccurrence ⟨id, positions⟩ lists.2) = lists.2 := by
    rcases h.placed with rfl | ⟨o, ho, hid, hascending, hsub⟩
    · rfl
    · split
      · rfl
      · exact insertOccurrence_of_subset horder.occurrences ho hid hascending hsub
  exact Prod.ext hids hos

theorem BothAscend.foldl_gains (horder : BothAscend lists) (h : OnlyGains id changes) :
    BothAscend (changes.foldl applyChange lists) := by
  induction changes generalizing lists with
  | nil => exact horder
  | cons c cs ih =>
    obtain ⟨⟨positions, rfl, _⟩, hcs⟩ := List.forall_mem_cons.mp h
    exact ih (horder.add _) hcs

theorem Has.foldl_gains (hhas : Has id positions lists) (horder : BothAscend lists) (h : OnlyGains id changes) :
    Has id positions (changes.foldl applyChange lists) := by
  induction changes generalizing lists with
  | nil => exact hhas
  | cons c cs ih =>
    obtain ⟨⟨more, rfl, _⟩, hcs⟩ := List.forall_mem_cons.mp h
    exact ih (hhas.add horder more) (horder.add _) hcs

/-- Afterwards the document has all that it got. -/
theorem has_foldl_gains (horder : BothAscend lists) (h : OnlyGains id changes) :
    ∀ c ∈ changes, ∃ positions, c = .add ⟨id, positions⟩ ∧ Has id positions (changes.foldl applyChange lists) := by
  induction changes generalizing lists with
  | nil => exact nofun
  | cons c cs ih =>
    obtain ⟨⟨positions, rfl, hascending⟩, hcs⟩ := List.forall_mem_cons.mp h
    exact List.forall_mem_cons.mpr
      ⟨⟨positions, rfl, (has_add hascending lists).foldl_gains (horder.add _) hcs⟩, ih (horder.add _) hcs⟩

/-- Getting all of it again changes nothing. -/
theorem foldl_gains_twice (horder : BothAscend lists) (h : OnlyGains id changes) :
    changes.foldl applyChange (changes.foldl applyChange lists) = changes.foldl applyChange lists := by
  have hstays : ∀ cs : List PostingChange, ∀ lists, BothAscend lists →
      (∀ c ∈ cs, ∃ positions, c = .add ⟨id, positions⟩ ∧ Has id positions lists) →
      cs.foldl applyChange lists = lists := by
    intro cs
    induction cs with
    | nil => exact fun _ _ _ => rfl
    | cons c cs ih =>
      intro lists horder hcs
      obtain ⟨⟨positions, rfl, hhas⟩, hrest⟩ := List.forall_mem_cons.mp hcs
      rw [List.foldl_cons, hhas.add_eq horder]
      exact ih lists horder hrest
  exact hstays changes _ (horder.foldl_gains h) (has_foldl_gains horder h)

end Draft
end FileIndex
