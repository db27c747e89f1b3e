import FileIndex.Proofs.Draft.Queue
import FileIndex.Proofs.Store.Lists

/-!
# Committing a draft

Committing stores the lists that the draft has for each term, and changes nothing else.

* `Merges`: the changes of some terms were merged into the stored lists. `mergeAll_merges`: term by term, each once.
* `idsWith_commit`, `occurrencesOf_commit`: the lists that are stored. `sameButLists_commit`: nothing else differs.
* `commit_ok`: committing succeeds if all queued terms can be keys.
-/

namespace FileIndex

namespace Draft

open Store

/-! ### Merging -/

/-- The lists of a term that its queued changes make of those in a store. -/
def merged (s : Store) (term : Bytes) (changes : List PostingChange) : List DocId × List Occurrence :=
  changes.foldl applyChange (s.idsWith term, s.occurrencesOf term)

theorem mergeTerm_eq (s : Store) (term : Bytes) (changes : List PostingChange) : mergeTerm s term changes =
    (s.putIds term (merged s term changes).1 >>= fun s₁ => s₁.putOccurrences term (merged s term changes).2) := rfl

theorem mergeTerm_ok {s s' : Store} {term : Bytes} {changes : List PostingChange}
    (h : mergeTerm s term changes = .ok s') : SameButLists s s' ∧
      Stored IdList.encode term (merged s term changes).1 s.postings s'.postings ∧
      Stored OccurrenceList.encode term (merged s term changes).2 s.occurrences s'.occurrences := by
  rw [mergeTerm_eq] at h
  cases hput : s.putIds term (merged s term changes).1 with
  | error e => rw [hput] at h; cases h
  | ok s₁ =>
    rw [hput] at h
    obtain ⟨hframe, hids⟩ := putIds_ok hput
    obtain ⟨hframe', hos⟩ := putOccurrences_ok h
    have hpostings : s'.postings = s₁.postings := by rw [hframe']
    have hoccurrences : s₁.occurrences = s.occurrences := by rw [hframe]
    refine ⟨?_, hpostings ▸ hids, hoccurrences ▸ hos⟩
    unfold SameButLists
    rw [hframe', hframe]

theorem merged_congr {s s' : Store} {t : Bytes} (hids : s'.postings.find? t = s.postings.find? t)
    (hos : s'.occurrences.find? t = s.occurrences.find? t) (changes : List PostingChange) :
    merged s' t changes = merged s t changes := by
  unfold merged
  rw [idsWith_eq, idsWith_eq, occurrencesOf_eq, occurrencesOf_eq, Table.listAt_congr hids, Table.listAt_congr hos]

/-- A list of each term that has changes was stored, the others are as they were. -/
structure MergesTable {α : Type} (encode : List α → Bytes) (changesOf : Bytes → Option (List PostingChange))
    (list : Bytes → List PostingChange → List α) (t t' : Table) : Prop where
  kept : ∀ term, changesOf term = none → t'.find? term = t.find? term
  changed : ∀ term changes, changesOf term = some changes → term ≠ [] ∧
    (list term changes ≠ [] → Table.holdsKey term = true) ∧ t'.find? term = stored? encode (list term changes)

/-- The changes of terms were merged into the stored lists. -/
structure Merges (changesOf : Bytes → Option (List PostingChange)) (s s' : Store) : Prop where
  frame : SameButLists s s'
  postings : MergesTable IdList.encode changesOf (fun t changes => (merged s t changes).1) s.postings s'.postings
  occurrences : MergesTable OccurrenceList.encode changesOf (fun t changes => (merged s t changes).2) s.occurrences
    s'.occurrences

/-- Merging the changes of some terms, each once. -/
def mergeAll (es : List (Bytes × List PostingChange)) (s : Store) : Except Error Store :=
  es.foldlM (fun s e => mergeTerm s e.1 e.2) s

theorem mergeAll_cons (e : Bytes × List PostingChange) (es : List (Bytes × List PostingChange)) (s : Store) :
    mergeAll (e :: es) s = mergeTerm s e.1 e.2 >>= mergeAll es := List.foldlM_cons ..

theorem mergeAll_cons_ok {e : Bytes × List PostingChange} {es : List (Bytes × List PostingChange)} {s s' : Store}
    (h : mergeAll (e :: es) s = .ok s') : ∃ s₁, mergeTerm s e.1 e.2 = .ok s₁ ∧ mergeAll es s₁ = .ok s' := by
  rw [mergeAll_cons] at h
  cases hmerge : mergeTerm s e.1 e.2 with
  | error cause => rw [hmerge] at h; cases h
  | ok s₁ => rw [hmerge] at h; exact ⟨s₁, rfl, h⟩

theorem lookup_eq_none_of_forall_lt {e : Bytes × List PostingChange} {es : List (Bytes × List PostingChange)}
    (h : ∀ x ∈ es, e.1 < x.1) : es.lookup e.1 = none := by
  rw [List.lookup_eq_none_iff]
  intro x hx
  simp only [ne_eq, bne_iff_ne]
  intro heq
  exact List.lt_irrefl _ (heq ▸ h x hx)

/-- The first of the terms is merged before the others, which do not have it. -/
theorem MergesTable.cons {α : Type} {encode : List α → Bytes} {list list₁ : Bytes → List PostingChange → List α}
    {t t₁ t' : Table} {k : Bytes} {changes : List PostingChange} {es : List (Bytes × List PostingChange)}
    (hnone : es.lookup k = none) (hfirst : Stored encode k (list k changes) t t₁)
    (hlist : ∀ term changes, term ≠ k → list₁ term changes = list term changes)
    (hrest : MergesTable encode (fun term => es.lookup term) list₁ t₁ t') :
    MergesTable encode (fun term => ((k, changes) :: es).lookup term) list t t' := by
  refine ⟨fun term hnone' => ?_, fun term changes' hsome => ?_⟩
  · simp only [List.lookup_cons] at hnone'
    by_cases hk : term = k
    · simp [hk] at hnone'
    · simp only [beq_false_of_ne hk] at hnone'
      rw [hrest.kept term hnone', hfirst.find?_eq, if_neg hk]
  · simp only [List.lookup_cons] at hsome
    by_cases hk : term = k
    · subst hk
      simp only [beq_self_eq_true, Option.some.injEq] at hsome
      rw [← hsome, hrest.kept term hnone, hfirst.find?_eq, if_pos rfl]
      exact ⟨hfirst.term_ne, hfirst.holds, rfl⟩
    · simp only [beq_false_of_ne hk] at hsome
      rw [← hlist term changes' hk]
      exact hrest.changed term changes' hsome

theorem mergeAll_merges {es : List (Bytes × List PostingChange)} (hes : es.Pairwise (·.1 < ·.1)) {s s' : Store}
    (h : mergeAll es s = .ok s') : Merges (fun t => es.lookup t) s s' := by
  induction es generalizing s with
  | nil =>
    cases h
    exact ⟨rfl, ⟨fun _ _ => rfl, nofun⟩, ⟨fun _ _ => rfl, nofun⟩⟩
  | cons e es ih =>
    rw [List.pairwise_cons] at hes
    obtain ⟨s₁, hmerge, hrest⟩ := mergeAll_cons_ok h
    obtain ⟨hframe, hids, hos⟩ := mergeTerm_ok hmerge
    obtain ⟨hframe', hids', hos'⟩ := ih hes.2 hrest
    -- the first term is not among the others, so that their lists are still what they were
    have hnone : es.lookup e.1 = none := lookup_eq_none_of_forall_lt hes.1
    have hlists : ∀ t changes, t ≠ e.1 → merged s₁ t changes = merged s t changes := fun t changes ht =>
      merged_congr (by rw [hids.find?_eq, if_neg ht]) (by rw [hos.find?_eq, if_neg ht]) changes
    exact ⟨hframe.trans hframe', .cons hnone hids (fun t changes ht => by rw [hlists t changes ht]) hids',
      .cons hnone hos (fun t changes ht => by rw [hlists t changes ht]) hos'⟩

/-- The lists that are read, if those that were stored can be read back. -/
theorem MergesTable.listAt {α : Type} {encode : List α → Bytes} {read : Bytes → List α}
    {changesOf : Bytes → Option (List PostingChange)} {list : Bytes → List PostingChange → List α} {t t' : Table}
    (h : MergesTable encode changesOf list t t')
    (hread : ∀ term changes, changesOf term = some changes → read (encode (list term changes)) = list term changes) :
    (∀ term, t'.listAt read term = match changesOf term with
      | none => t.listAt read term
      | some changes => list term changes) ∧ (t.Tidy encode read → t'.Tidy encode read) := by
  refine ⟨fun term => ?_, fun htidy => htidy.of_stored fun term => ?_⟩
  · cases hchanges : changesOf term with
    | none => exact Table.listAt_congr (h.kept term hchanges)
    | some changes =>
      obtain ⟨hterm, _, hfind⟩ := h.changed term changes hchanges
      exact Table.listAt_of_stored hterm (hread term changes hchanges) hfind
  · cases hchanges : changesOf term with
    | none => exact .inl (h.kept term hchanges)
    | some changes =>
      obtain ⟨_, hholds, hfind⟩ := h.changed term changes hchanges
      exact .inr ⟨_, hfind, hread term changes hchanges, hholds⟩

/-! ### Committing -/

section Commit

variable {d : Draft} {s : Store}

theorem commit_merges (h : d.commit = .ok s) : Merges d.pending.find? d.store s :=
  mergeAll_merges d.pending.ascending h

/-- Committing changes nothing but the lists of terms. -/
theorem sameButLists_commit (h : d.commit = .ok s) : SameButLists d.store s := (commit_merges h).frame

theorem listsOf_of_find? {t : Bytes} {changes : List PostingChange} (h : d.pending.find? t = some changes) :
    d.listsOf t = merged d.store t changes := by
  rw [listsOf, h]
  rfl

theorem listsOf_of_find?_none {t : Bytes} (h : d.pending.find? t = none) :
    d.listsOf t = (d.store.idsWith t, d.store.occurrencesOf t) := by
  rw [listsOf, h]
  rfl

/-- Committing stores the ids that the draft has for each term. -/
theorem idsWith_commit (h : d.commit = .ok s) (hids : d.IdsAscend) :
    (∀ t, s.idsWith t = (d.listsOf t).1) ∧ (d.store.PostingsTidy → s.PostingsTidy) := by
  obtain ⟨hlists, htidy⟩ := (commit_merges h).postings.listAt fun t changes hchanges =>
    readIds_encode (listsOf_of_find? hchanges ▸ hids t)
  refine ⟨fun t => (hlists t).trans ?_, htidy⟩
  cases hchanges : d.pending.find? t with
  | none => rw [listsOf_of_find?_none hchanges, idsWith_eq]
  | some changes => rw [listsOf_of_find? hchanges]

/-- After a commit, the occurrences of a term that has changes are what can be read back of those that the draft had. -/
theorem occurrencesOf_commit_eq (h : d.commit = .ok s) (t : Bytes) :
    s.occurrencesOf t = match d.pending.find? t with
      | none => d.store.occurrencesOf t
      | some _ => readOccurrences (OccurrenceList.encode (d.listsOf t).2) := by
  have hmerges := (commit_merges h).occurrences
  rw [occurrencesOf_eq]
  cases hchanges : d.pending.find? t with
  | none => exact Table.listAt_congr (hmerges.kept t hchanges)
  | some changes =>
    obtain ⟨hterm, _, hfind⟩ := hmerges.changed t changes hchanges
    rw [listsOf_of_find? hchanges, Table.listAt_of_ne_nil hterm, hfind]
    cases (merged d.store t changes).2 <;> rfl

/-- Committing stores the occurrences that the draft has for each term. -/
theorem occurrencesOf_commit (h : d.commit = .ok s)
    (hos : ∀ t, readOccurrences (OccurrenceList.encode (d.listsOf t).2) = (d.listsOf t).2) :
    (∀ t, s.occurrencesOf t = (d.listsOf t).2) ∧ (d.store.OccurrencesTidy → s.OccurrencesTidy) := by
  obtain ⟨hlists, htidy⟩ := (commit_merges h).occurrences.listAt fun t changes hchanges =>
    listsOf_of_find? hchanges ▸ hos t
  refine ⟨fun t => (hlists t).trans ?_, htidy⟩
  cases hchanges : d.pending.find? t with
  | none => rw [listsOf_of_find?_none hchanges, occurrencesOf_eq]
  | some changes => rw [listsOf_of_find? hchanges]

end Commit

theorem mergeTerm_of_holdsKey {term : Bytes} (h : Table.holdsKey term = true) (s : Store)
    (changes : List PostingChange) : ∃ s', mergeTerm s term changes = .ok s' := by
  have hids := putIds_eq s term (merged s term changes).1
  obtain ⟨t, ht⟩ := putList_of_holdsKey h (stored? IdList.encode (merged s term changes).1)
  rw [ht] at hids
  have hos := putOccurrences_eq { s with postings := t } term (merged s term changes).2
  obtain ⟨t', ht'⟩ := putList_of_holdsKey h (stored? OccurrenceList.encode (merged s term changes).2)
  rw [ht'] at hos
  rw [mergeTerm_eq, hids]
  exact ⟨_, hos⟩

/-- Committing succeeds if every queued term can be a key. -/
theorem commit_ok {d : Draft} (h : ∀ t ∈ d.pending.keys, Table.holdsKey t = true) : ∃ s, d.commit = .ok s := by
  have hall : ∀ (es : List (Bytes × List PostingChange)) (s : Store), (∀ e ∈ es, Table.holdsKey e.1 = true) →
      ∃ s', mergeAll es s = .ok s' := by
    intro es
    induction es with
    | nil => exact fun s _ => ⟨s, rfl⟩
    | cons e es ih =>
      intro s hes
      obtain ⟨he, hes⟩ := List.forall_mem_cons.mp hes
      obtain ⟨s₁, hmerge⟩ := mergeTerm_of_holdsKey he s e.2
      obtain ⟨s', hrest⟩ := ih s₁ hes
      refine ⟨s', ?_⟩
      rw [mergeAll_cons, hmerge]
      exact hrest
  exact hall d.pending.entries d.store fun e he => h e.1 (List.mem_map_of_mem he)

end Draft
end FileIndex
