import FileIndex.Proofs.Ledger.Steps

/-!
# What documents are stored as

Documents determine the tables that hold them, in whichever order and by whichever changes they came to be there.

* `Holds.of_mem_iff`: the order of the documents does not matter.
* `holds_empty`, `Holds.commit`: an empty store holds no documents, and committing keeps those of a draft.
* `Holds.table_eq`: stores that hold the same documents have the same tables, but for the lists of documents that are
  still to be read or could not be read.
-/

namespace FileIndex

open Store OccurrenceList

theorem Table.eq_of_rows {t t' : Table} (h : ∀ key value, t.find? key = some value ↔ t'.find? key = some value) :
    t = t' :=
  ByteMap.ext_find? fun key => Option.ext fun value => h key value

theorem Table.Tabulates.unique {t t' : Table} {said : Document → Option Bytes} {docs : List Document}
    (h : t.Tabulates said docs) (h' : t'.Tabulates said docs) : t = t' :=
  Table.eq_of_rows fun key value => (h key value).trans (h' key value).symm

theorem Table.Tabulates.of_mem_iff {t : Table} {said : Document → Option Bytes} {docs docs' : List Document}
    (h : t.Tabulates said docs) (hsame : ∀ doc, doc ∈ docs' ↔ doc ∈ docs) : t.Tabulates said docs' := by
  intro key value
  simp only [hsame]
  exact h key value

theorem Store.Records.of_mem_iff {s : Store} {docs docs' : List Document} (h : s.Records docs)
    (hsame : ∀ doc, doc ∈ docs' ↔ doc ∈ docs) : s.Records docs' := by
  refine ⟨h.times.of_mem_iff hsame, h.payloads.of_mem_iff hsame, fun field => (h.terms field).of_mem_iff hsame, ?_⟩
  intro key value
  simp only [hsame]
  exact h.modified key value

namespace Draft

variable {r : Naming} {docs docs' : List Document} {d d' : Draft} {s s' : Store}

theorem Holds.of_mem_iff (h : Holds r docs d) (hdistinct : docs'.Pairwise (·.id ≠ ·.id))
    (hsame : ∀ doc, doc ∈ docs' ↔ doc ∈ docs) : Holds r docs' d := by
  refine ⟨fun doc hdoc => h.admitted doc ((hsame doc).mp hdoc), hdistinct, h.sound, h.neat, fun t id position => ?_,
    h.occurrences, h.holdable, h.records.of_mem_iff hsame, h.tree.of_iff fun names => ?_⟩
  · simp only [hsame]
    exact h.positions t id position
  · unfold paths
    simp only [hsame]

theorem holds_empty : Holds r [] { store := ∅ } := by
  refine ⟨fun doc hdoc => absurd hdoc List.not_mem_nil, .nil, sound_empty, fun t => ?_, fun t id position => ?_, ?_, ?_,
    records_empty, showsTree_empty.of_iff fun names => (iff_false_intro (paths_nil names)).symm⟩
  · rw [listsOf_empty]
    exact .nil
  · rw [listsOf_empty]
    simp [HasPosition]
  · intro t value h
    cases h
  · intro t ht
    cases ht

/-! ### Committing -/

theorem Holds.readOccurrences_encode (h : Holds r docs d) (t : Bytes) :
    readOccurrences (OccurrenceList.encode (d.listsOf t).2) = (d.listsOf t).2 := by
  have hneat := h.neat t
  rw [readOccurrences, decode_encode hneat.ascending (fun o ho => (hneat.positions o ho).2) hneat.nonzero]
  rfl

theorem Holds.commit (h : Holds r docs d) (hcommit : d.commit = .ok s) : Holds r docs { store := s } := by
  have hframe := sameButLists_commit hcommit
  obtain ⟨hread, htidy⟩ := occurrencesOf_commit hcommit h.readOccurrences_encode
  have hlists : ∀ t, (({ store := s } : Draft).listsOf t).2 = (d.listsOf t).2 := hread
  refine ⟨h.admitted, h.distinct, h.sound.commit hcommit, fun t => ?_, fun t id position => ?_,
    htidy h.occurrences, fun t ht => absurd ht List.not_mem_nil,
    h.records.congr ?_ ?_ (fun field => ?_) ?_, h.tree.congr ?_ ?_⟩
  · rw [hlists]
    exact h.neat t
  · rw [hlists]
    exact h.positions t id position
  all_goals rw [hframe]
  cases field <;> rfl

/-- Committing succeeds. -/
theorem Holds.commit_ok (h : Holds r docs d) : ∃ s, d.commit = .ok s ∧ Holds r docs { store := s } := by
  obtain ⟨s, hs⟩ := Draft.commit_ok h.holdable
  exact ⟨s, hs, h.commit hs⟩

/-! ### The tables -/

section Tables

variable (h : Holds r docs { store := s }) (h' : Holds r docs { store := s' })

include h h'

theorem Holds.idsWith_eq (t : Bytes) : s.idsWith t = s'.idsWith t := by
  have hterms : ∀ id, s.HasTerm id t ↔ s'.HasTerm id t := fun id =>
    exists_congr fun field => h.mem_termsOf_iff.trans h'.mem_termsOf_iff.symm
  have hascend : (s.idsWith t).Pairwise (· < ·) := h.sound.ascend t
  exact hascend.eq_of_mem_iff (h'.sound.ascend t) fun id =>
    (h.sound.posted t id).trans ((hterms id).trans (h'.sound.posted t id).symm)

theorem Holds.occurrencesOf_eq (t : Bytes) : s.occurrencesOf t = s'.occurrencesOf t := by
  have hneat : Neat (s.occurrencesOf t) := h.neat t
  exact hneat.eq_of_hasPosition (h'.neat t) fun id position =>
    (h.positions t id position).trans (h'.positions t id position).symm

/-- What is stored depends on the documents only. -/
theorem Holds.table_eq (name : TableName) (hpending : name ≠ .contentPending) (hfailed : name ≠ .failed) :
    s.table name = s'.table name := by
  have hterms : ∀ field, s.termTable field = s'.termTable field := fun field =>
    (h.records.terms field).unique (h'.records.terms field)
  cases name with
  | postings =>
    show s.postings = s'.postings
    exact h.sound.lists.unique h'.sound.lists (h.idsWith_eq h')
  | occurrences =>
    show s.occurrences = s'.occurrences
    exact h.occurrences.unique h'.occurrences (h.occurrencesOf_eq h')
  | contentTerms => exact hterms .content
  | fileNameTerms => exact hterms .fileName
  | attributeTerms => exact hterms .attributes
  | children => exact Table.eq_of_rows fun key value =>
      (h.tree.children.rows key value).trans (h'.tree.children.rows key value).symm
  | pathEntries => exact Table.eq_of_rows fun key value =>
      (h.tree.entries key value).trans (h'.tree.entries key value).symm
  | times => exact h.records.times.unique h'.records.times
  | payloads => exact h.records.payloads.unique h'.records.payloads
  | modified => exact Table.eq_of_rows fun key value =>
      (h.records.modified key value).trans (h'.records.modified key value).symm
  | contentPending => exact absurd rfl hpending
  | failed => exact absurd rfl hfailed

end Tables

end Draft
end FileIndex
