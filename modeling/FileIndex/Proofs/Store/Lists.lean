import FileIndex.Proofs.Encoding.Lists
import FileIndex.Store.Postings

/-!
# Stored lists

Under each term the store has a list of ids and one of occurrences. An empty list is not stored, and what is stored is
read back.

* `Table.listAt`, `Table.Tidy`: the list that is read under a term, and tables in which lists are stored as they
  should be.
* `stored?`: what is stored for a list.
* `Tidy.find?_eq`, `Tidy.unique`, `listAt_of_stored`: what is stored and what is read determine each other.
* `putIds_ok`, `putOccurrences_ok`: what replacing a list does to the tables.
-/

namespace FileIndex

/-- What is stored for a list. -/
def Store.stored? {α : Type} (encode : List α → Bytes) (l : List α) : Option Bytes :=
  if l.isEmpty then none else some (encode l)

theorem Store.ne_nil_of_holdsKey {t : Bytes} (h : Table.holdsKey t = true) : t ≠ [] := by
  rintro rfl
  simp [Table.holdsKey] at h

namespace Table

open Store

variable {α : Type} {encode : List α → Bytes} {read : Bytes → List α} {t t' : Table} {term : Bytes} {l : List α}

/-- The list under a term. -/
def listAt (read : Bytes → List α) (t : Table) (term : Bytes) : List α :=
  if term.isEmpty then [] else ((t.find? term).map read).getD []

/-- Lists are stored as they should be: under terms that can be keys, and none that is empty. -/
def Tidy (encode : List α → Bytes) (read : Bytes → List α) (t : Table) : Prop :=
  ∀ term value, t.find? term = some value →
    holdsKey term = true ∧ t.listAt read term ≠ [] ∧ value = encode (t.listAt read term)

theorem listAt_congr (h : t'.find? term = t.find? term) : t'.listAt read term = t.listAt read term := by
  unfold listAt
  rw [h]

/-- A list that is not empty is read from what is stored. -/
theorem listAt_cases (read : Bytes → List α) (t : Table) (term : Bytes) :
    t.listAt read term = [] ∨ ∃ value, t.find? term = some value ∧ t.listAt read term = read value := by
  unfold listAt
  split
  · exact .inl rfl
  · cases t.find? term with
    | none => exact .inl rfl
    | some value => exact .inr ⟨value, rfl, rfl⟩

theorem listAt_of_ne_nil (hterm : term ≠ []) : t.listAt read term = ((t.find? term).map read).getD [] := by
  rw [listAt, if_neg (by simpa using hterm)]

theorem listAt_of_stored (hterm : term ≠ []) (hread : read (encode l) = l) (h : t.find? term = stored? encode l) :
    t.listAt read term = l := by
  rw [listAt_of_ne_nil hterm, h, stored?]
  cases l with
  | nil => rfl
  | cons a l => simpa using hread

/-- The table is determined by the lists. -/
theorem Tidy.find?_eq (h : t.Tidy encode read) (term : Bytes) : t.find? term = stored? encode (t.listAt read term) := by
  cases hfind : t.find? term with
  | none =>
    rcases listAt_cases read t term with hnil | ⟨value, hvalue, _⟩
    · rw [hnil]
      rfl
    · simp [hfind] at hvalue
  | some value =>
    obtain ⟨_, hne, hvalue⟩ := h term value hfind
    rw [stored?, if_neg (by simpa using hne), hvalue]

theorem Tidy.unique (h : t.Tidy encode read) (h' : t'.Tidy encode read)
    (hlists : ∀ term, t.listAt read term = t'.listAt read term) : t = t' :=
  ByteMap.ext_find? fun term => by rw [h.find?_eq, h'.find?_eq, hlists]

/-- A table stays tidy, if what it has under each term is what it had before or is stored for a list. -/
theorem Tidy.of_stored (h : t.Tidy encode read)
    (hstored : ∀ term, t'.find? term = t.find? term ∨ ∃ l, t'.find? term = stored? encode l ∧ read (encode l) = l ∧
      (l ≠ [] → holdsKey term = true)) : t'.Tidy encode read := by
  intro term value hvalue
  rcases hstored term with hsame | ⟨l, hl, hread, hholds⟩
  · rw [listAt_congr hsame]
    exact h term value (hsame.symm.trans hvalue)
  · rw [hvalue, stored?] at hl
    split at hl
    · cases hl
    · rename_i hempty
      have hne : l ≠ [] := by simpa using hempty
      have hkey := hholds hne
      have hlist : t'.listAt read term = l := by
        apply listAt_of_stored (ne_nil_of_holdsKey hkey) hread
        rw [hvalue, stored?, if_neg hempty, hl]
      rw [hlist]
      exact ⟨hkey, hne, Option.some.inj hl⟩

end Table

namespace Store

/-- The occurrences of a stored list, none if it cannot be read. -/
def readOccurrences (value : Bytes) : List Occurrence := Malformed.orElse [] (OccurrenceList.decode value)

theorem idsWith_eq (s : Store) (t : Bytes) : s.idsWith t = s.postings.listAt readIds t := rfl

theorem occurrencesOf_eq (s : Store) (t : Bytes) : s.occurrencesOf t = s.occurrences.listAt readOccurrences t := rfl

theorem idsWith_cases (s : Store) (t : Bytes) :
    s.idsWith t = [] ∨ ∃ value, s.postings.find? t = some value ∧ s.idsWith t = readIds value := Table.listAt_cases ..

theorem occurrencesOf_cases (s : Store) (t : Bytes) :
    s.occurrencesOf t = [] ∨ ∃ value, s.occurrences.find? t = some value ∧ s.occurrencesOf t = readOccurrences value :=
  Table.listAt_cases ..

/-- The lists of the stored terms are what their entries hold. -/
theorem readIds_eq_idsWith {s : Store} {e : Bytes × Bytes} (he : e ∈ s.postings.entries) (hne : e.1 ≠ []) :
    readIds e.2 = s.idsWith e.1 := by
  have hfind : s.postings.find? e.1 = some e.2 := (ByteMap.lookup_eq_some_iff s.postings.ascending).mpr he
  rw [idsWith, if_neg (by simpa using hne), hfind]
  rfl

/-- Only a term with a list lists anything. -/
theorem contains_of_mem_idsWith {s : Store} {t : Bytes} {id : DocId} (h : id ∈ s.idsWith t) :
    s.postings.contains t = true := by
  rcases s.idsWith_cases t with hnil | ⟨value, hfind, _⟩
  · rw [hnil] at h
    cases h
  · rw [ByteMap.contains, hfind]
    rfl

theorem readIds_encode {ids : List DocId} (h : ids.Pairwise (· < ·)) : readIds (IdList.encode ids) = ids := by
  rw [readIds, IdList.decode_encode h]
  rfl

/-- The lists of ids are tidy. -/
def PostingsTidy (s : Store) : Prop := s.postings.Tidy IdList.encode readIds

/-- The lists of occurrences are tidy. -/
def OccurrencesTidy (s : Store) : Prop := s.occurrences.Tidy OccurrenceList.encode readOccurrences

theorem PostingsTidy.congr {s s' : Store} (h : s'.postings = s.postings) (hs : s.PostingsTidy) : s'.PostingsTidy := by
  unfold PostingsTidy
  rw [h]
  exact hs

theorem OccurrencesTidy.congr {s s' : Store} (h : s'.occurrences = s.occurrences) (hs : s.OccurrencesTidy) :
    s'.OccurrencesTidy := by
  unfold OccurrencesTidy
  rw [h]
  exact hs

/-! ### Storing a list -/

/-- Nothing but the lists of terms differs. -/
def SameButLists (s s' : Store) : Prop := s' = { s with postings := s'.postings, occurrences := s'.occurrences }

theorem SameButLists.trans {s s' s'' : Store} (h : SameButLists s s') (h' : SameButLists s' s'') :
    SameButLists s s'' := by
  unfold SameButLists at *
  rw [h', h]

/-- A list is stored under its term, or nothing if it is empty. -/
def putList (t : Table) (refusal : Error) (term : Bytes) (value? : Option Bytes) : Except Error Table :=
  if term.isEmpty then .error refusal
  else match value? with
    | none => .ok (t.erase term)
    | some value => t.put term value

theorem putList_ok {t t' : Table} {refusal : Error} {term : Bytes} {value? : Option Bytes}
    (h : putList t refusal term value? = .ok t') :
    term ≠ [] ∧ (value?.isSome → Table.holdsKey term = true) ∧
      ∀ key, t'.find? key = if key = term then value? else t.find? key := by
  unfold putList at h
  split at h
  · cases h
  · rename_i hterm
    refine ⟨by simpa using hterm, ?_⟩
    cases value? with
    | none =>
      cases h
      exact ⟨by simp, fun key => ByteMap.find?_erase t term key⟩
    | some value =>
      simp only [Table.put] at h
      split at h
      · rename_i hholds
        cases h
        exact ⟨fun _ => hholds, fun key => ByteMap.find?_insert t term key value⟩
      · cases h

theorem putList_of_holdsKey {t : Table} {refusal : Error} {term : Bytes} (h : Table.holdsKey term = true)
    (value? : Option Bytes) : ∃ t', putList t refusal term value? = .ok t' := by
  have hterm : ¬ term.isEmpty = true := by simpa using ne_nil_of_holdsKey h
  unfold putList
  rw [if_neg hterm]
  cases value? with
  | none => exact ⟨_, rfl⟩
  | some value => exact ⟨_, if_pos h⟩

/-- A list was stored in a table under a term. -/
structure Stored {α : Type} (encode : List α → Bytes) (term : Bytes) (l : List α) (t t' : Table) : Prop where
  term_ne : term ≠ []
  holds : l ≠ [] → Table.holdsKey term = true
  find?_eq : ∀ key, t'.find? key = if key = term then stored? encode l else t.find? key

theorem stored_of_putList {α : Type} {encode : List α → Bytes} {t t' : Table} {refusal : Error} {term : Bytes}
    {l : List α} (h : putList t refusal term (stored? encode l) = .ok t') : Stored encode term l t t' := by
  obtain ⟨hterm, hholds, hfind⟩ := putList_ok h
  refine ⟨hterm, fun hne => hholds ?_, hfind⟩
  rw [stored?, if_neg (by simpa using hne)]
  rfl

theorem putIds_eq (s : Store) (term : Bytes) (ids : List DocId) :
    s.putIds term ids = (putList s.postings .emptyPostingTerm term (stored? IdList.encode ids)).map
      fun t => { s with postings := t } := by
  unfold putIds putList stored?
  split
  · rfl
  · split
    · rfl
    · simp only
      cases Table.put s.postings term (IdList.encode ids) <;> rfl

theorem putOccurrences_eq (s : Store) (term : Bytes) (os : List Occurrence) :
    s.putOccurrences term os = (putList s.occurrences .emptyPositionTerm term (stored? OccurrenceList.encode os)).map
      fun t => { s with occurrences := t } := by
  unfold putOccurrences putList stored?
  split
  · rfl
  · split
    · rfl
    · simp only
      cases Table.put s.occurrences term (OccurrenceList.encode os) <;> rfl

theorem putIds_ok {s s' : Store} {term : Bytes} {ids : List DocId} (h : s.putIds term ids = .ok s') :
    s' = { s with postings := s'.postings } ∧ Stored IdList.encode term ids s.postings s'.postings := by
  rw [putIds_eq] at h
  cases hput : putList s.postings .emptyPostingTerm term (stored? IdList.encode ids) with
  | error e => rw [hput] at h; cases h
  | ok t =>
    rw [hput] at h
    cases h
    exact ⟨rfl, stored_of_putList hput⟩

theorem putOccurrences_ok {s s' : Store} {term : Bytes} {os : List Occurrence} (h : s.putOccurrences term os = .ok s') :
    s' = { s with occurrences := s'.occurrences } ∧
      Stored OccurrenceList.encode term os s.occurrences s'.occurrences := by
  rw [putOccurrences_eq] at h
  cases hput : putList s.occurrences .emptyPositionTerm term (stored? OccurrenceList.encode os) with
  | error e => rw [hput] at h; cases h
  | ok t =>
    rw [hput] at h
    cases h
    exact ⟨rfl, stored_of_putList hput⟩

end Store
end FileIndex
