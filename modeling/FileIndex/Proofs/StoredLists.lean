import FileIndex.FileId
import FileIndex.Proofs.Ledger.Tables
import FileIndex.Proofs.Search
import FileIndex.Proofs.Tree.Children

/-!
# Stored lists are well formed

Whatever documents were added, replaced and removed, every list that is stored can be read, is not empty and
ascends, and a document has positions of a term only if the term lists it.

* `Aligned`: what the two lists of a term are. `lasting_aligned`: queued changes keep this.
* `builtRule`: the terms of documents are added one by one.
* `Store.WellFormed`: what every stored list is, read from the bytes in the tables.
* `Store.WellFormed.phrase_subset`: a phrase is found only where all of its terms are.
* `Session.wellFormed_afterAt`: so it is after every run.
-/

namespace FileIndex

open OccurrenceList Store

/-- The ids do not have 0, the occurrences are neat, and only listed documents have any. -/
structure Aligned (lists : List DocId × List Occurrence) : Prop where
  nonzero : 0 ∉ lists.1
  neat : Neat lists.2
  within : ∀ o ∈ lists.2, o.id ∈ lists.1

theorem aligned_nil : Aligned ([], []) := ⟨List.not_mem_nil, .nil, nofun⟩

theorem lasting_aligned : Draft.Lasting Aligned fun o => o.id ≠ 0 ∧ o.positions.Pairwise (· < ·) := by
  constructor
  · exact fun h hfit => ⟨Draft.lasting_nonzero.add h.nonzero hfit.1, Draft.lasting_neat.add h.neat hfit,
      Draft.lasting_within.add h.within trivial⟩
  · exact fun h => ⟨Draft.lasting_nonzero.remove h.nonzero, Draft.lasting_neat.remove h.neat,
      Draft.lasting_within.remove h.within⟩

theorem OccurrenceList.Neat.decode_encode {os : List Occurrence} (h : Neat os) : decode (encode os) = .ok os :=
  OccurrenceList.decode_encode h.ascending (fun o ho => (h.positions o ho).2) h.nonzero

theorem OccurrenceList.Neat.read_encode {os : List Occurrence} (h : Neat os) : readOccurrences (encode os) = os := by
  rw [readOccurrences, h.decode_encode]
  rfl

/-- The terms of documents are added one by one; the length of a term is a machine word. -/
def builtRule : Rule where
  fit doc := doc.Built ∧ ∀ field, Storable (doc.terms field).keys

theorem Document.Keyed.built {doc : Document} (h : doc.Keyed) : builtRule.fit doc :=
  ⟨h.1, fun field => storable_of_holdsKey (h.2 field)⟩

/-! ### Runs -/

namespace Draft

/-- All lists, queued changes included, are as they should be stored, and what is stored is. -/
structure Tidy (d : Draft) : Prop where
  listed : Listed Aligned d
  occurrences : d.store.OccurrencesTidy
  children : d.store.ChildrenTidy

theorem Tidy.step {resolver : Resolver} {d d' : Draft} (hstep : Step resolver builtRule d d') (h : d.Tidy) :
    d'.Tidy := by
  have hterms : ∀ doc, builtRule.fit doc → ∀ field, Storable (doc.terms field).keys := fun doc hdoc => hdoc.2
  refine ⟨h.listed.step lasting_aligned hterms (fun doc hdoc hid field t positions hfind => ?_) hstep,
    .congr hstep.lists_eq.2 h.occurrences, h.children.step hstep⟩
  exact ⟨hid, hdoc.1.ascending field t positions hfind⟩

theorem tidy_empty : ({ store := ∅ } : Draft).Tidy :=
  ⟨listed_empty aligned_nil, fun _ _ hfind => (nomatch hfind), fun _ _ hfind => (nomatch hfind)⟩

theorem Tidy.commit {d : Draft} (h : d.Tidy) {s : Store} (hcommit : d.commit = .ok s) :
    ({ store := s } : Draft).Tidy := by
  have hread : ∀ t, readOccurrences (OccurrenceList.encode (d.listsOf t).2) = (d.listsOf t).2 :=
    fun t => (h.listed.lists t).neat.read_encode
  refine ⟨h.listed.commit (fun ids os hlists => ?_) hcommit, (occurrencesOf_commit hcommit hread).2 h.occurrences,
    h.children.congr (by rw [sameButLists_commit hcommit])⟩
  have hos : readOccurrences (OccurrenceList.encode os) = os := hlists.neat.read_encode
  rwa [hos]

end Draft

/-! ### What is stored -/

namespace Store

/-- The bytes are those of a list of ids that is not empty and ascends without the id 0. -/
def HoldsIds (value : Bytes) : Prop := ∃ ids, IdList.decode value = .ok ids ∧ ids ≠ [] ∧ ids.Pairwise (· < ·) ∧ 0 ∉ ids

/-- The lists that are stored can be read. None is empty, and all ascend; what has positions of a term is listed by the
term. -/
structure WellFormed (s : Store) : Prop where
  postings : ∀ term value, s.postings.find? term = some value → HoldsIds value
  children : ∀ key value, s.children.find? key = some value → HoldsIds value
  occurrences : ∀ term value, s.occurrences.find? term = some value →
    ∃ os, OccurrenceList.decode value = .ok os ∧ os ≠ [] ∧ Neat os ∧ ∀ o ∈ os, o.id ∈ s.idsWith term
  sets : ∀ field key value, (s.termTable field).find? key = some value →
    ∃ terms, TermSet.decode value = .ok terms ∧ terms ≠ [] ∧ terms.Pairwise (· < ·)

theorem wellFormed_of_tidy {s : Store} (h : ({ store := s } : Draft).Tidy) : s.WellFormed := by
  have hlists : ∀ t, Aligned (s.idsWith t, s.occurrencesOf t) := h.listed.lists
  have hascend : ∀ t, (s.idsWith t).Pairwise (· < ·) := h.listed.ascend
  refine ⟨fun term value hfind => ?_, fun key value hfind => ?_, fun term value hfind => ?_,
    fun field key value hfind => ?_⟩
  · obtain ⟨_, hne, rfl⟩ := h.listed.postings term value hfind
    exact ⟨_, IdList.decode_encode (hascend term), hne, hascend term, (hlists term).nonzero⟩
  · obtain ⟨_, ids, _, hne, hascending, hzero, rfl⟩ := h.children key value hfind
    exact ⟨ids, IdList.decode_encode hascending, hne, hascending, hzero⟩
  · obtain ⟨_, hne, rfl⟩ := h.occurrences term value hfind
    exact ⟨_, (hlists term).neat.decode_encode, hne, (hlists term).neat, (hlists term).within⟩
  · obtain ⟨_, terms, _, hne, hterms, rfl⟩ := h.listed.sets field key value hfind
    refine ⟨_, TermSet.decode_encode hterms, ?_, Ascending.pairwise_ofList _⟩
    obtain ⟨t, ht⟩ := List.exists_mem_of_ne_nil terms hne
    exact List.ne_nil_of_mem (Ascending.mem_ofList.mpr ht)

theorem WellFormed.idsWith {s : Store} (h : s.WellFormed) (t : Bytes) :
    (s.idsWith t).Pairwise (· < ·) ∧ 0 ∉ s.idsWith t := by
  rcases s.idsWith_cases t with hnil | ⟨value, hfind, hread⟩
  · rw [hnil]
    exact ⟨.nil, List.not_mem_nil⟩
  · obtain ⟨ids, hids, _, hascending, hzero⟩ := h.postings t value hfind
    rw [hread, readIds, hids]
    exact ⟨hascending, hzero⟩

theorem WellFormed.occurrencesOf {s : Store} (h : s.WellFormed) (t : Bytes) :
    Neat (s.occurrencesOf t) ∧ ∀ o ∈ s.occurrencesOf t, o.id ∈ s.idsWith t := by
  rcases s.occurrencesOf_cases t with hnil | ⟨value, hfind, hread⟩
  · rw [hnil]
    exact ⟨.nil, nofun⟩
  · obtain ⟨os, hos, _, hneat, hwithin⟩ := h.occurrences t value hfind
    rw [hread, readOccurrences, hos]
    exact ⟨hneat, hwithin⟩

theorem sorted_of_aligned {s : Store} (hascend : ∀ t, (s.idsWith t).Pairwise (· < ·))
    (h : ∀ t, Aligned (s.idsWith t, s.occurrencesOf t)) : s.Sorted :=
  ⟨fun t => ⟨hascend t, (h t).nonzero⟩, fun t => ⟨(h t).neat.ascending, (h t).neat.nonzero,
    fun o ho => ((h t).neat.positions o ho).2.imp UInt32.le_of_lt⟩⟩

theorem WellFormed.sorted {s : Store} (h : s.WellFormed) : s.Sorted :=
  sorted_of_aligned (fun t => (h.idsWith t).1) fun t => ⟨(h.idsWith t).2, (h.occurrencesOf t).1, (h.occurrencesOf t).2⟩

/-- Where a phrase matches, each of its terms does. -/
theorem WellFormed.matches_and_of_phrase {s : Store} (h : s.WellFormed) {terms : List Bytes} {id : DocId}
    (hid : s.Matches (.composite .phrase (terms.map .term)) id) : s.Matches (.composite .and (terms.map .term)) id := by
  have hinj : Function.Injective Query.term := fun _ _ heq => Query.term.inj heq
  rw [matches_and_iff, List.forall_mem_map]
  intro t ht
  rw [matches_term_iff]
  generalize hq : Query.composite .phrase (terms.map .term) = q at hid
  cases hid with
  | term | startsWith | and | or => simp at hq
  | @phraseOfOne t' _ hlisted =>
    have hterms : terms = [t'] := List.map_injective_iff.mpr hinj (Query.composite.inj hq).2
    rw [hterms, List.mem_singleton] at ht
    exact ht ▸ hlisted
  | @phrase terms' _ start _ hall =>
    have hterms : terms = terms' := List.map_injective_iff.mpr hinj (Query.composite.inj hq).2
    subst hterms
    obtain ⟨i, hi, rfl⟩ := List.getElem_of_mem ht
    obtain ⟨o, ho, rfl, _⟩ := hall i hi
    exact (h.occurrencesOf _).2 o ho

/-- A phrase is found only where all of its terms are. -/
theorem WellFormed.phrase_subset {s : Store} (h : s.WellFormed) {terms : List Bytes} (hne : terms ≠ []) :
    ∃ ids ids', s.search (.composite .phrase (terms.map .term)) none = .ok ids ∧
      s.search (.composite .and (terms.map .term)) none = .ok ids' ∧ ids ⊆ ids' := by
  have hne' : terms.map Query.term ≠ [] := by simpa using hne
  obtain ⟨_, hc, hfinds⟩ := finds_phrase h.sorted hne' (by simp [Query.isTerm])
  obtain ⟨_, hc', hfinds'⟩ := finds_and hne' fun q hq => by
    obtain ⟨t, _, rfl⟩ := List.mem_map.mp hq
    exact cursorFor_spec h.sorted (.term t)
  obtain ⟨ids, _, hmem, hsearch⟩ := search_of_finds hc hfinds
  obtain ⟨ids', _, hmem', hsearch'⟩ := search_of_finds hc' hfinds'
  refine ⟨ids, ids', hsearch, hsearch', fun id hid => ?_⟩
  exact (hmem' id).mpr (h.matches_and_of_phrase ((hmem id).mp hid))

end Store

/-- After every run on documents whose terms were added one by one, the stored lists are well formed, and a phrase is
found only where all of its terms are. -/
theorem Session.wellFormed_afterAt (resolver : Resolver) (moments : List Moment)
    (h : ({ resolver } : Session).ObeysAt builtRule.Allows moments) :
    let s := (({ resolver } : Session).afterAt moments).committed
    s.WellFormed ∧ ∀ terms : List Bytes, terms ≠ [] →
      ∃ ids ids', s.search (.composite .phrase (terms.map .term)) none = .ok ids ∧
        s.search (.composite .and (terms.map .term)) none = .ok ids' ∧ ids ⊆ ids' := by
  intro s
  have hwell : s.WellFormed :=
    wellFormed_of_tidy (keep_afterAt Draft.Tidy.step Draft.Tidy.commit Draft.tidy_empty h).1.1
  exact ⟨hwell, fun _ => hwell.phrase_subset⟩

/-- A document has a term in two fields, loses it in the one in which it has a position, and gets it back there in the
same transaction. -/
theorem Session.wellFormed_afterAt_refilled_field :
    let plain : Document := { id := 7, url := [0x2F, 0x61] }
    let doc : Document := (plain.addPosition .content [0x78] 3).addTerm .fileName [0x78]
    let moments : List Moment := [⟨.nowhere, .beginWrite⟩, ⟨.nowhere, .write (.add doc)⟩,
      ⟨.nowhere, .write (.replace plain { contentTerms := true })⟩, ⟨.nowhere, .write (.replace doc .everything)⟩,
      ⟨.nowhere, .commit⟩]
    let start : Session := { resolver := .nowhere }
    start.ObeysAt builtRule.Allows moments ∧ (start.afterAt moments).committed.WellFormed := by
  intro plain doc moments start
  have hplain : plain.Keyed := .plain 7 _ _ _ _
  have hdoc : doc.Keyed := (hplain.addPosition .content 3 (by decide)).addTerm .fileName (by decide)
  have hobeys : start.ObeysAt builtRule.Allows moments := by
    refine ⟨fun op d hop => ?_, fun op d hop _ => ?_, fun op d hop _ => ?_, fun op d hop _ => ?_, fun op d hop => ?_,
      trivial⟩
    · cases hop
    · cases hop
      exact ⟨hdoc.built, fun _ _ => trivial⟩
    · cases hop
      exact ⟨hplain.built, fun _ _ _ => trivial⟩
    · cases hop
      exact ⟨hdoc.built, fun _ _ _ => trivial⟩
    · cases hop
  exact ⟨hobeys, (wellFormed_afterAt .nowhere moments hobeys).1⟩

end FileIndex
