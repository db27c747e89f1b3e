import FileIndex.Proofs.Cursor.Trees
import FileIndex.Proofs.Store.Lists
import FileIndex.Search

/-!
# What a search finds

A query stands for a set of documents, told by the lists of the store alone. A search answers this set in
ascending order, up to its limit.

* `Query.Checked`: the queries that can be built. `Store.Matches`: the documents of a query.
* `Finds`: a cursor, or the lack of one, is what there is to a set of documents.
* `Store.finds_restCursor?`: what the cursor over some of the terms with a beginning finds.
* `Store.cursorFor_spec`: the cursor for a query finds its documents; the induction is on the query.
* `Store.search_congr`: a search looks at the lists of terms only.
* `Cursor.collect_of_obeys`: going through a cursor answers its ids.
* `Store.search_eq`: searching answers the documents of the query.
-/

namespace FileIndex

/-- A query that can be built: a beginning of terms is not empty, and a composite is composed of such queries. -/
inductive Query.Checked : Query → Prop
  | term (t : Bytes) : Checked (.term t)
  | startsWith {beginning : Bytes} : beginning ≠ [] → Checked (.startsWith beginning)
  | compose {how : Connective} {operands : List Query} {q : Query} : (∀ operand ∈ operands, Checked operand) →
    Query.compose how operands = .ok q → Checked q

theorem Query.compose_eq_ok {how : Connective} {operands : List Query} {q : Query} (h : compose how operands = .ok q) :
    q = .composite how operands ∧ operands ≠ [] ∧ (how = .phrase → ∀ operand ∈ operands, operand.isTerm = true) := by
  rw [compose] at h
  split at h
  · cases h
  · rename_i hne
    split at h
    · cases h
    · rename_i hterms
      refine ⟨(Except.ok.inj h).symm, by simpa using hne, fun hhow => ?_⟩
      simpa [hhow] using hterms

theorem Query.phraseOf_eq {terms : List Bytes} (h : terms ≠ []) :
    phraseOf terms = .ok (.composite .phrase (terms.map .term)) := by
  simp [phraseOf, compose, isTerm, h]

theorem Query.Checked.phrase {terms : List Bytes} (h : terms ≠ []) :
    Checked (.composite .phrase (terms.map .term)) := by
  refine .compose (fun operand hoperand => ?_) (phraseOf_eq h)
  obtain ⟨t, _, rfl⟩ := List.mem_map.mp hoperand
  exact .term t

namespace Store

/-- The document matches the query, by the lists of the store. A phrase of several terms matches where from some
start on each term has the position after the one of the term before it. -/
inductive Matches (s : Store) : Query → DocId → Prop
  | term {t : Bytes} {id : DocId} : id ∈ s.idsWith t → Matches s (.term t) id
  | startsWith {beginning t : Bytes} {id : DocId} : s.postings.contains t = true → beginning <+: t →
    id ∈ s.idsWith t → Matches s (.startsWith beginning) id
  | and {operands : List Query} {id : DocId} : (∀ q ∈ operands, Matches s q id) →
    Matches s (.composite .and operands) id
  | or {operands : List Query} {q : Query} {id : DocId} : q ∈ operands → Matches s q id →
    Matches s (.composite .or operands) id
  | phraseOfOne {t : Bytes} {id : DocId} : id ∈ s.idsWith t → Matches s (.composite .phrase [.term t]) id
  | phrase {terms : List Bytes} {id : DocId} (start : Nat) : 2 ≤ terms.length →
    (∀ i (h : i < terms.length), ∃ o ∈ s.occurrencesOf terms[i], o.id = id ∧ ∃ p ∈ o.positions, p.toNat = start + i) →
    Matches s (.composite .phrase (terms.map .term)) id

/-- The lists of all terms are strictly ascending without the id 0, their positions ascending. -/
structure Sorted (s : Store) : Prop where
  ids : ∀ t, (s.idsWith t).Pairwise (· < ·) ∧ 0 ∉ s.idsWith t
  occurrences : ∀ t, OccurrenceList.Sorted (s.occurrencesOf t)

/-- It is enough that the stored lists are sorted. -/
theorem Sorted.of_entries {s : Store}
    (hids : ∀ e ∈ s.postings.entries, (readIds e.2).Pairwise (· < ·) ∧ 0 ∉ readIds e.2)
    (hoccurrences : ∀ e ∈ s.occurrences.entries,
      OccurrenceList.Sorted (Malformed.orElse [] (OccurrenceList.decode e.2))) : s.Sorted := by
  constructor
  · intro t
    rcases s.idsWith_cases t with hnil | ⟨value, hfind, hread⟩
    · rw [hnil]
      exact ⟨.nil, List.not_mem_nil⟩
    · rw [hread]
      exact hids (t, value) (ByteMap.find?_eq_some_iff.mp hfind)
  · intro t
    rcases s.occurrencesOf_cases t with hnil | ⟨value, hfind, hread⟩
    · rw [hnil]
      exact ⟨.nil, by simp, by simp⟩
    · rw [hread]
      exact hoccurrences (t, value) (ByteMap.find?_eq_some_iff.mp hfind)

end Store

/-- A cursor is made of sorted lists that hold the set, or there is none because the set is empty. -/
inductive Finds : Option Cursor → (DocId → Prop) → Prop
  | nothing {D : DocId → Prop} : (∀ id, ¬ D id) → Finds none D
  | tree {t : CursorTree} {c : Cursor} {D : DocId → Prop} : t.Sorted → t.cursor? = some c →
    (∀ id, t.Holds id ↔ D id) → Finds (some c) D

namespace Finds

open CursorTree

theorem congr {c : Option Cursor} {D D' : DocId → Prop} (h : Finds c D) (hD : ∀ id, D id ↔ D' id) : Finds c D' := by
  cases h with
  | nothing hnone => exact .nothing fun id hid => hnone id ((hD id).mpr hid)
  | tree hsorted hc hholds => exact .tree hsorted hc fun id => (hholds id).trans (hD id)

theorem cursorOver? {ids : List DocId} (h : ids.Pairwise (· < ·)) (hzero : 0 ∉ ids) :
    Finds (Store.cursorOver? ids) (· ∈ ids) := by
  rw [Store.cursorOver?]
  cases ids with
  | nil => exact .nothing fun id hid => absurd hid List.not_mem_nil
  | cons a ids =>
    refine .tree (.ids h hzero) rfl fun id => ?_
    constructor
    · intro hid
      cases hid with
      | ids hid => exact hid
    · exact .ids

/-- The cheapest cursor over all ids finds what some part finds. -/
theorem union? {ts : List CursorTree} {cs : List Cursor} (hsorted : ∀ t ∈ ts, t.Sorted)
    (hcs : cursors? ts = some cs) : Finds (Cursor.union? cs) fun id => ∃ t ∈ ts, t.Holds id := by
  have hholds : ∀ id, (union ts).Holds id ↔ ∃ t ∈ ts, t.Holds id := by
    intro id
    constructor
    · intro hid
      cases hid with
      | union ht hid => exact ⟨_, ht, hid⟩
    · rintro ⟨t, ht, hid⟩
      exact .union ht hid
  have hcursor : (union ts).cursor? = Cursor.union? cs := by rw [cursor?, hcs, Option.bind_some]
  cases hunion : Cursor.union? cs with
  | some c => exact .tree (.union hsorted) (hcursor.trans hunion) hholds
  | none =>
    have hempty : cs = [] := by
      rcases cs with _ | ⟨c, _ | ⟨c', cs⟩⟩
      · rfl
      · simp [Cursor.union?] at hunion
      · simp [Cursor.union?] at hunion
    subst hempty
    refine .nothing fun id hid => ?_
    obtain ⟨t, ht, _⟩ := hid
    cases ts with
    | nil => exact absurd ht List.not_mem_nil
    | cons t ts =>
      rw [cursors?, Option.bind_eq_some_iff] at hcs
      obtain ⟨c, _, hrest⟩ := hcs
      simp at hrest

end Finds

namespace Store

open CursorTree

variable {s : Store}

/-! ### Operands that cannot match -/

/-- The cursors for lists of ids, of which the empty ones are left out. -/
theorem exists_trees_of_lists {lists : List (List DocId)}
    (h : ∀ ids ∈ lists, ids.Pairwise (· < ·) ∧ 0 ∉ ids) :
    ∃ ts, (∀ t ∈ ts, t.Sorted) ∧ cursors? ts = some (lists.filterMap cursorOver?) ∧
      ∀ id, (∃ t ∈ ts, t.Holds id) ↔ ∃ ids ∈ lists, id ∈ ids := by
  induction lists with
  | nil => exact ⟨[], by simp, rfl, by simp⟩
  | cons ids lists ih =>
    obtain ⟨⟨hascending, hzero⟩, hrest⟩ := List.forall_mem_cons.mp h
    obtain ⟨ts, hsorted, hcursors, hholds⟩ := ih hrest
    cases hfinds : cursorOver? ids with
    | none =>
      have hids := Finds.cursorOver? hascending hzero
      rw [hfinds] at hids
      cases hids with
      | nothing hnone =>
        refine ⟨ts, hsorted, by rw [List.filterMap_cons_none hfinds]; exact hcursors, fun id => ?_⟩
        rw [hholds, List.exists_mem_cons_iff]
        exact (or_iff_right (hnone id)).symm
    | some c =>
      have hids := Finds.cursorOver? hascending hzero
      rw [hfinds] at hids
      cases hids with
      | @tree t _ _ htree hc hmem =>
        refine ⟨t :: ts, List.forall_mem_cons.mpr ⟨htree, hsorted⟩, ?_, fun id => ?_⟩
        · rw [List.filterMap_cons_some hfinds, cursors?, hc, hcursors]
          rfl
        · rw [List.exists_mem_cons_iff, List.exists_mem_cons_iff, hholds, hmem]

theorem optionalCursors_of_error {q : Query} {qs : List Query} {e : Error} (h : s.cursorFor q = .error e) :
    s.optionalCursors (q :: qs) = .error e := by
  rw [optionalCursors, h]
  rfl

theorem optionalCursors_of_ok {q : Query} {qs : List Query} {c : Option Cursor} (h : s.cursorFor q = .ok c) :
    s.optionalCursors (q :: qs) = return c.toList ++ (← s.optionalCursors qs) := by
  rw [optionalCursors, h]
  rfl

theorem requiredCursors_of_error {q : Query} {qs : List Query} {e : Error} (h : s.cursorFor q = .error e) :
    s.requiredCursors (q :: qs) = .error e := by
  rw [requiredCursors, h]
  rfl

theorem requiredCursors_of_none {q : Query} {qs : List Query} (h : s.cursorFor q = .ok none) :
    s.requiredCursors (q :: qs) = .ok none := by
  rw [requiredCursors, h]
  rfl

theorem requiredCursors_of_some {q : Query} {qs : List Query} {c : Cursor} (h : s.cursorFor q = .ok (some c)) :
    s.requiredCursors (q :: qs) = return (← s.requiredCursors qs).map (c :: ·) := by
  rw [requiredCursors, h]
  rfl

/-- The operands that cannot match add nothing to an alternative. -/
theorem optionalCursors_spec {qs : List Query}
    (h : ∀ q ∈ qs, ∃ c, s.cursorFor q = .ok c ∧ Finds c (s.Matches q)) :
    ∃ cs ts, s.optionalCursors qs = .ok cs ∧ (∀ t ∈ ts, t.Sorted) ∧ cursors? ts = some cs ∧
      ∀ id, (∃ t ∈ ts, t.Holds id) ↔ ∃ q ∈ qs, s.Matches q id := by
  induction qs with
  | nil => exact ⟨[], [], rfl, by simp, rfl, by simp⟩
  | cons q qs ih =>
    obtain ⟨⟨c, hc, hfinds⟩, hrest⟩ := List.forall_mem_cons.mp h
    obtain ⟨cs, ts, hcs, hsorted, hcursors, hholds⟩ := ih hrest
    have hoptional : s.optionalCursors (q :: qs) = .ok (c.toList ++ cs) := by
      rw [optionalCursors_of_ok hc, hcs]
      rfl
    cases hfinds with
    | nothing hnone =>
      refine ⟨_, ts, hoptional, hsorted, hcursors, fun id => ?_⟩
      rw [hholds, List.exists_mem_cons_iff]
      exact (or_iff_right (hnone id)).symm
    | @tree t c _ htree htc hmem =>
      refine ⟨_, t :: ts, hoptional, List.forall_mem_cons.mpr ⟨htree, hsorted⟩, ?_, fun id => ?_⟩
      · rw [cursors?, htc, hcursors]
        rfl
      · rw [List.exists_mem_cons_iff, List.exists_mem_cons_iff, hholds, hmem]

/-- An operand that cannot match leaves a conjunction without documents. -/
theorem requiredCursors_spec {qs : List Query}
    (h : ∀ q ∈ qs, ∃ c, s.cursorFor q = .ok c ∧ Finds c (s.Matches q)) :
    (s.requiredCursors qs = .ok none ∧ ∃ q ∈ qs, ∀ id, ¬ s.Matches q id) ∨
      ∃ cs ts, s.requiredCursors qs = .ok (some cs) ∧ (∀ t ∈ ts, t.Sorted) ∧ cursors? ts = some cs ∧
        ts.length = qs.length ∧ ∀ id, (∀ t ∈ ts, t.Holds id) ↔ ∀ q ∈ qs, s.Matches q id := by
  induction qs with
  | nil => exact .inr ⟨[], [], rfl, by simp, rfl, rfl, by simp⟩
  | cons q qs ih =>
    obtain ⟨⟨c, hc, hfinds⟩, hrest⟩ := List.forall_mem_cons.mp h
    cases hfinds with
    | nothing hnone =>
      exact .inl ⟨requiredCursors_of_none hc, q, List.mem_cons_self, hnone⟩
    | @tree t c _ htree htc hmem =>
      rcases ih hrest with ⟨hcs, q', hq', hnone⟩ | ⟨cs, ts, hcs, hsorted, hcursors, hlength, hholds⟩
      · refine .inl ⟨?_, q', List.mem_cons_of_mem q hq', hnone⟩
        rw [requiredCursors_of_some hc, hcs]
        rfl
      · refine .inr ⟨c :: cs, t :: ts, ?_, List.forall_mem_cons.mpr ⟨htree, hsorted⟩, ?_, by simp [hlength],
          fun id => ?_⟩
        · rw [requiredCursors_of_some hc, hcs]
          rfl
        · rw [cursors?, htc, hcursors]
          rfl
        · rw [List.forall_mem_cons, List.forall_mem_cons, hholds, hmem]

/-! ### Each kind of query -/

theorem matches_term_iff {t : Bytes} {id : DocId} : s.Matches (.term t) id ↔ id ∈ s.idsWith t := by
  constructor
  · intro hid
    cases hid with
    | term hid => exact hid
  · exact .term

theorem finds_termCursor? (hs : s.Sorted) (t : Bytes) : Finds (s.termCursor? t) (s.Matches (.term t)) :=
  (Finds.cursorOver? (hs.ids t).1 (hs.ids t).2).congr fun _ => matches_term_iff.symm

/-- Without any id there is no cursor. -/
theorem union?_eq_none {lists : List (List DocId)} (h : ∀ ids ∈ lists, ids = []) :
    Cursor.union? (lists.filterMap cursorOver?) = none := by
  have hnil : lists.filterMap cursorOver? = [] := by
    rw [List.filterMap_eq_nil_iff]
    intro ids hids
    rw [h ids hids]
    rfl
  rw [hnil]
  rfl

/-- The cursor over the wanted terms of a beginning finds the documents of these, and there is one only if there
are any. -/
theorem finds_restCursor? (hids : ∀ t, (s.idsWith t).Pairwise (· < ·) ∧ 0 ∉ s.idsWith t) {beginning : Bytes}
    (hne : beginning ≠ []) (wanted : Bytes → Bool) :
    let D := fun id => ∃ rest, wanted rest = true ∧ s.postings.contains (beginning ++ rest) = true ∧
      id ∈ s.idsWith (beginning ++ rest)
    ∃ c, s.restCursor? beginning wanted = .ok c ∧ Finds c D ∧ (c ≠ none → ∃ id, D id) := by
  intro D
  let kept := (s.postings.entries.filter (beginning.isPrefixOf ·.1)).filter fun e => wanted (e.1.drop beginning.length)
  have hkept : ∀ e, e ∈ kept ↔ e ∈ s.postings.entries ∧ ∃ rest, e.1 = beginning ++ rest ∧ wanted rest = true := by
    intro e
    rw [List.mem_filter, List.mem_filter, List.isPrefixOf_iff_prefix, and_assoc]
    refine and_congr_right fun _ => ⟨?_, ?_⟩
    · rintro ⟨⟨rest, hrest⟩, hwanted⟩
      rw [← hrest, List.drop_left] at hwanted
      exact ⟨rest, hrest.symm, hwanted⟩
    · rintro ⟨rest, hrest, hwanted⟩
      rw [hrest, List.drop_left]
      exact ⟨List.prefix_append beginning rest, hwanted⟩
  have hread : ∀ e ∈ kept, readIds e.2 = s.idsWith e.1 := by
    intro e he
    obtain ⟨he, rest, hrest, _⟩ := (hkept e).mp he
    exact readIds_eq_idsWith he (hrest ▸ List.append_ne_nil_of_left_ne_nil hne rest)
  have hcursor : s.restCursor? beginning wanted =
      .ok (Cursor.union? ((kept.map fun e => readIds e.2).filterMap cursorOver?)) := by
    rw [restCursor?, Table.beginningWith, if_neg (by simpa using hne), List.filterMap_map]
    rfl
  have hlists : ∀ ids ∈ kept.map fun e => readIds e.2, ids.Pairwise (· < ·) ∧ 0 ∉ ids := by
    intro ids hmem
    obtain ⟨e, he, rfl⟩ := List.mem_map.mp hmem
    exact hread e he ▸ hids e.1
  have hdocuments : ∀ id, (∃ ids ∈ kept.map fun e => readIds e.2, id ∈ ids) ↔ D id := by
    intro id
    constructor
    · rintro ⟨ids, hmem, hid⟩
      obtain ⟨e, he, rfl⟩ := List.mem_map.mp hmem
      obtain ⟨hentry, rest, hrest, hwanted⟩ := (hkept e).mp he
      rw [hread e he, hrest] at hid
      refine ⟨rest, hwanted, ?_, hid⟩
      rw [← hrest, ByteMap.contains, ByteMap.find?_eq_some_iff.mpr hentry]
      rfl
    · rintro ⟨rest, hwanted, hstored, hid⟩
      rw [ByteMap.contains, Option.isSome_iff_exists] at hstored
      obtain ⟨value, hfind⟩ := hstored
      have he : (beginning ++ rest, value) ∈ kept :=
        (hkept _).mpr ⟨ByteMap.find?_eq_some_iff.mp hfind, rest, rfl, hwanted⟩
      exact ⟨readIds value, List.mem_map_of_mem he, hread _ he ▸ hid⟩
  obtain ⟨ts, hsorted, hcursors, hholds⟩ := exists_trees_of_lists hlists
  refine ⟨_, hcursor, (Finds.union? hsorted hcursors).congr fun id => (hholds id).trans (hdocuments id),
    fun hsome => ?_⟩
  by_contra hnone
  refine hsome (union?_eq_none fun ids hmem => List.eq_nil_iff_forall_not_mem.mpr fun id hid => ?_)
  exact hnone ⟨id, (hdocuments id).mp ⟨ids, hmem, hid⟩⟩

theorem finds_beginningCursor? (hs : s.Sorted) {beginning : Bytes} (hne : beginning ≠ []) :
    ∃ c, s.beginningCursor? beginning = .ok c ∧ Finds c (s.Matches (.startsWith beginning)) := by
  obtain ⟨c, hc, hfinds, _⟩ := finds_restCursor? hs.ids hne fun _ => true
  refine ⟨c, hc, hfinds.congr fun id => ⟨?_, fun hid => ?_⟩⟩
  · rintro ⟨rest, _, hstored, hid⟩
    exact .startsWith hstored (List.prefix_append beginning rest) hid
  · cases hid with
    | startsWith hstored hbegins hid =>
      obtain ⟨rest, rfl⟩ := hbegins
      exact ⟨rest, rfl, hstored, hid⟩

/-- Queries that ask for exact terms are made of these. -/
theorem exists_terms {qs : List Query} (h : ∀ q ∈ qs, q.isTerm = true) :
    ∃ terms : List Bytes, qs = terms.map .term := by
  induction qs with
  | nil => exact ⟨[], rfl⟩
  | cons q qs ih =>
    obtain ⟨hq, hqs⟩ := List.forall_mem_cons.mp h
    obtain ⟨terms, rfl⟩ := ih hqs
    cases q with
    | term t => exact ⟨t :: terms, rfl⟩
    | startsWith | composite => simp [Query.isTerm] at hq

theorem phraseTerms_map (terms : List Bytes) : phraseTerms (terms.map .term) = .ok terms := by
  induction terms with
  | nil => rfl
  | cons t terms ih =>
    rw [List.map_cons, phraseTerms, ih]
    rfl

/-- The cursors for the positions of some terms, unless one of the terms has none. -/
theorem mapM_occurrenceCursor? (terms : List Bytes) :
    (terms.mapM s.occurrenceCursor? = none ∧ ∃ t ∈ terms, s.occurrencesOf t = []) ∨
      ∃ cs, terms.mapM s.occurrenceCursor? = some cs ∧
        cursors? (terms.map fun t => .occurrences (s.occurrencesOf t)) = some cs := by
  induction terms with
  | nil => exact .inr ⟨[], rfl, rfl⟩
  | cons t terms ih =>
    rw [List.mapM_cons, occurrenceCursor?]
    cases hos : s.occurrencesOf t with
    | nil => exact .inl ⟨rfl, t, List.mem_cons_self, hos⟩
    | cons o os =>
      rcases ih with ⟨hnone, t', ht', hempty⟩ | ⟨cs, hcs, hcursors⟩
      · refine .inl ⟨?_, t', List.mem_cons_of_mem t ht', hempty⟩
        rw [hnone]
        rfl
      · refine .inr ⟨.ofOccurrences (o :: os) :: cs, ?_, ?_⟩
        · rw [hcs]
          rfl
        · rw [List.map_cons, cursors?, hcursors, hos]
          rfl

/-- A phrase of several terms matches where they have successive positions. -/
theorem matches_phrase_iff {terms : List Bytes} (hlength : 2 ≤ terms.length) {id : DocId} :
    s.Matches (.composite .phrase (terms.map .term)) id ↔ ∃ start, ∀ i (h : i < terms.length),
      ∃ o ∈ s.occurrencesOf terms[i], o.id = id ∧ ∃ p ∈ o.positions, p.toNat = start + i := by
  refine ⟨fun hid => ?_, fun ⟨start, hall⟩ => .phrase start hlength hall⟩
  generalize hq : Query.composite .phrase (terms.map .term) = q at hid
  cases hid with
  | term | startsWith | and | or => simp at hq
  | phraseOfOne =>
    have := congrArg List.length (Query.composite.inj hq).2
    simp at this
    omega
  | @phrase terms' _ start _ hall =>
    have hterms : terms = terms' := by
      have hinj : Function.Injective Query.term := fun _ _ h => Query.term.inj h
      exact List.map_injective_iff.mpr hinj (Query.composite.inj hq).2
    subst hterms
    exact ⟨start, hall⟩

/-- The parts of a phrase follow each other where the positions of its terms do. -/
theorem holds_phrase_iff {terms : List Bytes} (hlength : 2 ≤ terms.length) {id : DocId} :
    (CursorTree.join .phrase (terms.map fun t => .occurrences (s.occurrencesOf t))).Holds id ↔
      s.Matches (.composite .phrase (terms.map .term)) id := by
  constructor
  · intro hid
    cases hid with
    | phrase start _ _ hshows =>
      refine .phrase start hlength fun i hi => ?_
      obtain ⟨p, hp, hstart⟩ := hshows i (by simpa using hi)
      rw [List.getElem_map] at hp
      cases hp with
      | occurrences ho hp => exact ⟨_, ho, rfl, p, hp, hstart⟩
  · intro hid
    obtain ⟨start, hall⟩ := (matches_phrase_iff hlength).mp hid
    refine .phrase start (by intro hnil; simp at hnil; subst hnil; simp at hlength) (fun t ht => ?_) fun i hi => ?_
    · obtain ⟨term, hterm, rfl⟩ := List.mem_map.mp ht
      obtain ⟨i, hi, rfl⟩ := List.getElem_of_mem hterm
      obtain ⟨o, ho, rfl, _⟩ := hall i hi
      exact .occurrences ho
    · obtain ⟨o, ho, rfl, p, hp, hstart⟩ := hall i (by simpa using hi)
      refine ⟨p, ?_, hstart⟩
      rw [List.getElem_map]
      exact .occurrences ho hp

theorem finds_phraseCursor? (hs : s.Sorted) {terms : List Bytes} (hne : terms ≠ []) :
    Finds (s.phraseCursor? terms) (s.Matches (.composite .phrase (terms.map .term))) := by
  rcases terms with _ | ⟨t, _ | ⟨t', rest⟩⟩
  · exact absurd rfl hne
  · refine (finds_termCursor? hs t).congr fun id => ?_
    rw [matches_term_iff]
    constructor
    · exact .phraseOfOne
    · intro hid
      generalize hq : Query.composite .phrase ([t].map .term) = q at hid
      cases hid with
      | term | startsWith | and | or => simp at hq
      | phraseOfOne hid =>
        simp at hq
        exact hq ▸ hid
      | phrase _ hlength _ =>
        have := congrArg List.length (Query.composite.inj hq).2
        simp at this
        omega
  · have hlength : 2 ≤ (t :: t' :: rest).length := by simp
    generalize hterms : t :: t' :: rest = terms at hlength ⊢
    have hcursor : s.phraseCursor? terms = (terms.mapM s.occurrenceCursor?).map (Cursor.ofParts .phrase) := by
      subst hterms
      rfl
    rw [hcursor]
    rcases mapM_occurrenceCursor? (s := s) terms with ⟨hnone, t, ht, hempty⟩ | ⟨cs, hcs, hcursors⟩
    · rw [hnone]
      refine .nothing fun id hid => ?_
      rw [← holds_phrase_iff hlength] at hid
      cases hid with
      | phrase _ _ hall _ =>
        have hholds := hall _ (List.mem_map_of_mem ht)
        rw [hempty] at hholds
        cases hholds with
        | occurrences ho => exact absurd ho List.not_mem_nil
    · rw [hcs]
      refine .tree (.join fun t ht => ?_) ?_ fun id => holds_phrase_iff hlength
      · obtain ⟨term, _, rfl⟩ := List.mem_map.mp ht
        exact .occurrences (hs.occurrences term)
      · rw [cursor?, hcursors]
        rfl

/-! ### The cursor for a query -/

theorem matches_and_iff {qs : List Query} {id : DocId} :
    s.Matches (.composite .and qs) id ↔ ∀ q ∈ qs, s.Matches q id := by
  constructor
  · intro hid
    cases hid with
    | and hall => exact hall
  · exact .and

theorem matches_or_iff {qs : List Query} {id : DocId} :
    s.Matches (.composite .or qs) id ↔ ∃ q ∈ qs, s.Matches q id := by
  constructor
  · intro hid
    cases hid with
    | or hq hid => exact ⟨_, hq, hid⟩
  · rintro ⟨q, hq, hid⟩
    exact .or hq hid

theorem finds_and {qs : List Query} (hne : qs ≠ [])
    (h : ∀ q ∈ qs, ∃ c, s.cursorFor q = .ok c ∧ Finds c (s.Matches q)) :
    ∃ c, s.cursorFor (.composite .and qs) = .ok c ∧ Finds c (s.Matches (.composite .and qs)) := by
  rcases requiredCursors_spec h with ⟨hcs, q, hq, hnone⟩ | ⟨cs, ts, hcs, hsorted, hcursors, hlength, hholds⟩
  · refine ⟨none, ?_, .nothing fun id hid => hnone id (matches_and_iff.mp hid q hq)⟩
    rw [cursorFor, hcs]
    rfl
  · have hne' : ts ≠ [] := by
      rw [← List.length_pos_iff] at hne ⊢
      omega
    rcases ts with _ | ⟨t, _ | ⟨t', ts⟩⟩
    · exact absurd rfl hne'
    · -- a single operand is its own conjunction
      rw [cursors?, Option.bind_eq_some_iff] at hcursors
      obtain ⟨c, hc, hrest⟩ := hcursors
      rw [cursors?, Option.map_some, Option.some.injEq] at hrest
      subst hrest
      refine ⟨some c, ?_, .tree (hsorted t List.mem_cons_self) hc fun id => ?_⟩
      · rw [cursorFor, hcs]
        rfl
      · rw [matches_and_iff, ← hholds, List.forall_mem_singleton]
    · have hlong : ∃ c c' rest, cs = c :: c' :: rest := by
        rw [cursors?, Option.bind_eq_some_iff] at hcursors
        obtain ⟨c, _, hrest⟩ := hcursors
        rw [Option.map_eq_some_iff] at hrest
        obtain ⟨cs', hcs', rfl⟩ := hrest
        rw [cursors?, Option.bind_eq_some_iff] at hcs'
        obtain ⟨c', _, hrest⟩ := hcs'
        rw [Option.map_eq_some_iff] at hrest
        obtain ⟨rest, _, rfl⟩ := hrest
        exact ⟨c, c', rest, rfl⟩
      obtain ⟨c, c', rest, rfl⟩ := hlong
      refine ⟨some (.ofParts .and (c :: c' :: rest)), ?_, .tree (t := .join .and (t :: t' :: ts)) (.join hsorted) ?_
        fun id => ?_⟩
      · rw [cursorFor, hcs]
        rfl
      · rw [cursor?, hcursors]
        rfl
      · rw [matches_and_iff, ← hholds]
        constructor
        · intro hid
          cases hid with
          | and _ hall => exact hall
        · exact .and hne'

theorem finds_or {qs : List Query} (h : ∀ q ∈ qs, ∃ c, s.cursorFor q = .ok c ∧ Finds c (s.Matches q)) :
    ∃ c, s.cursorFor (.composite .or qs) = .ok c ∧ Finds c (s.Matches (.composite .or qs)) := by
  obtain ⟨cs, ts, hcs, hsorted, hcursors, hholds⟩ := optionalCursors_spec h
  refine ⟨Cursor.union? cs, ?_, (Finds.union? hsorted hcursors).congr fun id => ?_⟩
  · rw [cursorFor, hcs]
    rfl
  · rw [hholds, matches_or_iff]

theorem finds_phrase (hs : s.Sorted) {qs : List Query} (hne : qs ≠ []) (hterms : ∀ q ∈ qs, q.isTerm = true) :
    ∃ c, s.cursorFor (.composite .phrase qs) = .ok c ∧ Finds c (s.Matches (.composite .phrase qs)) := by
  obtain ⟨terms, rfl⟩ := exists_terms hterms
  refine ⟨s.phraseCursor? terms, ?_, finds_phraseCursor? hs (by simpa using hne)⟩
  rw [cursorFor, phraseTerms_map]
  rfl

/-- The cursor for a query finds the documents of the query. -/
theorem cursorFor_spec (hs : s.Sorted) {q : Query} (hq : q.Checked) :
    ∃ c, s.cursorFor q = .ok c ∧ Finds c (s.Matches q) := by
  induction hq with
  | term t =>
    refine ⟨s.termCursor? t, ?_, finds_termCursor? hs t⟩
    rw [cursorFor]
  | @startsWith beginning hne =>
    rw [cursorFor]
    exact finds_beginningCursor? hs hne
  | @compose how operands q _ hcompose ih =>
    obtain ⟨rfl, hne, hterms⟩ := Query.compose_eq_ok hcompose
    cases how with
    | and => exact finds_and hne ih
    | or => exact finds_or ih
    | phrase => exact finds_phrase hs hne (hterms rfl)

/-! ### What a search looks at -/

section Congr

variable {s' : Store}

/-- Both stores have the same cursors to begin with. -/
structure SameCursors (s s' : Store) : Prop where
  term : ∀ t, s'.termCursor? t = s.termCursor? t
  beginning : ∀ beginning, s'.beginningCursor? beginning = s.beginningCursor? beginning
  occurrences : ∀ t, s'.occurrenceCursor? t = s.occurrenceCursor? t

theorem SameCursors.phraseCursor? (h : SameCursors s s') (terms : List Bytes) :
    s'.phraseCursor? terms = s.phraseCursor? terms := by
  match terms with
  | [] => rfl
  | [t] => exact h.term t
  | _ :: _ :: _ => simp only [Store.phraseCursor?, funext h.occurrences]

mutual

theorem SameCursors.cursorFor (h : SameCursors s s') : ∀ q : Query, s'.cursorFor q = s.cursorFor q
  | .term t => by rw [Store.cursorFor, Store.cursorFor, h.term]
  | .startsWith beginning => by rw [Store.cursorFor, Store.cursorFor, h.beginning]
  | .composite .phrase qs => by simp only [Store.cursorFor, h.phraseCursor?]
  | .composite .and qs => by rw [Store.cursorFor, Store.cursorFor, h.requiredCursors qs]
  | .composite .or qs => by rw [Store.cursorFor, Store.cursorFor, h.optionalCursors qs]

theorem SameCursors.requiredCursors (h : SameCursors s s') :
    ∀ qs : List Query, s'.requiredCursors qs = s.requiredCursors qs
  | [] => by rw [Store.requiredCursors, Store.requiredCursors]
  | q :: qs => by rw [Store.requiredCursors, Store.requiredCursors, h.cursorFor q, h.requiredCursors qs]

theorem SameCursors.optionalCursors (h : SameCursors s s') :
    ∀ qs : List Query, s'.optionalCursors qs = s.optionalCursors qs
  | [] => by rw [Store.optionalCursors, Store.optionalCursors]
  | q :: qs => by rw [Store.optionalCursors, Store.optionalCursors, h.cursorFor q, h.optionalCursors qs]

end

theorem SameCursors.search (h : SameCursors s s') (q : Query) (limit : Option Nat) :
    s'.search q limit = s.search q limit := by
  unfold Store.search
  rw [h.cursorFor]

/-- A search looks at the lists of terms only. -/
theorem search_congr (h : s'.postings = s.postings) (h' : s'.occurrences = s.occurrences) (q : Query)
    (limit : Option Nat) : s'.search q limit = s.search q limit := by
  refine SameCursors.search ⟨fun t => ?_, fun beginning => ?_, fun t => ?_⟩ q limit
  · unfold termCursor? idsWith
    rw [h]
  · unfold beginningCursor? restCursor?
    rw [h]
  · unfold occurrenceCursor? occurrencesOf
    rw [h']

end Congr

end Store

/-! ### Going through a cursor -/

/-- Going on from where it stands, a cursor answers the ids ahead. -/
theorem Cursor.take_of_tracks {c : Cursor} {e : Expectation} {levels : Nat} (hlevels : levels = c.depth)
    (h : Tracks levels c e) (count : Nat) :
    (c.take count).1 = (e.walk.ids.filter e.walk.standing.precedes).take count := by
  subst hlevels
  have hsim := simulation_tracks c.depth
  generalize hn : c.depth = n at h hsim
  induction count generalizing c e with
  | zero => rfl
  | succ count ih =>
    have hvalid := hsim.valid h
    have hanswer := hsim.answer .next h
    have hafter := hsim.after .next h
    have hdepth := Cursor.depth_step n .next c
    rw [Reference.move_snd hvalid, ← hanswer] at hafter
    have hhead : (e.walk.move .next).1 = (e.walk.ids.filter e.walk.standing.precedes).head? := by
      rw [List.head?_filter, Reference.move_next, Reference.advance]
      simp only [Bool.and_true]
    rw [Cursor.take, Cursor.next, Cursor.move, hn]
    rw [hhead] at hanswer
    generalize Cursor.step n .next c = r at hanswer hafter hdepth ⊢
    obtain ⟨answer, c'⟩ := r
    simp only at hanswer hafter hdepth
    cases hahead : e.walk.ids.filter e.walk.standing.precedes with
    | nil =>
      rw [hahead, List.head?_nil] at hanswer
      subst hanswer
      rfl
    | cons id rest =>
      rw [hahead, List.head?_cons] at hanswer
      subst hanswer
      have hupward : ∀ id other, e.walk.standing.precedes id = true → id ≤ other →
        e.walk.standing.precedes other = true :=
        fun _ _ => Standing.precedes_upward
      have hascending : e.walk.ids.Pairwise fun id other => (fun id => id) id < (fun id => id) other := hvalid.ascending
      have hrest : rest = e.walk.ids.filter (Standing.on id).precedes :=
        Cursor.tail_of_filter_eq_cons hascending hupward hahead
      rw [hrest, List.take_succ_cons]
      exact congrArg (id :: ·) (ih (hdepth.trans hn) hafter)

/-- Up to the limit, if there is one, a cursor that has not moved answers its ids. -/
theorem Cursor.collect_of_obeys {c : Cursor} {e : Expectation} (h : CursorTree.Obeys c e)
    (hunmoved : e.walk.standing = .before) (limit : Option Nat) :
    (c.collect limit).1 = limit.elim e.walk.ids e.walk.ids.take := by
  have htracks := h c.depth (Nat.le_refl _)
  have hall : e.walk.ids.filter e.walk.standing.precedes = e.walk.ids := by
    rw [hunmoved, List.filter_eq_self]
    exact fun _ _ => rfl
  rw [Cursor.collect, Cursor.take_of_tracks rfl htracks, hall]
  cases limit with
  | some limit => rfl
  | none =>
    have hleft := (simulation_tracks c.depth).left_le htracks
    have hadmits : e.walk.left = e.walk.ids.length := by
      rw [Reference.left, hunmoved, List.countP_eq_length]
      exact fun _ _ => rfl
    exact List.take_of_length_le (by simp only [Option.getD_none]; omega)

/-- A search answers in ascending order the set that the cursor for the query finds. -/
theorem Store.search_of_finds {s : Store} {q : Query} {c : Option Cursor} {D : DocId → Prop}
    (hc : s.cursorFor q = .ok c) (h : Finds c D) :
    ∃ ids : List DocId, ids.Pairwise (· < ·) ∧ (∀ id, id ∈ ids ↔ D id) ∧ s.search q none = .ok ids := by
  cases h with
  | nothing hnone =>
    refine ⟨[], .nil, fun id => ⟨fun hid => absurd hid List.not_mem_nil, fun hid => absurd hid (hnone id)⟩, ?_⟩
    rw [search, hc]
    rfl
  | @tree t c _ hsorted htree hholds =>
    obtain ⟨e, hmeans, hobeys⟩ := CursorTree.obeys_of_cursor? hsorted c htree
    have hvalid := (simulation_tracks _).valid (hobeys c.depth (Nat.le_refl _))
    refine ⟨e.walk.ids, hvalid.ascending, fun id => (hmeans.holds_iff id).trans (hholds id), ?_⟩
    have hall : (c.collect none).1 = e.walk.ids := Cursor.collect_of_obeys hobeys hmeans.unmoved none
    rw [search, hc, ← hall]
    rfl

theorem Store.Sorted.exists_search {s : Store} (h : s.Sorted) {q : Query} (hq : q.Checked) :
    ∃ ids : List DocId, ids.Pairwise (· < ·) ∧ (∀ id, id ∈ ids ↔ s.Matches q id) ∧ s.search q none = .ok ids := by
  obtain ⟨c, hc, hfinds⟩ := s.cursorFor_spec h hq
  exact search_of_finds hc hfinds

/-- A search answers the documents of the query in ascending order, each once, up to the limit if there is one. -/
theorem Store.search_eq {s : Store} (hs : s.Sorted) {q : Query} (hq : q.Checked) :
    ∃ ids : List DocId, ids.Pairwise (· < ·) ∧ (∀ id, id ∈ ids ↔ s.Matches q id) ∧
      ∀ limit, s.search q limit = .ok (limit.elim ids ids.take) := by
  obtain ⟨c, hc, hfinds⟩ := s.cursorFor_spec hs hq
  cases hfinds with
  | nothing hnone =>
    refine ⟨[], .nil, fun id => ⟨fun hid => absurd hid List.not_mem_nil, fun hid => absurd hid (hnone id)⟩,
      fun limit => ?_⟩
    rw [search, hc]
    cases limit <;> simp <;> rfl
  | @tree t c _ hsorted htree hholds =>
    obtain ⟨e, hmeans, hobeys⟩ := CursorTree.obeys_of_cursor? hsorted c htree
    have hvalid := (simulation_tracks _).valid (hobeys c.depth (Nat.le_refl _))
    refine ⟨e.walk.ids, hvalid.ascending, fun id => (hmeans.holds_iff id).trans (hholds id), fun limit => ?_⟩
    rw [search, hc, ← Cursor.collect_of_obeys hobeys hmeans.unmoved]
    rfl

/-- A term or a phrase, in a store of two terms that stand next to each other in one document. -/
theorem Store.search_eq_term_or_phrase :
    let s : Store := {
      postings := ⟨[([97], IdList.encode [1, 3]), ([98], IdList.encode [3, 4])], by decide⟩
      occurrences :=
        ⟨[([97], OccurrenceList.encode [⟨3, [4]⟩]), ([98], OccurrenceList.encode [⟨3, [2, 5]⟩])], by decide⟩ }
    let q := Query.composite .or [.startsWith [97], .composite .phrase [.term [97], .term [98]]]
    (s.Sorted ∧ q.Checked) ∧ ∃ ids : List DocId, ids.Pairwise (· < ·) ∧ (∀ id, id ∈ ids ↔ s.Matches q id) ∧
      ∀ limit, s.search q limit = .ok (limit.elim ids ids.take) := by
  intro s q
  have hs : s.Sorted := by
    refine .of_entries (fun e he => ?_) fun e he => ?_
    · have hentries : e ∈ s.postings.entries := he
      simp only [s, List.mem_cons, List.not_mem_nil, or_false] at hentries
      rcases hentries with rfl | rfl
      · rw [readIds, IdList.decode_encode (by decide)]
        exact ⟨by decide, by decide⟩
      · rw [readIds, IdList.decode_encode (by decide)]
        exact ⟨by decide, by decide⟩
    · have hentries : e ∈ s.occurrences.entries := he
      simp only [s, List.mem_cons, List.not_mem_nil, or_false] at hentries
      rcases hentries with rfl | rfl
      · rw [OccurrenceList.decode_encode (by decide) (by decide) (by decide)]
        exact ⟨by decide, by decide, by decide⟩
      · rw [OccurrenceList.decode_encode (by decide) (by decide) (by decide)]
        exact ⟨by decide, by decide, by decide⟩
  have hphrase : Query.Checked (.composite .phrase [.term [97], .term [98]]) := by
    have hcompose : Query.compose .phrase [.term [97], .term [98]] =
      .ok (.composite .phrase [.term [97], .term [98]]) := rfl
    refine .compose (fun operand hoperand => ?_) hcompose
    simp only [List.mem_cons, List.not_mem_nil, or_false] at hoperand
    rcases hoperand with rfl | rfl
    · exact .term [97]
    · exact .term [98]
  have hq : q.Checked := by
    have hcompose : Query.compose .or [.startsWith [97], .composite .phrase [.term [97], .term [98]]] = .ok q := rfl
    refine .compose (fun operand hoperand => ?_) hcompose
    simp only [List.mem_cons, List.not_mem_nil, or_false] at hoperand
    rcases hoperand with rfl | rfl
    · exact .startsWith (by simp)
    · exact hphrase
  exact ⟨⟨hs, hq⟩, search_eq hs hq⟩

end FileIndex
