import FileIndex.Audit
import FileIndex.Proofs.Encoding.Records
import FileIndex.Proofs.Encoding.Sets
import FileIndex.Proofs.Store.Lists
import Mathlib.Algebra.Order.BigOperators.Group.List
import Mathlib.Data.Set.Card

/-!
# What the checks of a store find

The two checks go in opposite directions: one from the stored sets of terms to the lists of ids, the other from the
lists to the sets. Each of them reports just what the other side lacks, whatever the store holds, so that together they
find nothing exactly if both sides tell the same of every document and term.

* `Table.byId_spec`: the values of a table whose keys are those of ids.
* `Store.HasTerm`: the terms of a document. `Store.SetsLegible`, `Store.ListsNamed`: what the checks rely on.
* `Store.SetsOf`: the stored sets of a field, listed. `SetsOf.sum_eq`: adding up over them what concerns one document.
* `Store.auditTerms_spec`, `Store.auditPostings_spec`: what either check reports, and how often.
* `Store.audits_exact`: the two checks together.
-/

namespace FileIndex

theorem Field.mem_all (field : Field) : field ∈ Field.all := by
  cases field <;> decide

theorem Field.nodup_all : Field.all.Nodup := by decide

theorem mapM_eq_map {ε α β : Type} {f : α → Except ε β} {g : α → β} {l : List α} (h : ∀ a ∈ l, f a = .ok (g a)) :
    l.mapM f = .ok (l.map g) := by
  induction l with
  | nil => rfl
  | cons a l ih =>
    obtain ⟨ha, hrest⟩ := List.forall_mem_cons.mp h
    rw [List.mapM_cons, ha, ih hrest]
    rfl

/-! ### Tables of ids -/

namespace Table

/-- Every key is that of an id. -/
def Keyed (t : Table) : Prop := ∀ key value, t.find? key = some value → ∃ id, key = DocId.toKey id

/-- The entries of a table, told by ids. -/
theorem Keyed.exists_rows {t : Table} (h : t.Keyed) :
    ∃ rows : List (DocId × Bytes), t.entries = rows.map (fun x => (DocId.toKey x.1, x.2)) ∧ (rows.map (·.1)).Nodup := by
  have hrows : ∀ es : List (Bytes × Bytes), (∀ e ∈ es, ∃ id, e.1 = DocId.toKey id) →
      ∃ rows : List (DocId × Bytes), es = rows.map fun x => (DocId.toKey x.1, x.2) := by
    intro es hes
    induction es with
    | nil => exact ⟨[], rfl⟩
    | cons e es ih =>
      obtain ⟨⟨id, hid⟩, hrest⟩ := List.forall_mem_cons.mp hes
      obtain ⟨rows, hrows⟩ := ih hrest
      exact ⟨(id, e.2) :: rows, by rw [List.map_cons, ← hrows, ← hid]⟩
  obtain ⟨rows, hentries⟩ := hrows t.entries fun e he => h e.1 e.2 (ByteMap.find?_eq_some_iff.mpr he)
  refine ⟨rows, hentries, List.pairwise_map.mpr ?_⟩
  have hascending := t.ascending
  rw [hentries, List.pairwise_map] at hascending
  refine hascending.imp fun hlt heq => ?_
  rw [heq] at hlt
  exact List.lt_irrefl _ hlt

/-- Where no id comes twice, none is dropped for a later one. -/
theorem foldr_eq_self {α : Type} {es : List (DocId × α)} (h : (es.map (·.1)).Nodup) :
    es.foldr (fun e es => if es.any (·.1 = e.1) then es else e :: es) [] = es := by
  induction es with
  | nil => rfl
  | cons e es ih =>
    obtain ⟨hnew, hrest⟩ := List.nodup_cons.mp h
    rw [List.foldr_cons, ih hrest, if_neg]
    simpa using hnew

/-- Under the keys of ids there is one entry for each id, and it is read as its value is. -/
theorem byId_spec {α : Type} {t : Table} {read : Bytes → Except Error α} (meaning : Bytes → α) (hkeys : t.Keyed)
    (hread : ∀ key value, t.find? key = some value → read value = .ok (meaning value)) :
    ∃ es, t.byId read = .ok es ∧ es.length = t.entries.length ∧ (es.map (·.1)).Nodup ∧
      ∀ id a, (id, a) ∈ es ↔ ∃ value, t.find? (DocId.toKey id) = some value ∧ a = meaning value := by
  obtain ⟨rows, hentries, hnodup⟩ := hkeys.exists_rows
  have hrow : ∀ id value, (id, value) ∈ rows ↔ t.find? (DocId.toKey id) = some value := by
    intro id value
    rw [ByteMap.find?_eq_some_iff, hentries, List.mem_map]
    constructor
    · exact fun hmem => ⟨_, hmem, rfl⟩
    · rintro ⟨⟨id', value'⟩, hmem, heq⟩
      obtain ⟨hid, rfl⟩ := Prod.ext_iff.mp heq
      rwa [← DocId.toKey_inj.mp hid]
  have hids : (rows.map fun x => (x.1, meaning x.2)).map (·.1) = rows.map (·.1) := by
    rw [List.map_map]
    rfl
  refine ⟨rows.map fun x => (x.1, meaning x.2), ?_, by rw [hentries, List.length_map, List.length_map],
    hids ▸ hnodup, fun id a => ?_⟩
  · have hall : t.entries.mapM (fun e => (return (← DocId.ofKey e.1, ← read e.2) : Except Error (DocId × α))) =
        .ok (rows.map fun x => (x.1, meaning x.2)) := by
      rw [hentries, List.mapM_map]
      refine mapM_eq_map fun x hx => ?_
      show (do return (← DocId.ofKey (DocId.toKey x.1), ← read x.2) : Except Error (DocId × α)) = _
      rw [DocId.ofKey_toKey, hread _ _ ((hrow x.1 x.2).mp hx)]
      rfl
    unfold byId
    rw [hall]
    exact congrArg Except.ok (foldr_eq_self (hids ▸ hnodup))
  · rw [List.mem_map]
    constructor
    · rintro ⟨⟨id', value⟩, hmem, heq⟩
      cases heq
      exact ⟨value, (hrow _ _).mp hmem, rfl⟩
    · rintro ⟨value, hfind, rfl⟩
      exact ⟨(id, value), (hrow id value).mpr hfind, rfl⟩

end Table

namespace Store

/-- The document has the term in one of its fields. -/
def HasTerm (s : Store) (id : DocId) (t : Bytes) : Prop := ∃ field, t ∈ s.termsOf field id

/-- The terms of a stored set, none if it cannot be read. -/
def readTerms (value : Bytes) : List Bytes := Malformed.orElse [] (TermSet.decode value)

/-- Sets of terms are stored under the keys of ids, and can be read. -/
structure SetsLegible (s : Store) : Prop where
  keyed : ∀ field, (s.termTable field).Keyed
  read : ∀ field key value, (s.termTable field).find? key = some value → ∃ terms, TermSet.decode value = .ok terms

/-- Every list of ids is stored under a term. The empty key is none that a table holds. -/
def ListsNamed (s : Store) : Prop := s.postings.find? [] = none

/-- The stored sets of a field: each id that has one stands there once, with its terms. -/
structure SetsOf (s : Store) (field : Field) (sets : List (DocId × List Bytes)) : Prop where
  length_eq : sets.length = (s.termTable field).entries.length
  nodup : (sets.map (·.1)).Nodup
  mem_iff : ∀ id terms, (id, terms) ∈ sets ↔ s.hasTerms field id = true ∧ terms = s.termsOf field id

variable {s : Store} {field : Field} {sets : List (DocId × List Bytes)} {id : DocId} {t : Bytes}

/-! ### From the sets to the lists -/

theorem termsOf_of_not_hasTerms (h : ¬ s.hasTerms field id = true) : s.termsOf field id = [] := by
  rw [hasTerms, ByteMap.contains, Bool.not_eq_true, Option.isSome_eq_false_iff, Option.isNone_iff_eq_none] at h
  rw [termsOf, h]
  rfl

theorem SetsLegible.termMap (h : s.SetsLegible) (field : Field) :
    ∃ sets, s.termMap field = .ok sets ∧ s.SetsOf field sets := by
  obtain ⟨sets, hsets, hlength, hnodup, hmem⟩ := Table.byId_spec readTerms (h.keyed field)
    fun key value hfind => by
      obtain ⟨terms, hterms⟩ := h.read field key value hfind
      show Malformed.orFail (TermSet.decode value) = _
      rw [readTerms, hterms]
      rfl
  refine ⟨sets, hsets, hlength, hnodup, fun id terms => ?_⟩
  rw [hmem, hasTerms, ByteMap.contains, Option.isSome_iff_exists]
  constructor
  · rintro ⟨value, hfind, rfl⟩
    exact ⟨⟨value, hfind⟩, by rw [termsOf, hfind]; rfl⟩
  · rintro ⟨⟨value, hfind⟩, rfl⟩
    exact ⟨value, hfind, by rw [termsOf, hfind]; rfl⟩

/-- What concerns one document is added once. -/
theorem SetsOf.sum_eq (h : s.SetsOf field sets) (id : DocId) (count : List Bytes → Nat) (hnil : count [] = 0) :
    (sets.map fun e => if e.1 = id then count e.2 else 0).sum = count (s.termsOf field id) := by
  have hothers : ∀ e, e ≠ (id, s.termsOf field id) → e ∈ sets → (if e.1 = id then count e.2 else 0) = 0 := by
    intro e hne he
    rw [if_neg]
    rintro rfl
    exact hne (Prod.ext rfl ((h.mem_iff e.1 e.2).mp he).2)
  rw [List.sum_map_eq_nsmul_single _ _ hothers, if_pos rfl, nsmul_eq_mul, Nat.cast_id]
  by_cases hstored : s.hasTerms field id = true
  · have hmem : (id, s.termsOf field id) ∈ sets := (h.mem_iff _ _).mpr ⟨hstored, rfl⟩
    rw [@List.count_eq_one_of_mem _ instBEqOfDecidableEq _ _ _ (h.nodup.of_map _) hmem, Nat.one_mul]
  · rw [termsOf_of_not_hasTerms hstored, hnil, Nat.mul_zero]

/-- The issues that are reported of one stored set. -/
theorem count_missingPosting (e : DocId × List Bytes) :
    ((e.2.filter fun t => !(s.idsWith t).contains e.1).map (Issue.missingPosting e.1)).count (.missingPosting id t) =
      if e.1 = id then if id ∈ s.idsWith t then 0 else e.2.count t else 0 := by
  by_cases hid : e.1 = id
  · have hinj : Function.Injective (Issue.missingPosting id) := fun _ _ heq => (Issue.missingPosting.inj heq).2
    rw [if_pos hid, hid, List.count_map_of_injective _ _ hinj]
    by_cases hposted : id ∈ s.idsWith t
    · rw [if_pos hposted, List.count_eq_zero, List.mem_filter]
      simp [hposted]
    · rw [if_neg hposted, List.count_filter]
      simpa using hposted
  · rw [if_neg hid, List.count_eq_zero, List.mem_map]
    rintro ⟨_, _, heq⟩
    exact hid (Issue.missingPosting.inj heq).1

/-- The check of terms reports a term as often as it stands in the sets of a document that the term does not list. -/
theorem auditTerms_spec (h : s.SetsLegible) :
    ∃ a, s.auditTerms = .ok a ∧ a.checked = (Field.all.map fun field => (s.termTable field).entries.length).sum ∧
      (∀ issue ∈ a.issues, ∃ id t, issue = .missingPosting id t) ∧
      ∀ id t, a.issues.count (.missingPosting id t) =
        if id ∈ s.idsWith t then 0 else (Field.all.map fun field => (s.termsOf field id).count t).sum := by
  choose sets hsets hsetsOf using h.termMap
  let found (e : DocId × List Bytes) : List Issue :=
    (e.2.filter fun t => !(s.idsWith t).contains e.1).map (.missingPosting e.1)
  have haudit : s.auditTerms = .ok ⟨(Field.all.flatMap sets).length, (Field.all.flatMap sets).flatMap found⟩ := by
    unfold auditTerms
    rw [mapM_eq_map fun field _ => hsets field]
    rfl
  refine ⟨_, haudit, ?_, fun issue hissue => ?_, fun id t => ?_⟩
  · simp only [List.length_flatMap, (hsetsOf _).length_eq]
  · obtain ⟨e, _, he⟩ := List.mem_flatMap.mp hissue
    obtain ⟨t, _, rfl⟩ := List.mem_map.mp he
    exact ⟨e.1, t, rfl⟩
  · have hfield : ∀ field, ((sets field).flatMap found).count (.missingPosting id t) =
        if id ∈ s.idsWith t then 0 else (s.termsOf field id).count t := by
      intro field
      have hcount : List.count (.missingPosting id t) ∘ found =
          fun e => if e.1 = id then if id ∈ s.idsWith t then 0 else e.2.count t else 0 :=
        funext fun e => count_missingPosting e
      rw [List.count_flatMap, hcount]
      exact (hsetsOf field).sum_eq id (fun terms => if id ∈ s.idsWith t then 0 else terms.count t) (by simp)
    rw [List.flatMap_assoc, List.count_flatMap]
    by_cases hposted : id ∈ s.idsWith t <;> simp [Function.comp_def, hfield, hposted]

/-- It reports nothing exactly if every term of a document lists it. -/
theorem auditTerms_issues_eq_nil_iff {a : Audit} (h : s.SetsLegible) (ha : s.auditTerms = .ok a) :
    a.issues = [] ↔ ∀ id t, s.HasTerm id t → id ∈ s.idsWith t := by
  obtain ⟨a', ha', -, hkind, hcount⟩ := auditTerms_spec h
  obtain rfl := Except.ok.inj (ha.symm.trans ha')
  have hsum : ∀ id t, (Field.all.map fun field => (s.termsOf field id).count t).sum = 0 ↔ ¬ s.HasTerm id t := by
    intro id t
    simp [HasTerm, List.sum_eq_zero_iff, List.count_eq_zero, Field.mem_all]
  constructor
  · intro hnone id t hterm
    by_contra hposted
    have hzero := hcount id t
    rw [hnone, List.count_nil, if_neg hposted] at hzero
    exact (hsum id t).mp hzero.symm hterm
  · refine fun hall => List.eq_nil_iff_forall_not_mem.mpr fun issue hissue => ?_
    obtain ⟨id, t, rfl⟩ := hkind issue hissue
    refine List.count_eq_zero.mp ?_ hissue
    rw [hcount]
    split
    · rfl
    · rename_i hposted
      exact (hsum id t).mpr fun hterm => hposted (hall id t hterm)

/-! ### From the lists to the sets -/

/-- Every list that is stored is that of a term. -/
theorem mem_postingMap (h : s.ListsNamed) {e : Bytes × List DocId} :
    e ∈ s.postingMap ↔ s.postings.contains e.1 = true ∧ e.2 = s.idsWith e.1 := by
  rw [postingMap, List.mem_map, ByteMap.contains, Option.isSome_iff_exists]
  constructor
  · rintro ⟨entry, hentry, rfl⟩
    have hfind := ByteMap.find?_eq_some_iff.mpr hentry
    have hne : entry.1 ≠ [] := fun hnil => by simp [hnil, show s.postings.find? [] = none from h] at hfind
    exact ⟨⟨_, hfind⟩, readIds_eq_idsWith hentry hne⟩
  · rintro ⟨⟨value, hfind⟩, hids⟩
    have hne : e.1 ≠ [] := fun hnil => by simp [hnil, show s.postings.find? [] = none from h] at hfind
    have hentry := ByteMap.find?_eq_some_iff.mp hfind
    exact ⟨(e.1, value), hentry, Prod.ext rfl ((readIds_eq_idsWith hentry hne).trans hids.symm)⟩

theorem mem_postedIds (h : s.ListsNamed) : id ∈ s.postedIds ↔ ∃ t, id ∈ s.idsWith t := by
  rw [postedIds, Ascending.mem_ofList, List.mem_flatMap]
  constructor
  · rintro ⟨e, he, hid⟩
    exact ⟨e.1, ((mem_postingMap h).mp he).2 ▸ hid⟩
  · rintro ⟨t, hid⟩
    exact ⟨(t, s.idsWith t), (mem_postingMap h).mpr ⟨contains_of_mem_idsWith hid, rfl⟩, hid⟩

theorem nodup_postedIds (s : Store) : s.postedIds.Nodup :=
  (Ascending.pairwise_ofList _).imp fun hlt => UInt64.ne_of_lt hlt

theorem nodup_postingMap (s : Store) : (s.postingMap.map (·.1)).Nodup := by
  have hkeys : s.postingMap.map (·.1) = s.postings.entries.map (·.1) := by
    rw [postingMap, List.map_map]
    rfl
  rw [hkeys]
  exact List.pairwise_map.mpr (s.postings.ascending.imp fun {a b} hlt (heq : a.1 = b.1) =>
    List.lt_irrefl b.1 (heq ▸ hlt))

/-- The check of lists reports each term once that lists a document without having it. -/
theorem auditPostings_spec (h : s.ListsNamed) :
    s.auditPostings.checked = {id | ∃ t, id ∈ s.idsWith t}.ncard ∧ s.auditPostings.issues.Nodup ∧
      ∀ issue, issue ∈ s.auditPostings.issues ↔
        ∃ id t, issue = .missingTerm id t ∧ id ∈ s.idsWith t ∧ ¬ s.HasTerm id t := by
  refine ⟨?_, ?_, fun issue => ?_⟩
  · have hids : {id | ∃ t, id ∈ s.idsWith t} = (s.postedIds.toFinset : Set DocId) := by
      ext id
      rw [Set.mem_ofPred_eq, List.coe_toFinset, Set.mem_ofPred_eq, mem_postedIds h]
    rw [hids, Set.ncard_coe_finset, List.toFinset_card_of_nodup s.nodup_postedIds]
    rfl
  · refine List.nodup_flatMap.mpr ⟨fun id _ => ?_, s.nodup_postedIds.imp fun hne => ?_⟩
    · have hinj : Function.Injective (Issue.missingTerm id) := fun _ _ heq => (Issue.missingTerm.inj heq).2
      rw [show (fun e : Bytes × List DocId => Issue.missingTerm id e.1) = Issue.missingTerm id ∘ Prod.fst from rfl,
        ← List.map_map]
      exact (s.nodup_postingMap.sublist (List.filter_sublist.map _)).map hinj
    · intro issue hissue hissue'
      obtain ⟨_, _, rfl⟩ := List.mem_map.mp hissue
      obtain ⟨_, _, heq⟩ := List.mem_map.mp hissue'
      exact hne (Issue.missingTerm.inj heq).1.symm
  · simp only [auditPostings, List.mem_flatMap, List.mem_map, List.mem_filter, mem_postedIds h, mem_postingMap h,
      Bool.and_eq_true, Bool.not_eq_true', List.contains_eq_mem, decide_eq_true_eq, decide_eq_false_iff_not,
      HasTerm, Field.mem_all, true_and]
    constructor
    · rintro ⟨id, _, e, ⟨⟨_, hids⟩, hid, hterm⟩, rfl⟩
      exact ⟨id, e.1, rfl, hids ▸ hid, hterm⟩
    · rintro ⟨id, t, rfl, hid, hterm⟩
      exact ⟨id, ⟨t, hid⟩, (t, s.idsWith t), ⟨⟨contains_of_mem_idsWith hid, rfl⟩, hid, hterm⟩, rfl⟩

/-- It reports nothing exactly if every document that a term lists has the term. -/
theorem auditPostings_issues_eq_nil_iff (h : s.ListsNamed) :
    s.auditPostings.issues = [] ↔ ∀ id t, id ∈ s.idsWith t → s.HasTerm id t := by
  obtain ⟨-, -, hmem⟩ := auditPostings_spec h
  rw [List.eq_nil_iff_forall_not_mem]
  constructor
  · intro hnone id t hid
    by_contra hterm
    exact hnone _ ((hmem _).mpr ⟨id, t, rfl, hid, hterm⟩)
  · intro hall issue hissue
    obtain ⟨id, t, rfl, hid, hterm⟩ := (hmem issue).mp hissue
    exact hterm (hall id t hid)

/-! ### Both checks -/

/-- Whatever is stored, if only the sets of terms can be read: the check of terms goes through all sets, and
reports each document and term as often as the term stands in sets of the document without listing it, and nothing else.
The check of lists goes through all documents that are listed, and reports each document and term once if the term lists
the document without standing in any of its sets, and nothing else. Neither reports anything exactly if listing a
document and standing in its sets are the same. -/
theorem audits_exact (s : Store) (hsets : s.SetsLegible) (hlists : s.ListsNamed) :
    ∃ a, s.auditTerms = .ok a ∧
      a.checked = (Field.all.map fun field => (s.termTable field).entries.length).sum ∧
      (∀ issue ∈ a.issues, ∃ id t, issue = .missingPosting id t) ∧
      (∀ id t, a.issues.count (.missingPosting id t) =
        if id ∈ s.idsWith t then 0 else (Field.all.map fun field => (s.termsOf field id).count t).sum) ∧
      s.auditPostings.checked = {id | ∃ t, id ∈ s.idsWith t}.ncard ∧
      s.auditPostings.issues.Nodup ∧
      (∀ issue, issue ∈ s.auditPostings.issues ↔
        ∃ id t, issue = .missingTerm id t ∧ id ∈ s.idsWith t ∧ ∀ field, t ∉ s.termsOf field id) ∧
      ((a.issues = [] ∧ s.auditPostings.issues = []) ↔
        ∀ id t, id ∈ s.idsWith t ↔ ∃ field, t ∈ s.termsOf field id) := by
  obtain ⟨a, ha, hchecked, hkind, hcount⟩ := auditTerms_spec hsets
  obtain ⟨hposted, hnodup, hmem⟩ := auditPostings_spec hlists
  refine ⟨a, ha, hchecked, hkind, hcount, hposted, hnodup, fun issue => ?_, ?_⟩
  · simp only [hmem, HasTerm, not_exists]
  · rw [auditTerms_issues_eq_nil_iff hsets ha, auditPostings_issues_eq_nil_iff hlists]
    exact ⟨fun h id t => ⟨h.2 id t, h.1 id t⟩, fun h => ⟨fun id t => (h id t).mpr, fun id t => (h id t).mp⟩⟩

/-- A document whose terms, one of them empty, stand in two of its sets, a list that cannot be read, and one with
a document more. -/
theorem audits_exact_of_contradictions :
    let terms := TermSet.encode [[], [0x78]]
    let s : Store := {
      postings := ⟨[([0x78], [0x80]), ([0x79], IdList.encode [5, 6])], by decide⟩
      contentTerms := ⟨[(DocId.toKey 5, terms)], List.pairwise_singleton ..⟩
      attributeTerms := ⟨[(DocId.toKey 5, terms)], List.pairwise_singleton ..⟩ }
    (s.SetsLegible ∧ s.ListsNamed) ∧
      (∃ a, s.auditTerms = .ok a ∧ a.checked = 2 ∧ a.issues.count (.missingPosting 5 [0x78]) = 2 ∧
        a.issues.count (.missingPosting 5 []) = 2) ∧
      .missingTerm 6 [0x79] ∈ s.auditPostings.issues := by
  intro terms s
  have hrows : ∀ field key value, (s.termTable field).find? key = some value → key = DocId.toKey 5 ∧ value = terms := by
    intro field key value hfind
    have hmem := ByteMap.find?_eq_some_iff.mp hfind
    cases field with
    | content | attributes => exact Prod.ext_iff.mp (List.mem_singleton.mp hmem)
    | fileName => cases hmem
  have hsets : s.SetsLegible := by
    refine ⟨fun field key value hfind => ⟨5, (hrows field key value hfind).1⟩, fun field key value hfind => ?_⟩
    rw [(hrows field key value hfind).2]
    exact ⟨_, TermSet.decode_encode (by decide)⟩
  have hlists : s.ListsNamed := by
    unfold ListsNamed
    decide
  have hterms : ∀ field, s.termsOf field 5 = if field = .fileName then [] else [[], [0x78]] := by
    have hread : readTerms terms = [[], [0x78]] := by
      rw [readTerms, TermSet.decode_encode (by decide)]
      decide
    intro field
    cases field with
    | content | attributes => exact hread
    | fileName => rfl
  have hids : s.idsWith [0x79] = [5, 6] := readIds_encode (by decide)
  have hnone : ∀ field, s.termsOf field 6 = [] := by
    intro field
    cases field <;> rfl
  obtain ⟨a, ha, hchecked, -, hcount, -, -, hmem, -⟩ := audits_exact s hsets hlists
  refine ⟨⟨hsets, hlists⟩, ⟨a, ha, hchecked, (hcount _ _).trans ?_, (hcount _ _).trans ?_⟩,
    (hmem _).mpr ⟨6, _, rfl, ?_, ?_⟩⟩
  · simp only [hterms]
    decide
  · simp only [hterms]
    decide
  · rw [hids]
    decide
  · intro field
    rw [hnone]
    exact List.not_mem_nil

end Store
end FileIndex
