import FileIndex.Proofs.Lookup
import FileIndex.Proofs.MalformedPhrases
import FileIndex.Proofs.Tree.Subtree
import FileIndex.Store.Attributes
import Mathlib.Logic.Relation

/-!
# Values that cannot be read

What is stored may be any bytes. The lists of a term and the sets of a document count as empty where they cannot be
read, so that no search fails for them. An entry of the tree, a list of children and a pair of times are not made up
for: what comes upon one that cannot be read fails, and all else answers what it would if the value were not there.

* `Store.legible`: the store without the values that cannot be read. `Table.Illegible`: such a value of an id.
* `Store.search_legible`, `Store.exists_search_of_checked`: a search does not tell the two stores apart, and does
  not fail.
* `Degrades`: a result is the one of the legible store, or an error for a value that was come upon. `Degrades.bind`:
  one step after the other.
* `Store.degrades_namesUp`, `Store.degrades_descend`, `Store.degrades_visit`: the walks through the tree.
* `Store.lookups_degrade`: all lookups together.
-/

namespace FileIndex

/-! ### The store without them -/

namespace ByteMap

/-- The entries whose values are wanted. -/
def filterValues {α : Type} (m : ByteMap α) (wanted : α → Bool) : ByteMap α :=
  ⟨m.entries.filter fun e => wanted e.2, m.ascending.filter _⟩

theorem find?_filterValues {α : Type} (m : ByteMap α) (wanted : α → Bool) (key : Bytes) :
    (m.filterValues wanted).find? key = (m.find? key).filter wanted := by
  apply Option.ext
  intro value
  rw [find?_eq_some_iff, filterValues, List.mem_filter, Option.filter_eq_some_iff, find?_eq_some_iff]

end ByteMap

namespace Table

variable {α β : Type} {decode : Bytes → Except Malformed α} {t : Table} {id : DocId}

/-- The table without the values that cannot be read. -/
def legible (t : Table) (decode : Bytes → Except Malformed α) : Table := t.filterValues fun value => (decode value).isOk

/-- What is stored for the id cannot be read. -/
def Illegible (t : Table) (decode : Bytes → Except Malformed α) (id : DocId) (cause : Malformed) : Prop :=
  ∃ value, t.find? (DocId.toKey id) = some value ∧ decode value = .error cause

theorem find?_legible (t : Table) (decode : Bytes → Except Malformed α) (key : Bytes) :
    (t.legible decode).find? key = (t.find? key).filter fun value => (decode value).isOk :=
  t.find?_filterValues _ key

/-- What counts as `default` where it cannot be read might as well not be stored. -/
theorem getD_legible (t : Table) (decode : Bytes → Except Malformed α) (key : Bytes) (default : α) :
    (((t.legible decode).find? key).map fun value => Malformed.orElse default (decode value)).getD default =
      ((t.find? key).map fun value => Malformed.orElse default (decode value)).getD default := by
  rw [find?_legible]
  cases t.find? key with
  | none => rfl
  | some value =>
    cases hread : decode value <;> simp [Option.filter, hread, Except.isOk, Except.toBool, Malformed.orElse]

end Table

namespace Store

variable {s : Store}

/-- The store without the values that cannot be read. -/
def legible (s : Store) : Store :=
  { s with
    postings := s.postings.legible IdList.decode
    occurrences := s.occurrences.legible OccurrenceList.decode
    contentTerms := s.contentTerms.legible TermSet.decode
    fileNameTerms := s.fileNameTerms.legible TermSet.decode
    attributeTerms := s.attributeTerms.legible TermSet.decode
    children := s.children.legible IdList.decode
    pathEntries := s.pathEntries.legible PathEntry.decode
    times := s.times.legible TimeInfo.decode }

theorem termTable_legible (s : Store) (field : Field) :
    s.legible.termTable field = (s.termTable field).legible TermSet.decode := by
  cases field <;> rfl

theorem termsOf_legible (s : Store) (field : Field) (id : DocId) : s.legible.termsOf field id = s.termsOf field id := by
  rw [termsOf, termTable_legible]
  exact (s.termTable field).getD_legible TermSet.decode _ []

theorem idsWith_legible (s : Store) (t : Bytes) : s.legible.idsWith t = s.idsWith t := by
  rw [idsWith, idsWith]
  split
  · rfl
  · exact s.postings.getD_legible IdList.decode t []

theorem occurrencesOf_legible (s : Store) (t : Bytes) : s.legible.occurrencesOf t = s.occurrencesOf t := by
  rw [occurrencesOf, occurrencesOf]
  split
  · rfl
  · exact s.occurrences.getD_legible OccurrenceList.decode t []

/-! ### Searches -/

/-- A list that cannot be read adds no cursor. -/
theorem beginningCursor?_legible (s : Store) (beginning : Bytes) :
    s.legible.beginningCursor? beginning = s.beginningCursor? beginning := by
  have hcursors : ∀ es : List (Bytes × Bytes),
      (es.filter fun e => (IdList.decode e.2).isOk).filterMap (fun e => cursorOver? (readIds e.2)) =
        es.filterMap fun e => cursorOver? (readIds e.2) := by
    intro es
    rw [List.filterMap_filter]
    refine List.filterMap_congr fun e _ => ?_
    cases hread : IdList.decode e.2 <;> simp [Except.isOk, Except.toBool, readIds, hread, Malformed.orElse, cursorOver?]
  by_cases hempty : beginning.isEmpty = true
  · simp only [beginningCursor?, restCursor?, Table.beginningWith, if_pos hempty]
  · have hentries : s.legible.postings.entries = s.postings.entries.filter fun e => (IdList.decode e.2).isOk := rfl
    simp only [beginningCursor?, restCursor?, Table.beginningWith, if_neg hempty, hentries, List.filter_true,
      bind, Except.bind]
    rw [List.filter_comm, hcursors]

/-- A search does not tell the two stores apart. -/
theorem search_legible (s : Store) (q : Query) (limit : Option Nat) : s.legible.search q limit = s.search q limit := by
  refine SameCursors.search ⟨fun t => ?_, s.beginningCursor?_legible, fun t => ?_⟩ q limit
  · rw [termCursor?, idsWith_legible, termCursor?]
  · rw [occurrenceCursor?, occurrencesOf_legible, occurrenceCursor?]

end Store

/-- A composite that can be built is composed of such queries, and as a phrase of exact terms. -/
theorem Query.Checked.operands {how : Connective} {operands : List Query} (h : Checked (.composite how operands)) :
    (∀ operand ∈ operands, Checked operand) ∧ (how = .phrase → ∀ operand ∈ operands, operand.isTerm = true) := by
  generalize hq : Query.composite how operands = q at h
  cases h with
  | term | startsWith => cases hq
  | compose hall hcompose =>
    obtain ⟨rfl, _, hterms⟩ := compose_eq_ok hcompose
    cases hq
    exact ⟨hall, hterms⟩

theorem Query.Checked.not_faulty {q : Query} (h : q.Checked) (e : Error) : ¬ q.Faulty e := by
  intro hfaulty
  cases hfaulty with
  | phrase hmem hterm => exact absurd (h.operands.2 rfl _ hmem) (by rw [hterm]; exact Bool.false_ne_true)
  | beginning =>
    generalize hq : Query.startsWith [] = q at h
    cases h with
    | term => cases hq
    | startsWith hne => exact hne (Query.startsWith.inj hq).symm
    | compose _ hcompose =>
      obtain ⟨rfl, _⟩ := compose_eq_ok hcompose
      cases hq

namespace Store

variable {s : Store}

theorem Reaches.checked {q part : Query} (h : s.Reaches q part) (hq : q.Checked) : part.Checked := by
  induction h with
  | here => exact hq
  | and _ _ ih => exact ih (hq.operands.1 _ (List.mem_append_right _ List.mem_cons_self))
  | or _ _ ih => exact ih (hq.operands.1 _ (List.mem_append_right _ List.mem_cons_self))

/-- Whatever is stored, a search for a query that can be built does not fail. -/
theorem exists_search_of_checked (s : Store) {q : Query} (hq : q.Checked) (limit : Option Nat) :
    ∃ ids, s.search q limit = .ok ids := by
  cases hsearch : s.search q limit with
  | ok ids => exact ⟨ids, rfl⟩
  | error e =>
    obtain ⟨part, hreaches, hfaulty⟩ := cursorFor_eq_error_iff.mp (search_eq_error_iff.mp hsearch)
    exact absurd hfaulty ((hreaches.checked hq).not_faulty e)

end Store

/-! ### Results up to such a value -/

/-- The result is the intact one, or an error for such a cause. -/
def Degrades {α : Type} (fault : Malformed → Prop) (intact result : Except Error α) : Prop :=
  ∃ a, intact = .ok a ∧ (result = .ok a ∨ ∃ cause, fault cause ∧ result = .error (.malformed cause))

namespace Degrades

variable {α β : Type} {fault fault' : Malformed → Prop} {x y : Except Error α} {f g : α → Except Error β}

theorem ok (a : α) : Degrades fault (.ok a) (.ok a) := ⟨a, rfl, .inl rfl⟩

theorem mono (h : Degrades fault x y) (hfault : ∀ cause, fault cause → fault' cause) : Degrades fault' x y := by
  obtain ⟨a, hx, hy | ⟨cause, hcause, hy⟩⟩ := h
  · exact ⟨a, hx, .inl hy⟩
  · exact ⟨a, hx, .inr ⟨cause, hfault cause hcause, hy⟩⟩

/-- What comes second is gone into only if the first part has answered. -/
theorem bind (h : Degrades fault x y) (hnext : ∀ a, Degrades (fun cause => y = .ok a → fault cause) (f a) (g a)) :
    Degrades fault (x >>= f) (y >>= g) := by
  obtain ⟨a, rfl, rfl | ⟨cause, hcause, rfl⟩⟩ := h
  · exact (hnext a).mono fun cause hcause => hcause rfl
  · obtain ⟨b, hb, _⟩ := hnext a
    exact ⟨b, hb, .inr ⟨cause, hcause, rfl⟩⟩

end Degrades

namespace Table

variable {α β : Type} {decode : Bytes → Except Malformed α} {t : Table} {id : DocId} {absent : β} {present : α → β}

/-- What is made of the value of an id, which may be absent but must be readable. -/
def look (t : Table) (decode : Bytes → Except Malformed α) (absent : β) (present : α → β) (id : DocId) :
    Except Error β :=
  match t.find? (DocId.toKey id) with
  | none => .ok absent
  | some value => do return present (← Malformed.orFail (decode value))

theorem look_of_illegible {cause : Malformed} (h : t.Illegible decode id cause) :
    t.look decode absent present id = .error (.malformed cause) := by
  obtain ⟨value, hfind, hread⟩ := h
  simp only [look, hfind, hread]
  rfl

theorem degrades_look (t : Table) (decode : Bytes → Except Malformed α) (absent : β) (present : α → β) (id : DocId) :
    Degrades (t.Illegible decode id) ((t.legible decode).look decode absent present id)
      (t.look decode absent present id) := by
  have hlegible := t.find?_legible decode (DocId.toKey id)
  cases hfind : t.find? (DocId.toKey id) with
  | none =>
    rw [hfind, Option.filter_none] at hlegible
    simp only [look, hlegible, hfind]
    exact .ok absent
  | some value =>
    cases hread : decode value with
    | ok a =>
      rw [hfind, Option.filter_some_pos (by rw [hread]; rfl)] at hlegible
      simp only [look, hlegible, hfind, hread]
      exact .ok (present a)
    | error cause =>
      have hillegible : t.Illegible decode id cause := ⟨value, hfind, hread⟩
      rw [hfind, Option.filter_some_neg (by rw [hread]; rfl)] at hlegible
      exact ⟨absent, by simp only [look, hlegible], .inr ⟨cause, hillegible, look_of_illegible hillegible⟩⟩

end Table

namespace Store

variable {s : Store} {id : DocId}

/-! ### One value -/

theorem childrenOf_eq_look (s : Store) (id : DocId) :
    s.childrenOf id = s.children.look IdList.decode [] (fun ids => ids) id := by
  unfold childrenOf Table.look
  cases s.children.find? (DocId.toKey id) with
  | none => rfl
  | some value => exact (bind_pure _).symm

theorem degrades_timeOf? (s : Store) (id : DocId) :
    Degrades (s.times.Illegible TimeInfo.decode id) (s.legible.timeOf? id) (s.timeOf? id) :=
  s.times.degrades_look ..

theorem degrades_childrenOf (s : Store) (id : DocId) :
    Degrades (s.children.Illegible IdList.decode id) (s.legible.childrenOf id) (s.childrenOf id) := by
  rw [childrenOf_eq_look, childrenOf_eq_look]
  exact s.children.degrades_look ..

theorem degrades_pathEntryOf? (s : Store) (id : DocId) :
    Degrades (fun cause => id ≠ 0 ∧ s.pathEntries.Illegible PathEntry.decode id cause) (s.legible.pathEntryOf? id)
      (s.pathEntryOf? id) := by
  unfold pathEntryOf?
  split
  · exact .ok none
  · rename_i hid
    exact (s.pathEntries.degrades_look PathEntry.decode none some id).mono fun cause hcause => ⟨hid, hcause⟩

/-! ### Upwards -/

/-- The entry of an id, or of one above it, cannot be read. -/
def IllegibleAbove (s : Store) (id : DocId) (cause : Malformed) : Prop :=
  ∃ other, Relation.ReflTransGen s.HangsFrom id other ∧ s.pathEntries.Illegible PathEntry.decode other cause

theorem degrades_namesUp (levels : Nat) (id : DocId) :
    Degrades (s.IllegibleAbove id) (s.legible.namesUp levels id) (s.namesUp levels id) := by
  induction levels generalizing id with
  | zero => exact .ok _
  | succ levels ih =>
    rw [namesUp, namesUp]
    split
    · exact .ok _
    · refine ((s.degrades_pathEntryOf? id).mono fun cause hcause => ⟨id, .refl, hcause.2⟩).bind fun entry => ?_
      cases entry with
      | none => exact .ok _
      | some e =>
        -- what is above the parent is above the id, as its entry has been read to get there
        refine ((ih e.parent).mono fun cause hcause hentry => ?_).bind fun names => .ok _
        obtain ⟨other, hother, hillegible⟩ := hcause
        exact ⟨other, .head ⟨e.name, hentry⟩ hother, hillegible⟩

theorem degrades_pathOf (s : Store) (id : DocId) : Degrades (s.IllegibleAbove id) (s.legible.pathOf id) (s.pathOf id) :=
  (degrades_namesUp (maxDepth + 1) id).bind fun _ => .ok _

/-! ### Downwards -/

/-- The list of children of an id, or the entry of one in it, cannot be read. -/
def IllegibleIn (s : Store) (parent : DocId) (cause : Malformed) : Prop :=
  s.children.Illegible IdList.decode parent cause ∨
    ∃ child, s.IsChild parent child ∧ s.pathEntries.Illegible PathEntry.decode child cause

theorem degrades_firstNamed (name : Bytes) (ids : List DocId) :
    Degrades (fun cause => ∃ child ∈ ids, child ≠ 0 ∧ s.pathEntries.Illegible PathEntry.decode child cause)
      (s.legible.firstNamed name ids) (s.firstNamed name ids) := by
  induction ids with
  | nil => exact .ok 0
  | cons id ids ih =>
    have hrest := ih.mono fun cause ⟨child, hmem, hcause⟩ => (⟨child, List.mem_cons_of_mem id hmem, hcause⟩ :
      ∃ child ∈ id :: ids, child ≠ 0 ∧ s.pathEntries.Illegible PathEntry.decode child cause)
    rw [firstNamed, firstNamed]
    refine ((s.degrades_pathEntryOf? id).mono fun cause hcause => ⟨id, List.mem_cons_self, hcause⟩).bind fun entry => ?_
    cases entry with
    | none => exact hrest.mono fun cause hcause _ => hcause
    | some e =>
      show Degrades _ (if e.name = name then _ else _) (if e.name = name then _ else _)
      split
      · exact .ok id
      · exact hrest.mono fun cause hcause _ => hcause

theorem degrades_childNamed (parent : DocId) (name : Bytes) :
    Degrades (s.IllegibleIn parent) (s.legible.childNamed parent name) (s.childNamed parent name) := by
  unfold childNamed
  split
  · exact .ok 0
  · refine ((s.degrades_childrenOf parent).mono fun cause => .inl).bind fun ids =>
      (degrades_firstNamed name ids).mono ?_
    rintro cause ⟨child, hmem, hchild, hcause⟩ hids
    exact .inr ⟨child, ⟨hchild, ids, hids, hmem⟩, hcause⟩

theorem isChild_of_childNamed {parent child : DocId} {name : Bytes} (h : s.childNamed parent name = .ok child)
    (hchild : child ≠ 0) : s.IsChild parent child := by
  unfold childNamed at h
  split at h
  · exact absurd (Except.ok.inj h).symm hchild
  · cases hids : s.childrenOf parent with
    | error e =>
      rw [hids] at h
      cases h
    | ok ids =>
      rw [hids] at h
      exact ⟨hchild, ids, hids, (firstNamed_spec h hchild).1⟩

/-- In the list of children of an id or of one below it there is something that cannot be read. -/
def IllegibleBelow (s : Store) (id : DocId) (cause : Malformed) : Prop :=
  ∃ parent, Relation.ReflTransGen s.IsChild id parent ∧ s.IllegibleIn parent cause

theorem degrades_descend (id : DocId) (names : List Bytes) :
    Degrades (s.IllegibleBelow id) (s.legible.descend id names) (s.descend id names) := by
  induction names generalizing id with
  | nil => exact .ok id
  | cons name names ih =>
    rw [descend, descend]
    refine ((degrades_childNamed id name).mono fun cause hcause => ⟨id, .refl, hcause⟩).bind fun child => ?_
    show Degrades _ (if child = 0 then _ else _) (if child = 0 then _ else _)
    split
    · exact .ok 0
    · rename_i hchild
      refine (ih child).mono ?_
      rintro cause ⟨parent, hparent, hcause⟩ hnamed
      exact ⟨parent, .head (isChild_of_childNamed hnamed hchild) hparent, hcause⟩

theorem degrades_idAt (s : Store) (url : Bytes) : Degrades (s.IllegibleBelow 0) (s.legible.idAt url) (s.idAt url) := by
  unfold idAt
  split
  · split
    · exact degrades_descend 0 _
    · exact .ok 0
  · exact .ok 0

/-- The walk down goes by the lists of children. -/
theorem degrades_visit (start : DocId) (bound : Nat) (seen : List DocId) (stack : List (DocId × Nat)) :
    Degrades (fun cause => (∀ x ∈ stack, Relation.ReflTransGen s.IsChild start x.1) →
        ∃ parent, Relation.ReflTransGen s.IsChild start parent ∧ s.children.Illegible IdList.decode parent cause)
      (s.legible.visit bound seen stack) (s.visit bound seen stack) := by
  induction bound generalizing seen stack with
  | zero => exact .ok []
  | succ bound ih =>
    match stack with
    | [] => exact .ok []
    | (id, level) :: stack =>
      rw [visit, visit]
      split
      · refine ((ih seen stack).mono fun cause hcause hstack => hcause ?_).bind fun _ => .ok _
        exact (List.forall_mem_cons.mp hstack).2
      · refine ((s.degrades_childrenOf id).mono fun cause hcause hstack => ?_).bind fun ids => ?_
        · exact ⟨id, hstack _ List.mem_cons_self, hcause⟩
        · refine ((ih _ (pushed seen ids level stack)).mono fun cause hcause hids hstack => hcause fun x hx => ?_).bind
            fun _ => .ok _
          obtain ⟨hid, hrest⟩ := List.forall_mem_cons.mp hstack
          rcases mem_pushed.mp hx with ⟨hfresh, _⟩ | hx
          · exact hid.tail ((mem_fresh hids).mp hfresh).1
          · exact hrest x hx

theorem childBytes_legible_le (s : Store) : s.legible.childBytes ≤ s.childBytes := by
  show ((s.children.entries.filter fun e => (IdList.decode e.2).isOk).foldr _ 0) ≤ _
  unfold childBytes
  induction s.children.entries with
  | nil => exact Nat.le_refl 0
  | cons e es ih =>
    rw [List.filter_cons, List.foldr_cons]
    split
    · rw [List.foldr_cons]
      omega
    · omega

theorem degrades_subtreeIds (s : Store) (id : DocId) :
    Degrades (fun cause => ∃ parent, Relation.ReflTransGen s.IsChild id parent ∧
        s.children.Illegible IdList.decode parent cause) (s.legible.subtreeIds id) (s.subtreeIds id) := by
  unfold subtreeIds
  split
  · exact .ok []
  · refine Degrades.bind ?_ fun _ => .ok _
    have hread : ∀ parent, ∃ ids, s.legible.childrenOf parent = .ok ids := fun parent =>
      (s.degrades_childrenOf parent).imp fun _ h => h.1
    -- the walk through the legible store has the greater bound as well
    obtain ⟨out, hout, hbound, _⟩ := subtree_walk hread id
    have hsame : s.legible.subtree id = s.legible.visit (s.childBytes + 1) [id] [(id, 0)] := by
      rw [hout, hbound _ (Nat.succ_le_succ s.childBytes_legible_le)]
    rw [hsame]
    refine (degrades_visit id _ [id] [(id, 0)]).mono fun cause hcause => hcause fun x hx => ?_
    rw [List.mem_singleton.mp hx]

/-! ### All lookups -/

theorem pathOf_of_illegible {cause : Malformed} (hid : id ≠ 0) (h : s.pathEntries.Illegible PathEntry.decode id cause) :
    s.pathOf id = .error (.malformed cause) := by
  have hentry : s.pathEntryOf? id = .error (.malformed cause) := by
    rw [pathEntryOf?, if_neg hid]
    exact Table.look_of_illegible h
  rw [pathOf, namesUp, if_neg hid, hentry]
  rfl

theorem subtreeIds_of_illegible {cause : Malformed} (hid : id ≠ 0) (h : s.childrenOf id = .error (.malformed cause)) :
    s.subtreeIds id = .error (.malformed cause) := by
  rw [subtreeIds, if_neg hid, subtree, visit, if_neg (by decide), h]
  rfl

/-- Whatever bytes are stored: the sets of terms, the positions and the searches for queries that can be built are
those of the store without the values that cannot be read. So are the times, the children, the path, the id at a path
and all below an id, unless a value that the lookup comes upon cannot be read; then it fails for this cause, and it does
so in any case if the value is that of the id itself. -/
theorem lookups_degrade (s : Store) {q : Query} (hq : q.Checked) (limit : Option Nat) (id : DocId) (term url : Bytes) :
    (∀ field, s.termsOf field id = s.legible.termsOf field id) ∧
      s.occurrencesOf term = s.legible.occurrencesOf term ∧
      (∃ ids, s.legible.search q limit = .ok ids ∧ s.search q limit = .ok ids) ∧
      Degrades (s.times.Illegible TimeInfo.decode id) (s.legible.timeOf? id) (s.timeOf? id) ∧
      Degrades (s.children.Illegible IdList.decode id) (s.legible.childrenOf id) (s.childrenOf id) ∧
      Degrades (s.IllegibleAbove id) (s.legible.pathOf id) (s.pathOf id) ∧
      Degrades (s.IllegibleBelow 0) (s.legible.idAt url) (s.idAt url) ∧
      Degrades (fun cause => ∃ parent, Relation.ReflTransGen s.IsChild id parent ∧
        s.children.Illegible IdList.decode parent cause) (s.legible.subtreeIds id) (s.subtreeIds id) ∧
      ∀ cause, (s.times.Illegible TimeInfo.decode id cause → s.timeOf? id = .error (.malformed cause)) ∧
        (s.children.Illegible IdList.decode id cause → s.childrenOf id = .error (.malformed cause) ∧
          (id ≠ 0 → s.subtreeIds id = .error (.malformed cause))) ∧
        (id ≠ 0 → s.pathEntries.Illegible PathEntry.decode id cause → s.pathOf id = .error (.malformed cause)) := by
  have hsearch : ∃ ids, s.legible.search q limit = .ok ids ∧ s.search q limit = .ok ids := by
    obtain ⟨ids, hids⟩ := s.exists_search_of_checked hq limit
    exact ⟨ids, (s.search_legible q limit).trans hids, hids⟩
  refine ⟨fun field => (s.termsOf_legible field id).symm, (s.occurrencesOf_legible term).symm, hsearch,
    s.degrades_timeOf? id,
    s.degrades_childrenOf id, s.degrades_pathOf id, s.degrades_idAt url, s.degrades_subtreeIds id, fun cause =>
    ⟨fun h => Table.look_of_illegible h, fun h => ?_, fun hid h => pathOf_of_illegible hid h⟩⟩
  have hchildren : s.childrenOf id = .error (.malformed cause) := by
    rw [childrenOf_eq_look]
    exact Table.look_of_illegible h
  exact ⟨hchildren, fun hid => subtreeIds_of_illegible hid hchildren⟩

/-- Of two lists one cannot be read, and neither can the times of the document. -/
theorem lookups_degrade_around_corrupt_times :
    let s : Store := {
      postings := ⟨[([0x78], [0x80]), ([0x79], IdList.encode [5])], by decide⟩
      times := ⟨[(DocId.toKey 5, [0])], List.pairwise_singleton ..⟩ }
    let q : Query := .composite .or [.term [0x78], .startsWith [0x79]]
    q.Checked ∧ (∃ ids, s.legible.search q none = .ok ids ∧ s.search q none = .ok ids) ∧
      s.timeOf? 5 = .error (.malformed .recordCutOff) := by
  intro s q
  have hq : q.Checked := by
    have hcompose : Query.compose .or [.term [0x78], .startsWith [0x79]] = .ok q := rfl
    refine .compose (fun operand hoperand => ?_) hcompose
    rcases List.mem_pair.mp hoperand with rfl | rfl
    · exact .term [0x78]
    · exact .startsWith (List.cons_ne_nil _ _)
  obtain ⟨-, -, hsearch, -, -, -, -, -, hfails⟩ := lookups_degrade s hq none 5 [0x78] [0x2F]
  exact ⟨hq, hsearch, (hfails .recordCutOff).1 ⟨[0], rfl, rfl⟩⟩

/-- Times, a list of children and an entry of the tree that cannot be read are not taken for absent. -/
theorem lookups_fail_of_corrupt_values :
    let s : Store := {
      times := ⟨[(DocId.toKey 5, [0])], List.pairwise_singleton ..⟩
      children := ⟨[(DocId.toKey 5, [0x80])], List.pairwise_singleton ..⟩
      pathEntries := ⟨[(DocId.toKey 5, [0])], List.pairwise_singleton ..⟩ }
    (s.legible.timeOf? 5 = .ok none ∧ s.timeOf? 5 = .error (.malformed .recordCutOff)) ∧
      (s.legible.childrenOf 5 = .ok [] ∧ s.childrenOf 5 = .error (.malformed .numeralCutOff)) ∧
      (s.legible.pathOf 5 = .ok [] ∧ s.pathOf 5 = .error (.malformed .recordCutOff)) := by
  intro s
  exact ⟨⟨rfl, rfl⟩, ⟨rfl, rfl⟩, rfl, rfl⟩

end Store
end FileIndex
