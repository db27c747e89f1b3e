import FileIndex.Proofs.Transactions

/-!
# Documents that a change is not about

All documents with a term share its two lists, and a commit reads, edits and writes these as a whole. What they say of
a document that the change is not about stays as it was, so that the document is found by the same queries. The
occurrences of a term are lost to all documents, though, if one is given positions that go down.

* `Query.InPhrase`: the terms whose occurrences a query looks at.
* `OccurrenceList.LevelIf`, `TermMap.LevelOn`: positions that do not go down, where that is asked for.
* `InOrder`: lists that can be stored. `lasting_inOrder`: queued changes keep this.
* `Store.SameFor`: the document has the same in two stores. `Draft.Bystands`: it has the same in a draft and a store.
* `Draft.Bystands.run`: a change that is not about the document leaves it so. `Draft.Bystands.commit`: so does storing.
* `Store.Matches.of_sameFor`: then the same queries match the document; the induction is on the match.
* `Session.mem_search_transact_iff`: a committed change does not change whether the document is found.
  `Session.search_transact_falling`: positions that go down take a phrase from a document that the change is not about.
-/

namespace FileIndex

open OccurrenceList Store

/-- The term stands in a phrase of several terms, which is the query or a part of it. -/
inductive Query.InPhrase (t : Bytes) : Query → Prop
  | phrase {operands : List Query} : 2 ≤ operands.length → .term t ∈ operands → InPhrase t (.composite .phrase operands)
  | operand {how : Connective} {operands : List Query} {q : Query} : q ∈ operands → InPhrase t q →
    InPhrase t (.composite how operands)

/-! ### Lists in order -/

/-- The positions can be counted, and do not go down if that is asked for. -/
def OccurrenceList.LevelIf (asked : Prop) (ps : List UInt32) : Prop := Counted ps ∧ (asked → ps.Pairwise (· ≤ ·))

theorem OccurrenceList.Level.levelIf {ps : List UInt32} (h : Level ps) (asked : Prop) : LevelIf asked ps :=
  ⟨h.1, fun _ => h.2⟩

/-- The positions of every term can be counted, and those of the chosen terms do not go down. -/
def TermMap.LevelOn (chosen : Bytes → Prop) (terms : TermMap) : Prop :=
  ∀ t positions, terms.find? t = some positions → LevelIf (chosen t) positions

theorem TermMap.Level.levelOn {terms : TermMap} (h : terms.Level) (chosen : Bytes → Prop) : terms.LevelOn chosen :=
  fun t positions hfind => (h t positions hfind).levelIf (chosen t)

/-- The ids and the occurrences ascend without the id 0, and the positions of each document do so if that is asked. -/
structure InOrder (asked : Prop) (lists : List DocId × List Occurrence) : Prop where
  ascending : lists.1.Pairwise (· < ·)
  nonzero : 0 ∉ lists.1
  occurrences : Ordered (LevelIf asked) lists.2

theorem lasting_inOrder (asked : Prop) :
    Draft.Lasting (InOrder asked) fun o => o.id ≠ 0 ∧ LevelIf asked o.positions := by
  have hoccurrences := lasting_ordered fun ps => (level_ofList ps).levelIf asked
  constructor
  · exact fun h hfit => ⟨Draft.lasting_ascending.add h.ascending trivial, Draft.lasting_nonzero.add h.nonzero hfit.1,
      hoccurrences.add h.occurrences hfit⟩
  · exact fun h => ⟨Draft.lasting_ascending.remove h.ascending, Draft.lasting_nonzero.remove h.nonzero,
      hoccurrences.remove h.occurrences⟩

/-- Positions that are read do not go down, whatever was stored. -/
theorem Store.level_of_mem_occurrencesOf {s : Store} {t : Bytes} {o : Occurrence} (ho : o ∈ s.occurrencesOf t) :
    Level o.positions := by
  rcases s.occurrencesOf_cases t with hnil | ⟨value, _, hread⟩
  · simp [hnil] at ho
  · rw [hread, readOccurrences] at ho
    cases hdecode : decode value with
    | error cause =>
      rw [hdecode] at ho
      cases ho
    | ok os =>
      rw [hdecode] at ho
      exact ((ascends_of_decode hdecode).1.positions o ho).symm

theorem Store.Sorted.inOrder {s : Store} (h : s.Sorted) (asked : Prop) (t : Bytes) :
    InOrder asked (s.idsWith t, s.occurrencesOf t) := by
  obtain ⟨hascending, hnonzero, _⟩ := h.occurrences t
  exact ⟨(h.ids t).1, (h.ids t).2, hascending, hnonzero, fun o ho => (level_of_mem_occurrencesOf ho).levelIf asked⟩

/-! ### Drafts that leave a document alone -/

/-- The document has the same terms in both stores, and the chosen ones at the same positions. -/
structure Store.SameFor (chosen : Bytes → Prop) (id : DocId) (s s' : Store) : Prop where
  listed : ∀ t, id ∈ s'.idsWith t ↔ id ∈ s.idsWith t
  placed : ∀ t, chosen t → ∀ p, HasPosition (s'.occurrencesOf t) id p ↔ HasPosition (s.occurrencesOf t) id p

theorem Store.SameFor.symm {chosen : Bytes → Prop} {id : DocId} {s s' : Store} (h : SameFor chosen id s s') :
    SameFor chosen id s' s :=
  ⟨fun t => (h.listed t).symm, fun t ht p => (h.placed t ht p).symm⟩

namespace Draft

/-- The lists of the draft can be stored, those of the chosen terms so that they are read back, and the document has in
each of them what it has in the store. -/
structure Bystands (chosen : Bytes → Prop) (s : Store) (id : DocId) (d : Draft) : Prop where
  inOrder : ∀ t, InOrder (chosen t) (d.listsOf t)
  listed : ∀ t, id ∈ (d.listsOf t).1 ↔ id ∈ s.idsWith t
  placed : ∀ t p, HasPosition (d.listsOf t).2 id p ↔ HasPosition (s.occurrencesOf t) id p

section Tracked

variable {V : List DocId × List Occurrence → DocId → Prop} {A : List UInt32 → Prop} {d : Draft} {id other : DocId}
  {t : Bytes}

/-- What is queued for a document says nothing of another one. -/
theorem Tracked.enqueueTerms_other (h : Tracked V A) (hother : other ≠ id) {terms : TermMap} :
    V ((d.enqueueTerms id terms).listsOf t) other ↔ V (d.listsOf t) other := by
  rw [h.enqueueTerms]
  exact or_iff_right fun hself => hother hself.1

theorem Tracked.enqueueRemovals_other (h : Tracked V A) (hd : d.IdsAscend) (hother : other ≠ id) {terms : List Bytes} :
    V ((d.enqueueRemovals id terms).listsOf t) other ↔ V (d.listsOf t) other := by
  rw [h.enqueueRemovals hd]
  exact and_iff_left fun hself => hother hself.1

end Tracked

namespace Bystands

variable {chosen : Bytes → Prop} {s : Store} {id other : DocId} {d : Draft}

theorem begin (h : s.Sorted) (chosen : Bytes → Prop) (id : DocId) : Bystands chosen s id { store := s } :=
  ⟨fun t => h.inOrder (chosen t) t, fun _ => .rfl, fun _ _ => .rfl⟩

theorem idsAscend (h : Bystands chosen s id d) : d.IdsAscend := fun t => (h.inOrder t).ascending

theorem enqueueTerms (h : Bystands chosen s id d) (hid : id ≠ other) (hother : other ≠ 0) {terms : TermMap}
    (hterms : terms.LevelOn chosen) : Bystands chosen s id (d.enqueueTerms other terms) where
  inOrder t := (lasting_inOrder (chosen t)).enqueueTerms (h.inOrder t) fun positions hfind =>
    ⟨hother, hterms t positions hfind⟩
  listed t := (tracked_ids.enqueueTerms_other hid).trans (h.listed t)
  placed t p := ((tracked_position p).enqueueTerms_other hid).trans (h.placed t p)

theorem enqueueRemovals (h : Bystands chosen s id d) (hid : id ≠ other) (terms : List Bytes) :
    Bystands chosen s id (d.enqueueRemovals other terms) where
  inOrder t := (lasting_inOrder (chosen t)).enqueueRemovals (h.inOrder t) terms
  listed t := (tracked_ids.enqueueRemovals_other h.idsAscend hid).trans (h.listed t)
  placed t p := ((tracked_position p).enqueueRemovals_other h.idsAscend hid).trans (h.placed t p)

theorem withStore (h : Bystands chosen s id d) {s' : Store} (hpostings : s'.postings = d.store.postings)
    (hoccurrences : s'.occurrences = d.store.occurrences) : Bystands chosen s id { d with store := s' } := by
  have hlists : ∀ t, ({ d with store := s' } : Draft).listsOf t = d.listsOf t :=
    listsOf_congr (by rfl) hpostings hoccurrences
  exact ⟨fun t => hlists t ▸ h.inOrder t, fun t => hlists t ▸ h.listed t, fun t => hlists t ▸ h.placed t⟩

/-- What is stored for a term is read back, or nothing is if it was not chosen. -/
theorem occurrencesOf_commit (h : Bystands chosen s id d) {s' : Store} (hcommit : d.commit = .ok s') (t : Bytes) :
    s'.occurrencesOf t = (d.listsOf t).2 ∨ (¬ chosen t ∧ s'.occurrencesOf t = []) := by
  have hlists := (h.inOrder t).occurrences
  rw [occurrencesOf_commit_eq hcommit]
  cases hchanges : d.pending.find? t with
  | none =>
    rw [listsOf_of_find?_none hchanges]
    exact .inl rfl
  | some changes =>
    by_cases ht : chosen t
    · have hlevel : Ordered Level (d.listsOf t).2 := hlists.imp fun _ hps => ⟨hps.1, hps.2 ht⟩
      exact .inl hlevel.read_encode_of_level
    · have hcounted : Ordered Counted (d.listsOf t).2 := hlists.imp fun _ hps => hps.1
      exact hcounted.read_encode.imp (·.2) fun hread => ⟨ht, hread⟩

/-- What is stored is sorted, and the document has the same in it. -/
theorem commit (h : Bystands chosen s id d) {s' : Store} (hcommit : d.commit = .ok s') :
    s'.Sorted ∧ SameFor chosen id s s' := by
  have hids := (idsWith_commit hcommit h.idsAscend).1
  refine ⟨⟨fun t => ?_, fun t => ?_⟩, fun t => ?_, fun t ht p => ?_⟩
  · rw [hids]
    exact ⟨(h.inOrder t).ascending, (h.inOrder t).nonzero⟩
  · have hlevel : ∀ o ∈ s'.occurrencesOf t, o.positions.Pairwise (· ≤ ·) :=
      fun o ho => (level_of_mem_occurrencesOf ho).2
    rcases h.occurrencesOf_commit hcommit t with hread | ⟨_, hlost⟩
    · rw [hread] at hlevel ⊢
      exact ⟨(h.inOrder t).occurrences.ascending, (h.inOrder t).occurrences.nonzero, hlevel⟩
    · rw [hlost]
      exact ⟨.nil, nofun, nofun⟩
  · rw [hids]
    exact h.listed t
  · rcases h.occurrencesOf_commit hcommit t with hread | ⟨hother, _⟩
    · rw [hread]
      exact h.placed t p
    · exact absurd ht hother

end Bystands

/-- One and the same draft, which leaves the document alone: what is parallel there keeps it so. -/
def Untouched (chosen : Bytes → Prop) (s : Store) (id : DocId) (d d' : Draft) : Prop := d' = d ∧ Bystands chosen s id d

theorem steady_untouched (chosen : Bytes → Prop) (s : Store) (id : DocId) : Steady (Untouched chosen s id) := by
  refine ⟨?_, ?_⟩
  · rintro d _ ⟨rfl, _⟩
    rfl
  · rintro d _ s' ⟨rfl, hd⟩ hpostings hoccurrences
    refine ⟨?_, hd.withStore hpostings hoccurrences⟩
    rw [← hpostings, ← hoccurrences]
    rfl

theorem queues_untouched (chosen : Bytes → Prop) (s : Store) {id other : DocId} (hid : id ≠ other) :
    Queues (Untouched chosen s id) other (TermMap.LevelOn chosen) := by
  refine ⟨?_, ?_⟩
  · rintro d _ terms ⟨rfl, hd⟩ hother hterms
    exact ⟨rfl, hd.enqueueTerms hid hother hterms⟩
  · rintro d _ ⟨rfl, hd⟩ terms
    exact ⟨rfl, hd.enqueueRemovals hid terms⟩

/-- A change that is not about the document leaves it alone, whether it succeeds or fails. -/
theorem Bystands.run {chosen : Bytes → Prop} {s : Store} {id : DocId} {d : Draft} (h : Bystands chosen s id d)
    (resolver : Resolver) {op : WriteOp} (hid : ¬ op.Concerns d.store id)
    (hlevel : ∀ terms, op.Gives terms → terms.LevelOn chosen) :
    Bystands chosen s id (leftBy (Draft.run resolver op d)) := by
  have hagree : Agree (Untouched chosen s id) (Draft.run resolver op d) (Draft.run resolver op d) := by
    refine agree_run (steady_untouched chosen s id) resolver ⟨rfl, h⟩ (fun other hother => ?_) hlevel
    refine queues_untouched chosen s ?_
    rintro rfl
    exact hid hother
  exact hagree.leftBy.2

end Draft

/-! ### Searching -/

/-- A query that matches the document still does where the document has the same. -/
theorem Store.Matches.of_sameFor {chosen : Bytes → Prop} {s s' : Store} {id : DocId} {q : Query} (h : s.Matches q id)
    (hsame : SameFor chosen id s s') (hchosen : ∀ t, q.InPhrase t → chosen t) : s'.Matches q id := by
  induction h with
  | @term t _ hid => exact .term ((hsame.listed t).mpr hid)
  | @startsWith beginning t _ _ hbegins hid =>
    have hid' := (hsame.listed t).mpr hid
    exact .startsWith (contains_of_mem_idsWith hid') hbegins hid'
  | and _ ih => exact .and fun q hq => ih q hq hsame fun t ht => hchosen t (.operand hq ht)
  | or hq _ ih => exact .or hq (ih hsame fun t ht => hchosen t (.operand hq ht))
  | @phraseOfOne t _ hid => exact .phraseOfOne ((hsame.listed t).mpr hid)
  | @phrase terms _ start hlength hall =>
    refine .phrase start hlength fun i hi => ?_
    have hphrase : Query.InPhrase terms[i] (.composite .phrase (terms.map .term)) :=
      .phrase (by rwa [List.length_map]) (List.mem_map_of_mem (List.getElem_mem hi))
    obtain ⟨o, ho, hid, p, hp, hplace⟩ := hall i hi
    obtain ⟨o', ho', hid', hp'⟩ := (hsame.placed terms[i] (hchosen _ hphrase) p).mpr ⟨o, ho, hid, hp⟩
    exact ⟨o', ho', hid', p, hp', hplace⟩

/-- A change that is made and committed does not change whether a query finds a document that it is not about. The
positions that the change gives to its own document have to ascend, as those of a `TermMap` are to, for every term that
stands in a phrase of the query. -/
theorem Session.mem_search_transact_iff {s t : Session} (hsorted : s.committed.Sorted) {q : Query} (hq : q.Checked)
    {c : Change} (hlevel : ∀ terms, c.op.Gives terms → terms.LevelOn (q.InPhrase ·))
    {answers : List (Except Error Unit)} (htransact : s.transact [c] = .ok (answers, t)) {id : DocId}
    (hid : ¬ c.op.Concerns s.committed id) :
    ∃ ids ids', s.committed.search q none = .ok ids ∧ t.committed.search q none = .ok ids' ∧
      (id ∈ ids' ↔ id ∈ ids) := by
  have hdraft := (Draft.Bystands.begin hsorted (q.InPhrase ·) id).run c.resolver hid hlevel
  obtain ⟨hsorted', hsame⟩ := hdraft.commit (commit_of_transact htransact)
  obtain ⟨ids, _, hmem, hsearch⟩ := hsorted.exists_search hq
  obtain ⟨ids', _, hmem', hsearch'⟩ := hsorted'.exists_search hq
  refine ⟨ids, ids', hsearch, hsearch', ?_⟩
  rw [hmem, hmem']
  exact ⟨fun h => h.of_sameFor hsame.symm fun _ ht => ht, fun h => h.of_sameFor hsame fun _ ht => ht⟩

/-- Two documents have the words one after the other, and one of them gets a content in which they have
changed places. -/
theorem Session.mem_search_transact_iff_rewritten :
    let first : Document := { id := 7, url := [0x2F, 0x78] }
    let second : Document := { id := 8, url := [0x2F, 0x79] }
    let words (doc : Document) := (doc.addPosition .content [0x61] 1).addPosition .content [0x62] 2
    let new := (first.addPosition .content [0x62] 1).addPosition .content [0x61] 2
    let moments : List Moment := [⟨.nowhere, .beginWrite⟩, ⟨.nowhere, .write (.add (words first))⟩,
      ⟨.nowhere, .write (.add (words second))⟩, ⟨.nowhere, .commit⟩]
    let s := ({ resolver := .nowhere } : Session).afterAt moments
    let c : Change := ⟨.nowhere, .replace new { contentTerms := true }⟩
    let q := Query.composite .phrase [.term [0x61], .term [0x62]]
    (s.committed.Sorted ∧ q.Checked ∧ (∀ terms, c.op.Gives terms → terms.LevelOn (q.InPhrase ·)) ∧
      ¬ c.op.Concerns s.committed 8) ∧
      ∃ answers t, s.transact [c] = .ok (answers, t) ∧ ∃ ids ids', s.committed.search q none = .ok ids ∧
        t.committed.search q none = .ok ids' ∧ (8 ∈ ids' ↔ 8 ∈ ids) := by
  intro first second words new moments s c q
  have hsorted : s.committed.Sorted := .of_entries (by decide +kernel) (by decide +kernel)
  have hq : q.Checked := .phrase (List.cons_ne_nil [0x61] [[0x62]])
  have hnew : new.Keyed :=
    ((Document.Keyed.plain 7 _ _ _ _).addPosition .content 1 (by decide)).addPosition .content 2 (by decide)
  have hlevel : ∀ terms, c.op.Gives terms → terms.LevelOn (q.InPhrase ·) := by
    intro terms hgives
    cases hgives with
    | replace => exact (hnew.1.level _).levelOn _
  have hother : ¬ c.op.Concerns s.committed 8 := by
    show ¬ (8 : DocId) = 7
    decide
  have hends : (s.transact [c]).toOption.isSome = true := by decide +kernel
  cases htransact : s.transact [c] with
  | error e =>
    rw [htransact] at hends
    cases hends
  | ok r =>
    obtain ⟨answers, t⟩ := r
    exact ⟨⟨hsorted, hq, hlevel, hother⟩, answers, t, rfl, mem_search_transact_iff hsorted hq hlevel htransact hother⟩

/-- A document is added whose positions go down. The list of the term can no longer be read then, and the phrase that
another document has is not found any more. -/
theorem Session.search_transact_falling :
    let second : Document := { id := 8, url := [0x2F, 0x79] }
    let words := (second.addPosition .content [0x61] 1).addPosition .content [0x62] 2
    let moments : List Moment := [⟨.nowhere, .beginWrite⟩, ⟨.nowhere, .write (.add words)⟩, ⟨.nowhere, .commit⟩]
    let s := ({ resolver := .nowhere } : Session).afterAt moments
    let new : Document := { id := 7, url := [0x2F, 0x78], contentTerms := (∅ : TermMap).insert [0x61] [5, 3] }
    let c : Change := ⟨.nowhere, .add new⟩
    let q := Query.composite .phrase [.term [0x61], .term [0x62]]
    s.committed.Sorted ∧ q.Checked ∧ ¬ c.op.Concerns s.committed 8 ∧ s.committed.search q none = .ok [8] ∧
      ((s.transact [c]).toOption.map fun o => (o.1, o.2.committed.search q none)) = some ([.ok ()], .ok []) := by
  intro second words moments s new c q
  have hsorted : s.committed.Sorted := .of_entries (by decide +kernel) (by decide +kernel)
  have hq : q.Checked := .phrase (List.cons_ne_nil [0x61] [[0x62]])
  have hother : ¬ c.op.Concerns s.committed 8 := by
    show ¬ (8 : DocId) = 7
    decide
  exact ⟨hsorted, hq, hother, by decide +kernel, by decide +kernel⟩

end FileIndex
