import FileIndex.FileId
import FileIndex.Proofs.Passages
import FileIndex.Proofs.StoredLists
import FileIndex.Proofs.Transactions

/-!
# Phrases are found where their words stand

A phrase is found in a document exactly if its words follow each other in one of the texts that the document has taken
in.

* `Draft.Tracked.addDocument`, `Draft.Tracked.runAll`: what documents that are added make of the lists of terms.
* `Draft.Tidy.sorted`: what is stored of a tidy draft can be searched.
* `Store.Shows`: the terms of a store stand where they stand in the passages. `Session.shows_transactAll`: so they
  do when documents were added.
* `Session.search_phraseOf_transactAll`: documents are added in any transactions, and a phrase is looked for.
-/

namespace FileIndex

open Store OccurrenceList

namespace Draft

/-! ### Adding documents -/

section Tracked

variable {V : List DocId × List Occurrence → DocId → Prop} {A : List UInt32 → Prop} {d d' : Draft} {t : Bytes}
  {other : DocId}

/-- A document that is added has what its fields say; the others have what they had. -/
theorem Tracked.addDocument (h : Tracked V A) (hd : d.store.Readable) {resolver : Resolver} {doc : Document}
    (hadd : Draft.add resolver doc d = .ok () d') : V (d'.listsOf t) other ↔
      (other = doc.id ∧ ∃ field positions, (doc.terms field).find? t = some positions ∧ A positions) ∨
        V (d.listsOf t) other := by
  rcases add_cases resolver doc hd.tree with ⟨_, e, hfail⟩ | ⟨_, _, _, s, _, _, _, hsame, hok⟩
  · rw [hadd] at hfail
    cases hfail
  rw [hadd] at hok
  cases hok
  let timed : Draft := { d with store := s.withTime doc.id doc.time }
  have hindex := hsame.sameIndex.trans (sameButRecords_withTime s doc.id doc.time).sameIndex
  have htimed : timed.listsOf t = d.listsOf t := listsOf_congr (by rfl) hindex.postings hindex.occurrences t
  have hrecords := (sameButRecords_entered doc { d with store := s }).sameIndex
  have hentered : (entered doc { d with store := s }).listsOf t =
      (Draft.withFields doc (fun field => !(doc.terms field).isEmpty) Field.all timed).listsOf t :=
    listsOf_congr (pending_entered doc _) hrecords.postings hrecords.occurrences t
  rw [hentered, h.withFields, htimed]
  refine or_congr_left (and_congr_right fun _ => ?_)
  constructor
  · rintro ⟨field, _, _, positions, hfind, hA⟩
    exact ⟨field, positions, hfind, hA⟩
  · rintro ⟨field, positions, hfind, hA⟩
    refine ⟨field, Field.mem_all field, ?_, positions, hfind, hA⟩
    have hmem : (t, positions) ∈ (doc.terms field).entries := ByteMap.find?_eq_some_iff.mp hfind
    simpa [ByteMap.isEmpty] using List.ne_nil_of_mem hmem

/-- A new document is added if its path can be placed. -/
theorem answerOf_add (hd : d.store.Readable) {resolver : Resolver} {doc : Document} {p : Placement}
    (hnew : d.store.hasDocument doc.id = false) (hplace : d.store.locate resolver doc.id doc.url = .ok (some p)) :
    answerOf (Draft.add resolver doc d) = .ok () := by
  rcases add_cases resolver doc hd.tree with ⟨hbad | hbad, _⟩ | ⟨_, _, _, _, _, _, _, _, hok⟩
  · rw [hnew] at hbad
    cases hbad
  · exact absurd hplace (hbad p)
  · rw [hok]
    rfl

/-- Documents that are added one after the other have what their fields say. -/
theorem Tracked.runAll (h : Tracked V A) (hd : d.store.Readable) {docs : List Document} {changes : List Change}
    (hchanges : changes.map (·.op) = docs.map .add) (hadded : ∀ a ∈ (d.runAll changes).1, a = .ok ()) :
    V ((d.runAll changes).2.listsOf t) other ↔ (∃ doc ∈ docs, other = doc.id ∧
      ∃ field positions, (doc.terms field).find? t = some positions ∧ A positions) ∨ V (d.listsOf t) other := by
  induction docs generalizing d changes with
  | nil =>
    rw [List.map_nil, List.map_eq_nil_iff] at hchanges
    subst hchanges
    simp [Draft.runAll]
  | cons doc docs ih =>
    obtain ⟨c, cs, rfl, hop, hcs⟩ := List.map_eq_cons_iff.mp hchanges
    obtain ⟨resolver, op⟩ := c
    subst hop
    obtain ⟨hfirst, hrest⟩ := List.forall_mem_cons.mp hadded
    have hreadable := (run_steps hd (Change.allows_of_fit (c := ⟨resolver, .add doc⟩) (fun _ _ => trivial) d)).2
    have hadd := eq_ok_of_answerOf hfirst
    have hlast := ih hreadable hcs hrest
    rw [h.addDocument hd hadd] at hlast
    rw [List.exists_mem_cons_iff, or_assoc, or_left_comm]
    exact hlast

end Tracked

/-- After documents were added to an empty index, terms stand where they stand in the documents. -/
theorem stands_runAll {docs : List Document} {changes : List Change}
    (hchanges : changes.map (·.op) = docs.map .add)
    (hadded : ∀ a ∈ (({ store := ∅ } : Draft).runAll changes).1, a = .ok ()) {t : Bytes} {id : DocId} {n : Nat} :
    (∃ o ∈ ((({ store := ∅ } : Draft).runAll changes).2.listsOf t).2, o.id = id ∧ ∃ p ∈ o.positions, p.toNat = n) ↔
      ∃ doc ∈ docs, doc.id = id ∧ doc.At t n := by
  have hempty : ∀ p, ¬ HasPosition (({ store := ∅ } : Draft).listsOf t).2 id p := by
    rintro p ⟨o, ho, _⟩
    rw [listsOf_empty] at ho
    cases ho
  have htracked : ∀ p, HasPosition ((({ store := ∅ } : Draft).runAll changes).2.listsOf t).2 id p ↔ ∃ doc ∈ docs,
      id = doc.id ∧ ∃ field positions, (doc.terms field).find? t = some positions ∧ p ∈ positions := fun p =>
    ((tracked_position p).runAll readable_empty hchanges hadded).trans (or_iff_left (hempty p))
  constructor
  · rintro ⟨o, ho, rfl, p, hp, rfl⟩
    obtain ⟨doc, hdoc, hid, field, positions, hfind, hmem⟩ := (htracked p).mp ⟨o, ho, rfl, hp⟩
    refine ⟨doc, hdoc, hid.symm, field, p, ?_, rfl⟩
    rw [TermMap.positions, hfind]
    exact hmem
  · rintro ⟨doc, hdoc, rfl, field, p, hp, rfl⟩
    unfold TermMap.positions at hp
    cases hfind : (doc.terms field).find? t with
    | none =>
      rw [hfind] at hp
      cases hp
    | some positions =>
      rw [hfind] at hp
      obtain ⟨o, ho, hid, hmem⟩ := (htracked p).mpr ⟨doc, hdoc, rfl, field, positions, hfind, hp⟩
      exact ⟨o, ho, hid, p, hmem, rfl⟩

/-- What is stored of a tidy draft can be searched. -/
theorem Tidy.sorted {d : Draft} (h : d.Tidy) {s : Store} (hs : d.Alike { store := s }) : s.Sorted := by
  have hlists : ∀ t, (s.idsWith t, s.occurrencesOf t) = d.listsOf t := hs.lists
  refine sorted_of_aligned (fun t => ?_) fun t => hlists t ▸ h.listed.lists t
  have hascend := h.listed.ascend t
  rwa [← hlists t] at hascend

end Draft

open Draft

/-! ### Searching -/

/-- Looking for words one after the other finds the documents that match, in ascending order. -/
theorem Store.Sorted.search_phraseOf {s : Store} (h : s.Sorted) {ws : List Bytes} (hne : ws ≠ []) :
    ∃ q ids, Query.phraseOf ws = .ok q ∧ s.search q none = .ok ids ∧ ids.Pairwise (· < ·) ∧
      ∀ id, id ∈ ids ↔ s.Matches (.composite .phrase (ws.map .term)) id := by
  obtain ⟨ids, hascending, hmem, hsearch⟩ := h.exists_search (.phrase hne)
  exact ⟨_, ids, Query.phraseOf_eq hne, hsearch, hascending, hmem⟩

/-- The terms of a store stand where they stand in the passages of its documents. -/
def Store.Shows (tokens : Tokenizer) (sources : List Source) (s : Store) : Prop :=
  ∀ t id n, (∃ o ∈ s.occurrencesOf t, o.id = id ∧ ∃ p ∈ o.positions, p.toNat = n) ↔
    ∃ src ∈ sources, src.id = id ∧ (t, n) ∈ Passage.placements tokens 1 src.passages

/-- Then a phrase of several words matches the documents that have them one after the other in a passage. -/
theorem Store.Shows.matches_phrase_iff {tokens : Tokenizer} {sources : List Source} {s : Store}
    (h : s.Shows tokens sources) (hids : (sources.map (·.id)).Nodup) {ws : List Bytes}
    (hws : 2 ≤ ws.length) {id : DocId} :
    s.Matches (.composite .phrase (ws.map .term)) id ↔
      ∃ src ∈ sources, src.id = id ∧ ∃ p ∈ src.passages, ws <:+: p.terms tokens := by
  rw [Store.matches_phrase_iff hws]
  simp only [h _ _ _, ← Passage.successive_placements_iff 1 hws]
  constructor
  · rintro ⟨start, hall⟩
    obtain ⟨src, hsrc, hid, _⟩ := hall 0 (by omega)
    refine ⟨src, hsrc, hid, start, fun i hi => ?_⟩
    obtain ⟨src', hsrc', hid', hplace⟩ := hall i hi
    have hsame : src' = src := List.inj_on_of_nodup_map hids hsrc' hsrc (hid'.trans hid.symm)
    exact hsame ▸ hplace
  · rintro ⟨src, hsrc, hid, start, hsuccessive⟩
    exact ⟨start, fun i hi => ⟨src, hsrc, hid, hsuccessive i hi⟩⟩

/-- Documents that are added in any transactions leave lists that can be searched, with the terms where they stand
in the passages. -/
theorem Session.shows_transactAll {resolver : Resolver} {tokens : Tokenizer} (htokens : ∀ text, [] ∉ tokens text)
    {sources : List Source} (hfits : ∀ src ∈ sources, src.Fits tokens) {cut : List (List Change)}
    (hcut : cut.flatten.map (·.op) = sources.map fun src => .add (src.document tokens))
    {answers : List (Except Error Unit)} {s : Session}
    (hrun : ({ resolver } : Session).transactAll cut = .ok (answers, s)) (hadded : ∀ a ∈ answers, a = .ok ()) :
    s.committed.Sorted ∧ s.committed.Shows tokens sources := by
  have hops : cut.flatten.map (·.op) = (sources.map (·.document tokens)).map .add := by
    rw [hcut, List.map_map]
    rfl
  have hkeyed : ∀ c ∈ cut.flatten, c.Keyed := by
    intro c hc doc hdoc
    have hop : c.op ∈ cut.flatten.map (·.op) := List.mem_map_of_mem hc
    rw [hcut] at hop
    obtain ⟨src, hsrc, heq⟩ := List.mem_map.mp hop
    rw [← heq] at hdoc
    cases hdoc
    exact Source.keyed_document htokens (hfits src hsrc)
  -- wherever the transactions end, it is as if one draft had taken all documents in
  obtain ⟨s', hrun', halike⟩ :=
    transactAll_alike (s := { resolver }) rfl (.refl _) sized_empty.ready readable_empty hkeyed
  obtain ⟨hanswers, rfl⟩ := Prod.mk.inj (Except.ok.inj (hrun.symm.trans hrun'))
  subst hanswers
  have htidy := (keep_runAll builtRule Tidy.step tidy_empty readable_empty fun c hc =>
    Change.allows_of_fit fun doc hdoc => (hkeyed c hc doc hdoc).built).1
  refine ⟨htidy.sorted halike, fun t id n => ?_⟩
  have hlists : s.committed.occurrencesOf t = ((({ store := ∅ } : Draft).runAll cut.flatten).2.listsOf t).2 :=
    congrArg (·.2) (halike.lists t)
  rw [hlists, stands_runAll hops hadded]
  simp only [List.mem_map, exists_exists_and_eq_and, Source.id_document]
  exact exists_congr fun src => and_congr_right fun hsrc => and_congr_right fun _ =>
    Source.at_document_iff (hfits src hsrc)

/-- Documents are added in any transactions. Then a phrase is found in ascending order in those that have its words one
after the other in one of their passages, and in no others. -/
theorem Session.search_phraseOf_transactAll (resolver : Resolver) (tokens : Tokenizer) (htokens : ∀ text,
    [] ∉ tokens text)
    (sources : List Source) (hids : (sources.map (·.id)).Nodup) (hfits : ∀ src ∈ sources, src.Fits tokens)
    (cut : List (List Change)) (hcut : cut.flatten.map (·.op) = sources.map fun src => .add (src.document tokens))
    (answers : List (Except Error Unit)) (s : Session)
    (hrun : ({ resolver } : Session).transactAll cut = .ok (answers, s)) (hadded : ∀ a ∈ answers, a = .ok ())
    (ws : List Bytes) (hws : 2 ≤ ws.length) :
    ∃ q ids, Query.phraseOf ws = .ok q ∧ s.committed.search q none = .ok ids ∧ ids.Pairwise (· < ·) ∧
      ∀ id, id ∈ ids ↔ ∃ src ∈ sources, src.id = id ∧ ∃ p ∈ src.passages, ws <:+: p.terms tokens := by
  obtain ⟨hsorted, hshows⟩ := shows_transactAll htokens hfits hcut hrun hadded
  have hne : ws ≠ [] := List.ne_nil_of_length_pos (by omega)
  have hnonempty : ws.map Query.term ≠ [] := by simpa using hne
  obtain ⟨c, hc, hfinds⟩ := finds_phrase hsorted hnonempty (by simp [Query.isTerm])
  obtain ⟨ids, hascending, hmem, hsearch⟩ := search_of_finds hc hfinds
  refine ⟨.composite .phrase (ws.map .term), ids, Query.phraseOf_eq hne, hsearch, hascending, fun id => ?_⟩
  rw [hmem, hshows.matches_phrase_iff hids hws]

/-- Every character is a term. Both documents have an `a` and a `b` one after the other, but one of them in two passages
of different fields. -/
theorem Session.search_phraseOf_transactAll_across_fields :
    let tokens : Tokenizer := fun text => text.toList.map fun c => [c.toNat.toUInt8]
    let first : Source := { id := 3, url := [0x2F, 0x61], passages := [⟨.content, [], "ca"⟩, ⟨.fileName, [], "bc"⟩] }
    let second : Source :=
      { id := 5, url := [0x2F, 0x62], passages := [⟨.attributes, [], "a"⟩, ⟨.fileName, [], "cab"⟩] }
    let cut : List (List Change) :=
      [[⟨.nowhere, .add (second.document tokens)⟩], [], [⟨.nowhere, .add (first.document tokens)⟩]]
    ∃ answers s, (∀ text, [] ∉ tokens text) ∧ ([second, first].map (·.id)).Nodup ∧
      (∀ src ∈ [second, first], src.Fits tokens) ∧
      cut.flatten.map (·.op) = [second, first].map (fun src => .add (src.document tokens)) ∧
      ({ resolver := .nowhere } : Session).transactAll cut = .ok (answers, s) ∧ (∀ a ∈ answers, a = .ok ()) ∧
      ∃ q ids, Query.phraseOf [[97], [98]] = .ok q ∧ s.committed.search q none = .ok ids ∧ ids.Pairwise (· < ·) ∧
        ∀ id, id ∈ ids ↔ ∃ src ∈ [second, first], src.id = id ∧ ∃ p ∈ src.passages,
          [[97], [98]] <:+: p.terms tokens := by
  intro tokens first second cut
  have htokens : ∀ text, [] ∉ tokens text := by simp [tokens]
  have hfits : ∀ src ∈ [second, first], src.Fits tokens := by
    simp only [List.mem_cons, List.not_mem_nil, or_false]
    rintro src (rfl | rfl)
    · exact ⟨by decide, by decide⟩
    · exact ⟨by decide, by decide⟩
  have hkeyed : ∀ c ∈ cut.flatten, c.Keyed := by
    simp only [cut, List.flatten_cons, List.flatten_nil, List.append_nil, List.nil_append, List.singleton_append,
      List.mem_cons, List.not_mem_nil, or_false]
    rintro c (rfl | rfl) doc hdoc <;> cases hdoc
    · exact Source.keyed_document htokens (hfits second (.head _))
    · exact Source.keyed_document htokens (hfits first (.tail _ (.head _)))
  obtain ⟨s, hrun, _⟩ :=
    transactAll_alike (s := { resolver := .nowhere }) rfl (.refl _) sized_empty.ready readable_empty hkeyed
  have hadded : ∀ a ∈ (({ store := ∅ } : Draft).runAll cut.flatten).1, a = .ok () := by
    let after : Store := (leftBy (run .nowhere (.add (second.document tokens)) { store := ∅ })).store
    have hreadable : after.Readable := (run_steps readable_empty
      (Change.allows_of_fit (c := ⟨.nowhere, .add (second.document tokens)⟩) (fun _ _ => trivial) _)).2
    have hnew : after.hasDocument 3 = false := by decide
    have hplace : after.locate .nowhere 3 [0x2F, 0x61] = .ok (some ⟨3, [0x61], 0, []⟩) := rfl
    refine List.forall_mem_cons.mpr ⟨answerOf_add readable_empty rfl rfl, List.forall_mem_cons.mpr ⟨?_, nofun⟩⟩
    exact answerOf_add hreadable hnew hplace
  refine ⟨_, s, htokens, by decide, hfits, rfl, hrun, hadded, ?_⟩
  exact search_phraseOf_transactAll .nowhere tokens htokens [second, first] (by decide) hfits cut rfl _ s hrun hadded
    [[97], [98]] (by decide)

end FileIndex
