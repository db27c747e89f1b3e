import FileIndex.Proofs.Transactions
import Mathlib.Data.List.Induction

/-!
# Commits that fail

Terms are not looked at before they are committed. Whether one can be a key of a table is found out only when its queued
changes are merged, after others were stored. It is told by the queue: an empty term is always refused, and one that
is too long if the changes leave a document with it. No such term was ever stored, so that nothing but the queue counts.
When a commit fails, nothing of the transaction is stored.

* `Draft.LastAdded`, `mem_foldl_applyChange`: the last change of a document decides whether it has the term.
* `Draft.Refused`: the queued changes of a term that make a commit fail.
* `Store.Held`: every term that is stored can be a key.
* `mergeTerm_of_refused`, `mergeTerm_of_not_refused`, `mergeAll_cases`, `commit_cases`: merging one term, all of
  them, and a commit.
* `Session.held_afterAt`: the terms that are stored in any run.
* `Session.commit_fails_iff`: when a commit fails, how, and what is found afterwards.
-/

namespace FileIndex

/-- The document that has the change. -/
def PostingChange.id : PostingChange → DocId
  | add o => o.id
  | remove id => id

@[simp] theorem PostingChange.id_add (o : Occurrence) : (add o).id = o.id := rfl

@[simp] theorem PostingChange.id_remove (id : DocId) : (remove id).id = id := rfl

/-- Every key of the table is one that it can hold. -/
def Table.Held (t : Table) : Prop := ∀ key value, t.find? key = some value → Table.holdsKey key = true

/-- Every term that is stored can be a key. -/
structure Store.Held (s : Store) : Prop where
  postings : s.postings.Held
  occurrences : s.occurrences.Held

theorem Store.Stored.held {α : Type} {encode : List α → Bytes} {term : Bytes} {l : List α} {t t' : Table}
    (h : Stored encode term l t t') (ht : t.Held) : t'.Held := by
  intro key value hvalue
  rw [h.find?_eq, stored?] at hvalue
  split at hvalue
  · rename_i hkey
    split at hvalue
    · cases hvalue
    · rename_i hne
      exact hkey ▸ h.holds (by simpa using hne)
  · exact ht key value hvalue

namespace Draft

open Store

variable {s s' : Store} {term : Bytes} {changes : List PostingChange}
    {lists : List DocId × List Occurrence} {id : DocId}

/-! ### The last change of a document -/

/-- Of the changes of a document the last one adds it. -/
def LastAdded (changes : List PostingChange) (id : DocId) : Prop :=
  ∃ o, (changes.filter (·.id = id)).getLast? = some (.add o)

theorem lastAdded_concat (changes : List PostingChange) (change : PostingChange) (id : DocId) :
    LastAdded (changes ++ [change]) id ↔ if change.id = id then ∃ o, change = .add o else LastAdded changes id := by
  unfold LastAdded
  rw [List.filter_append]
  by_cases hid : change.id = id
  · rw [if_pos hid, List.filter_cons_of_pos (by simpa using hid)]
    simp
  · rw [if_neg hid, List.filter_cons_of_neg (by simpa using hid)]
    simp

/-- A document has the term after the changes if the last one of its own adds it, or if it had it and there is none. -/
theorem mem_foldl_applyChange (hascend : lists.1.Pairwise (· < ·)) : id ∈ (changes.foldl applyChange lists).1 ↔
    LastAdded changes id ∨ (id ∈ lists.1 ∧ ∀ change ∈ changes, change.id ≠ id) := by
  induction changes using List.reverseRecOn with
  | nil => simp [LastAdded]
  | append_singleton changes change ih =>
    rw [List.foldl_concat, lastAdded_concat, List.forall_mem_append, List.forall_mem_singleton]
    cases change with
    | add o =>
      rw [tracked_ids.add, ih]
      by_cases hid : o.id = id
      · simp [hid]
      · simp [hid, Ne.symm hid]
    | remove other =>
      rw [tracked_ids.remove (nodup_of_ascending (lasting_ascending.foldl hascend changes)), ih]
      by_cases hid : other = id
      · simp [hid]
      · simp [hid, Ne.symm hid]

/-- Changes of empty lists leave the documents in them that were added last. -/
theorem mem_foldl_applyChange_nil : id ∈ (changes.foldl applyChange ([], [])).1 ↔ LastAdded changes id := by
  rw [mem_foldl_applyChange .nil]
  simp

/-- If no document was added last, both lists are empty in the end. -/
theorem foldl_applyChange_eq_nil (h : ∀ id, ¬ LastAdded changes id) :
    changes.foldl applyChange ([], []) = ([], []) := by
  have hwithin : ∀ o ∈ (changes.foldl applyChange ([], [])).2, o.id ∈ (changes.foldl applyChange ([], [])).1 :=
    lasting_within.foldl (fun _ ho => absurd ho List.not_mem_nil) changes
  refine Prod.ext ?_ ?_
  · exact List.eq_nil_iff_forall_not_mem.mpr fun id hid => h id (mem_foldl_applyChange_nil.mp hid)
  · exact List.eq_nil_iff_forall_not_mem.mpr fun o ho => h o.id (mem_foldl_applyChange_nil.mp (hwithin o ho))

/-! ### Merging one term -/

/-- Merging these changes of a term fails: the term is empty, or too long to be a key while there is a document
left that has it. -/
def Refused (term : Bytes) (changes : List PostingChange) : Prop :=
  term = [] ∨ (Table.maxKeyLength < term.length ∧ ∃ id, LastAdded changes id)

/-- What is told by the queue of a draft that is refused. -/
theorem exists_refused_iff {d : Draft} : (∃ term queued, d.pending.find? term = some queued ∧ Refused term queued) ↔
    [] ∈ d.pending.keys ∨ ∃ term queued id, d.pending.find? term = some queued ∧
      Table.maxKeyLength < term.length ∧ LastAdded queued id := by
  constructor
  · rintro ⟨term, queued, hfind, rfl | ⟨hlong, id, hid⟩⟩
    · exact .inl (mem_keys_iff.mpr ⟨queued, hfind⟩)
    · exact .inr ⟨term, queued, id, hfind, hlong, hid⟩
  · rintro (hempty | ⟨term, queued, id, hfind, hlong, hid⟩)
    · obtain ⟨queued, hfind⟩ := mem_keys_iff.mp hempty
      exact ⟨[], queued, hfind, .inl rfl⟩
    · exact ⟨term, queued, hfind, .inr ⟨hlong, id, hid⟩⟩

/-- How it fails. -/
def refusal (term : Bytes) : Error := if term = [] then .emptyPostingTerm else .storage .keySize

theorem holdsKey_eq_false (h : Table.maxKeyLength < term.length) : Table.holdsKey term = false := by
  simp [Table.holdsKey, Nat.not_le.mpr h]

/-- Under a term that is too long nothing is stored, so that its lists are made by the changes alone. -/
theorem merged_of_tooLong (hs : s.Held) (h : Table.maxKeyLength < term.length) (changes : List PostingChange) :
    merged s term changes = changes.foldl applyChange ([], []) := by
  have hids : s.idsWith term = [] := by
    rcases idsWith_cases s term with hnil | ⟨value, hvalue, _⟩
    · exact hnil
    · cases (hs.postings term value hvalue).symm.trans (holdsKey_eq_false h)
  have hos : s.occurrencesOf term = [] := by
    rcases occurrencesOf_cases s term with hnil | ⟨value, hvalue, _⟩
    · exact hnil
    · cases (hs.occurrences term value hvalue).symm.trans (holdsKey_eq_false h)
  unfold merged
  rw [hids, hos]

theorem mergeTerm_of_refused (hs : s.Held) (h : Refused term changes) :
    mergeTerm s term changes = .error (refusal term) := by
  rw [mergeTerm_eq]
  rcases h with rfl | ⟨hlong, id, hid⟩
  · rfl
  · have hterm : term ≠ [] := by
      rintro rfl
      exact Nat.not_lt_zero _ hlong
    have hids : (merged s term changes).1 ≠ [] := by
      rw [merged_of_tooLong hs hlong]
      exact List.ne_nil_of_mem (mem_foldl_applyChange_nil.mpr hid)
    have hput : s.putIds term (merged s term changes).1 = .error (.storage .keySize) := by
      unfold putIds
      rw [if_neg (by simpa using hterm), if_neg (by simpa using hids), Table.put, holdsKey_eq_false hlong]
      rfl
    rw [hput, refusal, if_neg hterm]
    rfl

theorem mergeTerm_of_not_refused (hs : s.Held) (h : ¬ Refused term changes) :
    ∃ s', mergeTerm s term changes = .ok s' ∧ s'.Held := by
  obtain ⟨hterm, hlast⟩ := not_or.mp h
  have hok : ∃ s', mergeTerm s term changes = .ok s' := by
    by_cases hlong : Table.maxKeyLength < term.length
    · have hnone : ∀ id, ¬ LastAdded changes id := fun id hid => hlast ⟨hlong, id, hid⟩
      -- two empty lists, and to remove what is not there is no failure
      rw [mergeTerm_eq, merged_of_tooLong hs hlong, foldl_applyChange_eq_nil hnone]
      have hempty : ¬ term.isEmpty = true := by simpa using hterm
      refine ⟨{ s with postings := s.postings.erase term, occurrences := s.occurrences.erase term }, ?_⟩
      rw [putIds, if_neg hempty]
      exact if_neg hempty
    · refine mergeTerm_of_holdsKey ?_ s changes
      simpa [Table.holdsKey] using ⟨hterm, Nat.not_lt.mp hlong⟩
  obtain ⟨s', hmerge⟩ := hok
  obtain ⟨_, hids, hos⟩ := mergeTerm_ok hmerge
  exact ⟨s', hmerge, hids.held hs.postings, hos.held hs.occurrences⟩

/-! ### Merging all terms -/

/-- Term by term is merged up to the first that is refused. -/
theorem mergeAll_cases (hs : s.Held) (es : List (Bytes × List PostingChange)) :
    (∃ s', mergeAll es s = .ok s' ∧ s'.Held ∧ ∀ e ∈ es, ¬ Refused e.1 e.2) ∨
      ∃ before e after, es = before ++ e :: after ∧ (∀ x ∈ before, ¬ Refused x.1 x.2) ∧ Refused e.1 e.2 ∧
        mergeAll es s = .error (refusal e.1) := by
  induction es generalizing s with
  | nil => exact .inl ⟨s, rfl, hs, nofun⟩
  | cons e es ih =>
    by_cases hrefused : Refused e.1 e.2
    · refine .inr ⟨[], e, es, rfl, nofun, hrefused, ?_⟩
      rw [mergeAll_cons, mergeTerm_of_refused hs hrefused]
      rfl
    · obtain ⟨s₁, hmerge, hs₁⟩ := mergeTerm_of_not_refused hs hrefused
      have hrest : mergeAll (e :: es) s = mergeAll es s₁ := by
        rw [mergeAll_cons, hmerge]
        rfl
      rw [hrest]
      rcases ih hs₁ with ⟨s', hok, hs', hnone⟩ | ⟨before, x, after, rfl, hbefore, hx, herror⟩
      · exact .inl ⟨s', hok, hs', List.forall_mem_cons.mpr ⟨hrefused, hnone⟩⟩
      · exact .inr ⟨e :: before, x, after, rfl, List.forall_mem_cons.mpr ⟨hrefused, hbefore⟩, hx, herror⟩

/-- A commit succeeds if no term is refused. Of those that are, an empty term is the first. -/
theorem commit_cases {d : Draft} (hs : d.store.Held) :
    (∃ s, d.commit = .ok s ∧ s.Held ∧ ∀ term changes, d.pending.find? term = some changes → ¬ Refused term changes) ∨
      ((∃ term changes, d.pending.find? term = some changes ∧ Refused term changes) ∧
        d.commit = .error (if [] ∈ d.pending.keys then .emptyPostingTerm else .storage .keySize)) := by
  have hcommit : d.commit = mergeAll d.pending.entries d.store := rfl
  rw [hcommit]
  rcases mergeAll_cases hs d.pending.entries with ⟨s, hok, hheld, hnone⟩
    | ⟨before, e, after, hsplit, hbefore, he, herror⟩
  · exact .inl ⟨s, hok, hheld, fun term changes hfind => hnone (term, changes) (ByteMap.find?_eq_some_iff.mp hfind)⟩
  · have hmem : e ∈ d.pending.entries := by
      rw [hsplit]
      simp
    refine .inr ⟨⟨e.1, e.2, ByteMap.find?_eq_some_iff.mpr hmem, he⟩, ?_⟩
    have hfirst : [] ∈ d.pending.keys ↔ e.1 = [] := by
      constructor
      · intro hempty
        obtain ⟨x, hx, hxe⟩ := List.mem_map.mp hempty
        rw [hsplit, List.mem_append, List.mem_cons] at hx
        rcases hx with hx | rfl | hx
        · exact absurd (.inl hxe) (hbefore x hx)
        · exact hxe
        · have hascending := d.pending.ascending
          rw [hsplit, List.pairwise_append, List.pairwise_cons] at hascending
          exact absurd (hxe ▸ hascending.2.1.1 x hx) (List.not_lt_nil _)
      · intro heq
        exact heq ▸ List.mem_map_of_mem hmem
    rw [herror, refusal]
    simp only [hfirst]

theorem held_of_step {resolver : Resolver} {rule : Rule} {d d' : Draft} (hstep : Step resolver rule d d')
    (h : d.store.Held) : d'.store.Held :=
  ⟨hstep.lists_eq.1 ▸ h.postings, hstep.lists_eq.2 ▸ h.occurrences⟩

theorem held_of_commit {d : Draft} (h : d.store.Held) {s : Store} (hcommit : d.commit = .ok s) : s.Held := by
  rcases commit_cases h with ⟨s', hok, hs', _⟩ | ⟨_, herror⟩
  · cases hok.symm.trans hcommit
    exact hs'
  · cases herror.symm.trans hcommit

end Draft

/-! ### Transactions -/

namespace Session

open Draft

/-- Whatever was written and committed, only terms that can be keys are stored. -/
theorem held_afterAt (resolver : Resolver) (moments : List Moment) :
    (({ resolver } : Session).afterAt moments).committed.Held ∧
      (({ resolver } : Session).afterAt moments).committed.Readable := by
  have hobeys : ({ resolver } : Session).ObeysAt ({} : Rule).Allows moments :=
    .of_changes fun m _ op _ d => Change.allows_of_fit (c := ⟨m.resolver, op⟩) (fun _ _ => trivial) d
  exact (keep_afterAt (P := fun d => d.store.Held) held_of_step held_of_commit ⟨nofun, nofun⟩ hobeys).1

/-- After any run, whatever changes a transaction makes and however these end: its commit fails exactly if an empty
term is queued, or one that is too long to be a key and was added last to some document. In the first case an argument
is invalid, else the tables fail. Those who begin to write or to read then find every table as the transaction
found it. -/
theorem commit_fails_iff (resolver : Resolver) (moments : List Moment) (begun : Session)
    (hbegin : (({ resolver } : Session).afterAt moments).beginWrite = .ok begun) (changes : List Change) :
    let t := (begun.writeAll changes).2
    ∃ d, t.draft = some d ∧
      ((∃ e, t.commit.1 = .error e) ↔ [] ∈ d.pending.keys ∨ ∃ term queued id, d.pending.find? term = some queued ∧
        Table.maxKeyLength < term.length ∧ LastAdded queued id) ∧
      ∀ e, t.commit.1 = .error e →
        e.kind = (if [] ∈ d.pending.keys then .invalidArgument else .storage) ∧
        (∃ again, t.commit.2.beginWrite = .ok again ∧
          ∀ name, again.current.store.table name = begun.current.store.table name) ∧
        ∀ name, t.commit.2.beginRead.current.store.table name = begun.current.store.table name := by
  intro t
  obtain ⟨hheld, hreadable⟩ := held_afterAt resolver moments
  generalize ({ resolver } : Session).afterAt moments = s at hbegin hheld hreadable
  have hwritable : s.readOnly = false := by
    cases hwritable : s.readOnly with
    | false => rfl
    | true => cases (if_pos hwritable : s.beginWrite = _).symm.trans hbegin
  cases (beginWrite_eq hwritable).symm.trans hbegin
  obtain ⟨_, resolver', hleft⟩ := writeAll_eq (s := { s with draft := some { store := s.committed } }) rfl changes
  let d : Draft := (({ store := s.committed } : Draft).runAll changes).2
  have hd : d.store.Held := by
    obtain ⟨hpostings, hoccurrences⟩ := lists_runAll (d := { store := s.committed }) hreadable changes
    exact ⟨hpostings ▸ hheld.postings, hoccurrences ▸ hheld.occurrences⟩
  have ht : t = { s with resolver := resolver', draft := some d } := hleft
  refine ⟨d, by rw [ht], ?_⟩
  rw [← exists_refused_iff]
  rcases commit_cases hd with ⟨store, hok, _, hnone⟩ | ⟨hsome, herror⟩
  · have hcommit : t.commit.1 = .ok () := by
      rw [ht]
      simp only [Session.commit, hok]
    rw [hcommit]
    refine ⟨⟨?_, ?_⟩, ?_⟩
    · rintro ⟨e, he⟩
      cases he
    · rintro ⟨term, queued, hfind, hrefused⟩
      exact absurd hrefused (hnone term queued hfind)
    · intro e he
      cases he
  · let cause : Error := if [] ∈ d.pending.keys then .emptyPostingTerm else .storage .keySize
    have hcommit : t.commit = (.error cause, { s with resolver := resolver', draft := none }) := by
      rw [ht]
      simp only [Session.commit, herror, cause]
    rw [hcommit]
    refine ⟨⟨fun _ => hsome, fun _ => ⟨cause, rfl⟩⟩, fun e he => ?_⟩
    cases he
    refine ⟨?_, ⟨_, beginWrite_eq hwritable, fun name => rfl⟩, fun name => rfl⟩
    exact apply_ite Error.kind ..

/-- A document with a term of 512 bytes is added, in an index that has another. Nothing is wrong with that, but
the commit fails. -/
theorem commit_fails_iff_of_long_term :
    let first : Document := ({ id := 7, url := [0x2F, 0x61] } : Document).addTerm .content [0x78]
    let second : Document := ({ id := 8, url := [0x2F, 0x62] } : Document).addTerm .content (List.replicate 512 0x78)
    let moments : List Moment :=
      [⟨.nowhere, .beginWrite⟩, ⟨.nowhere, .write (.add first)⟩, ⟨.nowhere, .commit⟩]
    let s := ({ resolver := .nowhere } : Session).afterAt moments
    let changes : List Change := [⟨.nowhere, .add second⟩]
    ∃ begun d, s.beginWrite = .ok begun ∧ (begun.writeAll changes).1 = [.ok ()] ∧
      (begun.writeAll changes).2.draft = some d ∧ d.pending.keys = [List.replicate 512 0x78] ∧
      ∃ e, (begun.writeAll changes).2.commit.1 = .error e ∧ e.kind = .storage ∧
        ∀ name, (begun.writeAll changes).2.commit.2.beginRead.current.store.table name = s.committed.table name := by
  intro first second moments s changes
  have hbegin : s.beginWrite = .ok { s with draft := some { store := s.committed } } := beginWrite_eq rfl
  obtain ⟨d, hd, hfails, hafter⟩ := commit_fails_iff .nowhere moments _ hbegin changes
  have hanswers : (({ s with draft := some { store := s.committed } } : Session).writeAll changes).1 = [.ok ()] := by
    decide +kernel
  have hqueue : d.pending.find? (List.replicate 512 0x78) = some [.add ⟨8, []⟩] :=
    eq_of_draft hd (fun d => d.pending.find? (List.replicate 512 0x78)) _ (by decide +kernel)
  have hkeys : d.pending.keys = [List.replicate 512 0x78] :=
    eq_of_draft hd (fun d => d.pending.keys) _ (by decide +kernel)
  obtain ⟨e, he⟩ := hfails.mpr (.inr ⟨_, _, 8, hqueue, by decide +kernel, _, rfl⟩)
  obtain ⟨hkind, _, hread⟩ := hafter e he
  refine ⟨_, d, hbegin, hanswers, hd, hkeys, e, he, ?_, hread⟩
  rw [hkind, hkeys, if_neg (by decide +kernel)]

end Session
end FileIndex
