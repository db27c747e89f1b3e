import FileIndex.Proofs.Agreement
import Mathlib.Logic.Relation

/-!
# Changes step by step

Every change of a draft is made of a few kinds of steps. Some of them touch records only, some the tree of paths only,
and two the terms of one document. What each kind keeps is kept by every change.

* `Rule`, `Rule.Allows`: what is asked of the documents of a run and of the places where their paths hang.
* `Draft.Step`, `Draft.Steps`: the kinds of steps, and what is made of them. `run_steps`: every allowed change is,
  whether it succeeds or fails. `Session.keep_afterAt`: what steps and commits keep holds throughout a run.
* `Draft.Listed`: lists with a given property that lasts, and sets of terms that the lists cover. `Listed.step`,
  `Listed.commit`: steps and commits keep this.
-/

namespace FileIndex

namespace Store

/-! ### Looking for a place -/

section Congr

variable {s s' : Store} (h : s'.pathEntries = s.pathEntries)

include h

theorem hasPath_congr (id : DocId) : s'.hasPath id = s.hasPath id := by
  unfold hasPath
  rw [h]

theorem pathEntryOf?_congr (id : DocId) : s'.pathEntryOf? id = s.pathEntryOf? id := by
  unfold pathEntryOf?
  rw [h]

theorem missingFolders_congr (resolver : Resolver) (room : Nat) (names : List Bytes) :
    s'.missingFolders resolver room names = s.missingFolders resolver room names := by
  induction names generalizing room with
  | nil => cases room <;> rfl
  | cons name above ih => cases room <;> simp only [missingFolders, hasPath_congr h, ih]

theorem locate_congr (resolver : Resolver) (id : DocId) (url : Bytes) :
    s'.locate resolver id url = s.locate resolver id url := by
  unfold locate
  simp only [missingFolders_congr h]

theorem planPath_congr (resolver : Resolver) (id : DocId) (url : Bytes) :
    Draft.planPath s' resolver id url = Draft.planPath s resolver id url := by
  unfold Draft.planPath
  rw [locate_congr h, pathEntryOf?_congr h]

end Congr

end Store

open Store

/-! ### Rules -/

/-- What is asked of the changes of a run: of the documents in them, and of the place where the path of a document hangs
when it is added to a store, or overwritten. -/
structure Rule where
  fit : Document → Prop := fun _ => True
  added : Store → Document → Placement → Prop := fun _ _ _ => True
  moved : Document → Placement → Prop := fun _ _ => True

/-- The change is as the rule asks, if folders have these ids. -/
def Rule.Allows (rule : Rule) (resolver : Resolver) (d : Draft) : WriteOp → Prop
  | .add doc =>
    rule.fit doc ∧ ∀ p, d.store.locate resolver doc.id doc.url = .ok (some p) → rule.added d.store doc p
  | .replace doc parts =>
    rule.fit doc ∧ (parts.url = true → ∀ p, d.store.locate resolver doc.id doc.url = .ok (some p) → rule.moved doc p)
  | .rename doc =>
    rule.fit doc ∧ ∀ p, d.store.locate resolver doc.id doc.url = .ok (some p) → rule.moved doc p
  | _ => True

namespace Draft

variable {resolver : Resolver} {rule : Rule} {d d' : Draft}

/-- The kinds of steps that changes are made of. -/
inductive Step (resolver : Resolver) (rule : Rule) : Draft → Draft → Prop
  /-- Records of documents are written. -/
  | records {d : Draft} {s : Store} : SameButRecords d.store s → Step resolver rule d { d with store := s }
  /-- The path of a document that is added is hung. -/
  | attach {d : Draft} {doc : Document} {p : Placement} {s : Store} :
    d.store.locate resolver doc.id doc.url = .ok (some p) → rule.added d.store doc p →
    Store.attach p d.store = .ok () s → SameButTree d.store s → Step resolver rule d { d with store := s }
  /-- The path of a document that is overwritten is changed. -/
  | change {d : Draft} {doc : Document} {change : PathChange} {s : Store} :
    planPath d.store resolver doc.id doc.url = .ok change →
    (∀ p, d.store.locate resolver doc.id doc.url = .ok (some p) → rule.moved doc p) →
    changePath doc.id change d.store = .ok () s → SameButTree d.store s → Step resolver rule d { d with store := s }
  /-- A path is taken away. -/
  | unlink {d : Draft} {prune : DocId → Bool} {id : DocId} {b : Bool} {s : Store} :
    Store.unlink prune id d.store = .ok b s → SameButTree d.store s → Step resolver rule d { d with store := s }
  /-- Fields of a document are filled, and terms that only these fields had are retracted. -/
  | fill {d : Draft} {doc : Document} {selected : Field → Bool} {dropped : List Bytes} : doc.id ≠ 0 → rule.fit doc →
    (∀ t ∈ dropped, d.store.HasTerm doc.id t ∧ ∀ field, selected field = false → t ∉ d.store.termsOf field doc.id) →
    Step resolver rule d (withFields doc selected Field.all (d.enqueueRemovals doc.id dropped))
  /-- A document loses all of its terms. -/
  | clear {d : Draft} (id : DocId) : Step resolver rule d (withoutFields id Field.all d)

/-- One draft is made of another by steps. -/
abbrev Steps (resolver : Resolver) (rule : Rule) : Draft → Draft → Prop := Relation.ReflTransGen (Step resolver rule)

/-- Steps lead to the draft, and the tree and the times in it can be read. -/
def Reaches (resolver : Resolver) (rule : Rule) (d d' : Draft) : Prop :=
  Steps resolver rule d d' ∧ d'.store.Readable

theorem Reaches.refl (hd : d.store.Readable) : Reaches resolver rule d d := ⟨.refl, hd⟩

/-- Where nothing but the tree and the records differ, the terms and their lists are the same. -/
theorem Step.cases_index (h : Step resolver rule d d') :
    (d'.pending = d.pending ∧ SameIndex d.store d'.store) ∨
      (∃ doc selected dropped, doc.id ≠ 0 ∧ rule.fit doc ∧
        (∀ t ∈ dropped, d.store.HasTerm doc.id t ∧
          ∀ field, selected field = false → t ∉ d.store.termsOf field doc.id) ∧
        d' = withFields doc selected Field.all (d.enqueueRemovals doc.id dropped)) ∨
      ∃ id, d' = withoutFields id Field.all d := by
  cases h with
  | records hsame => exact .inl ⟨rfl, hsame.sameIndex⟩
  | attach _ _ _ hsame | change _ _ _ hsame | unlink _ hsame => exact .inl ⟨rfl, hsame.sameIndex⟩
  | @fill doc selected dropped hid hfit hdropped => exact .inr (.inl ⟨doc, selected, dropped, hid, hfit, hdropped, rfl⟩)
  | clear id => exact .inr (.inr ⟨id, rfl⟩)

/-- No step changes the lists of terms that are stored; that is left to a commit. -/
theorem Step.lists_eq (h : Step resolver rule d d') :
    d'.store.postings = d.store.postings ∧ d'.store.occurrences = d.store.occurrences := by
  rcases h.cases_index with ⟨_, hsame⟩ | ⟨doc, selected, dropped, _, _, _, rfl⟩ | ⟨id, rfl⟩
  · exact ⟨hsame.postings, hsame.occurrences⟩
  · rw [sameButTerms_withFields doc selected Field.all (d.enqueueRemovals doc.id dropped), enqueueRemovals_store]
    exact ⟨rfl, rfl⟩
  · rw [sameButTerms_withoutFields id Field.all d]
    exact ⟨rfl, rfl⟩

/-! ### Changes are made of steps -/

theorem add_steps (hd : d.store.Readable) {doc : Document} (hop : rule.Allows resolver d (.add doc)) :
    Reaches resolver rule d (leftBy (add resolver doc d)) := by
  obtain ⟨hfit, hadded⟩ := hop
  rcases add_cases resolver doc hd.tree with ⟨_, e, hadd⟩ | ⟨hid, _, p, s, hplace, hattach, hs, hsame, hadd⟩
  · rw [hadd]
    exact .refl hd
  rw [hadd, leftBy_ok]
  let hung : Draft := { d with store := s }
  let timed : Draft := { hung with store := s.withTime doc.id doc.time }
  let filled : Draft :=
    withFields doc (fun field => !(doc.terms field).isEmpty) Field.all (timed.enqueueRemovals doc.id [])
  have hhung : Step resolver rule d hung := .attach hplace (hadded p hplace) hattach hsame
  have htimed : Step resolver rule hung timed := .records (sameButRecords_withTime s doc.id doc.time)
  have hfilled : Step resolver rule timed filled := .fill hid hfit nofun
  have hentered : Step resolver rule filled (entered doc hung) := .records (sameButRecords_entered doc hung)
  refine ⟨(((Relation.ReflTransGen.single hhung).tail htimed).tail hfilled).tail hentered, ?_, fun id => ?_⟩
  · have hframe := sameButTerms_withFields doc (fun field => !(doc.terms field).isEmpty) Field.all timed
    exact (sameButRecords_entered doc hung).treeReadable
      (hframe.treeReadable ((sameButRecords_withTime s doc.id doc.time).treeReadable hs))
  · have htimes := times_entered doc hung
    rw [show hung.store.times = d.store.times by simp only [hung]; rw [hsame]] at htimes
    rw [timeOf?_of_insert htimes]
    split
    · exact ⟨_, rfl⟩
    · exact hd.times id

theorem remove_steps (hd : d.store.Readable) (id : DocId) : Reaches resolver rule d (leftBy (remove id d)) := by
  by_cases hid : id = 0
  · rw [hid, remove_zero]
    exact .refl hd
  obtain ⟨b, s, time?, _, hunlink, hs, hsame, hremove⟩ := remove_eq hid hd
  rw [hremove, leftBy_ok]
  let cleared : Draft := withoutFields id Field.all d
  let unlinked : Draft := { cleared with store := s }
  have hcleared : Step resolver rule d cleared := .clear id
  have hunlinked : Step resolver rule cleared unlinked := .unlink hunlink hsame
  have hrecords := sameButRecords_withoutRecords s id time?
  have hlast : Step resolver rule unlinked { unlinked with store := s.withoutRecords id time? } := .records hrecords
  refine ⟨((Relation.ReflTransGen.single hcleared).tail hunlinked).tail hlast, hrecords.treeReadable hs,
    fun other => ?_⟩
  have hterms := sameButTerms_withoutFields id Field.all d
  have htimes : (s.withoutRecords id time?).times = d.store.times.erase (DocId.toKey id) := by
    have hold : s.times = d.store.times := by rw [hsame, hterms]
    rw [times_withoutRecords, hold]
  show ∃ time, (s.withoutRecords id time?).timeOf? other = .ok time
  rw [timeOf?_of_erase htimes]
  split
  · exact ⟨_, rfl⟩
  · exact hd.times other

theorem replace_steps (hd : d.store.Readable) {doc : Document} {parts : Parts}
    (hop : rule.Allows resolver d (.replace doc parts)) :
    Reaches resolver rule d (leftBy (replace resolver doc parts d)) := by
  obtain ⟨hfit, hmoved⟩ := hop
  rcases replace_cases resolver doc parts hd with
    ⟨e, hreplace⟩ | ⟨hid, s, time?, _, hs, hsame, hurl, hsamePath, hreplace⟩
  · rw [hreplace]
    exact .refl hd
  rw [hreplace, leftBy_ok]
  let filled : Draft := refilled doc parts d
  let placed : Draft := { filled with store := s }
  have hfilled : Step resolver rule d filled := .fill hid hfit fun t ht => mem_droppedTerms.mp ht
  have hframe := sameButTerms_refilled doc parts d
  have hentries : filled.store.pathEntries = d.store.pathEntries := by
    show (refilled doc parts d).store.pathEntries = _
    rw [hframe]
  have hplaced : Steps resolver rule filled placed := by
    cases hparts : parts.url with
    | false =>
      have heq : placed = filled := by
        simp only [placed]
        rw [hsamePath hparts]
      rw [heq]
    | true =>
      obtain ⟨change, hplan, hchange⟩ := hurl hparts
      refine .single (.change ((planPath_congr hentries ..).trans hplan) (fun p hplace => ?_) hchange hsame)
      exact hmoved hparts p ((locate_congr hentries ..).symm.trans hplace)
  have hrecords := sameButRecords_rewritten s doc parts time?
  have hlast : Step resolver rule placed { placed with store := s.rewritten doc parts time? } := .records hrecords
  refine ⟨((Relation.ReflTransGen.single hfilled).trans hplaced).tail hlast, hrecords.treeReadable hs, fun id => ?_⟩
  have htimes : (s.rewritten doc parts time?).times =
      if parts.time then d.store.times.insert (DocId.toKey doc.id) doc.time.encode else d.store.times := by
    have hold : s.times = d.store.times := by rw [hsame, hframe]
    rw [times_rewritten, hold]
  show ∃ time, (s.rewritten doc parts time?).timeOf? id = .ok time
  cases htime : parts.time with
  | true =>
    rw [htime, if_pos rfl] at htimes
    rw [timeOf?_of_insert htimes]
    split
    · exact ⟨_, rfl⟩
    · exact hd.times id
  | false =>
    rw [htime, if_neg Bool.false_ne_true] at htimes
    rw [timeOf?_congr htimes]
    exact hd.times id

/-- What is known only of pending or failed documents is written in one step. -/
theorem mark_steps (hd : d.store.Readable) {op : WriteOp} (hop : Marks op) :
    Reaches resolver rule d (leftBy (run resolver op d)) := by
  rcases mark_cases hop resolver d with ⟨e, hrun⟩ | ⟨s, hsame, hrun⟩
  · rw [hrun]
    exact .refl hd
  · rw [hrun]
    refine ⟨.single (.records hsame.sameButRecords), hsame.sameButRecords.treeReadable hd.tree, fun id => ?_⟩
    have htimes : s.times = d.store.times := by rw [hsame]
    show ∃ time, s.timeOf? id = .ok time
    rw [timeOf?_congr htimes]
    exact hd.times id

/-- Every allowed change is made of steps, whether it succeeds or fails. -/
theorem run_steps (hd : d.store.Readable) {op : WriteOp} (hop : rule.Allows resolver d op) :
    Reaches resolver rule d (leftBy (run resolver op d)) := by
  cases op with
  | add doc => exact add_steps hd hop
  | remove id => exact remove_steps hd id
  | removeSubtree id =>
    have hkeeps : ∀ id, Keeps (Reaches resolver rule d) (remove id) := by
      rintro id d' ⟨hsteps, hd'⟩
      obtain ⟨hmore, hleft⟩ : Reaches resolver rule d' (leftBy (remove id d')) := remove_steps hd' id
      exact ⟨hsteps.trans hmore, hleft⟩
    exact keeps_removeSubtree hkeeps id d (.refl hd)
  | replace doc parts => exact replace_steps hd hop
  | rename doc => exact replace_steps hd ⟨hop.1, fun _ => hop.2⟩
  | addPending | removePending | addFailed | removeFailed => exact mark_steps hd trivial

/-- What every step keeps is kept by steps. -/
theorem Steps.keep {P : Draft → Prop} (h : ∀ {d d'}, Step resolver rule d d' → P d → P d')
    (hsteps : Steps resolver rule d d') (hd : P d) : P d' := by
  induction hsteps with
  | refl => exact hd
  | tail _ hstep ih => exact h hstep ih

/-- What every step keeps is kept by every allowed change. -/
theorem keep_run {P : Draft → Prop} (h : ∀ {d d'}, Step resolver rule d d' → P d → P d') (hd : P d)
    (hreadable : d.store.Readable) {op : WriteOp} (hop : rule.Allows resolver d op) :
    P (leftBy (run resolver op d)) ∧ (leftBy (run resolver op d)).store.Readable :=
  ⟨(run_steps hreadable hop).1.keep h hd, (run_steps hreadable hop).2⟩

end Draft

theorem Store.readable_empty : (∅ : Store).Readable := ⟨treeReadable_empty, fun _ => ⟨none, rfl⟩⟩

theorem Store.Readable.commit {d : Draft} (h : d.store.Readable) {s : Store} (hcommit : d.commit = .ok s) :
    s.Readable := by
  have hframe := Draft.sameButLists_commit hcommit
  refine ⟨h.tree.congr (by rw [hframe]) (by rw [hframe]), fun id => ?_⟩
  rw [timeOf?_congr (by rw [hframe])]
  exact h.times id

/-- What holds of an empty draft, is kept by every step, and is left by a commit, holds throughout a run. -/
theorem Session.keep_afterAt {P : Draft → Prop} {rule : Rule}
    (hstep : ∀ {resolver d d'}, Draft.Step resolver rule d d' → P d → P d')
    (hcommit : ∀ {d}, P d → ∀ {s}, d.commit = .ok s → P { store := s }) (hempty : P { store := ∅ })
    {resolver : Resolver} {moments : List Moment} (h : ({ resolver } : Session).ObeysAt rule.Allows moments) :
    let s := ({ resolver } : Session).afterAt moments
    (P { store := s.committed } ∧ s.committed.Readable) ∧ ∀ d, s.draft = some d → P d ∧ d.store.Readable := by
  have hinvariant : ∀ resolver, Invariant resolver (rule.Allows resolver)
      (fun s => P { store := s } ∧ s.Readable) fun d => P d ∧ d.store.Readable := fun _ =>
    { begun := fun _ hs => hs
      changed := fun _ _ hd hop => Draft.keep_run hstep hd.1 hd.2 hop
      committed := fun _ _ hd hended => ⟨hcommit hd.1 hended, hd.2.commit hended⟩ }
  have hstart : Invariant.Holds (fun s => P { store := s } ∧ s.Readable) (fun d => P d ∧ d.store.Readable)
      ({ resolver } : Session) := ⟨⟨hempty, readable_empty⟩, nofun⟩
  exact Invariant.afterAt hinvariant hstart h

/-! ### Lists that cover the sets of terms -/

/-- Stored are sets of terms only, none of them empty, under the keys of ids. -/
def Store.SetsTidy (s : Store) : Prop :=
  ∀ field key value, (s.termTable field).find? key = some value →
    ∃ id terms, key = DocId.toKey id ∧ terms ≠ [] ∧ Storable terms ∧ value = TermSet.encode terms

namespace Draft

/-- The lists of every term are as `K` asks and have each document that has the term; what is stored is tidy. -/
structure Listed (K : List DocId × List Occurrence → Prop) (d : Draft) : Prop where
  ascend : d.IdsAscend
  lists : ∀ t, K (d.listsOf t)
  covers : ∀ id t, d.store.HasTerm id t → id ∈ (d.listsOf t).1
  postings : d.store.PostingsTidy
  sets : d.store.SetsTidy

section Listed

variable {K : List DocId × List Occurrence → Prop} {fit : Occurrence → Prop}

theorem Listed.of_sameIndex (h : Listed K d) (hpending : d'.pending = d.pending)
    (hsame : SameIndex d.store d'.store) : Listed K d' := by
  have hlists : ∀ t, d'.listsOf t = d.listsOf t := listsOf_congr hpending hsame.postings hsame.occurrences
  refine ⟨fun t => hlists t ▸ h.ascend t, fun t => hlists t ▸ h.lists t, fun id t ht => ?_,
    PostingsTidy.congr hsame.postings h.postings, fun field key value hfind => ?_⟩
  · rw [hlists]
    exact h.covers id t ((hsame.hasTerm id t).mp ht)
  · rw [hsame.termTable] at hfind
    exact h.sets field key value hfind

theorem Listed.fill (h : Listed K d) (hK : Lasting K fit) {doc : Document} {selected : Field → Bool}
    {dropped : List Bytes} (hterms : ∀ field, Storable (doc.terms field).keys)
    (hfit : ∀ field t positions, (doc.terms field).find? t = some positions → fit ⟨doc.id, positions⟩)
    (hdropped : ∀ t ∈ dropped, ∀ field, selected field = false → t ∉ d.store.termsOf field doc.id) :
    Listed K (withFields doc selected Field.all (d.enqueueRemovals doc.id dropped)) := by
  have hstore : (d.enqueueRemovals doc.id dropped).store = d.store := enqueueRemovals_store ..
  have hframe := sameButTerms_withFields doc selected Field.all (d.enqueueRemovals doc.id dropped)
  rw [hstore] at hframe
  refine ⟨lasting_ascending.withFields (h.ascend.enqueueRemovals doc.id dropped) fun _ _ _ _ => trivial,
    hK.withFields (fun t => hK.enqueueRemovals (h.lists t) dropped) hfit, fun id t ht => ?_,
    PostingsTidy.congr (by rw [hframe]) h.postings, fun field key value hfind => ?_⟩
  · rw [tracked_ids.withFields, tracked_ids.enqueueRemovals h.ascend]
    rcases (hasTerm_withFields hterms id t).mp ht with ⟨hid, field, hselected, hmem⟩ | ⟨field, hother, hmem⟩
    · obtain ⟨positions, hpositions⟩ := mem_keys_iff.mp hmem
      exact .inl ⟨hid, field, Field.mem_all field, hselected, positions, hpositions, trivial⟩
    · rw [hstore] at hmem
      refine .inr ⟨h.covers id t ⟨field, hmem⟩, ?_⟩
      rintro ⟨rfl, hgone⟩
      -- what was retracted is in no field that stays
      have hunselected : selected field = false := by simpa using hother
      exact hdropped t hgone field hunselected hmem
  · rw [find?_withFields, hstore] at hfind
    split at hfind
    · rename_i hkey
      unfold stored? at hfind
      split at hfind
      · cases hfind
      · rename_i hempty
        cases hfind
        exact ⟨doc.id, _, hkey.2, by simpa using hempty, hterms field, rfl⟩
    · exact h.sets field key value hfind

theorem Listed.clear (h : Listed K d) (hK : Lasting K fit) (id : DocId) : Listed K (withoutFields id Field.all d) := by
  have hframe := sameButTerms_withoutFields id Field.all d
  refine ⟨lasting_ascending.withoutFields h.ascend id Field.all, hK.withoutFields h.lists id Field.all,
    fun other t ht => ?_, PostingsTidy.congr (by rw [hframe]) h.postings, fun field key value hfind => ?_⟩
  · obtain ⟨hother, hhas⟩ := (hasTerm_withoutFields id other t).mp ht
    rw [tracked_ids.withoutFields Field.nodup_all h.ascend]
    exact ⟨h.covers other t hhas, fun hsame => hother hsame.1⟩
  · rw [find?_withoutFields] at hfind
    split at hfind
    · cases hfind
    · exact h.sets field key value hfind

/-- Every step keeps the lists as they are to be. -/
theorem Listed.step (hK : Lasting K fit) (hterms : ∀ doc, rule.fit doc → ∀ field, Storable (doc.terms field).keys)
    (hfit : ∀ doc, rule.fit doc → doc.id ≠ 0 → ∀ field t positions, (doc.terms field).find? t = some positions →
      fit ⟨doc.id, positions⟩) (hstep : Step resolver rule d d') (h : Listed K d) : Listed K d' := by
  rcases hstep.cases_index with ⟨hpending, hsame⟩ | ⟨doc, selected, dropped, hid, hdoc, hdropped, rfl⟩ | ⟨id, rfl⟩
  · exact h.of_sameIndex hpending hsame
  · exact h.fill hK (hterms doc hdoc) (hfit doc hdoc hid) fun t ht => (hdropped t ht).2
  · exact h.clear hK id

theorem listed_empty (hK : K ([], [])) : Listed K { store := ∅ } := by
  refine ⟨fun t => ?_, fun t => listsOf_empty t ▸ hK, fun id t ht => ?_, fun t value h => ?_,
    fun field key value h => ?_⟩
  · rw [listsOf_empty]
    exact .nil
  · obtain ⟨field, hmem⟩ := ht
    cases field <;> cases hmem
  · cases h
  · cases field <;> cases h

/-- What a commit stores is as it is to be, if reading occurrences back keeps them so. -/
theorem Listed.commit (hread : ∀ ids os, K (ids, os) → K (ids, readOccurrences (OccurrenceList.encode os)))
    (h : Listed K d) {s : Store} (hcommit : d.commit = .ok s) : Listed K { store := s } := by
  have hframe := sameButLists_commit hcommit
  obtain ⟨hids, htidy⟩ := idsWith_commit hcommit h.ascend
  have hsets := hframe.termTable
  refine ⟨fun t => ?_, fun t => ?_, fun id t ht => ?_, htidy h.postings, fun field key value hfind => ?_⟩
  · rw [listsOf_fresh]
    exact hids t ▸ h.ascend t
  · rw [listsOf_fresh, hids, occurrencesOf_commit_eq hcommit]
    cases hchanges : d.pending.find? t with
    | none =>
      have hlists := h.lists t
      rw [listsOf_of_find?_none hchanges] at hlists ⊢
      exact hlists
    | some changes => exact hread _ _ (h.lists t)
  · rw [listsOf_fresh, hids]
    refine h.covers id t ?_
    unfold HasTerm termsOf at ht ⊢
    simpa only [hsets] using ht
  · rw [hsets] at hfind
    exact h.sets field key value hfind

end Listed

end Draft
end FileIndex
