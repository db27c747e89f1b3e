import FileIndex.Proofs.Transactions
import FileIndex.Proofs.Tree.Hanging

/-!
# Refused documents leave no trace

Adding a document, overwriting parts of it and renaming it write many tables one after the other, and queue changes of
postings. What can go wrong is found out before the first of these writes, as long as the values of the tree of paths
and of the times can be read. So a call that fails has changed nothing, and whatever is asked of the index afterwards
goes as if the call had not been made.

* `Store.Legible`: the values of the three tables that the calls read before they write.
* `Document.Refusal`: the errors that there are.
* `Draft.add_error`, `Draft.replace_error`: a call that fails leaves the draft alone.
* `Session.afterAt_refused`: the session goes on as if the call had not been made.
-/

namespace FileIndex

open Store

/-- The errors with which the writing of a document is refused. -/
inductive Document.Refusal (doc : Document) : Error → Prop
  | zeroId : Refusal doc .zeroId
  | documentExists : Refusal doc (.documentExists doc.id)
  | notAbsolute : Refusal doc .notAbsolute
  | emptyComponent : Refusal doc .emptyComponent
  | ownParent : Refusal doc .ownParent
  | tooDeep : Refusal doc .tooDeep
  | unresolvedParent : Refusal doc (.unresolvedParent doc.url)

namespace Store

/-- All values of the tree of paths and of the times can be read. -/
structure Legible (s : Store) : Prop where
  children : ∀ key value, s.children.find? key = some value → ∃ ids, IdList.decode value = .ok ids
  pathEntries : ∀ key value, s.pathEntries.find? key = some value → ∃ e, PathEntry.decode value = .ok e
  times : ∀ key value, s.times.find? key = some value → ∃ time, TimeInfo.decode value = .ok time

variable {s : Store}

theorem Legible.readable (h : s.Legible) : s.Readable := by
  refine ⟨TreeLegible.readable ⟨h.children, h.pathEntries⟩, fun id => ?_⟩
  unfold timeOf?
  cases hvalue : s.times.find? (DocId.toKey id) with
  | none => exact ⟨none, rfl⟩
  | some value =>
    obtain ⟨time, htime⟩ := h.times _ value hvalue
    simp only [htime, Malformed.orFail]
    exact ⟨some time, rfl⟩

/-! ### Finding out where a path is to hang -/

theorem missingFolders_error {resolver : Resolver} {room : Nat} {names : List Bytes} {e : Error}
    (h : s.missingFolders resolver room names = .error e) : e = .tooDeep := by
  induction names generalizing room with
  | nil =>
    rw [missingFolders] at h
    cases h
  | cons name above ih =>
    unfold missingFolders at h
    simp only at h
    by_cases hid : resolver (Path.render (name :: above)) = 0
    · rw [if_pos hid] at h
      cases h
    · rw [if_neg hid] at h
      by_cases hpath : s.hasPath (resolver (Path.render (name :: above))) = true
      · rw [if_pos hpath] at h
        cases h
      · rw [if_neg hpath] at h
        cases room with
        | zero =>
          cases h
          rfl
        | succ room =>
          cases hrest : s.missingFolders resolver room above with
          | error e' =>
            simp only [hrest] at h
            cases h
            exact ih hrest
          | ok found =>
            simp only [hrest] at h
            cases h

theorem refusal_of_locate {resolver : Resolver} {doc : Document} {e : Error}
    (h : s.locate resolver doc.id doc.url = .error e) : doc.Refusal e := by
  unfold locate at h
  by_cases hid : doc.id = 0
  · rw [if_pos hid] at h
    cases h
    exact .zeroId
  · rw [if_neg hid] at h
    cases hparse : Path.parse doc.url with
    | error e' =>
      rw [hparse] at h
      cases h
      obtain rfl | rfl := Path.parse_error hparse
      · exact .notAbsolute
      · exact .emptyComponent
    | ok names =>
      rw [hparse] at h
      cases names with
      | nil => cases h
      | cons name above =>
        simp only [bind, Except.bind, pure, Except.pure] at h
        by_cases hself : above ≠ [] ∧ resolver (Path.render above) = doc.id
        · rw [if_pos hself] at h
          cases h
          exact .ownParent
        · rw [if_neg hself] at h
          cases hmissing : s.missingFolders resolver maxDepth above with
          | error e' =>
            simp only [hmissing] at h
            cases h
            obtain rfl := missingFolders_error hmissing
            exact .tooDeep
          | ok found =>
            simp only [hmissing] at h
            cases h

end Store

namespace Draft

variable {resolver : Resolver} {doc : Document}

/-- In a readable tree, a change of a path that cannot be planned is refused for where the path is to hang. -/
theorem refusal_of_planPath {s : Store} (hs : s.TreeReadable) {e : Error}
    (h : planPath s resolver doc.id doc.url = .error e) : doc.Refusal e := by
  unfold planPath at h
  cases hlocate : s.locate resolver doc.id doc.url with
  | error e' =>
    rw [hlocate] at h
    cases h
    exact refusal_of_locate hlocate
  | ok place =>
    rw [hlocate] at h
    cases place with
    | none =>
      cases h
      exact .unresolvedParent
    | some p =>
      obtain ⟨entry, hentry⟩ := hs.entries doc.id
      simp only [bind, Except.bind, hentry] at h
      cases entry <;> cases h

theorem add_error {d d' : Draft} (hd : d.store.TreeReadable) {e : Error} (h : add resolver doc d = .error e d') :
    d' = d ∧ doc.Refusal e := by
  by_cases hid : doc.id = 0
  · rw [add_zero hid] at h
    cases h
    exact ⟨rfl, .zeroId⟩
  · cases hdoc : d.store.hasDocument doc.id with
    | true =>
      rw [add_of_hasDocument hid hdoc] at h
      cases h
      exact ⟨rfl, .documentExists⟩
    | false =>
      cases hplace : d.store.locate resolver doc.id doc.url with
      | error e' =>
        rw [add_of_locate_error hid hdoc hplace] at h
        cases h
        exact ⟨rfl, refusal_of_locate hplace⟩
      | ok place =>
        cases place with
        | none =>
          rw [add_of_locate_none hid hdoc hplace] at h
          cases h
          exact ⟨rfl, .unresolvedParent⟩
        | some p =>
          -- with a place for the path, all steps go through
          obtain ⟨hexists | hnowhere, _⟩ | ⟨_, _, _, _, _, _, _, _, hadd⟩ := add_cases resolver doc hd
          · rw [hdoc] at hexists
            cases hexists
          · exact absurd hplace (hnowhere p)
          · rw [hadd] at h
            cases h

theorem replace_error {parts : Parts} {d d' : Draft} (hd : d.store.Readable) {e : Error}
    (h : replace resolver doc parts d = .error e d') : d' = d ∧ doc.Refusal e := by
  by_cases hid : doc.id = 0
  · rw [replace_zero hid] at h
    cases h
    exact ⟨rfl, .zeroId⟩
  · by_cases hplan : parts.url = true → ∃ change, planPath d.store resolver doc.id doc.url = .ok change
    · obtain ⟨_, _, _, _, _, _, _, hreplace⟩ := replace_of_plan hd hid hplan
      rw [hreplace] at h
      cases h
    · obtain ⟨hurl, hnone⟩ := Classical.not_imp.mp hplan
      cases hpath : planPath d.store resolver doc.id doc.url with
      | error e' =>
        rw [replace_of_planPath_error hid hurl hpath] at h
        cases h
        exact ⟨rfl, refusal_of_planPath hd.tree hpath⟩
      | ok change => exact absurd ⟨change, hpath⟩ hnone

/-- A document that is not written leaves the draft as it was, with its queue. -/
theorem run_error {op : WriteOp} (hop : op.document? = some doc) {d d' : Draft} (hd : d.store.Readable) {e : Error}
    (h : run resolver op d = .error e d') : d' = d ∧ doc.Refusal e := by
  cases op with
  | add doc' =>
    cases hop
    exact add_error hd.tree h
  | replace doc' parts =>
    cases hop
    exact replace_error hd h
  | rename doc' =>
    cases hop
    exact replace_error hd h
  | remove | removeSubtree | addPending | removePending | addFailed | removeFailed => cases hop

end Draft

/-- Each event brings its own resolver, so it does not matter which one a session has before. -/
theorem Session.afterAt_withResolver (s : Session) (resolver : Resolver) (moments : List Moment) :
    (({ s with resolver } : Session).afterAt moments).committed = (s.afterAt moments).committed ∧
      (({ s with resolver } : Session).afterAt moments).draft = (s.afterAt moments).draft := by
  cases moments with
  | nil => exact ⟨rfl, rfl⟩
  | cons m ms => exact ⟨rfl, rfl⟩

/-- If a document cannot be added, overwritten or renamed, the open draft is what it was before, each of its tables and
its queue. Whatever is asked of the index from then on, it gets to the same draft and stores the same. -/
theorem Session.afterAt_refused (resolver : Resolver) {op : WriteOp} {doc : Document} (hop : op.document? = some doc)
    {s : Session} {d : Draft} (hdraft : s.draft = some d) (hd : d.store.Legible) {e : Error}
    (hfail : (s.handleAt ⟨resolver, .write op⟩).1 = .error e) :
    let s' := (s.handleAt ⟨resolver, .write op⟩).2
    s'.draft = some d ∧ doc.Refusal e ∧ ∀ moments,
      (s'.afterAt moments).committed = (s.afterAt moments).committed ∧
        (s'.afterAt moments).draft = (s.afterAt moments).draft := by
  intro s'
  obtain ⟨hanswer, hafter⟩ := handleAt_write hdraft ⟨resolver, op⟩
  rw [hfail] at hanswer
  cases hrun : Draft.run resolver op d with
  | ok _ d' =>
    rw [hrun] at hanswer
    cases hanswer
  | error e' d' =>
    rw [hrun] at hanswer hafter
    cases hanswer
    obtain ⟨rfl, hrefusal⟩ := Draft.run_error hop hd.readable hrun
    have hs' : s' = { s with resolver } := by
      rw [show s' = { s with resolver, draft := some d' } from hafter, ← hdraft]
    rw [hs']
    exact ⟨hdraft, hrefusal, s.afterAt_withResolver resolver⟩

/-- A document that is stored, with changes in the queue, is to go below a folder without an id. -/
theorem Session.afterAt_refused_move :
    let doc : Document := ({ id := 7, url := [0x2F, 0x61] } : Document).addTerm .fileName [0x78]
    let moved : Document := { doc with url := [0x2F, 0x62, 0x2F, 0x63] }
    let store : Store := (((∅ : Store).setChildren 0 [7]).setPathEntry 7 ⟨0, [0x61]⟩).withTime 7 ⟨3, 4⟩
    let d : Draft := ({ store } : Draft).enqueueRemovals 7 [[0x79]]
    let s : Session := { resolver := .nowhere, committed := store, draft := some d }
    let s' := (s.handleAt ⟨.nowhere, .write (.rename moved)⟩).2
    store.Legible ∧ (s.handleAt ⟨.nowhere, .write (.rename moved)⟩).1 = .error (.unresolvedParent moved.url) ∧
      s'.draft = some d ∧ ∀ moments, (s'.afterAt moments).committed = (s.afterAt moments).committed := by
  intro doc moved store d s s'
  have hlegible : store.Legible := by
    refine ⟨?_, ?_, ?_⟩
    · exact Table.forall_values_insert (t := ∅) nofun (DocId.toKey 0) ⟨[7], IdList.decode_encode (by decide)⟩
    · exact Table.forall_values_insert (t := ∅) nofun (DocId.toKey 7) ⟨_, PathEntry.decode_encode _⟩
    · exact Table.forall_values_insert (t := ∅) nofun (DocId.toKey 7) ⟨_, TimeInfo.decode_encode _⟩
  have hfail : (s.handleAt ⟨.nowhere, .write (.rename moved)⟩).1 = .error (.unresolvedParent moved.url) := rfl
  have hop : (WriteOp.rename moved).document? = some moved := rfl
  obtain ⟨hdraft, _, hafter⟩ := afterAt_refused .nowhere hop (s := s) rfl hlegible hfail
  exact ⟨hlegible, hfail, hdraft, fun moments => (hafter moments).1⟩

end FileIndex
