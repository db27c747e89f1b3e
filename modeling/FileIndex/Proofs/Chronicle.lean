import FileIndex.Proofs.Run

/-!
# The changes that took effect

Beside a session a list is kept of the changes that took effect, oldest first. What changes and commits carry on between
such a list and a draft holds throughout a run.

* `Chronicle`, `Chronicle.record`, `Chronicle.after`: the changes that took effect, event by event.
* `Session.written`: those that made what is stored after a run.
* `Account`: what has to be shown of a relation between changes and drafts. `Account.afterAt`: it then holds of what is
  stored after a run, and of the draft that is open.
-/

namespace FileIndex

/-- The changes that took effect: those that made what is stored, and those that made the open draft. -/
structure Chronicle where
  committed : List WriteOp := []
  draft : Option (List WriteOp) := none

namespace Chronicle

/-- The chronicle after an event. A change that failed did not take effect, and what is not committed is forgotten. -/
def record (c : Chronicle) : Event → Except Error Unit → Chronicle
  | .beginWrite, .ok _ => { c with draft := some c.committed }
  | .tryWrite, .ok _ => { c with draft := some (c.draft.getD c.committed) }
  | .write op, .ok _ => { c with draft := c.draft.map (· ++ [op]) }
  | .commit, .ok _ => { committed := c.draft.getD c.committed }
  | .commit, .error _ | .abort, _ | .reopen _, _ => { c with draft := none }
  | _, _ => c

/-- The chronicle after a run of the session. -/
def after (s : Session) (c : Chronicle) : List Moment → Chronicle
  | [] => c
  | m :: ms => after (s.handleAt m).2 (c.record m.event (s.handleAt m).1) ms

end Chronicle

/-- The changes that made what is stored after a run. -/
def Session.written (s : Session) (moments : List Moment) : List WriteOp := (Chronicle.after s {} moments).committed

/-- A relation between the changes that took effect and drafts that is carried on by changes, by those that fail, and by
commits. -/
structure Account (resolver : Resolver) (rule : Draft → WriteOp → Prop) (R : List WriteOp → Draft → Prop) : Prop where
  done : ∀ {ops d op d'}, R ops d → rule d op → Draft.run resolver op d = .ok () d' → R (ops ++ [op]) d'
  failed : ∀ {ops d op e d'}, R ops d → rule d op → Draft.run resolver op d = .error e d' → R ops d'
  stored : ∀ {ops d s}, R ops d → d.commit = .ok s → R ops { store := s }

namespace Account

/-- What is stored and the open draft are in the relation to the changes that made them. -/
structure Holds (R : List WriteOp → Draft → Prop) (c : Chronicle) (s : Session) : Prop where
  committed : R c.committed { store := s.committed }
  draft : Option.Rel R c.draft s.draft

variable {resolver : Resolver} {rule : Draft → WriteOp → Prop} {R : List WriteOp → Draft → Prop} {c : Chronicle}
  {s : Session}

/-- A transaction begins with what is stored. -/
theorem begin (hs : Holds R c s) {e : Event} (he : e = .beginWrite ∨ e = .tryWrite) :
    Holds R (c.record e (s.handle e).1) (s.handle e).2 := by
  obtain ⟨_, readOnly, stored, snapshot, _⟩ := s
  obtain ⟨written, _⟩ := c
  obtain ⟨hcommitted, hdraft⟩ := hs
  rcases he with rfl | rfl
  · cases readOnly with
    | true => exact ⟨hcommitted, hdraft⟩
    | false => exact ⟨hcommitted, .some hcommitted⟩
  · cases readOnly with
    | true => exact ⟨hcommitted, hdraft⟩
    | false =>
      cases hdraft with
      | none => exact ⟨hcommitted, .some hcommitted⟩
      | some hopen => exact ⟨hcommitted, .some hopen⟩

theorem write (h : Account resolver rule R) (hs : Holds R c s) (hresolver : s.resolver = resolver) {op : WriteOp}
    (hrule : ∀ d, s.draft = some d → rule d op) :
    Holds R (c.record (.write op) (s.handle (.write op)).1) (s.handle (.write op)).2 := by
  obtain ⟨_, readOnly, stored, snapshot, _⟩ := s
  obtain ⟨written, _⟩ := c
  obtain ⟨hcommitted, hdraft⟩ := hs
  subst hresolver
  cases hdraft with
  -- without a writing transaction the change is refused
  | none => cases snapshot <;> exact ⟨hcommitted, .none⟩
  | @some ops d hopen =>
    have hallowed := hrule d rfl
    simp only [Session.handle, Session.current, Transaction.run]
    cases hrun : Draft.run _ op d with
    | ok _ d' => exact ⟨hcommitted, .some (h.done hopen hallowed hrun)⟩
    | error e d' => exact ⟨hcommitted, .some (h.failed hopen hallowed hrun)⟩

theorem commit (h : Account resolver rule R) (hs : Holds R c s) :
    Holds R (c.record .commit (s.handle .commit).1) (s.handle .commit).2 := by
  obtain ⟨_, readOnly, stored, snapshot, _⟩ := s
  obtain ⟨written, _⟩ := c
  obtain ⟨hcommitted, hdraft⟩ := hs
  cases hdraft with
  | none => exact ⟨hcommitted, .none⟩
  | @some ops d hopen =>
    simp only [Session.handle, Session.commit]
    cases hcommit : d.commit with
    | ok store => exact ⟨h.stored hopen hcommit, .none⟩
    | error e => exact ⟨hcommitted, .none⟩

/-- One event carries the relation on. -/
theorem record (h : Account resolver rule R) (hs : Holds R c s) (hresolver : s.resolver = resolver) {e : Event}
    (hrule : ∀ op d, e = .write op → s.draft = some d → rule d op) :
    Holds R (c.record e (s.handle e).1) (s.handle e).2 := by
  cases e with
  | beginRead | endRead => exact ⟨hs.committed, hs.draft⟩
  | abort | reopen => exact ⟨hs.committed, .none⟩
  | beginWrite => exact begin hs (.inl rfl)
  | tryWrite => exact begin hs (.inr rfl)
  | write op => exact h.write hs hresolver fun d => hrule op d rfl
  | commit => exact h.commit hs

/-- The relation is carried on through every run, whatever the resolvers. -/
theorem afterAt {rule : Resolver → Draft → WriteOp → Prop} (h : ∀ resolver, Account resolver (rule resolver) R)
    (hs : Holds R c s) {moments : List Moment} (hobeys : s.ObeysAt rule moments) :
    Holds R (Chronicle.after s c moments) (s.afterAt moments) := by
  induction moments generalizing c s with
  | nil => exact hs
  | cons m ms ih =>
    obtain ⟨hrule, hrest⟩ := hobeys
    have hs' : Holds R c ({ s with resolver := m.resolver } : Session) := ⟨hs.committed, hs.draft⟩
    rw [Session.afterAt_cons]
    exact ih ((h m.resolver).record hs' rfl hrule) hrest

end Account
end FileIndex
