import FileIndex.Session

/-!
# Runs

A run is a list of events, in any order: transactions are begun, written to, committed and aborted, and the
index is opened again. An event that fails is part of the run like any other.

* `Keeps`: programs that keep a property of what they change, whether they fail or not.
* `Event`, `Session.handle`, `Session.after`: the events, one of them, and a run.
* `Session.Effect`, `Session.handle_effect`: all that an event can do to what is stored and to the open draft.
* `Session.Obeys`: every change of a run is allowed by a rule at the point where it is made.
* `Invariant.after`: what transactions begin with, changes keep and commits restore holds in every run.
* `Moment`, `Session.afterAt`, `Session.ObeysAt`: the same when the ids of folders change from one event to the next.
  `Invariant.afterAt`: what no resolver can break holds in every such run.
-/

namespace FileIndex

/-- What can be asked of an open index. -/
inductive Event
  | beginRead
  | endRead
  | beginWrite
  | tryWrite
  | write (op : WriteOp)
  | commit
  | abort
  | reopen (readOnly : Bool)

/-- What is left of a computation, whether it failed or not. -/
def leftBy {ε σ α : Type} : EStateM.Result ε σ α → σ
  | .ok _ s => s
  | .error _ s => s

@[simp] theorem leftBy_ok {ε σ α : Type} (a : α) (s : σ) : leftBy (.ok a s : EStateM.Result ε σ α) = s := rfl

section Keeps

variable {ε σ α β : Type} {P : σ → Prop}

/-- Whether it fails or not, the program keeps the property. -/
def Keeps (P : σ → Prop) (m : EStateM ε σ α) : Prop := ∀ s, P s → P (leftBy (m s))

theorem Keeps.bind {m : EStateM ε σ α} {f : α → EStateM ε σ β} (hm : Keeps P m) (hf : ∀ a, Keeps P (f a)) :
    Keeps P (m >>= f) := by
  intro s hs
  have hleft := hm s hs
  show P (leftBy (EStateM.bind m f s))
  unfold EStateM.bind
  cases hrun : m s with
  | ok a s' =>
    rw [hrun] at hleft
    exact hf a s' hleft
  | error e s' =>
    rw [hrun] at hleft
    exact hleft

theorem Keeps.pure (a : α) : Keeps P (Pure.pure a : EStateM ε σ α) := fun _ hs => hs

theorem Keeps.throw (e : ε) : Keeps P (MonadExcept.throw e : EStateM ε σ α) := fun _ hs => hs

theorem Keeps.get : Keeps P (MonadState.get : EStateM ε σ σ) := fun _ hs => hs

theorem Keeps.modify {change : σ → σ} (h : ∀ s, P s → P (change s)) : Keeps P (modify change : EStateM ε σ PUnit) :=
  fun s hs => h s hs

theorem Keeps.ite {c : Prop} [Decidable c] {m m' : EStateM ε σ α} (hm : Keeps P m) (hm' : Keeps P m') :
    Keeps P (if c then m else m') := by
  split
  · exact hm
  · exact hm'

/-- Something is done first under a condition. -/
theorem Keeps.first {c : Prop} [Decidable c] {m : EStateM ε σ Unit} {rest : Unit → EStateM ε σ α} (hm : Keeps P m)
    (hrest : ∀ u, Keeps P (rest u)) : Keeps P (if c then m >>= rest else rest ()) :=
  .ite (.bind hm hrest) (hrest ())

theorem Keeps.forM {step : α → EStateM ε σ Unit} (h : ∀ a, Keeps P (step a)) (l : List α) : Keeps P (l.forM step) := by
  induction l with
  | nil => exact .pure ()
  | cons a l ih => exact .bind (h a) fun _ => ih

end Keeps

namespace Session

/-- Handles an event, and answers whether it succeeded. -/
def handle (s : Session) : Event → Except Error Unit × Session
  | .beginRead => (.ok (), s.beginRead)
  | .endRead => (.ok (), s.endRead)
  | .beginWrite =>
    match s.beginWrite with
    | .ok s' => (.ok (), s')
    | .error e => (.error e, s)
  | .tryWrite =>
    match s.tryWrite with
    | .ok begun => (.ok (), begun.getD s)
    | .error e => (.error e, s)
  | .write op =>
    let r := s.current.run s.resolver op
    (r.1, s.put r.2)
  | .commit => s.commit
  | .abort => (.ok (), s.abort)
  | .reopen readOnly => (.ok (), s.reopen readOnly)

/-- The session after a run. -/
def after (s : Session) (events : List Event) : Session := events.foldl (fun s e => (s.handle e).2) s

/-- The changes that a run makes are allowed by the rule, which sees the draft that is changed. -/
def Obeys (rule : Draft → WriteOp → Prop) : Session → List Event → Prop
  | _, [] => True
  | s, e :: es => (∀ op d, e = .write op → s.draft = some d → rule d op) ∧ Obeys rule (s.handle e).2 es

@[simp] theorem after_nil (s : Session) : s.after [] = s := rfl

@[simp] theorem after_cons (s : Session) (e : Event) (es : List Event) :
    s.after (e :: es) = (s.handle e).2.after es := rfl

theorem after_append (s : Session) (es es' : List Event) : s.after (es ++ es') = (s.after es).after es' :=
  List.foldl_append

/-- Only the changes of an open writing transaction have an effect. -/
theorem handle_write_of_draft {s : Session} {d : Draft} (h : s.draft = some d) (op : WriteOp) :
    (s.handle (.write op)).2 = { s with draft := some (leftBy (Draft.run s.resolver op d)) } := by
  simp only [handle, current, h, Transaction.run]
  split <;> rename_i heq <;> rw [heq] <;> rfl

/-- What is found of the open draft without naming it. -/
theorem eq_of_draft {α : Type} {s : Session} {d : Draft} (h : s.draft = some d) (f : Draft → α) (a : α)
    (hf : s.draft.map f = some a) : f d = a := by
  rw [h] at hf
  exact Option.some.inj hf

theorem handle_write_of_no_draft {s : Session} (h : s.draft = none) (op : WriteOp) : (s.handle (.write op)).2 = s := by
  simp only [handle, current, h]
  cases s.snapshot <;> rfl

theorem handle_write_of_ok {s : Session} {op : WriteOp} {d d' : Draft} (hd : s.draft = some d)
    (hrun : Draft.run s.resolver op d = .ok () d') :
    s.handle (.write op) = (.ok (), { s with draft := some d' }) := by
  simp only [handle, current, hd, Transaction.run, hrun]
  rfl

/-- A change that succeeds was made in the draft of the open writing transaction. -/
theorem exists_run_of_ok {s : Session} {op : WriteOp} (h : (s.handle (.write op)).1 = .ok ()) :
    ∃ d d', s.draft = some d ∧ Draft.run s.resolver op d = .ok () d' := by
  unfold handle current at h
  cases hd : s.draft with
  | none => cases hs : s.snapshot <;> simp [hd, hs, Transaction.run] at h
  | some d =>
    cases hrun : Draft.run s.resolver op d with
    | error e d' => simp [hd, hrun, Transaction.run] at h
    | ok _ d' => exact ⟨d, d', rfl, hrun⟩

@[simp] theorem handle_resolver (s : Session) (e : Event) : (s.handle e).2.resolver = s.resolver := by
  cases e with
  | beginRead | endRead | abort | reopen => rfl
  | beginWrite =>
    unfold handle beginWrite
    cases s.readOnly <;> rfl
  | tryWrite =>
    unfold handle tryWrite beginWrite
    cases s.readOnly <;> cases s.draft <;> rfl
  | write op =>
    cases hd : s.draft with
    | none => rw [handle_write_of_no_draft hd]
    | some d => rw [handle_write_of_draft hd]
  | commit =>
    unfold handle commit
    cases s.draft with
    | none => rfl
    | some d =>
      simp only
      cases d.commit <;> rfl

@[simp] theorem after_resolver (s : Session) (events : List Event) : (s.after events).resolver = s.resolver := by
  induction events generalizing s with
  | nil => rfl
  | cons e es ih => rw [after_cons, ih, handle_resolver]

/-- What an event does to what is stored and to the open draft. -/
inductive Effect (s : Session) : Event → Store → Option Draft → Prop
  | keeps {e : Event} : Effect s e s.committed s.draft
  | begins {e : Event} : Effect s e s.committed (some { store := s.committed })
  | writes {op : WriteOp} {d : Draft} : s.draft = some d →
    Effect s (.write op) s.committed (some (leftBy (Draft.run s.resolver op d)))
  | commits {d : Draft} {store : Store} : s.draft = some d → d.commit = .ok store → Effect s .commit store none
  | ends {e : Event} : Effect s e s.committed none

theorem handle_effect (s : Session) (e : Event) : s.Effect e (s.handle e).2.committed (s.handle e).2.draft := by
  cases e with
  | beginRead | endRead => exact .keeps
  | abort | reopen => exact .ends
  | beginWrite =>
    unfold handle beginWrite
    cases s.readOnly with
    | true => exact .keeps
    | false => exact .begins
  | tryWrite =>
    unfold handle tryWrite beginWrite
    cases s.readOnly with
    | true => exact .keeps
    | false =>
      cases hd : s.draft with
      | some d => exact .keeps
      | none => exact .begins
  | write op =>
    cases hd : s.draft with
    | none =>
      rw [handle_write_of_no_draft hd]
      exact .keeps
    | some d =>
      rw [handle_write_of_draft hd]
      exact .writes hd
  | commit =>
    unfold handle commit
    cases hd : s.draft with
    | none => exact .keeps
    | some d =>
      simp only
      cases hcommit : d.commit with
      | ok store => exact .commits hd hcommit
      | error e => exact .ends

end Session

/-- A property of what is stored and one of drafts that carry each other through a run. -/
structure Invariant (resolver : Resolver) (rule : Draft → WriteOp → Prop) (stored : Store → Prop)
    (drafted : Draft → Prop) : Prop where
  begun : ∀ s, stored s → drafted { store := s }
  changed : ∀ d op, drafted d → rule d op → drafted (leftBy (Draft.run resolver op d))
  committed : ∀ d s, drafted d → d.commit = .ok s → stored s

namespace Invariant

variable {resolver : Resolver} {rule : Draft → WriteOp → Prop} {stored : Store → Prop} {drafted : Draft → Prop}

/-- What holds of a session. -/
def Holds (stored : Store → Prop) (drafted : Draft → Prop) (s : Session) : Prop :=
  stored s.committed ∧ ∀ d, s.draft = some d → drafted d

/-- One event keeps the invariant. -/
theorem handle (h : Invariant resolver rule stored drafted) {s : Session} (hs : Holds stored drafted s)
    (hresolver : s.resolver = resolver) {e : Event} (hrule : ∀ op d, e = .write op → s.draft = some d → rule d op) :
    Holds stored drafted (s.handle e).2 := by
  obtain ⟨hstored, hdrafted⟩ := hs
  have heffect := s.handle_effect e
  unfold Holds
  generalize (s.handle e).2.committed = store, (s.handle e).2.draft = draft at heffect ⊢
  cases heffect with
  | keeps => exact ⟨hstored, hdrafted⟩
  | begins => exact ⟨hstored, fun d hd => Option.some.inj hd ▸ h.begun _ hstored⟩
  | @writes op d hd =>
    rw [hresolver]
    exact ⟨hstored, fun d' hd' => Option.some.inj hd' ▸ h.changed d op (hdrafted d hd) (hrule op d rfl hd)⟩
  | @commits d _ hd hcommit => exact ⟨h.committed d store (hdrafted d hd) hcommit, nofun⟩
  | ends => exact ⟨hstored, nofun⟩

/-- The invariant holds after every run that obeys the rule. -/
theorem after (h : Invariant resolver rule stored drafted) {s : Session} (hs : Holds stored drafted s)
    (hresolver : s.resolver = resolver) {events : List Event} (hobeys : s.Obeys rule events) :
    Holds stored drafted (s.after events) := by
  induction events generalizing s with
  | nil => exact hs
  | cons e es ih =>
    obtain ⟨hrule, hrest⟩ := hobeys
    rw [Session.after_cons]
    exact ih (h.handle hs hresolver hrule) ((s.handle_resolver e).trans hresolver) hrest

end Invariant

/-! ### Folders that come and go -/

/-- An event, and how folders have ids when it happens. -/
structure Moment where
  resolver : Resolver
  event : Event

namespace Session

/-- Handles an event with the resolver of its time. -/
def handleAt (s : Session) (m : Moment) : Except Error Unit × Session :=
  ({ s with resolver := m.resolver } : Session).handle m.event

/-- The session after a run in which each event has a resolver of its own. -/
def afterAt (s : Session) (moments : List Moment) : Session := moments.foldl (fun s m => (s.handleAt m).2) s

/-- The changes of such a run are allowed by the rule, which sees the resolver and the draft that is changed. -/
def ObeysAt (rule : Resolver → Draft → WriteOp → Prop) : Session → List Moment → Prop
  | _, [] => True
  | s, m :: ms =>
    (∀ op d, m.event = .write op → s.draft = some d → rule m.resolver d op) ∧ ObeysAt rule (s.handleAt m).2 ms

@[simp] theorem afterAt_nil (s : Session) : s.afterAt [] = s := rfl

@[simp] theorem afterAt_cons (s : Session) (m : Moment) (ms : List Moment) :
    s.afterAt (m :: ms) = (s.handleAt m).2.afterAt ms := rfl

/-- What a stricter rule allows is allowed. -/
theorem ObeysAt.imp {rule rule' : Resolver → Draft → WriteOp → Prop} {s : Session} {moments : List Moment}
    (h : s.ObeysAt rule moments) (himp : ∀ resolver d op, rule resolver d op → rule' resolver d op) :
    s.ObeysAt rule' moments := by
  induction moments generalizing s with
  | nil => trivial
  | cons m ms ih => exact ⟨fun op d hop hd => himp _ _ _ (h.1 op d hop hd), ih h.2⟩

/-- Changes that are allowed in any draft are allowed where they are made. -/
theorem ObeysAt.of_changes {rule : Resolver → Draft → WriteOp → Prop} {s : Session} {moments : List Moment}
    (h : ∀ m ∈ moments, ∀ op, m.event = .write op → ∀ d, rule m.resolver d op) : s.ObeysAt rule moments := by
  induction moments generalizing s with
  | nil => trivial
  | cons m ms ih =>
    obtain ⟨hfirst, hrest⟩ := List.forall_mem_cons.mp h
    exact ⟨fun op d hop _ => hfirst op hop d, ih hrest⟩

end Session

/-- The invariant holds after every run that obeys the rule, whatever the resolvers. -/
theorem Invariant.afterAt {rule : Resolver → Draft → WriteOp → Prop} {stored : Store → Prop} {drafted : Draft → Prop}
    (h : ∀ resolver, Invariant resolver (rule resolver) stored drafted) {s : Session} (hs : Holds stored drafted s)
    {moments : List Moment} (hobeys : s.ObeysAt rule moments) : Holds stored drafted (s.afterAt moments) := by
  induction moments generalizing s with
  | nil => exact hs
  | cons m ms ih =>
    obtain ⟨hrule, hrest⟩ := hobeys
    have hs' : Holds stored drafted ({ s with resolver := m.resolver } : Session) := hs
    rw [Session.afterAt_cons]
    exact ih ((h m.resolver).handle hs' rfl hrule) hrest

end FileIndex
