import FileIndex.Proofs.Search

/-!
# Phrases of something other than terms

A phrase whose operands are not all exact terms is refused, but only where the compilation of the query gets to it:
it goes from left to right, and a conjunction ends at its first operand that cannot match.

* `Query.induct`: induction on a query by its operands.
* `Query.Faulty`: the queries that are refused for what they are themselves, and the error.
* `Store.Reaches`: the parts of a query that its compilation gets to.
* `Store.cursorFor_eq_error_iff`: a query fails exactly by the first faulty part that is reached.
* `Query.Misphrased`: somewhere in the query there is such a phrase. `Store.Hides`: a conjunction around it may
  end early.
* `Store.search_misphrased`: which queries are refused, and which of them whatever the order of operands.
-/

namespace FileIndex

namespace Query

/-- What holds of a composite as soon as it holds of its operands, and of all leaves, holds of every query. -/
@[elab_as_elim]
theorem induct {P : Query → Prop} (term : ∀ t, P (.term t)) (startsWith : ∀ beginning, P (.startsWith beginning))
    (composite : ∀ how operands, (∀ q ∈ operands, P q) → P (.composite how operands)) : ∀ q, P q
  | .term t => term t
  | .startsWith beginning => startsWith beginning
  | .composite how operands => composite how operands fun q _hq => induct term startsWith composite q
termination_by q => sizeOf q
decreasing_by
  have := List.sizeOf_lt_of_mem _hq
  simp only [Query.composite.sizeOf_spec]
  omega

/-- What is refused by itself: a phrase with an operand that is no exact term, and the empty beginning of terms. -/
inductive Faulty : Query → Error → Prop
  | phrase {operands : List Query} {operand : Query} : operand ∈ operands → operand.isTerm = false →
    Faulty (.composite .phrase operands) .phraseNotOfTerms
  | beginning : Faulty (.startsWith []) (.storage .keySize)

/-- Some phrase in the query, at whatever depth, has an operand that is no exact term. -/
inductive Misphrased : Query → Prop
  | phrase {operands : List Query} {operand : Query} : operand ∈ operands → operand.isTerm = false →
    Misphrased (.composite .phrase operands)
  | inside {how : Connective} {operands : List Query} {operand : Query} : operand ∈ operands → Misphrased operand →
    Misphrased (.composite how operands)

/-- Outside of phrases the query asks for an empty beginning of terms. -/
inductive Unbegun : Query → Prop
  | here : Unbegun (.startsWith [])
  | inside {how : Connective} {operands : List Query} {operand : Query} : how ≠ .phrase → operand ∈ operands →
    Unbegun operand → Unbegun (.composite how operands)

/-- A query with such a phrase in it is no exact term. -/
theorem Misphrased.not_isTerm {q : Query} (h : q.Misphrased) : q.isTerm = false := by
  cases h <;> rfl

end Query

namespace Store

variable {s : Store}

/-- Compiling the query gets to a part of it: from a conjunction to an operand before which all have a cursor, from an
alternative to one before which none fails. -/
inductive Reaches (s : Store) : Query → Query → Prop
  | here {q : Query} : Reaches s q q
  | and {before after : List Query} {q part : Query} : (∀ q' ∈ before, ∃ c, s.cursorFor q' = .ok (some c)) →
    Reaches s q part → Reaches s (.composite .and (before ++ q :: after)) part
  | or {before after : List Query} {q part : Query} : (∀ q' ∈ before, ∃ c, s.cursorFor q' = .ok c) →
    Reaches s q part → Reaches s (.composite .or (before ++ q :: after)) part

/-- Some conjunction around such a phrase has an operand that cannot match. -/
inductive Hides (s : Store) : Query → Prop
  | here {operands : List Query} {operand other : Query} : operand ∈ operands → operand.Misphrased → other ∈ operands →
    s.cursorFor other = .ok none → Hides s (.composite .and operands)
  | inside {how : Connective} {operands : List Query} {operand : Query} : operand ∈ operands → Hides s operand →
    Hides s (.composite how operands)

/-! ### Where a compilation fails -/

theorem return_eq_error_iff {α β : Type} {x : Except Error α} {f : α → β} {e : Error} :
    (do return f (← x)) = .error e ↔ x = .error e := by
  cases x <;> simp [bind, Except.bind, pure, Except.pure]

/-- The first that fails in a list comes at its head, or after a head that passes. -/
theorem exists_first_cons {α : Type} {passes fails : α → Prop} {a : α} {l : List α} :
    (∃ before x after, a :: l = before ++ x :: after ∧ (∀ b ∈ before, passes b) ∧ fails x) ↔
      fails a ∨ passes a ∧ ∃ before x after, l = before ++ x :: after ∧ (∀ b ∈ before, passes b) ∧ fails x := by
  constructor
  · rintro ⟨_ | ⟨b, before⟩, x, after, heq, hbefore, hx⟩
    · cases heq
      exact .inl hx
    · cases heq
      obtain ⟨ha, hbefore⟩ := List.forall_mem_cons.mp hbefore
      exact .inr ⟨ha, before, x, after, rfl, hbefore, hx⟩
  · rintro (ha | ⟨ha, before, x, after, rfl, hbefore, hx⟩)
    · exact ⟨[], a, l, rfl, nofun, ha⟩
    · exact ⟨a :: before, x, after, rfl, List.forall_mem_cons.mpr ⟨ha, hbefore⟩, hx⟩

theorem phraseTerms_eq_error_iff {qs : List Query} {e : Error} :
    phraseTerms qs = .error e ↔ e = .phraseNotOfTerms ∧ ∃ q ∈ qs, q.isTerm = false := by
  induction qs with
  | nil => simp [phraseTerms]
  | cons q qs ih =>
    rw [List.exists_mem_cons_iff]
    cases q with
    | term t => rw [phraseTerms, return_eq_error_iff, ih, or_iff_right (by simp [Query.isTerm])]
    | startsWith | composite =>
      rw [phraseTerms, Except.error.injEq, eq_comm, and_iff_left (.inl rfl)]
      rintro _ ⟨⟩

theorem beginningCursor?_eq_error_iff {beginning : Bytes} {e : Error} :
    s.beginningCursor? beginning = .error e ↔ beginning = [] ∧ e = .storage .keySize := by
  rw [beginningCursor?, restCursor?, return_eq_error_iff, Table.beginningWith, ← List.isEmpty_iff]
  split
  · rename_i hempty
    rw [Except.error.injEq, eq_comm, and_iff_right hempty]
  · rename_i hempty
    exact iff_of_false (by simp) fun h => hempty h.1

/-- Operands that are all needed fail by the first that does, if those before it can match. -/
theorem requiredCursors_eq_error_iff {qs : List Query} {e : Error} :
    s.requiredCursors qs = .error e ↔ ∃ before q after, qs = before ++ q :: after ∧
      (∀ q' ∈ before, ∃ c, s.cursorFor q' = .ok (some c)) ∧ s.cursorFor q = .error e := by
  induction qs with
  | nil => simp [requiredCursors]
  | cons q qs ih =>
    rw [exists_first_cons]
    rcases hq : s.cursorFor q with e' | _ | c
    · rw [requiredCursors_of_error hq, or_iff_left (by simp), Except.error.injEq, Except.error.injEq]
    · rw [requiredCursors_of_none hq]
      simp
    · rw [requiredCursors_of_some hq, return_eq_error_iff, ih]
      simp

/-- Operands of which any will do fail by the first that does. -/
theorem optionalCursors_eq_error_iff {qs : List Query} {e : Error} :
    s.optionalCursors qs = .error e ↔ ∃ before q after, qs = before ++ q :: after ∧
      (∀ q' ∈ before, ∃ c, s.cursorFor q' = .ok c) ∧ s.cursorFor q = .error e := by
  induction qs with
  | nil => simp [optionalCursors]
  | cons q qs ih =>
    rw [exists_first_cons]
    rcases hq : s.cursorFor q with e' | c
    · rw [optionalCursors_of_error hq, or_iff_left (by simp), Except.error.injEq, Except.error.injEq]
    · rw [optionalCursors_of_ok hq, return_eq_error_iff, ih]
      simp

theorem cursorFor_phrase_eq_error_iff {qs : List Query} {e : Error} :
    s.cursorFor (.composite .phrase qs) = .error e ↔ e = .phraseNotOfTerms ∧ ∃ q ∈ qs, q.isTerm = false := by
  rw [cursorFor, return_eq_error_iff, phraseTerms_eq_error_iff]

theorem cursorFor_and_eq_error_iff {qs : List Query} {e : Error} :
    s.cursorFor (.composite .and qs) = .error e ↔ s.requiredCursors qs = .error e := by
  rw [cursorFor, return_eq_error_iff]

theorem cursorFor_or_eq_error_iff {qs : List Query} {e : Error} :
    s.cursorFor (.composite .or qs) = .error e ↔ s.optionalCursors qs = .error e := by
  rw [cursorFor, return_eq_error_iff]

/-- A query that fails does so by a faulty part that is reached. -/
theorem exists_faulty_of_error {q : Query} {e : Error} (h : s.cursorFor q = .error e) :
    ∃ part, s.Reaches q part ∧ part.Faulty e := by
  induction q using Query.induct with
  | term t =>
    rw [cursorFor] at h
    cases h
  | startsWith beginning =>
    rw [cursorFor, beginningCursor?_eq_error_iff] at h
    obtain ⟨rfl, rfl⟩ := h
    exact ⟨_, .here, .beginning⟩
  | composite how qs ih =>
    cases how with
    | phrase =>
      obtain ⟨rfl, q, hq, hterm⟩ := cursorFor_phrase_eq_error_iff.mp h
      exact ⟨_, .here, .phrase hq hterm⟩
    | and =>
      obtain ⟨before, q, after, rfl, hbefore, hq⟩ := requiredCursors_eq_error_iff.mp (cursorFor_and_eq_error_iff.mp h)
      obtain ⟨part, hreaches, hfaulty⟩ := ih q (List.mem_append_right _ List.mem_cons_self) hq
      exact ⟨part, .and hbefore hreaches, hfaulty⟩
    | or =>
      obtain ⟨before, q, after, rfl, hbefore, hq⟩ := optionalCursors_eq_error_iff.mp (cursorFor_or_eq_error_iff.mp h)
      obtain ⟨part, hreaches, hfaulty⟩ := ih q (List.mem_append_right _ List.mem_cons_self) hq
      exact ⟨part, .or hbefore hreaches, hfaulty⟩

/-- A query fails exactly by a faulty part that is reached. -/
theorem cursorFor_eq_error_iff {q : Query} {e : Error} :
    s.cursorFor q = .error e ↔ ∃ part, s.Reaches q part ∧ part.Faulty e := by
  refine ⟨exists_faulty_of_error, ?_⟩
  rintro ⟨part, hreaches, hfaulty⟩
  induction hreaches with
  | here =>
    cases hfaulty with
    | phrase hq hterm => exact cursorFor_phrase_eq_error_iff.mpr ⟨rfl, _, hq, hterm⟩
    | beginning =>
      rw [cursorFor]
      exact beginningCursor?_eq_error_iff.mpr ⟨rfl, rfl⟩
  | and hbefore _ ih =>
    exact cursorFor_and_eq_error_iff.mpr (requiredCursors_eq_error_iff.mpr ⟨_, _, _, rfl, hbefore, ih hfaulty⟩)
  | or hbefore _ ih =>
    exact cursorFor_or_eq_error_iff.mpr (optionalCursors_eq_error_iff.mpr ⟨_, _, _, rfl, hbefore, ih hfaulty⟩)

theorem search_eq_error_iff {q : Query} {limit : Option Nat} {e : Error} :
    s.search q limit = .error e ↔ s.cursorFor q = .error e := by
  rw [search]
  rcases s.cursorFor q with e' | _ | c <;> simp [bind, Except.bind, pure, Except.pure]

/-! ### What keeps a phrase from being refused -/

theorem Reaches.unbegun {q : Query} (h : s.Reaches q (.startsWith [])) : q.Unbegun := by
  generalize hpart : Query.startsWith [] = part at h
  induction h with
  | here => exact hpart ▸ .here
  | and _ _ ih => exact .inside nofun (List.mem_append_right _ List.mem_cons_self) (ih hpart)
  | or _ _ ih => exact .inside nofun (List.mem_append_right _ List.mem_cons_self) (ih hpart)

theorem exists_first_of_mem {α : Type} (passes : α → Prop) {a : α} {l : List α} (ha : a ∈ l) (h : ¬ passes a) :
    ∃ before x after, l = before ++ x :: after ∧ (∀ b ∈ before, passes b) ∧ ¬ passes x := by
  induction l with
  | nil => cases ha
  | cons b l ih =>
    rw [exists_first_cons]
    by_cases hb : passes b
    · rcases List.mem_cons.mp ha with rfl | ha
      · exact absurd hb h
      · exact .inr ⟨hb, ih ha⟩
    · exact .inl hb

/-- Without an operand that cannot match, no conjunction around a phrase ends before it has come to it. -/
theorem exists_error_of_misphrased {q : Query} (h : q.Misphrased) (hhides : ¬ s.Hides q) :
    ∃ e, s.cursorFor q = .error e := by
  induction h with
  | phrase hq hterm => exact ⟨_, cursorFor_phrase_eq_error_iff.mpr ⟨rfl, _, hq, hterm⟩⟩
  | @inside how operands operand hmem hmisphrased ih =>
    obtain ⟨e, he⟩ := ih fun hinside => hhides (.inside hmem hinside)
    cases how with
    | phrase => exact ⟨_, cursorFor_phrase_eq_error_iff.mpr ⟨rfl, operand, hmem, hmisphrased.not_isTerm⟩⟩
    | and =>
      -- the first operand without a cursor is this one or stands before it, and it can only fail
      have hfails : ¬ ∃ c, s.cursorFor operand = .ok (some c) := by
        rintro ⟨c, hc⟩
        cases he.symm.trans hc
      obtain ⟨before, q, after, rfl, hbefore, hq⟩ :=
        exists_first_of_mem (fun q => ∃ c, s.cursorFor q = .ok (some c)) hmem hfails
      rcases hcursor : s.cursorFor q with e' | _ | c
      · exact ⟨e', cursorFor_and_eq_error_iff.mpr (requiredCursors_eq_error_iff.mpr ⟨_, _, _, rfl, hbefore, hcursor⟩)⟩
      · exact absurd (.here hmem hmisphrased (List.mem_append_right _ List.mem_cons_self) hcursor) hhides
      · exact absurd ⟨c, hcursor⟩ hq
    | or =>
      have hfails : ¬ ∃ c, s.cursorFor operand = .ok c := by
        rintro ⟨c, hc⟩
        cases he.symm.trans hc
      obtain ⟨before, q, after, rfl, hbefore, hq⟩ :=
        exists_first_of_mem (fun q => ∃ c, s.cursorFor q = .ok c) hmem hfails
      rcases hcursor : s.cursorFor q with e' | c
      · exact ⟨e', cursorFor_or_eq_error_iff.mpr (optionalCursors_eq_error_iff.mpr ⟨_, _, _, rfl, hbefore, hcursor⟩)⟩
      · exact absurd ⟨c, hcursor⟩ hq

/-- A search fails exactly by a faulty part of the query that its compilation reaches. Whatever is stored and
in whatever order the operands stand, a query with a phrase of something other than terms is refused, if no
conjunction around such a phrase has an operand that cannot match and there is no empty beginning. -/
theorem search_misphrased (s : Store) (q : Query) (limit : Option Nat) :
    (∀ e, s.search q limit = .error e ↔ ∃ part, s.Reaches q part ∧ part.Faulty e) ∧
      (q.Misphrased → ¬ s.Hides q → ¬ q.Unbegun → s.search q limit = .error .phraseNotOfTerms) := by
  refine ⟨fun e => search_eq_error_iff.trans cursorFor_eq_error_iff, fun h hhides hbegun => search_eq_error_iff.mpr ?_⟩
  obtain ⟨e, he⟩ := exists_error_of_misphrased h hhides
  obtain ⟨part, hreaches, hfaulty⟩ := cursorFor_eq_error_iff.mp he
  cases hfaulty with
  | phrase => exact he
  | beginning => exact absurd hreaches.unbegun hbegun

/-- The phrase stands between two terms, of which one is stored and the other stands in an alternative. -/
theorem search_misphrased_between_terms :
    let s : Store := { postings := ⟨[([0x78], IdList.encode [1])], List.pairwise_singleton ..⟩ }
    let phrase : Query := .composite .phrase [.term [0x78], .startsWith [0x79]]
    let q : Query := .composite .or [.term [0x7A], .composite .and [.term [0x78], phrase]]
    (q.Misphrased ∧ ¬ s.Hides q ∧ ¬ q.Unbegun) ∧ s.search q none = .error .phraseNotOfTerms := by
  intro s phrase q
  have hstored : s.cursorFor (.term [0x78]) = .ok (some (Cursor.ofIds [1])) := by
    rw [cursorFor, termCursor?]
    have hids : s.idsWith [0x78] = [1] := readIds_encode (by decide)
    rw [hids]
    rfl
  have hsecond : ∀ a b : Query, b ∈ [a, b] := fun a b => List.mem_cons_of_mem a List.mem_cons_self
  have hphrase : s.cursorFor phrase = .error .phraseNotOfTerms :=
    cursorFor_phrase_eq_error_iff.mpr ⟨rfl, .startsWith [0x79], hsecond _ _, rfl⟩
  have hmisphrased : q.Misphrased := .inside (hsecond _ _) (.inside (hsecond _ phrase) (.phrase (hsecond _ _) rfl))
  have hhides : ¬ s.Hides q := by
    intro h
    simp only [q, phrase] at h
    cases h with
    | inside hmem h =>
      rcases List.mem_pair.mp hmem with rfl | rfl
      · cases h
      · cases h with
        | here _ _ hmem hnone =>
          rcases List.mem_pair.mp hmem with rfl | rfl
          · cases hstored.symm.trans hnone
          · cases hphrase.symm.trans hnone
        | inside hmem h =>
          rcases List.mem_pair.mp hmem with rfl | rfl
          · cases h
          · cases h with
            | inside hmem h =>
              rcases List.mem_pair.mp hmem with rfl | rfl
              · cases h
              · cases h
  have hbegun : ¬ q.Unbegun := by
    intro h
    simp only [q, phrase] at h
    cases h with
    | inside _ hmem h =>
      rcases List.mem_pair.mp hmem with rfl | rfl
      · cases h
      · cases h with
        | inside _ hmem h =>
          rcases List.mem_pair.mp hmem with rfl | rfl
          · cases h
          · cases h with
            | inside hhow => exact hhow rfl
  exact ⟨⟨hmisphrased, hhides, hbegun⟩, (search_misphrased s q none).2 hmisphrased hhides hbegun⟩

/-- An operand that cannot match hides the phrase after it, and an empty beginning is refused instead of it; neither
does so to a phrase before it. -/
theorem search_misphrased_behind_another_operand :
    let phrase : Query := .composite .phrase [.startsWith [0x79]]
    (Query.composite .and [.term [0x78], phrase]).Misphrased ∧
      (∅ : Store).search (.composite .and [.term [0x78], phrase]) none = .ok [] ∧
      (∅ : Store).search (.composite .and [phrase, .term [0x78]]) none = .error .phraseNotOfTerms ∧
      (Query.composite .or [.startsWith [], phrase]).Misphrased ∧
      (∅ : Store).search (.composite .or [.startsWith [], phrase]) none = .error (.storage .keySize) ∧
      (∅ : Store).search (.composite .or [phrase, .startsWith []]) none = .error .phraseNotOfTerms := by
  intro phrase
  have hmisphrased : ∀ how first, (Query.composite how [first, phrase]).Misphrased := fun _ first =>
    .inside (List.mem_cons_of_mem first List.mem_cons_self) (.phrase List.mem_cons_self rfl)
  exact ⟨hmisphrased _ _, rfl, rfl, hmisphrased _ _, rfl, rfl⟩

end Store
end FileIndex
