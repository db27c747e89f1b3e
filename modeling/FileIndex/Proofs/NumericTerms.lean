import FileIndex.Proofs.ModificationTimes
import Mathlib.Data.Nat.Digits.Defs

/-!
# Terms that end in a number

A search for numbers looks through the terms with a beginning and takes those whose rest denotes a number that
compares as asked. What a text denotes is told here by the positional value of its digits. Several texts denote one
number, as zeros may stand in front of it, but no text denotes two.

* `Numeral`, `Denotes`: the digits of a number, and an optional sign before them. `Denotes.unique`: there is one number.
* `decimal?_eq_some_iff`, `signedDecimal?_eq_some_iff`: that is what is read.
* `Store.NumericTerm`, `Store.Selects`, `Store.HasNumber`: the stored terms that are taken for a comparison, and their
  documents.
* `Store.selects_less_or_greaterEqual`, `Store.selects_lessEqual_iff`: how the ways to compare share them out.
* `Store.enumerates_comparisonCursor?`: a cursor goes through just these documents.
* `Store.numbers_compared`: all of that, for any lists of ids that are sorted.
-/

namespace FileIndex

/-! ### Texts of numbers -/

/-- The text is made of the decimal digits of the number, the most significant one first. There is one digit at
least, and there may be zeros in front. -/
def Numeral (text : Bytes) (n : Nat) : Prop :=
  text ≠ [] ∧ (∀ b ∈ text, 0x30 ≤ b ∧ b ≤ 0x39) ∧ n = Nat.ofDigits 10 (text.reverse.map fun b => b.toNat - 0x30)

/-- The text is a numeral with a sign or without. -/
inductive Denotes : Bytes → Int → Prop
  | unsigned {ds : Bytes} {n : Nat} : Numeral ds n → Denotes ds n
  | plus {ds : Bytes} {n : Nat} : Numeral ds n → Denotes (0x2B :: ds) n
  | minus {ds : Bytes} {n : Nat} : Numeral ds n → Denotes (0x2D :: ds) (-n)

theorem decimal?_eq_some_iff {text : Bytes} {n : Nat} : decimal? text = some n ↔ Numeral text n := by
  have hvalue : text.foldl (fun n b => 10 * n + (b.toNat - 0x30)) 0 =
      Nat.ofDigits 10 (text.reverse.map fun b => b.toNat - 0x30) := by
    rw [Nat.ofDigits_eq_foldr, List.foldr_map, List.foldr_reverse]
    simp only [Nat.cast_id, Nat.add_comm]
  have hdigits : text.all isDigit = true ↔ ∀ b ∈ text, 0x30 ≤ b ∧ b ≤ 0x39 := by
    simp [isDigit]
  unfold decimal? Numeral
  rw [hvalue, ← hdigits]
  by_cases hrefused : (text.isEmpty || !text.all isDigit) = true
  · rw [if_pos hrefused]
    refine iff_of_false nofun fun ⟨hne, hall, _⟩ => ?_
    simp [hne, hall] at hrefused
  · rw [if_neg hrefused, Option.some.injEq]
    simp only [Bool.or_eq_true, List.isEmpty_iff, Bool.not_eq_true', not_or, Bool.not_eq_false] at hrefused
    exact ⟨fun heq => ⟨hrefused.1, hrefused.2, heq.symm⟩, fun ⟨_, _, heq⟩ => heq.symm⟩

theorem Numeral.head_ne {b : UInt8} {ds : Bytes} {n : Nat} (h : Numeral (b :: ds) n) : b ≠ 0x2B ∧ b ≠ 0x2D := by
  obtain ⟨hlow, _⟩ := h.2.1 b List.mem_cons_self
  constructor <;> rintro rfl <;> exact absurd hlow (by decide)

/-- The number of a text, whatever its size. -/
def number? (text : Bytes) : Option Int :=
  match text with
  | 0x2B :: ds => (decimal? ds).map Int.ofNat
  | 0x2D :: ds => (decimal? ds).map fun n => -Int.ofNat n
  | ds => (decimal? ds).map Int.ofNat

theorem number?_of_unsigned {text : Bytes} (hplus : ∀ ds, text ≠ 0x2B :: ds) (hminus : ∀ ds, text ≠ 0x2D :: ds) :
    number? text = (decimal? text).map Int.ofNat := by
  unfold number?
  split
  · exact absurd rfl (hplus _)
  · exact absurd rfl (hminus _)
  · rfl

theorem number?_eq_some_iff {text : Bytes} {z : Int} : number? text = some z ↔ Denotes text z := by
  unfold number?
  split
  · rename_i ds
    rw [Option.map_eq_some_iff]
    constructor
    · rintro ⟨n, hn, rfl⟩
      exact .plus (decimal?_eq_some_iff.mp hn)
    · intro h
      cases h with
      | unsigned h => exact absurd rfl h.head_ne.1
      | plus h => exact ⟨_, decimal?_eq_some_iff.mpr h, rfl⟩
  · rename_i ds
    rw [Option.map_eq_some_iff]
    constructor
    · rintro ⟨n, hn, rfl⟩
      exact .minus (decimal?_eq_some_iff.mp hn)
    · intro h
      cases h with
      | unsigned h => exact absurd rfl h.head_ne.2
      | minus h => exact ⟨_, decimal?_eq_some_iff.mpr h, rfl⟩
  · rename_i hplus hminus
    rw [Option.map_eq_some_iff]
    constructor
    · rintro ⟨n, hn, rfl⟩
      exact .unsigned (decimal?_eq_some_iff.mp hn)
    · intro h
      cases h with
      | unsigned h => exact ⟨_, decimal?_eq_some_iff.mpr h, rfl⟩
      | plus h => exact absurd rfl (hplus _)
      | minus h => exact absurd rfl (hminus _)

theorem Denotes.unique {text : Bytes} {z z' : Int} (h : Denotes text z) (h' : Denotes text z') : z = z' :=
  Option.some.inj ((number?_eq_some_iff.mpr h).symm.trans (number?_eq_some_iff.mpr h'))

/-- What is read of a text is the number that it denotes, if this fits into 64 bits. -/
theorem signedDecimal?_eq_some_iff {text : Bytes} {n : Int64} :
    signedDecimal? text = some n ↔ Denotes text n.toInt := by
  have hread : signedDecimal? text = (number? text).bind fun z =>
      if Int64.minValue.toInt ≤ z ∧ z ≤ Int64.maxValue.toInt then some (Int64.ofInt z) else none := by
    unfold signedDecimal?
    split
    · rfl
    · rfl
    · rename_i hplus hminus
      rw [number?_of_unsigned hplus hminus]
      rfl
  rw [hread, Option.bind_eq_some_iff]
  constructor
  · rintro ⟨z, hz, hfits⟩
    split at hfits
    · rename_i hrange
      rw [Int64.toInt_minValue, Int64.toInt_maxValue] at hrange
      cases hfits
      rw [Int64.toInt_ofInt_of_le hrange.1 (by omega)]
      exact number?_eq_some_iff.mp hz
    · cases hfits
  · intro h
    refine ⟨n.toInt, number?_eq_some_iff.mpr h, ?_⟩
    rw [if_pos ⟨n.minValue_le_toInt, n.toInt_le⟩, Int64.ofInt_toInt]

/-- Numbers of 64 bits compare as their values. -/
theorem Comparison.holds_toInt (c : Comparison) (n reference : Int64) :
    c.holds n.toInt reference.toInt = c.holds n reference := by
  cases c with
  | less | lessEqual | equal | greaterEqual | greater =>
    simp only [holds, Int64.lt_iff_toInt_lt, Int64.le_iff_toInt_le, Int64.toInt_inj]

/-! ### Searching for numbers -/

namespace Store

variable {s : Store} {beginning term : Bytes} {reference : Int64} {c : Comparison}

/-- The term is the beginning and a text that denotes the number, which fits into 64 bits. -/
def NumericTerm (beginning term : Bytes) (n : Int) : Prop :=
  (∃ text, term = beginning ++ text ∧ Denotes text n) ∧ -2 ^ 63 ≤ n ∧ n < 2 ^ 63

/-- The term is stored and ends in a number that compares as asked. -/
def Selects (s : Store) (beginning : Bytes) (reference : Int64) (c : Comparison) (term : Bytes) : Prop :=
  s.postings.contains term = true ∧ ∃ n, NumericTerm beginning term n ∧ c.holds n reference.toInt = true

theorem NumericTerm.unique {n n' : Int} (h : NumericTerm beginning term n) (h' : NumericTerm beginning term n') :
    n = n' := by
  obtain ⟨⟨text, rfl, hn⟩, _⟩ := h
  obtain ⟨⟨text', hterm, hn'⟩, _⟩ := h'
  exact hn.unique (List.append_cancel_left hterm ▸ hn')

/-- Where a number is read, the term is taken for it. -/
theorem selects_append_iff {text : Bytes} : s.Selects beginning reference c (beginning ++ text) ↔
    s.postings.contains (beginning ++ text) = true ∧ (match signedDecimal? text with
      | some n => c.holds n reference
      | none => false) = true := by
  refine and_congr_right fun _ => ⟨?_, fun hwanted => ?_⟩
  · rintro ⟨n, ⟨⟨text', hterm, hn⟩, hlow, hhigh⟩, hholds⟩
    cases List.append_cancel_left hterm
    have hvalue : (Int64.ofInt n).toInt = n := Int64.toInt_ofInt_of_le hlow hhigh
    rw [signedDecimal?_eq_some_iff.mpr (hvalue.symm ▸ hn)]
    show c.holds (Int64.ofInt n) reference = true
    rw [← Comparison.holds_toInt, hvalue]
    exact hholds
  · cases hread : signedDecimal? text with
    | none =>
      rw [hread] at hwanted
      cases hwanted
    | some n =>
      rw [hread] at hwanted
      refine ⟨n.toInt, ⟨⟨text, rfl, signedDecimal?_eq_some_iff.mp hread⟩, n.le_toInt, n.toInt_lt⟩, ?_⟩
      rw [Comparison.holds_toInt]
      exact hwanted

/-- The document has a stored term that ends in a number that compares as asked. -/
def HasNumber (s : Store) (beginning : Bytes) (reference : Int64) (c : Comparison) (id : DocId) : Prop :=
  ∃ term, s.Selects beginning reference c term ∧ id ∈ s.idsWith term

/-- Each stored term with a number is taken either as less or as not less. -/
theorem selects_less_or_greaterEqual (s : Store) (beginning : Bytes) (reference : Int64) (term : Bytes) :
    ((s.postings.contains term = true ∧ ∃ n, NumericTerm beginning term n) ↔
      s.Selects beginning reference .less term ∨ s.Selects beginning reference .greaterEqual term) ∧
    ¬ (s.Selects beginning reference .less term ∧ s.Selects beginning reference .greaterEqual term) := by
  constructor
  · constructor
    · rintro ⟨hstored, n, hn⟩
      rcases lt_or_ge n reference.toInt with hlt | hge
      · exact .inl ⟨hstored, n, hn, decide_eq_true hlt⟩
      · exact .inr ⟨hstored, n, hn, decide_eq_true hge⟩
    · rintro (⟨hstored, n, hn, _⟩ | ⟨hstored, n, hn, _⟩) <;> exact ⟨hstored, n, hn⟩
  · rintro ⟨⟨_, n, hn, hlt⟩, _, n', hn', hge⟩
    cases hn.unique hn'
    exact absurd (of_decide_eq_true hge) (Int.not_le.mpr (of_decide_eq_true hlt))

/-- A term is taken as less or equal if it is taken as less or as equal. -/
theorem selects_lessEqual_iff : s.Selects beginning reference .lessEqual term ↔
    s.Selects beginning reference .less term ∨ s.Selects beginning reference .equal term := by
  constructor
  · rintro ⟨hstored, n, hn, hle⟩
    rcases lt_or_eq_of_le (of_decide_eq_true hle) with hlt | heq
    · exact .inl ⟨hstored, n, hn, decide_eq_true hlt⟩
    · exact .inr ⟨hstored, n, hn, decide_eq_true heq⟩
  · rintro (⟨hstored, n, hn, hlt⟩ | ⟨hstored, n, hn, heq⟩)
    · exact ⟨hstored, n, hn, decide_eq_true (Int.le_of_lt (of_decide_eq_true hlt))⟩
    · exact ⟨hstored, n, hn, decide_eq_true (Int.le_of_eq (of_decide_eq_true heq))⟩

theorem hasNumber_lessEqual_iff {id : DocId} : s.HasNumber beginning reference .lessEqual id ↔
    s.HasNumber beginning reference .less id ∨ s.HasNumber beginning reference .equal id := by
  unfold HasNumber
  simp only [selects_lessEqual_iff, or_and_right, exists_or]

/-- The cursor for a comparison goes through the documents of the terms that are taken. -/
theorem enumerates_comparisonCursor? (hids : ∀ t, (s.idsWith t).Pairwise (· < ·) ∧ 0 ∉ s.idsWith t)
    (hne : beginning ≠ []) (reference : Int64) (c : Comparison) :
    ∃ cursor?, s.comparisonCursor? beginning reference c = .ok cursor? ∧
      Enumerates cursor? (s.HasNumber beginning reference c) := by
  let wanted : Bytes → Bool := fun text => match signedDecimal? text with
    | some n => c.holds n reference
    | none => false
  obtain ⟨cursor?, hcursor, hfinds, hsome⟩ := finds_restCursor? hids hne wanted
  refine ⟨cursor?, hcursor, (enumerates_of_finds hfinds hsome).congr fun id => ⟨?_, ?_⟩⟩
  · rintro ⟨text, hwanted, hstored, hid⟩
    exact ⟨beginning ++ text, selects_append_iff.mpr ⟨hstored, hwanted⟩, hid⟩
  · rintro ⟨term, hselects, hid⟩
    obtain ⟨n, ⟨⟨text, rfl, _⟩, _⟩, _⟩ := hselects.2
    obtain ⟨hstored, hwanted⟩ := selects_append_iff.mp hselects
    exact ⟨text, hwanted, hstored, hid⟩

/-- However numbers are to compare with the reference: the documents of the stored terms that are the beginning with
such a number are answered in ascending order, each once, and there is no cursor if there are none. What is less and
what is not less share out all stored terms with numbers. The documents with a number that is less or equal are those
with one that is less and those with one that is equal. -/
theorem numbers_compared (s : Store) (beginning : Bytes) (reference : Int64)
    (hids : ∀ t, (s.idsWith t).Pairwise (· < ·) ∧ 0 ∉ s.idsWith t) (hne : beginning ≠ []) :
    (∀ c, ∃ cursor?, s.comparisonCursor? beginning reference c = .ok cursor? ∧
      Enumerates cursor? (s.HasNumber beginning reference c)) ∧
    (∀ term, ((s.postings.contains term = true ∧ ∃ n, NumericTerm beginning term n) ↔
        s.Selects beginning reference .less term ∨ s.Selects beginning reference .greaterEqual term) ∧
      ¬ (s.Selects beginning reference .less term ∧ s.Selects beginning reference .greaterEqual term)) ∧
    ∀ id, s.HasNumber beginning reference .lessEqual id ↔
      s.HasNumber beginning reference .less id ∨ s.HasNumber beginning reference .equal id :=
  ⟨enumerates_comparisonCursor? hids hne reference, selects_less_or_greaterEqual s beginning reference,
    fun _ => hasNumber_lessEqual_iff⟩

/-- Two terms with one number, one of them with a document more, and terms without a number or with one that is too
large. -/
theorem numbers_compared_with_five :
    let s : Store := { postings := ⟨[
      ([0x72], IdList.encode [7]),
      ([0x72, 0x2B, 0x30, 0x35], IdList.encode [2, 3]),
      ([0x72, 0x2D, 0x31], IdList.encode [3, 4]),
      ([0x72, 0x35], IdList.encode [1, 3]),
      (0x72 :: List.replicate 19 0x39, IdList.encode [5]),
      ([0x72, 0x78], IdList.encode [6])], by decide⟩ }
    ((∀ t, (s.idsWith t).Pairwise (· < ·) ∧ 0 ∉ s.idsWith t) ∧ ([0x72] : Bytes) ≠ []) ∧
    (∀ c, ∃ cursor?, s.comparisonCursor? [0x72] 5 c = .ok cursor? ∧ Enumerates cursor? (s.HasNumber [0x72] 5 c)) ∧
    (∀ term, ((s.postings.contains term = true ∧ ∃ n, NumericTerm [0x72] term n) ↔
        s.Selects [0x72] 5 .less term ∨ s.Selects [0x72] 5 .greaterEqual term) ∧
      ¬ (s.Selects [0x72] 5 .less term ∧ s.Selects [0x72] 5 .greaterEqual term)) ∧
    ∀ id, s.HasNumber [0x72] 5 .lessEqual id ↔ s.HasNumber [0x72] 5 .less id ∨ s.HasNumber [0x72] 5 .equal id := by
  intro s
  have hread : ∀ e ∈ s.postings.entries, (readIds e.2).Pairwise (· < ·) ∧ 0 ∉ readIds e.2 := by
    intro e he
    have hentries : e ∈ s.postings.entries := he
    simp only [s, List.mem_cons, List.not_mem_nil, or_false] at hentries
    rcases hentries with rfl | rfl | rfl | rfl | rfl | rfl <;> rw [readIds_encode (by decide)] <;> decide
  have hids : ∀ t, (s.idsWith t).Pairwise (· < ·) ∧ 0 ∉ s.idsWith t := (Sorted.of_entries hread nofun).ids
  exact ⟨⟨hids, List.cons_ne_nil _ _⟩, numbers_compared s [0x72] 5 hids (List.cons_ne_nil _ _)⟩

end Store
end FileIndex
