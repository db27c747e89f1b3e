import FileIndex.Proofs.Encoding.Sets
import Mathlib.Data.Nat.Digits.Defs

/-!
# The format of numerals

A numeral is told by its bytes alone: it ends with the first byte that has not the high bit, and the low seven bits
of its bytes are the digits of a number in base 128. Reading accepts every such numeral of at most ten bytes whose
number fits into 64 bits, also one that ends in needless zeros, and refuses everything else. Writing takes the one
numeral of a number that has no needless digits.

* `Varint.IsNumeral`: the bytes of a numeral and its number. `isNumeral_singleton`, `isNumeral_cons`: digit by digit.
* `Varint.decodeDigits_eq_ok_iff`, `Varint.decode_eq_ok_iff`: what is read is a numeral that has room.
* `Varint.unparsed_decode_iff`: what is refused.
* `Varint.eq_encode_or_longer`: the numeral that is written is the shortest one.
* `Varint.decodeAll`: reading numerals until no bytes are left.
* `Varint.decode_numerals`: the format as a whole.
-/

namespace FileIndex.Varint

/-- The bytes are a numeral of the number: just the last of them has not the high bit, and their low seven bits are the
digits of the number in base 128, the least significant one first. -/
structure IsNumeral (digits : Bytes) (n : Nat) : Prop where
  ne_nil : digits ≠ []
  continued : ∀ i (h : i < digits.length), 128 ≤ digits[i] ↔ i + 1 < digits.length
  value : Nat.ofDigits 128 (digits.map fun b => b.toNat % 128) = n

variable {b : UInt8} {digits bs rest : Bytes} {v : UInt64} {more n : Nat}

/-! ### Digit by digit -/

theorem isNumeral_singleton : IsNumeral [b] n ↔ b < 128 ∧ n = b.toNat := by
  have hbyte : (128 : UInt8) ≤ b ↔ ¬ b < 128 := UInt8.not_lt.symm
  constructor
  · rintro ⟨_, hcontinued, hvalue⟩
    have hlast : b < 128 := by
      by_contra hhigh
      exact absurd ((hcontinued 0 Nat.zero_lt_one).mp (hbyte.mpr hhigh)) (by simp)
    have hdigit := UInt8.lt_iff_toNat_lt.mp hlast
    rw [List.map_singleton, Nat.ofDigits_singleton] at hvalue
    exact ⟨hlast, by rw [← hvalue]; exact Nat.mod_eq_of_lt hdigit⟩
  · rintro ⟨hlast, rfl⟩
    refine ⟨List.cons_ne_nil b [], fun i hi => ?_, ?_⟩
    · obtain rfl : i = 0 := Nat.lt_one_iff.mp hi
      exact ⟨fun hhigh => absurd hlast (hbyte.mp hhigh), fun hlt => absurd hlt (by simp)⟩
    · rw [List.map_singleton, Nat.ofDigits_singleton]
      exact Nat.mod_eq_of_lt (UInt8.lt_iff_toNat_lt.mp hlast)

theorem isNumeral_cons (hne : digits ≠ []) :
    IsNumeral (b :: digits) n ↔ ¬ b < 128 ∧ ∃ high, IsNumeral digits high ∧ n = b.toNat - 128 + 128 * high := by
  have hlength := List.length_pos_iff.mpr hne
  have hvalue : Nat.ofDigits 128 ((b :: digits).map fun b => b.toNat % 128) =
      b.toNat % 128 + 128 * Nat.ofDigits 128 (digits.map fun b => b.toNat % 128) := by
    rw [List.map_cons, Nat.ofDigits_cons]
  have hdigit : ¬ b < 128 → b.toNat % 128 = b.toNat - 128 := by
    intro hhigh
    have hle : 128 ≤ b.toNat := UInt8.le_iff_toNat_le.mp (UInt8.not_lt.mp hhigh)
    have hlt := b.toNat_lt
    omega
  constructor
  · rintro ⟨_, hcontinued, rfl⟩
    have hhigh : ¬ b < 128 := UInt8.not_lt.mpr ((hcontinued 0 (Nat.zero_lt_succ _)).mpr (by simpa using hlength))
    refine ⟨hhigh, _, ⟨hne, fun i hi => ?_, rfl⟩, by rw [hvalue, hdigit hhigh]⟩
    simpa using hcontinued (i + 1) (Nat.succ_lt_succ hi)
  · rintro ⟨hhigh, high, ⟨_, hcontinued, rfl⟩, rfl⟩
    refine ⟨List.cons_ne_nil b digits, fun i hi => ?_, by rw [hvalue, hdigit hhigh]⟩
    cases i with
    | zero => simpa using ⟨fun _ => hlength, fun _ => UInt8.not_lt.mp hhigh⟩
    | succ i => simpa using hcontinued i (Nat.lt_of_succ_lt_succ hi)

/-- What is read is a numeral that has room: in the number of its bytes, and in its number. -/
theorem decodeDigits_eq_ok_iff :
    decodeDigits more bs = .ok (n, rest) ↔
      ∃ digits, bs = digits ++ rest ∧ digits.length ≤ more + 1 ∧ IsNumeral digits n ∧ n < 2 * 128 ^ more := by
  induction more generalizing bs n with
  | zero =>
    constructor
    · intro h
      have hbound := lt_of_decodeDigits h
      cases bs with
      | nil => simp [decodeDigits] at h
      | cons b bs =>
        rw [decodeDigits] at h
        split at h
        · rename_i hlast
          cases h
          exact ⟨[b], rfl, Nat.le_refl 1, isNumeral_singleton.mpr ⟨UInt8.lt_trans hlast (by decide), rfl⟩, hbound⟩
        · cases h
    · rintro ⟨digits, rfl, hlength, hnumeral, hbound⟩
      obtain ⟨b, rfl⟩ := List.length_eq_one_iff.mp
        (Nat.le_antisymm hlength (List.length_pos_iff.mpr hnumeral.ne_nil))
      obtain ⟨_, rfl⟩ := isNumeral_singleton.mp hnumeral
      rw [List.singleton_append, decodeDigits, if_pos (UInt8.lt_iff_toNat_lt.mpr hbound)]
  | succ more ih =>
    rw [decodeDigits_succ_eq_ok]
    constructor
    · rintro ⟨b, bs', rfl, ⟨hlast, rfl, rfl⟩ | ⟨high, hlast, hhigh, rfl⟩⟩
      · have hdigit : b.toNat < 128 := UInt8.lt_iff_toNat_lt.mp hlast
        have hplaces : 0 < 128 ^ more := Nat.pow_pos (by omega)
        refine ⟨[b], rfl, Nat.le_add_left 1 _, isNumeral_singleton.mpr ⟨hlast, rfl⟩, ?_⟩
        rw [Nat.pow_succ]
        omega
      · obtain ⟨digits, rfl, hlength, hnumeral, hbound⟩ := ih.mp hhigh
        have hbyte := b.toNat_lt
        refine ⟨b :: digits, rfl, Nat.succ_le_succ hlength,
          (isNumeral_cons hnumeral.ne_nil).mpr ⟨hlast, high, hnumeral, rfl⟩, ?_⟩
        rw [Nat.pow_succ]
        omega
    · rintro ⟨digits, rfl, hlength, hnumeral, hbound⟩
      rcases digits with _ | ⟨b, _ | ⟨b', digits⟩⟩
      · exact absurd rfl hnumeral.ne_nil
      · obtain ⟨hlast, rfl⟩ := isNumeral_singleton.mp hnumeral
        exact ⟨b, rest, rfl, .inl ⟨hlast, rfl, rfl⟩⟩
      · obtain ⟨hlast, high, hhigh, rfl⟩ := (isNumeral_cons (List.cons_ne_nil b' digits)).mp hnumeral
        refine ⟨b, b' :: digits ++ rest, rfl, .inr ⟨high, hlast, ih.mpr ⟨b' :: digits, rfl, ?_, hhigh, ?_⟩, rfl⟩⟩
        · exact Nat.le_of_succ_le_succ hlength
        · rw [Nat.pow_succ] at hbound
          omega

/-! ### Numbers of 64 bits -/

theorem decode_eq_ok_iff :
    decode bs = .ok (v, rest) ↔ ∃ digits, bs = digits ++ rest ∧ digits.length ≤ 10 ∧ IsNumeral digits v.toNat := by
  have hsize : 2 * 128 ^ 9 = UInt64.size := rfl
  rw [decode_eq_ok]
  simp only [decodeDigits_eq_ok_iff, hsize]
  constructor
  · rintro ⟨n, ⟨digits, hbs, hlength, hnumeral, hbound⟩, rfl⟩
    have hn : (UInt64.ofNat n).toNat = n := UInt64.toNat_ofNat_of_lt hbound
    exact ⟨digits, hbs, hlength, hn.symm ▸ hnumeral⟩
  · rintro ⟨digits, hbs, hlength, hnumeral⟩
    exact ⟨v.toNat, ⟨digits, hbs, hlength, hnumeral, v.toNat_lt_size⟩, UInt64.ofNat_toNat.symm⟩

/-- Bytes are refused if each numeral that they begin with is too long or its number too large. -/
theorem unparsed_decode_iff :
    Unparsed (decode bs) ↔
      ∀ digits rest n, bs = digits ++ rest → digits.length ≤ 10 → IsNumeral digits n → UInt64.size ≤ n := by
  cases hread : decode bs with
  | error cause =>
    refine ⟨fun _ digits rest n hbs hlength hnumeral => ?_, fun _ => unparsed_error cause⟩
    by_contra hbound
    have hn := UInt64.toNat_ofNat_of_lt (Nat.lt_of_not_le hbound)
    have hok := decode_eq_ok_iff.mpr ⟨digits, hbs, hlength, hn.symm ▸ hnumeral⟩
    rw [hread] at hok
    cases hok
  | ok read =>
    obtain ⟨v, rest⟩ := read
    obtain ⟨digits, hbs, hlength, hnumeral⟩ := decode_eq_ok_iff.mp hread
    constructor
    · rintro ⟨e, he, _⟩
      cases he
    · intro hall
      exact absurd (hall digits rest _ hbs hlength hnumeral) (Nat.not_le.mpr v.toNat_lt_size)

theorem isNumeral_encode (v : UInt64) : (encode v).length ≤ 10 ∧ IsNumeral (encode v) v.toNat := by
  obtain ⟨digits, heq, hlength, hnumeral⟩ := decode_eq_ok_iff.mp (decode_encode v [])
  rw [List.append_cancel_right heq]
  exact ⟨hlength, hnumeral⟩

/-- Any other numeral of the number has more bytes than the one that is written. -/
theorem eq_encode_or_longer (h : IsNumeral digits v.toNat) : digits = encode v ∨ (encode v).length < digits.length := by
  by_cases hlength : digits.length ≤ 10
  · obtain ⟨n, hread, hv⟩ := decode_eq_ok.mp
      (decode_eq_ok_iff.mpr ⟨digits, (List.append_nil digits).symm, hlength, h⟩)
    have hn : (UInt64.ofNat n).toNat = n := UInt64.toNat_ofNat_of_lt (lt_of_decodeDigits hread)
    rw [encode, hv, hn]
    simpa only [List.append_nil, List.length_nil, Nat.add_zero] using encodeDigits_shortest hread
  · have hle := (isNumeral_encode v).1
    exact .inr (by omega)

/-! ### Numerals one after the other -/

/-- Reads numerals until no bytes are left. -/
def decodeAll (bs : Bytes) : Except Malformed (List UInt64) :=
  if bs.isEmpty then .ok []
  else match _h : decode bs with
    | .error cause => .error cause
    | .ok (v, rest) => (decodeAll rest).map (v :: ·)
termination_by bs.length
decreasing_by exact decode_shortens _h

theorem decodeAll_flatMap_encode (vs : List UInt64) : decodeAll (vs.flatMap encode) = .ok vs := by
  induction vs with
  | nil =>
    rw [List.flatMap_nil, decodeAll]
    rfl
  | cons v vs ih =>
    rw [List.flatMap_cons, decodeAll, isEmpty_encode_append]
    simp only [Bool.false_eq_true, if_false]
    split
    · rename_i heq
      rw [decode_encode] at heq
      cases heq
    · rename_i heq
      rw [decode_encode] at heq
      cases heq
      rw [ih]
      rfl

/-! ### The format as a whole -/

/-- Reading takes exactly the numerals of at most ten bytes whose number has 64 bits, whatever stands behind them, and
refuses all else. What is written for a number is its one shortest numeral. It is read back and what stands behind it is
left, so that numbers written one after the other are read back one by one. -/
theorem decode_numerals :
    (∀ bs v rest, decode bs = .ok (v, rest) ↔
      ∃ digits, bs = digits ++ rest ∧ digits.length ≤ 10 ∧ IsNumeral digits v.toNat) ∧
    (∀ bs, Unparsed (decode bs) ↔
      ∀ digits rest n, bs = digits ++ rest → digits.length ≤ 10 → IsNumeral digits n → UInt64.size ≤ n) ∧
    (∀ v, (encode v).length ≤ 10 ∧ IsNumeral (encode v) v.toNat ∧
      ∀ digits, IsNumeral digits v.toNat → digits = encode v ∨ (encode v).length < digits.length) ∧
    (∀ v rest, decode (encode v ++ rest) = .ok (v, rest)) ∧
    ∀ vs, decodeAll (vs.flatMap encode) = .ok vs :=
  ⟨fun _ _ _ => decode_eq_ok_iff, fun _ => unparsed_decode_iff,
    fun v => ⟨(isNumeral_encode v).1, (isNumeral_encode v).2, fun _ => eq_encode_or_longer⟩, decode_encode,
    decodeAll_flatMap_encode⟩

/-- The greatest number has ten bytes, and a greater one of ten bytes or a numeral of eleven is refused. So are
bytes that end before the numeral does. Needless zeros are read, but not written. -/
theorem decode_numerals_at_the_bounds :
    let front : Bytes := List.replicate 9 255
    decode (front ++ [1, 7]) = .ok (18446744073709551615, [7]) ∧ Unparsed (decode (front ++ [2])) ∧
      Unparsed (decode (front ++ [129, 0])) ∧ Unparsed (decode [128]) ∧ decode [133, 128, 0] = .ok (5, []) ∧
      (encode 5).length < 3 ∧ decodeAll (encode 18446744073709551615 ++ (encode 0 ++ [])) =
      .ok [18446744073709551615, 0] := by
  intro front
  obtain ⟨hreads, hrefuses, hshortest, _, hall⟩ := decode_numerals
  have hnumeral : IsNumeral [133, 128, 0] (5 : UInt64).toNat := ⟨by decide, by decide, by decide⟩
  refine ⟨?_, unparsed_error .numeralTooLarge, unparsed_error .numeralTooLarge, ?_, ?_, ?_, ?_⟩
  · exact (hreads _ _ _).mpr ⟨front ++ [1], rfl, by decide, by decide, by decide, by decide⟩
  · refine (hrefuses [128]).mpr fun digits rest n hbs _ hdigits => ?_
    rcases List.singleton_eq_append_iff.mp hbs with ⟨rfl, _⟩ | ⟨rfl, _⟩
    · exact absurd rfl hdigits.ne_nil
    · exact absurd (isNumeral_singleton.mp hdigits).1 (by decide)
  · exact (hreads _ _ _).mpr ⟨[133, 128, 0], rfl, by decide, hnumeral⟩
  · exact ((hshortest 5).2.2 _ hnumeral).resolve_left (by decide)
  · exact hall [18446744073709551615, 0]

end FileIndex.Varint
