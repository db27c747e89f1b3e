import FileIndex.Error

/-!
# Numerals of variable length

A number is written in base 128, least significant digit first, with the high bit set on every
byte but the last. A 64-bit number takes one to ten bytes.

* `Varint.encode`, `Varint.decode`: writing and reading one number.
* `Varint.decode_shortens`: reading takes at least one byte.
* `Varint.readBytes`: reading a run of bytes of given length.
-/

namespace FileIndex.Varint

/-- Writes `n` with at most `more` bytes before the last one. -/
def encodeDigits : (more n : Nat) → Bytes
  | 0, n => [UInt8.ofNat n]
  | more + 1, n =>
    if n < 128 then [UInt8.ofNat n]
    else UInt8.ofNat (n % 128 + 128) :: encodeDigits more (n / 128)

/-- The shortest numeral of `v`. -/
def encode (v : UInt64) : Bytes := encodeDigits 9 v.toNat

/-- Reads a numeral with at most `more` bytes before the last one. The last place that can be
reached holds one bit, as nine places of seven bits come before it. -/
def decodeDigits : (more : Nat) → Bytes → Except Malformed (Nat × Bytes)
  | _, [] => .error .numeralCutOff
  | 0, b :: bs => if b < 2 then .ok (b.toNat, bs) else .error .numeralTooLarge
  | more + 1, b :: bs =>
    if b < 128 then .ok (b.toNat, bs)
    else match decodeDigits more bs with
      | .error cause => .error cause
      | .ok (high, rest) => .ok (b.toNat - 128 + 128 * high, rest)

/-- Reads the numeral at the start of the bytes; answers the number and the bytes after it. -/
def decode (bs : Bytes) : Except Malformed (UInt64 × Bytes) :=
  match decodeDigits 9 bs with
  | .error cause => .error cause
  | .ok (n, rest) => .ok (UInt64.ofNat n, rest)

/-- Reads the first `count` bytes. -/
def readBytes (count : Nat) (bs : Bytes) : Except Malformed (Bytes × Bytes) :=
  if count ≤ bs.length then .ok (bs.take count, bs.drop count) else .error .runCutOff

theorem decodeDigits_shortens {more : Nat} {bs rest : Bytes} {n : Nat}
    (h : decodeDigits more bs = .ok (n, rest)) : rest.length < bs.length := by
  induction more generalizing bs n rest with
  | zero =>
    cases bs with
    | nil => simp [decodeDigits] at h
    | cons b bs => grind [decodeDigits]
  | succ more ih =>
    cases bs with
    | nil => simp [decodeDigits] at h
    | cons b bs =>
      rw [decodeDigits] at h
      split at h
      · simp_all
      · split at h
        · simp at h
        · rename_i hr
          have := ih hr
          simp only [Except.ok.injEq, Prod.mk.injEq] at h
          simp [← h.2]
          omega

/-- A numeral takes at least one byte. -/
theorem decode_shortens {bs rest : Bytes} {v : UInt64} (h : decode bs = .ok (v, rest)) :
    rest.length < bs.length := by
  unfold decode at h
  split at h
  · simp at h
  · rename_i hr
    simp only [Except.ok.injEq, Prod.mk.injEq] at h
    exact h.2 ▸ decodeDigits_shortens hr

theorem readBytes_length {count : Nat} {bs run rest : Bytes}
    (h : readBytes count bs = .ok (run, rest)) : rest.length ≤ bs.length := by
  unfold readBytes at h
  split at h
  · simp only [Except.ok.injEq, Prod.mk.injEq] at h
    simp [← h.2]
  · simp at h

end FileIndex.Varint
