/-!
# Byte strings

* `Bytes`: a byte string is a list of bytes, ordered as lists are: bytewise, a proper
  beginning before its extensions.
* `Bytes.bigEndian`, `Bytes.littleEndian`: a number as a given count of bytes, most or least
  significant first.
* `Bytes.ofBigEndian`, `Bytes.ofLittleEndian`: the number that such bytes stand for.
-/

namespace FileIndex

/-- A byte string, compared bytewise. -/
abbrev Bytes := List UInt8

/-- Identifies a document or a folder. No document has the id 0. -/
abbrev DocId := UInt64

namespace Bytes

/-- The last `width` base-256 digits of `n`, least significant first. -/
def littleEndian : (width n : Nat) → Bytes
  | 0, _ => []
  | width + 1, n => UInt8.ofNat n :: littleEndian width (n / 256)

/-- The last `width` base-256 digits of `n`, most significant first. -/
def bigEndian (width n : Nat) : Bytes := (littleEndian width n).reverse

/-- The number whose base-256 digits are `bs`, least significant first. -/
def ofLittleEndian : Bytes → Nat
  | [] => 0
  | b :: bs => b.toNat + 256 * ofLittleEndian bs

/-- The number whose base-256 digits are `bs`, most significant first. -/
def ofBigEndian (bs : Bytes) : Nat := ofLittleEndian bs.reverse

@[simp] theorem length_littleEndian (width n : Nat) : (littleEndian width n).length = width := by
  induction width generalizing n with
  | zero => rfl
  | succ width ih => simp [littleEndian, ih]

@[simp] theorem length_bigEndian (width n : Nat) : (bigEndian width n).length = width := by
  simp [bigEndian]

@[simp] theorem ofBigEndian_bigEndian (width n : Nat) :
    ofBigEndian (bigEndian width n) = ofLittleEndian (littleEndian width n) := by
  simp [ofBigEndian, bigEndian]

end Bytes
end FileIndex
