import FileIndex.Bytes

/-!
# Comparisons with a reference value

* `Comparison.holds c value reference`: whether `value` compares to `reference` as asked.
* `signedDecimal?`: the number that a signed decimal text denotes, if it fits into 64 bits.
-/

namespace FileIndex

/-- The ways to compare a value with a reference. -/
inductive Comparison
  | less | lessEqual | equal | greaterEqual | greater
  deriving DecidableEq, Repr

/-- Whether `value` compares to `reference` as asked. -/
def Comparison.holds {α : Type} [LT α] [LE α] [DecidableLT α] [DecidableLE α] [DecidableEq α]
    (c : Comparison) (value reference : α) : Bool :=
  match c with
  | less => decide (value < reference)
  | lessEqual => decide (value ≤ reference)
  | equal => decide (value = reference)
  | greaterEqual => decide (reference ≤ value)
  | greater => decide (reference < value)

/-- Whether the byte is an ASCII digit. -/
def isDigit (b : UInt8) : Bool := 0x30 ≤ b && b ≤ 0x39

/-- The number that decimal digits denote; there is one digit at least. -/
def decimal? (bs : Bytes) : Option Nat :=
  if bs.isEmpty || !bs.all isDigit then none
  else some (bs.foldl (fun n b => 10 * n + (b.toNat - 0x30)) 0)

/-- The number that an optional sign and decimal digits denote, if it fits into 64 bits. -/
def signedDecimal? (bs : Bytes) : Option Int64 := do
  let n ← match bs with
    | 0x2B :: ds => (decimal? ds).map Int.ofNat
    | 0x2D :: ds => (decimal? ds).map fun n => -Int.ofNat n
    | ds => (decimal? ds).map Int.ofNat
  if Int64.minValue.toInt ≤ n ∧ n ≤ Int64.maxValue.toInt then some (Int64.ofInt n) else none

end FileIndex
