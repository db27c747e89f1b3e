import FileIndex.Bytes

/-!
# UTF-8

* `Utf8.scan`: the characters of a byte string, with `none` for each longest run of bytes that
  begins a character without completing it, or that begins none.
* `Utf8.decode?`: the text of a well-formed byte string.
* `Utf8.lossy`: the text of any byte string, with U+FFFD for each ill-formed run.
* `Utf8.encode`: the bytes of a text.
-/

namespace FileIndex.Utf8

/-- Reads the last `count` bytes of a character, the next of them in `low..high` and the others in
`80..BF`; `code` holds the bits read so far. A byte out of range is left unread. -/
def scanTail : (count : Nat) → (low high : UInt8) → (code : Nat) → Bytes → Option Char × Bytes
  | 0, _, _, code, bs => (some (Char.ofNat code), bs)
  | _ + 1, _, _, _, [] => (none, [])
  | count + 1, low, high, code, b :: bs =>
    if low ≤ b ∧ b ≤ high then scanTail count 0x80 0xBF (64 * code + (b.toNat - 0x80)) bs
    else (none, b :: bs)

/-- Reads the character that begins with the byte `b`, and what follows it. -/
def scanChar (b : UInt8) (bs : Bytes) : Option Char × Bytes :=
  if b < 0x80 then (some (Char.ofNat b.toNat), bs)
  else if b < 0xC2 then (none, bs)
  else if b < 0xE0 then scanTail 1 0x80 0xBF (b.toNat - 0xC0) bs
  else if b = 0xE0 then scanTail 2 0xA0 0xBF 0x0 bs
  else if b = 0xED then scanTail 2 0x80 0x9F 0xD bs
  else if b < 0xF0 then scanTail 2 0x80 0xBF (b.toNat - 0xE0) bs
  else if b = 0xF0 then scanTail 3 0x90 0xBF 0x0 bs
  else if b < 0xF4 then scanTail 3 0x80 0xBF (b.toNat - 0xF0) bs
  else if b = 0xF4 then scanTail 3 0x80 0x8F 0x4 bs
  else (none, bs)

theorem length_scanTail (count : Nat) (low high : UInt8) (code : Nat) (bs : Bytes) :
    (scanTail count low high code bs).2.length ≤ bs.length := by
  induction count generalizing low high code bs with
  | zero => simp [scanTail]
  | succ count ih =>
    cases bs with
    | nil => simp [scanTail]
    | cons b bs =>
      rw [scanTail]
      split
      · exact Nat.le_succ_of_le (ih ..)
      · simp

theorem length_scanChar (b : UInt8) (bs : Bytes) : (scanChar b bs).2.length ≤ bs.length := by
  have tail (count : Nat) (low high : UInt8) (code : Nat) := length_scanTail count low high code bs
  grind [scanChar]

/-- The characters of a byte string, with `none` for each ill-formed run. -/
def scan : Bytes → List (Option Char)
  | [] => []
  | b :: bs => (scanChar b bs).1 :: scan (scanChar b bs).2
termination_by bs => bs.length
decreasing_by exact Nat.lt_succ_of_le (length_scanChar b bs)

/-- The text that well-formed bytes spell. -/
def decode? (bs : Bytes) : Option String := ((scan bs).mapM id).map String.ofList

/-- The text that the bytes spell, with the replacement character for each ill-formed run. -/
def lossy (bs : Bytes) : String := String.ofList ((scan bs).map (·.getD '\uFFFD'))

/-- The bytes of a text. -/
def encode (cs : List Char) : Bytes := cs.flatMap String.utf8EncodeChar

end FileIndex.Utf8
