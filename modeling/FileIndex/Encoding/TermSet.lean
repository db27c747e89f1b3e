import FileIndex.Ascending
import FileIndex.Encoding.Varint

/-!
# Term sets

A set of terms is stored in ascending order. Each term is written as the number of leading bytes
that it shares with the term before it, the number of its other bytes, and those bytes.

* `TermSet.encode`, `TermSet.decode`: writing and reading a set.
-/

namespace FileIndex.TermSet

/-- The number of leading bytes that two terms share. -/
def shared : Bytes → Bytes → Nat
  | a :: as, b :: bs => if a = b then shared as bs + 1 else 0
  | _, _ => 0

/-- Writes the terms in the given order; `previous` comes before the first of them. -/
def encodeAfter (previous : Bytes) : List Bytes → Bytes
  | [] => []
  | t :: ts =>
    let same := shared previous t
    Varint.encode (UInt64.ofNat same) ++ Varint.encode (UInt64.ofNat (t.length - same)) ++
      t.drop same ++ encodeAfter t ts

/-- Writes the set of the given terms. -/
def encode (terms : List Bytes) : Bytes := encodeAfter [] (Ascending.ofList terms)

/-- Reads the terms that follow `previous`; no term shares more than all of the one before it. -/
def decodeAfter (previous : Bytes) (bs : Bytes) : Except Malformed (List Bytes) :=
  if bs.isEmpty then .ok []
  else match _h : Varint.decode bs with
    | .error cause => .error cause
    | .ok (same, bs') =>
      match _h' : Varint.decode bs' with
      | .error cause => .error cause
      | .ok (size, bs'') =>
        match _h'' : Varint.readBytes size.toNat bs'' with
        | .error cause => .error cause
        | .ok (tail, rest) =>
          let term := previous.take same.toNat ++ tail
          (decodeAfter term rest).map (term :: ·)
termination_by bs.length
decreasing_by
  have := Varint.decode_shortens _h
  have := Varint.decode_shortens _h'
  have := Varint.readBytes_length _h''
  omega

/-- Reads a set of terms. -/
def decode (bs : Bytes) : Except Malformed (List Bytes) := decodeAfter [] bs

end FileIndex.TermSet
