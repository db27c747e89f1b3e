import FileIndex.Proofs.Encoding.Lists

/-!
# The format of occurrence lists

Distances between ids and between positions go round when they are written, and are checked when they are read. So a
list is either read back as it was written or refused, and what is refused is exactly a list that goes down somewhere.
The counts in front of the documents and of the positions say where a list ends: with bytes after it, or without its
last bytes, it is refused.

* `decodePositions_succ_eq_ok`, `decodeAfter_succ_eq_ok`, `decode_eq_ok`: what it takes to be read.
* `Extends`: a reader that leaves alone what stands after what it reads.
* `ascends_of_decode`: what is read ascends, whatever the bytes.
* `eq_of_decode_encode`, `decode_encode_of_not_ascends`: a list that was written is not read as another one.
* `decode_exact`: the format as a whole.
-/

namespace FileIndex

/-- A reader that leaves alone what stands after what it reads. -/
def Extends {α : Type} (read : Bytes → Except Malformed (α × Bytes)) : Prop :=
  ∀ {bs rest : Bytes} {a : α}, read bs = .ok (a, rest) → ∀ tail, read (bs ++ tail) = .ok (a, rest ++ tail)

namespace Varint

/-- A digit below 128 is the last one; any other stands for its low bits and leads to the next. -/
theorem decodeDigits_succ_eq_ok {more n : Nat} {bs rest : Bytes} :
    decodeDigits (more + 1) bs = .ok (n, rest) ↔
      ∃ b bs', bs = b :: bs' ∧ (b < 128 ∧ n = b.toNat ∧ rest = bs' ∨
        ∃ high, ¬ b < 128 ∧ decodeDigits more bs' = .ok (high, rest) ∧ n = b.toNat - 128 + 128 * high) := by
  constructor
  · intro h
    cases bs with
    | nil => simp [decodeDigits] at h
    | cons b bs =>
      rw [decodeDigits] at h
      by_cases hlast : b < 128
      · rw [if_pos hlast] at h
        cases h
        exact ⟨b, rest, rfl, .inl ⟨hlast, rfl, rfl⟩⟩
      · rw [if_neg hlast] at h
        cases hdigits : decodeDigits more bs with
        | error cause =>
          rw [hdigits] at h
          cases h
        | ok digits =>
          rw [hdigits] at h
          cases h
          exact ⟨b, bs, rfl, .inr ⟨digits.1, hlast, hdigits, rfl⟩⟩
  · rintro ⟨b, bs', rfl, ⟨hlast, rfl, rfl⟩ | ⟨high, hlast, hhigh, rfl⟩⟩
    · rw [decodeDigits, if_pos hlast]
    · rw [decodeDigits, if_neg hlast, hhigh]

theorem decodeDigits_extends (more : Nat) : Extends (decodeDigits more) := by
  induction more with
  | zero =>
    intro bs rest n h tail
    cases bs with
    | nil => simp [decodeDigits] at h
    | cons b bs =>
      rw [decodeDigits] at h
      rw [List.cons_append, decodeDigits]
      split at h
      · rename_i hlt
        cases h
        rw [if_pos hlt]
      · cases h
  | succ more ih =>
    intro bs rest n h tail
    apply decodeDigits_succ_eq_ok.mpr
    obtain ⟨b, bs', rfl, ⟨hlast, rfl, rfl⟩ | ⟨high, hlast, hhigh, rfl⟩⟩ := decodeDigits_succ_eq_ok.mp h
    · exact ⟨b, rest ++ tail, rfl, .inl ⟨hlast, rfl, rfl⟩⟩
    · exact ⟨b, bs' ++ tail, rfl, .inr ⟨high, hlast, ih hhigh tail, rfl⟩⟩

theorem decode_eq_ok {bs rest : Bytes} {v : UInt64} :
    decode bs = .ok (v, rest) ↔ ∃ n, decodeDigits 9 bs = .ok (n, rest) ∧ v = UInt64.ofNat n := by
  rw [decode]
  cases decodeDigits 9 bs with
  | error cause => simp
  | ok digits =>
    simp only [Except.ok.injEq, Prod.ext_iff]
    constructor
    · rintro ⟨rfl, rfl⟩
      exact ⟨digits.1, ⟨rfl, rfl⟩, rfl⟩
    · rintro ⟨n, ⟨rfl, rfl⟩, rfl⟩
      exact ⟨rfl, rfl⟩

theorem decode_extends : Extends decode := by
  intro bs rest v h tail
  obtain ⟨n, hdigits, hv⟩ := decode_eq_ok.mp h
  exact decode_eq_ok.mpr ⟨n, decodeDigits_extends 9 hdigits tail, hv⟩

end Varint

namespace OccurrenceList

/-! ### What it takes to be read -/

theorem bind_eq_ok {ε α β : Type} {read : Except ε α} {next : α → Except ε β} {b : β} :
    (read >>= next) = .ok b ↔ ∃ a, read = .ok a ∧ next a = .ok b := by
  cases read with
  | error e => simp [bind, Except.bind]
  | ok a => simp [bind, Except.bind]

theorem guard_eq_ok {ε α : Type} {p : Prop} [Decidable p] {read : Except ε α} {e : ε} {a : α} :
    (if p then read else throw e) = .ok a ↔ p ∧ read = .ok a := by
  split <;> simp_all [throw, throwThe, MonadExceptOf.throw]

theorem decodePositions_succ_eq_ok {count : Nat} {previous : UInt32} {bs rest : Bytes} {ps : List UInt32} :
    decodePositions (count + 1) previous bs = .ok (ps, rest) ↔
      ∃ gap bs' ps', Varint.decode bs = .ok (gap, bs') ∧ previous.toNat + gap.toNat < UInt32.size ∧
        decodePositions count (previous + gap.toUInt32) bs' = .ok (ps', rest) ∧
          ps = (previous + gap.toUInt32) :: ps' := by
  rw [decodePositions, bind_eq_ok]
  constructor
  · rintro ⟨⟨gap, bs'⟩, hgap, hread⟩
    obtain ⟨_, hread⟩ := guard_eq_ok.mp hread
    obtain ⟨hbound, hread⟩ := guard_eq_ok.mp hread
    obtain ⟨⟨ps', _⟩, hpositions, heq⟩ := bind_eq_ok.mp hread
    cases heq
    exact ⟨gap, bs', ps', hgap, hbound, hpositions, rfl⟩
  · rintro ⟨gap, bs', ps', hgap, hbound, hpositions, rfl⟩
    refine ⟨(gap, bs'), hgap, guard_eq_ok.mpr ⟨by omega, guard_eq_ok.mpr ⟨hbound, ?_⟩⟩⟩
    exact bind_eq_ok.mpr ⟨(ps', rest), hpositions, rfl⟩

theorem decodeAfter_succ_eq_ok {count : Nat} {previous : DocId} {bs rest : Bytes} {os : List Occurrence} :
    decodeAfter (count + 1) previous bs = .ok (os, rest) ↔
      ∃ gap size bs₁ bs₂ bs₃ ps os', Varint.decode bs = .ok (gap, bs₁) ∧ previous.toNat + gap.toNat < UInt64.size ∧
        Varint.decode bs₁ = .ok (size, bs₂) ∧ decodePositions size.toNat 0 bs₂ = .ok (ps, bs₃) ∧
          decodeAfter count (previous + gap) bs₃ = .ok (os', rest) ∧ os = ⟨previous + gap, ps⟩ :: os' := by
  rw [decodeAfter, bind_eq_ok]
  constructor
  · rintro ⟨⟨gap, bs₁⟩, hgap, hread⟩
    obtain ⟨hbound, hread⟩ := guard_eq_ok.mp hread
    obtain ⟨⟨size, bs₂⟩, hsize, hread⟩ := bind_eq_ok.mp hread
    obtain ⟨⟨ps, bs₃⟩, hpositions, hread⟩ := bind_eq_ok.mp hread
    obtain ⟨⟨os', _⟩, hafter, heq⟩ := bind_eq_ok.mp hread
    cases heq
    exact ⟨gap, size, bs₁, bs₂, bs₃, ps, os', hgap, hbound, hsize, hpositions, hafter, rfl⟩
  · rintro ⟨gap, size, bs₁, bs₂, bs₃, ps, os', hgap, hbound, hsize, hpositions, hafter, rfl⟩
    refine ⟨(gap, bs₁), hgap, guard_eq_ok.mpr ⟨hbound, bind_eq_ok.mpr ⟨(size, bs₂), hsize, ?_⟩⟩⟩
    exact bind_eq_ok.mpr ⟨(ps, bs₃), hpositions, bind_eq_ok.mpr ⟨(os', rest), hafter, rfl⟩⟩

/-- Bytes are read as a list exactly if they are used up by it. -/
theorem decode_eq_ok {bs : Bytes} {os : List Occurrence} (hbs : bs ≠ []) :
    decode bs = .ok os ↔
      ∃ count bs', Varint.decode bs = .ok (count, bs') ∧ decodeAfter count.toNat 0 bs' = .ok (os, []) := by
  rw [decode, if_neg (by simpa using hbs), bind_eq_ok]
  constructor
  · rintro ⟨⟨count, bs'⟩, hcount, hread⟩
    obtain ⟨⟨_, rest⟩, hafter, hread⟩ := bind_eq_ok.mp hread
    obtain ⟨hrest, heq⟩ := guard_eq_ok.mp hread
    cases heq
    obtain rfl := List.isEmpty_iff.mp hrest
    exact ⟨count, bs', hcount, hafter⟩
  · rintro ⟨count, bs', hcount, hafter⟩
    exact ⟨(count, bs'), hcount, bind_eq_ok.mpr ⟨(os, []), hafter, rfl⟩⟩

/-! ### Bytes after a list -/

theorem decodePositions_extends (count : Nat) (previous : UInt32) : Extends (decodePositions count previous) := by
  induction count generalizing previous with
  | zero =>
    intro bs rest ps h tail
    cases h
    rfl
  | succ count ih =>
    intro bs rest ps h tail
    obtain ⟨gap, bs', ps', hgap, hbound, hpositions, heq⟩ := decodePositions_succ_eq_ok.mp h
    apply decodePositions_succ_eq_ok.mpr
    exact ⟨gap, bs' ++ tail, ps', Varint.decode_extends hgap tail, hbound, ih _ hpositions tail, heq⟩

theorem decodeAfter_extends (count : Nat) (previous : DocId) : Extends (decodeAfter count previous) := by
  induction count generalizing previous with
  | zero =>
    intro bs rest os h tail
    cases h
    rfl
  | succ count ih =>
    intro bs rest os h tail
    obtain ⟨gap, size, bs₁, bs₂, bs₃, ps, os', hgap, hbound, hsize, hpositions, hafter, heq⟩ :=
      decodeAfter_succ_eq_ok.mp h
    apply decodeAfter_succ_eq_ok.mpr
    exact ⟨gap, size, bs₁ ++ tail, bs₂ ++ tail, bs₃ ++ tail, ps, os', Varint.decode_extends hgap tail, hbound,
      Varint.decode_extends hsize tail, decodePositions_extends _ _ hpositions tail, ih _ hafter tail, heq⟩

/-- Bytes that are read as a list are not read any more with bytes after them. -/
theorem decode_append {bs tail : Bytes} {os : List Occurrence} (h : decode bs = .ok os) (hbs : bs ≠ [])
    (htail : tail ≠ []) : decode (bs ++ tail) = .error .bytesLeft := by
  obtain ⟨count, bs', hcount, hafter⟩ := (decode_eq_ok hbs).mp h
  have hlonger := decodeAfter_extends _ _ hafter tail
  rw [decode, if_neg (by simp [hbs])]
  simp only [Varint.decode_extends hcount tail, hlonger, bind, Except.bind]
  rw [List.nil_append, if_neg (by simpa using htail)]
  rfl

/-! ### What is read ascends -/

theorem ascends_of_decodePositions {count : Nat} {previous : UInt32} {bs rest : Bytes} {ps : List UInt32}
    (h : decodePositions count previous bs = .ok (ps, rest)) :
    ps.length = count ∧ (previous :: ps).Pairwise (· ≤ ·) := by
  induction count generalizing previous bs ps with
  | zero =>
    cases h
    exact ⟨rfl, List.pairwise_singleton _ _⟩
  | succ count ih =>
    obtain ⟨gap, bs', ps', _, hbound, hpositions, rfl⟩ := decodePositions_succ_eq_ok.mp h
    obtain ⟨hlength, hascending⟩ := ih hpositions
    have hle : previous ≤ previous + gap.toUInt32 := by
      rw [UInt32.le_iff_toNat_le, UInt32.toNat_add, UInt64.toNat_toUInt32]
      simp only [UInt32.size] at hbound
      omega
    refine ⟨congrArg (· + 1) hlength,
      List.pairwise_cons.mpr ⟨List.forall_mem_cons.mpr ⟨hle, fun p hp => ?_⟩, hascending⟩⟩
    exact UInt32.le_trans hle (List.rel_of_pairwise_cons hascending hp)

theorem ascends_of_decodeAfter {count : Nat} {previous : DocId} {bs rest : Bytes} {os : List Occurrence}
    (h : decodeAfter count previous bs = .ok (os, rest)) : os.length = count ∧ Ascends previous os := by
  induction count generalizing previous bs os with
  | zero =>
    cases h
    exact ⟨rfl, List.pairwise_singleton _ _, nofun⟩
  | succ count ih =>
    obtain ⟨gap, size, _, _, _, ps, os', _, hbound, _, hpositions, hafter, rfl⟩ := decodeAfter_succ_eq_ok.mp h
    obtain ⟨hsize, hascending⟩ := ascends_of_decodePositions hpositions
    obtain ⟨hlength, hids, hrest⟩ := ih hafter
    have hle : previous ≤ previous + gap := by
      rw [UInt64.le_iff_toNat_le, UInt64.toNat_add]
      simp only [UInt64.size] at hbound
      omega
    refine ⟨congrArg (· + 1) hlength,
      List.pairwise_cons.mpr ⟨List.forall_mem_cons.mpr ⟨hle, fun id hid => ?_⟩, hids⟩, ?_⟩
    · exact UInt64.le_trans hle (List.rel_of_pairwise_cons hids hid)
    · exact List.forall_mem_cons.mpr ⟨⟨List.Pairwise.of_cons hascending, hsize ▸ size.toNat_lt_size⟩, hrest⟩

/-- Whatever the bytes, a list that is read from them ascends, and so do the positions of each document. -/
theorem ascends_of_decode {bs : Bytes} {os : List Occurrence} (h : decode bs = .ok os) :
    Ascends 0 os ∧ os.length < UInt64.size := by
  by_cases hbs : bs = []
  · subst hbs
    cases h
    exact ⟨⟨List.pairwise_singleton _ _, nofun⟩, by decide⟩
  · obtain ⟨count, bs', _, hafter⟩ := (decode_eq_ok hbs).mp h
    obtain ⟨hlength, hascends⟩ := ascends_of_decodeAfter hafter
    exact ⟨hascends, hlength ▸ count.toNat_lt_size⟩

/-! ### What is read of a list that was written

A distance that went round leads back to the number it was taken to, so a reading that succeeds finds each of them.
-/

theorem eq_of_decodePositions {previous : UInt32} {ps qs : List UInt32} {rest bs : Bytes}
    (h : decodePositions ps.length previous (encodePositions previous ps ++ bs) = .ok (qs, rest)) :
    qs = ps ∧ rest = bs := by
  induction ps generalizing previous qs with
  | nil =>
    cases h
    exact ⟨rfl, rfl⟩
  | cons p ps ih =>
    rw [List.length_cons, encodePositions, List.append_assoc] at h
    obtain ⟨gap, bs', qs', hgap, _, hpositions, rfl⟩ := decodePositions_succ_eq_ok.mp h
    rw [Varint.decode_encode] at hgap
    cases hgap
    have hadd : previous + (p - previous).toUInt64.toUInt32 = p := by
      rw [UInt32.toUInt32_toUInt64, UInt32.add_comm, UInt32.sub_add_cancel]
    rw [hadd] at hpositions ⊢
    obtain ⟨rfl, hrest⟩ := ih hpositions
    exact ⟨rfl, hrest⟩

theorem eq_of_decodeAfter {previous : DocId} {os read : List Occurrence} {rest bs : Bytes}
    (hcounted : ∀ o ∈ os, o.positions.length < UInt64.size)
    (h : decodeAfter os.length previous (encodeAfter previous os ++ bs) = .ok (read, rest)) :
    read = os ∧ rest = bs := by
  induction os generalizing previous read with
  | nil =>
    cases h
    exact ⟨rfl, rfl⟩
  | cons o os ih =>
    obtain ⟨hlength, hcounted⟩ := List.forall_mem_cons.mp hcounted
    simp only [List.length_cons, encodeAfter, List.append_assoc] at h
    obtain ⟨gap, size, bs₁, bs₂, bs₃, ps, os', hgap, _, hsize, hpositions, hafter, rfl⟩ := decodeAfter_succ_eq_ok.mp h
    rw [Varint.decode_encode] at hgap
    cases hgap
    rw [Varint.decode_encode] at hsize
    cases hsize
    have hadd : previous + (o.id - previous) = o.id := by
      rw [UInt64.add_comm, UInt64.sub_add_cancel]
    have hcount : (UInt64.ofNat o.positions.length).toNat = o.positions.length := UInt64.toNat_ofNat_of_lt hlength
    rw [hcount] at hpositions
    obtain ⟨rfl, rfl⟩ := eq_of_decodePositions hpositions
    rw [hadd] at hafter ⊢
    obtain ⟨rfl, hrest⟩ := ih hcounted hafter
    exact ⟨rfl, hrest⟩

/-- Machine words count the documents of a list and the positions of each. -/
structure Addressable (os : List Occurrence) : Prop where
  documents : os.length < UInt64.size
  positions : ∀ o ∈ os, o.positions.length < UInt64.size

theorem encode_ne_nil (os : List Occurrence) : encode os ≠ [] := by
  simp [encode, Varint.encode_ne_nil]

/-- A list that was written is not read as another one. -/
theorem eq_of_decode_encode {os read : List Occurrence} (hsize : Addressable os) (h : decode (encode os) = .ok read) :
    read = os := by
  obtain ⟨count, bs', hcount, hafter⟩ := (decode_eq_ok (encode_ne_nil os)).mp h
  rw [encode, Varint.decode_encode] at hcount
  cases hcount
  have hdocuments : (UInt64.ofNat os.length).toNat = os.length := UInt64.toNat_ofNat_of_lt hsize.documents
  rw [hdocuments, ← List.append_nil (encodeAfter 0 os)] at hafter
  exact (eq_of_decodeAfter hsize.positions hafter).1

/-- A list that goes down somewhere is refused. -/
theorem decode_encode_of_not_ascends {os : List Occurrence} (hsize : Addressable os) (h : ¬ Ascends 0 os) :
    ∃ cause, decode (encode os) = .error cause := by
  cases hread : decode (encode os) with
  | error cause => exact ⟨cause, rfl⟩
  | ok read =>
    have hascends := (ascends_of_decode hread).1
    rw [eq_of_decode_encode hsize hread] at hascends
    exact absurd hascends h

/-! ### The format as a whole -/

/-- Neither the ids nor the positions of a document go down anywhere. -/
structure Rising (os : List Occurrence) : Prop where
  ids : os.Pairwise (·.id ≤ ·.id)
  positions : ∀ o ∈ os, o.positions.Pairwise (· ≤ ·)

theorem rising_of_ascends {previous : DocId} {os : List Occurrence} (h : Ascends previous os) : Rising os :=
  ⟨List.pairwise_map.mp (List.Pairwise.of_cons h.ids), fun o ho => (h.positions o ho).1⟩

theorem Rising.ascends {os : List Occurrence} (h : Rising os) (hsize : Addressable os) : Ascends 0 os where
  ids := List.pairwise_cons.mpr ⟨fun _ _ => UInt64.zero_le, List.pairwise_map.mpr h.ids⟩
  positions o ho := ⟨h.positions o ho, hsize.positions o ho⟩

/-- Reading the bytes as a list is an error of the class of what cannot be parsed. -/
def Refused (bs : Bytes) : Prop := ∃ e, Malformed.orFail (decode bs) = .error e ∧ e.kind = .parse

theorem refused_of_error {bs : Bytes} {cause : Malformed} (h : decode bs = .error cause) : Refused bs :=
  ⟨.malformed cause, by rw [h, Malformed.orFail], rfl⟩

/-- A list is read back exactly if it rises, and refused otherwise. One that is read back is refused with bytes after
it, and without some of its last bytes. Every list that is read, from any bytes, rises and is read back. -/
theorem decode_exact :
    (∀ os, Addressable os → (Rising os → decode (encode os) = .ok os) ∧ (¬ Rising os → Refused (encode os))) ∧
    (∀ os, decode (encode os) = .ok os → (∀ tail, tail ≠ [] → Refused (encode os ++ tail)) ∧
      ∀ front, front <+: encode os → front ≠ [] → front ≠ encode os → Refused front) ∧
    ∀ bs os, decode bs = .ok os → Rising os ∧ decode (encode os) = .ok os := by
  refine ⟨fun os hsize => ⟨fun h => ?_, fun h => ?_⟩, fun os h => ⟨fun tail htail => ?_, ?_⟩, fun bs os h => ?_⟩
  · exact decode_encode_of_ascends (h.ascends hsize) hsize.documents
  · obtain ⟨cause, hcause⟩ := decode_encode_of_not_ascends hsize fun hascends => h (rising_of_ascends hascends)
    exact refused_of_error hcause
  · exact refused_of_error (decode_append h (encode_ne_nil os) htail)
  · rintro front ⟨missing, hmissing⟩ hfront hproper
    cases hread : decode front with
    | error cause => exact refused_of_error hread
    | ok read =>
      -- a front that can be read makes the whole one with bytes left over
      have hleft : missing ≠ [] := by
        rintro rfl
        exact hproper (by rw [← hmissing, List.append_nil])
      have hwhole := decode_append hread hfront hleft
      rw [hmissing, h] at hwhole
      cases hwhole
  · obtain ⟨hascends, hlength⟩ := ascends_of_decode h
    exact ⟨rising_of_ascends hascends, decode_encode_of_ascends hascends hlength⟩

theorem decode_exact_at_the_bounds :
    let os : List Occurrence := [⟨1, [0, 4294967295]⟩, ⟨70, [3, 3]⟩, ⟨70, []⟩, ⟨18446744073709551615, [4294967295]⟩]
    decode (encode os) = .ok os ∧ Refused (encode os ++ [0]) ∧ Refused ((encode os).take 1) ∧
      Refused (encode os.reverse) ∧ Refused (encode [⟨1, [7, 6]⟩]) ∧ Rising [⟨0, [2]⟩] := by
  intro os
  have hrising : Rising os := ⟨by decide, by decide⟩
  have hread : decode (encode os) = .ok os := (decode_exact.1 os ⟨by decide, by decide⟩).1 hrising
  refine ⟨hread, (decode_exact.2.1 os hread).1 [0] (by decide), ?_, ?_, ?_, ?_⟩
  · exact (decode_exact.2.1 os hread).2 ((encode os).take 1) (List.take_prefix 1 _) (by decide) (by decide)
  · exact (decode_exact.1 os.reverse ⟨by decide, by decide⟩).2 fun h => absurd h.ids (by decide)
  · exact (decode_exact.1 [⟨1, [7, 6]⟩] ⟨by decide, by decide⟩).2 fun h => absurd h.positions (by decide)
  · exact (decode_exact.2.2 [1, 0, 1, 2] [⟨0, [2]⟩] rfl).1

end OccurrenceList
end FileIndex
