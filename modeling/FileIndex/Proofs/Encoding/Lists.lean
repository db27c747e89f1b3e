import FileIndex.Encoding.IdList
import FileIndex.Encoding.OccurrenceList
import Mathlib.Algebra.Group.Nat.Defs
import Mathlib.Data.List.Nodup
import Mathlib.Data.List.Perm.Subperm

/-!
# Reading back stored lists

* `Varint.decode_encode`: a numeral is read back with the bytes after it left over.
* `IdList.decode_encode`: a strictly ascending list of ids is read back.
* `OccurrenceList.decode_encode`: so is a list of documents with positions, if both ascend.
-/

namespace FileIndex

namespace Varint

theorem encodeDigits_ne_nil (more n : Nat) : encodeDigits more n ≠ [] := by
  cases more with
  | zero => simp [encodeDigits]
  | succ more =>
    rw [encodeDigits]
    split <;> simp

theorem encode_ne_nil (v : UInt64) : encode v ≠ [] := encodeDigits_ne_nil 9 v.toNat

theorem isEmpty_encode_append (v : UInt64) (rest : Bytes) : (encode v ++ rest).isEmpty = false := by
  simp [encode_ne_nil]

/-- Numerals are read back as far as the places go: seven bits in each, one bit in the last. -/
theorem decodeDigits_encodeDigits {more n : Nat} (h : n < 2 * 128 ^ more) (rest : Bytes) :
    decodeDigits more (encodeDigits more n ++ rest) = .ok (n, rest) := by
  induction more generalizing n with
  | zero =>
    have hn : (UInt8.ofNat n).toNat = n := by
      rw [UInt8.toNat_ofNat']
      omega
    have hlt : UInt8.ofNat n < 2 := by
      rw [UInt8.lt_iff_toNat_lt, hn]
      exact h
    rw [encodeDigits, List.singleton_append, decodeDigits, if_pos hlt, hn]
  | succ more ih =>
    rw [encodeDigits]
    split
    · rename_i hsmall
      have hn : (UInt8.ofNat n).toNat = n := by
        rw [UInt8.toNat_ofNat']
        omega
      have hlt : UInt8.ofNat n < 128 := by
        rw [UInt8.lt_iff_toNat_lt, hn]
        exact hsmall
      rw [List.singleton_append, decodeDigits, if_pos hlt, hn]
    · rename_i hlarge
      have hb : (UInt8.ofNat (n % 128 + 128)).toNat = n % 128 + 128 := by
        rw [UInt8.toNat_ofNat']
        omega
      have hlt : ¬ UInt8.ofNat (n % 128 + 128) < 128 := by
        rw [UInt8.lt_iff_toNat_lt, hb]
        show ¬ n % 128 + 128 < 128
        omega
      have hrest : n / 128 < 2 * 128 ^ more := by
        rw [Nat.pow_succ] at h
        omega
      rw [List.cons_append, decodeDigits, if_neg hlt, ih hrest, hb]
      simp only [Except.ok.injEq, Prod.mk.injEq, and_true]
      omega

/-- A numeral is read back, and what stands behind it is left. -/
theorem decode_encode (v : UInt64) (rest : Bytes) : decode (encode v ++ rest) = .ok (v, rest) := by
  have hbound : v.toNat < 2 * 128 ^ 9 := v.toNat_lt
  rw [decode, encode, decodeDigits_encodeDigits hbound]
  simp only [UInt64.ofNat_toNat]

end Varint

namespace IdList

theorem decodeAfter_of_decode {previous gap : DocId} {bs rest : Bytes} (h : Varint.decode bs = .ok (gap, rest))
    (hgap : gap ≠ 0) (hbound : previous.toNat + gap.toNat < UInt64.size) :
    decodeAfter previous bs = (decodeAfter (previous + gap) rest).map ((previous + gap) :: ·) := by
  have hne : bs.isEmpty = false := by
    cases bs with
    | nil => exact absurd h (by simp [Varint.decode, Varint.decodeDigits])
    | cons b bs => rfl
  rw [decodeAfter, hne]
  simp only [Bool.false_eq_true, if_false]
  split
  · rename_i heq
    rw [h] at heq
    cases heq
  · rename_i heq
    rw [h] at heq
    cases heq
    rw [if_neg hgap, if_pos hbound]

theorem decodeAfter_encodeAfter {previous : DocId} {ids : List DocId} (h : (previous :: ids).Pairwise (· < ·)) :
    decodeAfter previous (encodeAfter previous ids) = .ok ids := by
  induction ids generalizing previous with
  | nil =>
    rw [encodeAfter, decodeAfter]
    rfl
  | cons id ids ih =>
    have hlt : previous < id := List.rel_of_pairwise_cons h List.mem_cons_self
    have hsub : (id - previous).toNat = id.toNat - previous.toNat := UInt64.toNat_sub_of_le _ _ (UInt64.le_of_lt hlt)
    have hnat := UInt64.lt_iff_toNat_lt.mp hlt
    have hgap : id - previous ≠ 0 := by
      intro h0
      rw [h0] at hsub
      simp only [UInt64.toNat_zero] at hsub
      omega
    have hbound : previous.toNat + (id - previous).toNat < UInt64.size := by
      have := id.toNat_lt_size
      omega
    have hadd : previous + (id - previous) = id := by
      rw [UInt64.add_comm, UInt64.sub_add_cancel]
    rw [encodeAfter, decodeAfter_of_decode (Varint.decode_encode _ _) hgap hbound, hadd, ih (List.Pairwise.of_cons h)]
    rfl

/-- A strictly ascending list of ids is read back. -/
theorem decode_encode {ids : List DocId} (h : ids.Pairwise (· < ·)) : decode (encode ids) = .ok ids := by
  cases ids with
  | nil => rfl
  | cons id ids =>
    rw [encode, encodeAfter, decode, Varint.isEmpty_encode_append, UInt64.sub_zero, Varint.decode_encode]
    simp only [Bool.false_eq_true, if_false]
    rw [decodeAfter_encodeAfter h]
    rfl

end IdList

namespace OccurrenceList

/-- There are no more members than there are numbers between the bounds. -/
theorem length_le_of_ascending {l : List Nat} {bound : Nat} (h : l.Pairwise (· < ·)) (hbound : ∀ n ∈ l, n < bound) :
    l.length ≤ bound := by
  have hnodup : l.Nodup := h.imp fun hlt heq => by omega
  have hsubset : l ⊆ List.range bound := fun n hn => List.mem_range.mpr (hbound n hn)
  have hlength := (List.subperm_of_subset hnodup hsubset).length_le
  rwa [List.length_range] at hlength

theorem decodePositions_encodePositions {previous : UInt32} {ps : List UInt32} (h : (previous :: ps).Pairwise (· ≤ ·))
    (rest : Bytes) : decodePositions ps.length previous (encodePositions previous ps ++ rest) = .ok (ps, rest) := by
  induction ps generalizing previous with
  | nil => rfl
  | cons p ps ih =>
    have hle : previous ≤ p := List.rel_of_pairwise_cons h List.mem_cons_self
    have hsub : (p - previous).toNat = p.toNat - previous.toNat := UInt32.toNat_sub_of_le _ _ hle
    have hnat := UInt32.le_iff_toNat_le.mp hle
    have hgap : (p - previous).toUInt64.toNat = p.toNat - previous.toNat := by
      rw [UInt32.toNat_toUInt64, hsub]
    have hp := p.toNat_lt_size
    have hadd : previous + (p - previous).toUInt64.toUInt32 = p := by
      rw [UInt32.toUInt32_toUInt64, UInt32.add_comm, UInt32.sub_add_cancel]
    rw [encodePositions, List.append_assoc, List.length_cons, decodePositions, Varint.decode_encode]
    simp only [bind, Except.bind]
    rw [if_pos (by omega), if_pos (by omega), hadd, ih (List.Pairwise.of_cons h)]
    rfl

/-- The documents ascend from an id on, and the positions of each ascend. Both lists can be counted. -/
structure Ascends (previous : DocId) (os : List Occurrence) : Prop where
  ids : (previous :: os.map (·.id)).Pairwise (· ≤ ·)
  positions : ∀ o ∈ os, o.positions.Pairwise (· ≤ ·) ∧ o.positions.length < UInt64.size

theorem decodeAfter_encodeAfter {previous : DocId} {os : List Occurrence} (h : Ascends previous os)
    (rest : Bytes) : decodeAfter os.length previous (encodeAfter previous os ++ rest) = .ok (os, rest) := by
  induction os generalizing previous with
  | nil => rfl
  | cons o os ih =>
    obtain ⟨hids, hpositions⟩ := h
    rw [List.map_cons] at hids
    obtain ⟨⟨hascending, hlength⟩, hrest⟩ := List.forall_mem_cons.mp hpositions
    have hle : previous ≤ o.id := List.rel_of_pairwise_cons hids List.mem_cons_self
    have hsub : (o.id - previous).toNat = o.id.toNat - previous.toNat := UInt64.toNat_sub_of_le _ _ hle
    have hnat := UInt64.le_iff_toNat_le.mp hle
    have hid := o.id.toNat_lt_size
    have hadd : previous + (o.id - previous) = o.id := by
      rw [UInt64.add_comm, UInt64.sub_add_cancel]
    have hcount : (UInt64.ofNat o.positions.length).toNat = o.positions.length := UInt64.toNat_ofNat_of_lt hlength
    have hzero : ((0 : UInt32) :: o.positions).Pairwise (· ≤ ·) :=
      List.pairwise_cons.mpr ⟨fun _ _ => UInt32.zero_le, hascending⟩
    rw [encodeAfter, List.length_cons, decodeAfter]
    simp only [List.append_assoc, Varint.decode_encode, bind, Except.bind, pure, Except.pure]
    rw [if_pos (by omega), hadd]
    simp only [hcount, decodePositions_encodePositions hzero, ih ⟨List.Pairwise.of_cons hids, hrest⟩]

/-- A list of documents is read back. -/
theorem decode_encode_of_ascends {os : List Occurrence} (h : Ascends 0 os) (hlength : os.length < UInt64.size) :
    decode (encode os) = .ok os := by
  have hcount : (UInt64.ofNat os.length).toNat = os.length := UInt64.toNat_ofNat_of_lt hlength
  have hall := decodeAfter_encodeAfter h []
  rw [List.append_nil] at hall
  rw [decode, encode, Varint.isEmpty_encode_append]
  simp only [Bool.false_eq_true, if_false, Varint.decode_encode, bind, Except.bind, hcount, hall]
  rfl

/-- Positions that strictly ascend are no more than there are numbers. -/
theorem length_lt_of_positions {ps : List UInt32} (h : ps.Pairwise (· < ·)) : ps.length < UInt64.size := by
  have hnat : (ps.map (·.toNat)).Pairwise (· < ·) := List.pairwise_map.mpr (h.imp UInt32.lt_iff_toNat_lt.mp)
  have hle : _ ≤ UInt32.size := length_le_of_ascending hnat fun n hn => by
    obtain ⟨p, _, rfl⟩ := List.mem_map.mp hn
    exact p.toNat_lt_size
  rw [List.length_map] at hle
  exact Nat.lt_of_le_of_lt hle (by decide)

/-- Ids that strictly ascend without 0 are less than there are numbers. -/
theorem length_lt_of_ids {os : List Occurrence} (hids : os.Pairwise (·.id < ·.id)) (hzero : ∀ o ∈ os, o.id ≠ 0) :
    os.length < UInt64.size := by
  have hnat : (0 :: os.map (·.id.toNat)).Pairwise (· < ·) := by
    refine List.pairwise_cons.mpr ⟨fun n hn => ?_, List.pairwise_map.mpr (hids.imp UInt64.lt_iff_toNat_lt.mp)⟩
    obtain ⟨o, ho, rfl⟩ := List.mem_map.mp hn
    exact Nat.pos_of_ne_zero fun h0 => hzero o ho (UInt64.toNat_inj.mp h0)
  have hle : _ ≤ UInt64.size := length_le_of_ascending hnat fun n hn => by
    rcases List.mem_cons.mp hn with rfl | hn
    · decide
    · obtain ⟨o, _, rfl⟩ := List.mem_map.mp hn
      exact o.id.toNat_lt_size
  rw [List.length_cons, List.length_map] at hle
  omega

theorem pairwise_zero_cons {os : List Occurrence} (hids : os.Pairwise (·.id < ·.id)) :
    ((0 : DocId) :: os.map (·.id)).Pairwise (· ≤ ·) :=
  List.pairwise_cons.mpr ⟨fun _ _ => UInt64.zero_le, List.pairwise_map.mpr (hids.imp UInt64.le_of_lt)⟩

/-- A list whose ids and positions strictly ascend is read back; neither can be longer than there are numbers. -/
theorem decode_encode {os : List Occurrence} (hids : os.Pairwise (·.id < ·.id))
    (hpositions : ∀ o ∈ os, o.positions.Pairwise (· < ·)) (hzero : ∀ o ∈ os, o.id ≠ 0) :
    decode (encode os) = .ok os :=
  decode_encode_of_ascends ⟨pairwise_zero_cons hids, fun o ho =>
    ⟨(hpositions o ho).imp UInt32.le_of_lt, length_lt_of_positions (hpositions o ho)⟩⟩ (length_lt_of_ids hids hzero)

end OccurrenceList
end FileIndex
