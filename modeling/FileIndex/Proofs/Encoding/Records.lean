import FileIndex.Encoding.TermSet
import FileIndex.Proofs.Encoding.Lists
import FileIndex.Store.Attributes

/-!
# Reading back keys, records and term sets

* `DocId.ofKey_toKey`, `DocId.toKey_inj`: an id is read back from its key.
* `Store.modifiedKey_inj`: a key of a modification time tells the time and the id.
* `PathEntry.decode_encode`, `TimeInfo.decode_encode`: records are read back; a name that is too long for its
  length to be stored is cut off, but never fails.
* `TermSet.decode_encode`: a set of terms is read back, if their lengths can be stored.
-/

namespace FileIndex

namespace Bytes

theorem ofLittleEndian_littleEndian {width n : Nat} (h : n < 256 ^ width) :
    ofLittleEndian (littleEndian width n) = n := by
  induction width generalizing n with
  | zero =>
    simp only [Nat.pow_zero] at h
    rw [littleEndian, ofLittleEndian]
    omega
  | succ width ih =>
    have hb : (UInt8.ofNat n).toNat = n % 256 := UInt8.toNat_ofNat'
    have hrest : n / 256 < 256 ^ width := by
      rw [Nat.pow_succ] at h
      omega
    rw [littleEndian, ofLittleEndian, hb, ih hrest]
    omega

/-- Only the last digits are written. -/
theorem littleEndian_mod (width n : Nat) : littleEndian width (n % 256 ^ width) = littleEndian width n := by
  induction width generalizing n with
  | zero => rfl
  | succ width ih =>
    have hdigit : UInt8.ofNat (n % 256 ^ (width + 1)) = UInt8.ofNat n := by
      apply UInt8.toNat_inj.mp
      rw [UInt8.toNat_ofNat', UInt8.toNat_ofNat', Nat.pow_succ, Nat.mul_comm]
      exact Nat.mod_mul_right_mod n 256 (256 ^ width)
    rw [littleEndian, littleEndian, hdigit, Nat.pow_succ, Nat.mul_comm, Nat.mod_mul_right_div_self, ih]

theorem littleEndian_inj {width n n' : Nat} (hn : n < 256 ^ width) (hn' : n' < 256 ^ width)
    (h : littleEndian width n = littleEndian width n') : n = n' := by
  rw [← ofLittleEndian_littleEndian hn, h, ofLittleEndian_littleEndian hn']

end Bytes

theorem ofLittleEndian_word (v : UInt64) : Bytes.ofLittleEndian (Bytes.littleEndian 8 v.toNat) = v.toNat :=
  Bytes.ofLittleEndian_littleEndian v.toNat_lt_size

/-! ### Keys -/

@[simp] theorem DocId.length_toKey (id : DocId) : (DocId.toKey id).length = 8 := by
  simp [DocId.toKey]

theorem DocId.ofKey_toKey (id : DocId) : DocId.ofKey (DocId.toKey id) = .ok id := by
  have htake : (DocId.toKey id).take 8 = DocId.toKey id := List.take_of_length_le (by simp)
  rw [DocId.ofKey, htake, if_neg (by simp), DocId.toKey, Bytes.ofBigEndian_bigEndian, ofLittleEndian_word]
  simp

theorem DocId.toKey_inj {id id' : DocId} : DocId.toKey id = DocId.toKey id' ↔ id = id' := by
  constructor
  · intro h
    have hkey := DocId.ofKey_toKey id
    rw [h, DocId.ofKey_toKey] at hkey
    exact (Except.ok.inj hkey).symm
  · exact fun h => h ▸ rfl

theorem Store.modifiedKey_inj {time time' : UInt64} {id id' : DocId} :
    Store.modifiedKey time id = Store.modifiedKey time' id' ↔ time = time' ∧ id = id' := by
  constructor
  · intro h
    obtain ⟨htime, hid⟩ := List.append_inj h (by simp)
    refine ⟨?_, DocId.toKey_inj.mp hid⟩
    have hnat := Bytes.littleEndian_inj time.toNat_lt_size time'.toNat_lt_size (List.reverse_inj.mp htime)
    exact UInt64.toNat_inj.mp hnat
  · rintro ⟨rfl, rfl⟩
    rfl

/-! ### Records -/

theorem readWord_littleEndian (v : UInt64) (rest : Bytes) :
    readWord (Bytes.littleEndian 8 v.toNat ++ rest) = .ok (v, rest) := by
  have htake : (Bytes.littleEndian 8 v.toNat ++ rest).take 8 = Bytes.littleEndian 8 v.toNat :=
    List.take_left' (by simp)
  have hdrop : (Bytes.littleEndian 8 v.toNat ++ rest).drop 8 = rest := List.drop_left' (by simp)
  rw [readWord, if_neg (by simp), htake, hdrop, ofLittleEndian_word, UInt64.ofNat_toNat]

theorem TimeInfo.decode_encode (t : TimeInfo) : TimeInfo.decode t.encode = .ok t := by
  have hchanged := readWord_littleEndian t.changed []
  rw [List.append_nil] at hchanged
  rw [TimeInfo.decode, TimeInfo.encode, readWord_littleEndian]
  simp only [bind, Except.bind, hchanged]
  rfl

/-- The name as far as its length can be stored. -/
def PathEntry.storedName (e : PathEntry) : Bytes := e.name.take (e.name.length % UInt64.size)

theorem PathEntry.decode_encode (e : PathEntry) : PathEntry.decode e.encode = .ok ⟨e.parent, e.storedName⟩ := by
  have hsize : (UInt64.ofNat e.name.length).toNat = e.name.length % UInt64.size := UInt64.toNat_ofNat'
  have hlength : Bytes.littleEndian 8 e.name.length =
      Bytes.littleEndian 8 (UInt64.ofNat e.name.length).toNat := by
    rw [hsize]
    exact (Bytes.littleEndian_mod 8 e.name.length).symm
  have hle : e.name.length % UInt64.size ≤ e.name.length := Nat.mod_le _ _
  rw [PathEntry.decode, PathEntry.encode, List.append_assoc, readWord_littleEndian]
  simp only [bind, Except.bind]
  rw [hlength, readWord_littleEndian]
  simp only [hsize]
  rw [if_neg (by omega)]
  rfl

/-! ### Term sets -/

namespace TermSet

theorem shared_le_length (a b : Bytes) : shared a b ≤ b.length := by
  induction a generalizing b with
  | nil => simp [shared]
  | cons x as ih =>
    cases b with
    | nil => simp [shared]
    | cons y bs =>
      rw [shared]
      split
      · have := ih bs
        rw [List.length_cons]
        omega
      · omega

theorem take_shared (a b : Bytes) : a.take (shared a b) = b.take (shared a b) := by
  induction a generalizing b with
  | nil => simp [shared]
  | cons x as ih =>
    cases b with
    | nil => simp [shared]
    | cons y bs =>
      rw [shared]
      split
      · rename_i heq
        rw [List.take_succ_cons, List.take_succ_cons, ih, heq]
      · rfl

theorem decodeAfter_of_reads {previous bs bs' bs'' tail rest : Bytes} {same size : UInt64}
    (hsame : Varint.decode bs = .ok (same, bs')) (hsize : Varint.decode bs' = .ok (size, bs''))
    (htail : Varint.readBytes size.toNat bs'' = .ok (tail, rest)) :
    decodeAfter previous bs =
      (decodeAfter (previous.take same.toNat ++ tail) rest).map ((previous.take same.toNat ++ tail) :: ·) := by
  have hne : bs.isEmpty = false := by
    cases bs with
    | nil => simp [Varint.decode, Varint.decodeDigits] at hsame
    | cons b bs => rfl
  rw [decodeAfter, hne]
  simp only [Bool.false_eq_true, if_false]
  split
  · rename_i heq
    rw [hsame] at heq
    cases heq
  · rename_i heq
    rw [hsame] at heq
    cases heq
    split
    · rename_i heq
      rw [hsize] at heq
      cases heq
    · rename_i heq
      rw [hsize] at heq
      cases heq
      split
      · rename_i heq
        rw [htail] at heq
        cases heq
      · rename_i heq
        rw [htail] at heq
        cases heq
        rfl

theorem decodeAfter_encodeAfter {previous : Bytes} {terms : List Bytes}
    (h : ∀ t ∈ terms, t.length < UInt64.size) : decodeAfter previous (encodeAfter previous terms) = .ok terms := by
  induction terms generalizing previous with
  | nil =>
    rw [encodeAfter, decodeAfter]
    rfl
  | cons t ts ih =>
    obtain ⟨ht, hts⟩ := List.forall_mem_cons.mp h
    have hle := shared_le_length previous t
    have hsame : (UInt64.ofNat (shared previous t)).toNat = shared previous t :=
      UInt64.toNat_ofNat_of_lt (by omega)
    have hsize : (UInt64.ofNat (t.length - shared previous t)).toNat = t.length - shared previous t :=
      UInt64.toNat_ofNat_of_lt (by omega)
    have htail : Varint.readBytes (t.length - shared previous t) (t.drop (shared previous t) ++ encodeAfter t ts) =
        .ok (t.drop (shared previous t), encodeAfter t ts) := by
      rw [Varint.readBytes, if_pos (by simp), List.take_left' (by simp), List.drop_left' (by simp)]
    have hterm : previous.take (shared previous t) ++ t.drop (shared previous t) = t := by
      rw [take_shared, List.take_append_drop]
    rw [encodeAfter]
    simp only [List.append_assoc]
    rw [decodeAfter_of_reads (Varint.decode_encode _ _) (Varint.decode_encode _ _) (by rw [hsize]; exact htail), hsame,
      hterm, ih hts]
    rfl

/-- A set of terms is read back in ascending order, each term once. -/
theorem decode_encode {terms : List Bytes} (h : ∀ t ∈ terms, t.length < UInt64.size) :
    decode (encode terms) = .ok (Ascending.ofList terms) :=
  decodeAfter_encodeAfter fun t ht => h t (Ascending.mem_ofList.mp ht)

end TermSet
end FileIndex
