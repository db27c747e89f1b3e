import FileIndex.Proofs.Encoding.Occurrences
import FileIndex.Proofs.Encoding.Records
import Mathlib.Data.List.Sort

/-!
# The formats of id lists and of term sets

Both are sets that are stored in ascending order, each member told by what sets it off from the one before it. An id
list says what it is by its bytes alone: whatever the bytes, they are either refused or read as a list that ascends
strictly, and writing that list anew takes no more bytes than there were. A numeral can be written with more digits than
it needs, so bytes may be read as a list that is written otherwise; but no two lists are written alike.

A term set is written from any list of terms, and what is read back are its members in order. So two lists of terms are
written alike exactly if they have the same members.

* `Varint.length_encode_le`: a numeral that was read is not shorter than the one that is written.
* `Varint.encode_append_inj`: a numeral tells where it ends.
* `IdList.ascends_of_decode`, `IdList.length_encode_le`: what is read ascends and takes no more bytes anew.
* `IdList.encode_inj`: no two lists are written alike.
* `IdList.decode_canonical`, `TermSet.decode_members`: the two formats as a whole.
-/

namespace FileIndex

/-- A reading that failed with an error of the class of what cannot be parsed. -/
def Unparsed {α : Type} (reading : Except Malformed α) : Prop :=
  ∃ e, Malformed.orFail reading = .error e ∧ e.kind = .parse

theorem unparsed_error {α : Type} (cause : Malformed) : Unparsed (.error cause : Except Malformed α) :=
  ⟨.malformed cause, rfl, rfl⟩

namespace Varint

/-- What a numeral stands for fits in the places that it may have. -/
theorem lt_of_decodeDigits {more n : Nat} {bs rest : Bytes} (h : decodeDigits more bs = .ok (n, rest)) :
    n < 2 * 128 ^ more := by
  induction more generalizing bs n with
  | zero =>
    cases bs with
    | nil => simp [decodeDigits] at h
    | cons b bs =>
      rw [decodeDigits] at h
      by_cases hlast : b < 2
      · rw [if_pos hlast] at h
        cases h
        exact UInt8.lt_iff_toNat_lt.mp hlast
      · rw [if_neg hlast] at h
        cases h
  | succ more ih =>
    have hplaces : 0 < 128 ^ more := Nat.pow_pos (by omega)
    rw [Nat.pow_succ]
    obtain ⟨b, bs', rfl, ⟨hlast, rfl, rfl⟩ | ⟨high, hlast, hhigh, rfl⟩⟩ := decodeDigits_succ_eq_ok.mp h
    · have hdigit : b.toNat < 128 := UInt8.lt_iff_toNat_lt.mp hlast
      omega
    · have hbound := ih hhigh
      have hdigit := b.toNat_lt
      omega

/-- What is read was written so, or with more digits than it needs. -/
theorem encodeDigits_shortest {more n : Nat} {bs rest : Bytes} (h : decodeDigits more bs = .ok (n, rest)) :
    bs = encodeDigits more n ++ rest ∨ (encodeDigits more n).length + rest.length < bs.length := by
  induction more generalizing bs n with
  | zero =>
    cases bs with
    | nil => simp [decodeDigits] at h
    | cons b bs =>
      rw [decodeDigits] at h
      split at h
      · cases h
        exact .inl (by rw [encodeDigits, UInt8.ofNat_toNat, List.singleton_append])
      · cases h
  | succ more ih =>
    rw [encodeDigits]
    obtain ⟨b, bs', rfl, ⟨hlast, rfl, rfl⟩ | ⟨high, hlast, hhigh, rfl⟩⟩ := decodeDigits_succ_eq_ok.mp h
    · have hdigit : b.toNat < 128 := UInt8.lt_iff_toNat_lt.mp hlast
      rw [if_pos hdigit, UInt8.ofNat_toNat]
      exact .inl rfl
    · have hdigit : ¬ b.toNat < 128 := fun hlt => hlast (UInt8.lt_iff_toNat_lt.mpr hlt)
      have hbyte := b.toNat_lt
      by_cases hsmall : b.toNat - 128 + 128 * high < 128
      · -- the other digits are zeros
        rw [if_pos hsmall, List.length_singleton, List.length_cons]
        have hshorter := decodeDigits_shortens hhigh
        exact .inr (by omega)
      · have hothers : (b.toNat - 128 + 128 * high) / 128 = high := by omega
        have hfirst : (b.toNat - 128 + 128 * high) % 128 + 128 = b.toNat := by omega
        rw [if_neg hsmall, hothers, hfirst, UInt8.ofNat_toNat, List.cons_append, List.length_cons, List.length_cons]
        rcases ih hhigh with heq | hlt
        · exact .inl (congrArg (b :: ·) heq)
        · exact .inr (by omega)

/-- A numeral that was read may have more digits than it needs, but not less. -/
theorem length_encode_le {bs rest : Bytes} {v : UInt64} (h : decode bs = .ok (v, rest)) :
    (encode v).length + rest.length ≤ bs.length := by
  obtain ⟨n, hdigits, rfl⟩ := decode_eq_ok.mp h
  have hn : (UInt64.ofNat n).toNat = n := UInt64.toNat_ofNat_of_lt (lt_of_decodeDigits hdigits)
  rw [encode, hn]
  rcases encodeDigits_shortest hdigits with heq | hlt
  · rw [← List.length_append, ← heq]
  · omega

/-- A numeral tells where it ends. -/
theorem encode_append_inj {v v' : UInt64} {rest rest' : Bytes} (h : encode v ++ rest = encode v' ++ rest') :
    v = v' ∧ rest = rest' := by
  have hread := decode_encode v rest
  rw [h, decode_encode] at hread
  cases hread
  exact ⟨rfl, rfl⟩

end Varint

/-! ### Id lists -/

namespace IdList

/-- What it takes for bytes to be read as the ids after one. -/
theorem decodeAfter_eq_ok {previous : DocId} {bs : Bytes} {ids : List DocId} (hbs : bs ≠ [])
    (h : decodeAfter previous bs = .ok ids) :
    ∃ gap rest ids', Varint.decode bs = .ok (gap, rest) ∧ gap ≠ 0 ∧ previous.toNat + gap.toNat < UInt64.size ∧
      decodeAfter (previous + gap) rest = .ok ids' ∧ ids = (previous + gap) :: ids' := by
  rw [decodeAfter, if_neg (by simpa using hbs)] at h
  split at h
  · cases h
  · rename_i gap rest hgap
    by_cases hzero : gap = 0
    · rw [if_pos hzero] at h
      cases h
    · rw [if_neg hzero] at h
      by_cases hbound : previous.toNat + gap.toNat < UInt64.size
      · rw [if_pos hbound] at h
        cases hafter : decodeAfter (previous + gap) rest with
        | error cause =>
          rw [hafter] at h
          cases h
        | ok ids' =>
          rw [hafter] at h
          cases h
          exact ⟨gap, rest, ids', hgap, hzero, hbound, hafter, rfl⟩
      · rw [if_neg hbound] at h
        cases h

theorem decode_eq_ok {bs : Bytes} {ids : List DocId} (hbs : bs ≠ []) (h : decode bs = .ok ids) :
    ∃ first rest ids', Varint.decode bs = .ok (first, rest) ∧ decodeAfter first rest = .ok ids' ∧
      ids = first :: ids' := by
  rw [decode, if_neg (by simpa using hbs)] at h
  split at h
  · cases h
  · rename_i first rest hfirst
    cases hafter : decodeAfter first rest with
    | error cause =>
      rw [hafter] at h
      cases h
    | ok ids' =>
      rw [hafter] at h
      cases h
      exact ⟨first, rest, ids', hfirst, hafter, rfl⟩

/-- Whatever the bytes, the ids that are read from them come one after the other, without one twice. -/
theorem ascends_of_decodeAfter {previous : DocId} {bs : Bytes} {ids : List DocId}
    (h : decodeAfter previous bs = .ok ids) : (previous :: ids).Pairwise (· < ·) := by
  induction ids generalizing previous bs with
  | nil => exact List.pairwise_singleton _ _
  | cons id ids ih =>
    have hbs : bs ≠ [] := by
      rintro rfl
      simp [decodeAfter] at h
    obtain ⟨gap, rest, ids', _, hzero, hbound, hafter, heq⟩ := decodeAfter_eq_ok hbs h
    cases heq
    have hascending := ih hafter
    have hlt : previous < previous + gap := by
      have hpositive : gap.toNat ≠ 0 := fun h0 => hzero (UInt64.toNat_inj.mp h0)
      rw [UInt64.lt_iff_toNat_lt, UInt64.toNat_add]
      simp only [UInt64.size] at hbound
      omega
    refine List.pairwise_cons.mpr ⟨List.forall_mem_cons.mpr ⟨hlt, fun id hid => ?_⟩, hascending⟩
    exact UInt64.lt_trans hlt (List.rel_of_pairwise_cons hascending hid)

theorem length_encodeAfter_le {previous : DocId} {bs : Bytes} {ids : List DocId}
    (h : decodeAfter previous bs = .ok ids) : (encodeAfter previous ids).length ≤ bs.length := by
  induction ids generalizing previous bs with
  | nil => exact Nat.zero_le _
  | cons id ids ih =>
    have hbs : bs ≠ [] := by
      rintro rfl
      simp [decodeAfter] at h
    obtain ⟨gap, rest, ids', hgap, _, _, hafter, heq⟩ := decodeAfter_eq_ok hbs h
    cases heq
    have hrest := ih hafter
    have hnumeral := Varint.length_encode_le hgap
    have hback : previous + gap - previous = gap := by
      rw [UInt64.add_comm, UInt64.add_sub_cancel]
    rw [encodeAfter, List.length_append, hback]
    omega

theorem ascends_of_decode {bs : Bytes} {ids : List DocId} (h : decode bs = .ok ids) : ids.Pairwise (· < ·) := by
  by_cases hbs : bs = []
  · subst hbs
    cases h
    exact List.Pairwise.nil
  · obtain ⟨first, rest, ids', _, hafter, rfl⟩ := decode_eq_ok hbs h
    exact ascends_of_decodeAfter hafter

/-- Writing anew what was read does not take more bytes. -/
theorem length_encode_le {bs : Bytes} {ids : List DocId} (h : decode bs = .ok ids) :
    (encode ids).length ≤ bs.length := by
  by_cases hbs : bs = []
  · subst hbs
    cases h
    exact Nat.le_refl _
  · obtain ⟨first, rest, ids', hfirst, hafter, rfl⟩ := decode_eq_ok hbs h
    have hnumeral := Varint.length_encode_le hfirst
    have hrest := length_encodeAfter_le hafter
    rw [encode, encodeAfter, UInt64.sub_zero, List.length_append]
    omega

theorem encodeAfter_inj {previous : DocId} {ids ids' : List DocId}
    (h : encodeAfter previous ids = encodeAfter previous ids') : ids = ids' := by
  induction ids generalizing previous ids' with
  | nil =>
    cases ids' with
    | nil => rfl
    | cons id' ids' => simp [encodeAfter, Varint.encode_ne_nil] at h
  | cons id ids ih =>
    cases ids' with
    | nil => simp [encodeAfter, Varint.encode_ne_nil] at h
    | cons id' ids' =>
      obtain ⟨hgap, hrest⟩ := Varint.encode_append_inj h
      -- distances may go round, but from one id they lead to different ids
      obtain rfl : id = id' := by
        rw [← UInt64.sub_add_cancel id previous, hgap, UInt64.sub_add_cancel]
      rw [ih hrest]

/-- No two lists are written alike, whether they ascend or not. -/
theorem encode_inj {ids ids' : List DocId} (h : encode ids = encode ids') : ids = ids' := encodeAfter_inj h

/-- A strictly ascending list of ids is read back. Any bytes are refused or read as such a list, which is then written
with no more bytes than there were and read back from those. No two lists are written alike. -/
theorem decode_canonical :
    (∀ ids : List DocId, ids.Pairwise (· < ·) → decode (encode ids) = .ok ids) ∧
    (∀ bs, Unparsed (decode bs) ∨ ∃ ids, decode bs = .ok ids ∧ ids.Pairwise (· < ·) ∧
      (encode ids).length ≤ bs.length ∧ decode (encode ids) = .ok ids) ∧
    ∀ ids ids', encode ids = encode ids' → ids = ids' := by
  refine ⟨fun ids h => decode_encode h, fun bs => ?_, fun ids ids' h => encode_inj h⟩
  cases hread : decode bs with
  | error cause => exact .inl (unparsed_error cause)
  | ok ids =>
    have hascending := ascends_of_decode hread
    exact .inr ⟨ids, rfl, hascending, length_encode_le hread, decode_encode hascending⟩

theorem decode_canonical_at_the_bounds :
    let ids : List DocId := [0, 1, 18446744073709551615]
    decode (encode ids) = .ok ids ∧ Unparsed (decode [4, 0]) ∧
      (∃ l, decode [128, 0] = .ok l ∧ (encode l).length ≤ 2 ∧ decode (encode l) = .ok l) ∧
      encode [1, 0] ≠ encode [1, 18446744073709551615] := by
  intro ids
  refine ⟨decode_canonical.1 ids (by decide), ?_, ?_, ?_⟩
  · obtain h | ⟨l, hread, _⟩ := decode_canonical.2.1 [4, 0]
    · exact h
    · simp [decode, decodeAfter, Varint.decode, Varint.decodeDigits, Except.map] at hread
  · have hread : decode [128, 0] = .ok [0] := by
      show (decodeAfter 0 []).map (0 :: ·) = .ok [0]
      rw [decodeAfter]
      rfl
    obtain ⟨e, hfailed, _⟩ | ⟨l, hl, _, hlength, hback⟩ := decode_canonical.2.1 [128, 0]
    · rw [hread] at hfailed
      cases hfailed
    · exact ⟨l, hl, hlength, hback⟩
  · intro h
    exact absurd (decode_canonical.2.2 _ _ h) (by decide)

end IdList

/-! ### Term sets -/

namespace TermSet

/-- What is written depends on the members only. -/
theorem encode_congr {terms terms' : List Bytes} (h : ∀ t, t ∈ terms ↔ t ∈ terms') : encode terms = encode terms' := by
  have hmembers : Ascending.ofList terms = Ascending.ofList terms' :=
    (Ascending.pairwise_ofList terms).eq_of_mem_iff (Ascending.pairwise_ofList terms') fun t => by
      rw [Ascending.mem_ofList, Ascending.mem_ofList]
      exact h t
  rw [encode, encode, hmembers]

/-- Terms in any order and any number are read back as their set, ascending and each once, so they are written alike
exactly if they are the same set. Their lengths are what a machine word holds. -/
theorem decode_members :
    (∀ terms : List Bytes, (∀ t ∈ terms, t.length < UInt64.size) →
      ∃ l, decode (encode terms) = .ok l ∧ l.Pairwise (· < ·) ∧ ∀ t, t ∈ l ↔ t ∈ terms) ∧
    ∀ terms terms' : List Bytes, (∀ t ∈ terms, t.length < UInt64.size) → (∀ t ∈ terms', t.length < UInt64.size) →
      (encode terms = encode terms' ↔ ∀ t, t ∈ terms ↔ t ∈ terms') := by
  refine ⟨fun terms hsize => ?_, fun terms terms' hsize hsize' => ⟨fun h t => ?_, encode_congr⟩⟩
  · exact ⟨Ascending.ofList terms, decode_encode hsize, Ascending.pairwise_ofList terms, fun t => Ascending.mem_ofList⟩
  · have hread := decode_encode hsize
    rw [h, decode_encode hsize'] at hread
    have hsame : Ascending.ofList terms' = Ascending.ofList terms := Except.ok.inj hread
    rw [← Ascending.mem_ofList, ← hsame, Ascending.mem_ofList]

theorem decode_members_of_prefixes :
    let terms : List Bytes := [[97, 98], [], [255, 0, 128], [97], [97, 98], [1, 1, 97]]
    let sorted : List Bytes := [[], [1, 1, 97], [97], [97, 98], [255, 0, 128]]
    decode (encode terms) = .ok sorted ∧ encode terms = encode sorted.reverse ∧
      encode terms ≠ encode (sorted.take 4) := by
  intro terms sorted
  obtain ⟨l, hread, hascending, hmembers⟩ := decode_members.1 terms (by decide)
  have hl : l = sorted := by
    have hsorted : sorted.Pairwise (· < ·) := by decide
    refine hascending.eq_of_mem_iff hsorted fun t => ?_
    simp only [hmembers, terms, sorted, List.mem_cons]
    grind
  refine ⟨hl ▸ hread, ?_, fun h => ?_⟩
  · refine (decode_members.2 terms sorted.reverse (by decide) (by decide)).mpr fun t => ?_
    simp only [terms, sorted, List.mem_reverse, List.mem_cons]
    grind
  · have hall := (decode_members.2 terms (sorted.take 4) (by decide) (by decide)).mp h [255, 0, 128]
    exact absurd hall (by decide)

end TermSet
end FileIndex
