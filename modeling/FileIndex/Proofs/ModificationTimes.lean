import FileIndex.FileId
import FileIndex.Proofs.Draft.Outline
import FileIndex.Proofs.Search

/-!
# Documents by modification time

Every document is entered under its modification time, next to its times proper. Adding, removing and replacing keep the
two in step, so that a range of times is a range of keys.

* `Bytes.lt_iff_ofBigEndian`: strings of one length compare as the numbers that they stand for. `modifiedKey_le_iff`:
  keys compare by time first and by id second.
* `Store.Dated`: what is entered by modification time is what the times say. `upkeep_dated`: changes keep it.
* `Store.Dated.enumerates_between`, `Store.Dated.enumerates_compared`: what is found between two times, and by a
  comparison.
* `Session.modified_afterAt`: in every store of a run these queries agree with the times of the documents.
-/

namespace FileIndex

/-! ### The order of keys -/

namespace Bytes

theorem ofLittleEndian_append (bs bs' : Bytes) :
    ofLittleEndian (bs ++ bs') = ofLittleEndian bs + 256 ^ bs.length * ofLittleEndian bs' := by
  induction bs with
  | nil => simp [ofLittleEndian]
  | cons b bs ih =>
    rw [List.cons_append, ofLittleEndian, ofLittleEndian, ih, List.length_cons, Nat.pow_succ, Nat.mul_add,
      Nat.mul_comm (256 ^ bs.length) 256, Nat.mul_assoc]
    omega

theorem ofBigEndian_append (bs bs' : Bytes) :
    ofBigEndian (bs ++ bs') = 256 ^ bs'.length * ofBigEndian bs + ofBigEndian bs' := by
  unfold ofBigEndian
  rw [List.reverse_append, ofLittleEndian_append, List.length_reverse, Nat.add_comm]

theorem ofBigEndian_cons (b : UInt8) (bs : Bytes) :
    ofBigEndian (b :: bs) = 256 ^ bs.length * b.toNat + ofBigEndian bs := by
  have hsingle : ofBigEndian [b] = b.toNat := by simp [ofBigEndian, ofLittleEndian]
  rw [← hsingle]
  exact ofBigEndian_append [b] bs

theorem ofBigEndian_lt (bs : Bytes) : ofBigEndian bs < 256 ^ bs.length := by
  induction bs with
  | nil => simp [ofBigEndian, ofLittleEndian]
  | cons b bs ih =>
    have hb : b.toNat ≤ 255 := by have := b.toNat_lt; omega
    have hhead : 256 ^ bs.length * b.toNat ≤ 256 ^ bs.length * 255 := Nat.mul_le_mul_left _ hb
    rw [ofBigEndian_cons, List.length_cons, Nat.pow_succ]
    omega

/-- Strings of one length compare as the numbers that they stand for. -/
theorem lt_iff_ofBigEndian {bs bs' : Bytes} (h : bs.length = bs'.length) :
    bs < bs' ↔ ofBigEndian bs < ofBigEndian bs' := by
  induction bs generalizing bs' with
  | nil =>
    rw [List.length_eq_zero_iff.mp h.symm]
    simp
  | cons b bs ih =>
    cases bs' with
    | nil => cases h
    | cons b' bs' =>
      have hlength : bs.length = bs'.length := Nat.succ.inj h
      have hbound := ofBigEndian_lt bs
      have hbound' := ofBigEndian_lt bs'
      rw [← hlength] at hbound'
      rw [List.cons_lt_cons_iff, ih hlength, ofBigEndian_cons, ofBigEndian_cons, ← hlength, UInt8.lt_iff_toNat_lt,
        ← UInt8.toNat_inj]
      -- the first bytes decide unless they are the same, for what follows them is less than their weight
      rcases Nat.lt_trichotomy b.toNat b'.toNat with hlt | heq | hlt
      · have hstep : 256 ^ bs.length * (b.toNat + 1) ≤ 256 ^ bs.length * b'.toNat := Nat.mul_le_mul_left _ hlt
        rw [Nat.mul_add] at hstep
        omega
      · rw [heq]
        omega
      · have hstep : 256 ^ bs.length * (b'.toNat + 1) ≤ 256 ^ bs.length * b.toNat := Nat.mul_le_mul_left _ hlt
        rw [Nat.mul_add] at hstep
        omega

end Bytes

namespace Store

@[simp] theorem length_modifiedKey (time : UInt64) (id : DocId) : (modifiedKey time id).length = 16 := by
  simp [modifiedKey]

theorem ofBigEndian_modifiedKey (time : UInt64) (id : DocId) :
    Bytes.ofBigEndian (modifiedKey time id) = 2 ^ 64 * time.toNat + id.toNat := by
  unfold modifiedKey DocId.toKey
  rw [Bytes.ofBigEndian_append, Bytes.ofBigEndian_bigEndian, Bytes.ofBigEndian_bigEndian, ofLittleEndian_word,
    ofLittleEndian_word, Bytes.length_bigEndian]
  rfl

/-- Keys compare by time first and by id second. -/
theorem modifiedKey_le_iff {time time' : UInt64} {id id' : DocId} :
    modifiedKey time id ≤ modifiedKey time' id' ↔ time < time' ∨ (time = time' ∧ id ≤ id') := by
  have hid := id.toNat_lt_size
  have hid' := id'.toNat_lt_size
  rw [← List.not_lt, Bytes.lt_iff_ofBigEndian (by simp), ofBigEndian_modifiedKey, ofBigEndian_modifiedKey,
    UInt64.lt_iff_toNat_lt, UInt64.le_iff_toNat_le, ← UInt64.toNat_inj]
  simp only [UInt64.size] at hid hid'
  omega

theorem modifiedId?_modifiedKey (time : UInt64) (id : DocId) : modifiedId? (modifiedKey time id) = some id := by
  have hdrop : (modifiedKey time id).drop 8 = DocId.toKey id := List.drop_left' (by simp)
  have htake : (DocId.toKey id).take 8 = DocId.toKey id := List.take_of_length_le (by simp)
  rw [modifiedId?, if_neg (by simp), hdrop, htake, DocId.toKey, Bytes.ofBigEndian_bigEndian, ofLittleEndian_word,
    UInt64.ofNat_toNat]

/-! ### What is entered -/

/-- The document has this modification time. -/
def ModifiedAt (s : Store) (id : DocId) (time : UInt64) : Prop :=
  ∃ info, s.timeOf? id = .ok (some info) ∧ info.modified = time

/-- What is entered by modification time is what the times of the documents say, without one of them. -/
def EntersBut (out : DocId) (s : Store) : Prop :=
  ∀ key value, s.modified.find? key = some value ↔
    value = [] ∧ ∃ id time, id ≠ out ∧ s.ModifiedAt id time ∧ key = modifiedKey time id

/-- What is entered by modification time is what the times of the documents say. The id 0 is that of none. -/
structure Dated (s : Store) : Prop where
  entries : ∀ key value, s.modified.find? key = some value ↔
    value = [] ∧ ∃ id time, s.ModifiedAt id time ∧ key = modifiedKey time id
  zero : s.timeOf? 0 = .ok none

variable {s s' : Store} {id : DocId} {time? : Option TimeInfo} {info : TimeInfo}

theorem dated_empty : (∅ : Store).Dated := by
  refine ⟨fun key value => ⟨nofun, ?_⟩, rfl⟩
  rintro ⟨_, id, time, ⟨info, hinfo, _⟩, _⟩
  cases hinfo

theorem Dated.congr (h : s.Dated) (htimes : s'.times = s.times) (hmodified : s'.modified = s.modified) : s'.Dated := by
  refine ⟨fun key value => ?_, (timeOf?_congr htimes 0).trans h.zero⟩
  rw [hmodified, h.entries]
  unfold ModifiedAt
  simp only [timeOf?_congr htimes]

/-- The entry of a document is found by its times and taken away. -/
theorem Dated.withoutModified (h : s.Dated) (htime : s.timeOf? id = .ok time?) :
    (s.withoutModified id time?).EntersBut id := by
  have hother : ∀ other time, (s.withoutModified id time?).ModifiedAt other time ↔ s.ModifiedAt other time := by
    intro other time
    unfold ModifiedAt
    rw [timeOf?_congr (times_withoutModified s id time?)]
  intro key value
  simp only [hother]
  cases time? with
  | none =>
    show s.modified.find? key = some value ↔ _
    rw [h.entries]
    constructor
    · rintro ⟨hvalue, other, time, hmodified, hkey⟩
      refine ⟨hvalue, other, time, ?_, hmodified, hkey⟩
      rintro rfl
      obtain ⟨info, hinfo, _⟩ := hmodified
      cases htime.symm.trans hinfo
    · rintro ⟨hvalue, other, time, _, hmodified, hkey⟩
      exact ⟨hvalue, other, time, hmodified, hkey⟩
  | some info =>
    show (s.modified.erase (modifiedKey info.modified id)).find? key = some value ↔ _
    rw [ByteMap.find?_erase]
    constructor
    · intro hfind
      split at hfind
      · cases hfind
      · rename_i hne
        obtain ⟨hvalue, other, time, hmodified, hkey⟩ := (h.entries key value).mp hfind
        refine ⟨hvalue, other, time, ?_, hmodified, hkey⟩
        rintro rfl
        obtain ⟨info', hinfo, rfl⟩ := hmodified
        cases htime.symm.trans hinfo
        exact hne hkey
    · rintro ⟨hvalue, other, time, hne, hmodified, rfl⟩
      rw [if_neg fun hkey => hne (modifiedKey_inj.mp hkey).2, h.entries]
      exact ⟨hvalue, other, time, hmodified, rfl⟩

theorem modifiedAt_of_insert (htimes : s'.times = s.times.insert (DocId.toKey id) info.encode) (other : DocId)
    (time : UInt64) : s'.ModifiedAt other time ↔
      (other = id ∧ time = info.modified) ∨ (other ≠ id ∧ s.ModifiedAt other time) := by
  unfold ModifiedAt
  rw [timeOf?_of_insert htimes]
  by_cases hother : other = id
  · simp [hother, eq_comm]
  · simp [hother]

/-- A document that is not entered gets times, and is entered. -/
theorem EntersBut.enter (h : s.EntersBut id) (hzero : s.timeOf? 0 = .ok none) (hid : id ≠ 0)
    (htimes : s'.times = s.times.insert (DocId.toKey id) info.encode)
    (hmodified : s'.modified = s.modified.insert (modifiedKey info.modified id) []) : s'.Dated := by
  refine ⟨fun key value => ?_, ?_⟩
  · rw [hmodified, ByteMap.find?_insert]
    simp only [modifiedAt_of_insert htimes]
    constructor
    · intro hfind
      split at hfind
      · cases hfind
        exact ⟨rfl, id, info.modified, .inl ⟨rfl, rfl⟩, by assumption⟩
      · obtain ⟨hvalue, other, time, hne, hat, hkey⟩ := (h key value).mp hfind
        exact ⟨hvalue, other, time, .inr ⟨hne, hat⟩, hkey⟩
    · rintro ⟨rfl, other, time, ⟨rfl, rfl⟩ | ⟨hne, hat⟩, rfl⟩
      · rw [if_pos rfl]
      · rw [if_neg fun hkey => hne (modifiedKey_inj.mp hkey).2, h]
        exact ⟨rfl, other, time, hne, hat, rfl⟩
  · rw [timeOf?_of_insert htimes, if_neg (Ne.symm hid), hzero]

/-- A document that is not entered loses its times. -/
theorem EntersBut.leave (h : s.EntersBut id) (hzero : s.timeOf? 0 = .ok none)
    (htimes : s'.times = s.times.erase (DocId.toKey id)) (hmodified : s'.modified = s.modified) : s'.Dated := by
  refine ⟨fun key value => ?_, ?_⟩
  · rw [hmodified, h]
    unfold ModifiedAt
    simp only [timeOf?_of_erase htimes]
    constructor
    · rintro ⟨hvalue, other, time, hne, hat, hkey⟩
      exact ⟨hvalue, other, time, by rwa [if_neg hne], hkey⟩
    · rintro ⟨hvalue, other, time, ⟨info, hinfo, htime⟩, hkey⟩
      split at hinfo
      · cases hinfo
      · exact ⟨hvalue, other, time, by assumption, ⟨info, hinfo, htime⟩, hkey⟩
  · rw [timeOf?_of_erase htimes]
    split
    · rfl
    · exact hzero

/-- An id that is no document has no times. -/
theorem timeOf?_of_hasDocument (h : s.hasDocument id = false) : s.timeOf? id = .ok none := by
  unfold hasDocument ByteMap.contains at h
  unfold timeOf?
  cases hfind : s.times.find? (DocId.toKey id) with
  | none => rfl
  | some value =>
    rw [hfind] at h
    cases h

end Store

open Store

/-- Changes keep what is entered by modification time in step with the times. -/
theorem upkeep_dated (resolver : Resolver) : Upkeep resolver (fun _ _ => True) Store.Dated Store.Dated where
  start h _ := h
  weaken h := h
  congr_before hsame h := h.congr hsame.times hsame.modified
  congr_after hsame h := h.congr hsame.times hsame.modified
  congr_rule _ _ := trivial
  rename _ := trivial
  add := by
    intro s s₁ doc p h _ _ hnew hplace _ hsame
    have h₁ : s₁.Dated := h.congr (by rw [hsame]) (by rw [hsame])
    have hnone : s₁.timeOf? doc.id = .ok none :=
      (timeOf?_congr (by rw [hsame]) doc.id).trans (timeOf?_of_hasDocument hnew)
    exact (h₁.withoutModified hnone).enter h₁.zero (locate_spec hplace).1 rfl rfl
  remove := by
    intro s s₁ id b time? h _ _ htime _ hsame
    have h₁ : s₁.Dated := h.congr (by rw [hsame]) (by rw [hsame])
    have htime₁ : s₁.timeOf? id = .ok time? := (timeOf?_congr (by rw [hsame]) id).trans htime
    have hzero : (s₁.withoutModified id time?).timeOf? 0 = .ok none :=
      (timeOf?_congr (times_withoutModified ..) 0).trans h₁.zero
    refine (h₁.withoutModified htime₁).leave hzero ?_ (modified_withoutRecords ..)
    rw [times_withoutRecords, times_withoutModified]
  replace := by
    intro s s₁ doc parts time? h _ _ hid htime hsame _ _
    have h₁ : s₁.Dated := h.congr (by rw [hsame]) (by rw [hsame])
    have htimes := times_rewritten s₁ doc parts time?
    have hmodified := modified_rewritten s₁ doc parts time?
    cases hparts : parts.time with
    | false =>
      rw [hparts, if_neg Bool.false_ne_true] at htimes hmodified
      exact h₁.congr htimes hmodified
    | true =>
      rw [hparts, if_pos rfl] at htimes hmodified
      have htime₁ : s₁.timeOf? doc.id = .ok time? := (timeOf?_congr (by rw [hsame]) doc.id).trans htime
      have hzero : (s₁.withoutModified doc.id time?).timeOf? 0 = .ok none :=
        (timeOf?_congr (times_withoutModified ..) 0).trans h₁.zero
      exact (h₁.withoutModified htime₁).enter hzero hid (by rw [htimes, times_withoutModified]) hmodified

/-! ### What is found -/

/-- A cursor goes through the set in ascending order, each id once; there is none if the set is empty. -/
def Enumerates : Option Cursor → (DocId → Prop) → Prop
  | none, D => ∀ id, ¬ D id
  | some c, D => c.drain.Pairwise (· < ·) ∧ (∀ id, id ∈ c.drain ↔ D id) ∧ ∃ id, D id

theorem Enumerates.congr {c? : Option Cursor} {D D' : DocId → Prop} (h : Enumerates c? D) (hD : ∀ id, D id ↔ D' id) :
    Enumerates c? D' := by
  have hsame : D = D' := funext fun id => propext (hD id)
  exact hsame ▸ h

/-- A cursor over sorted lists goes through what it finds, if there is no cursor without reason. -/
theorem enumerates_of_finds {c? : Option Cursor} {D : DocId → Prop} (h : Finds c? D) (hsome : c? ≠ none → ∃ id, D id) :
    Enumerates c? D := by
  cases h with
  | nothing hnone => exact hnone
  | @tree t c _ hsorted hc hholds =>
    obtain ⟨e, hmeans, hobeys⟩ := CursorTree.obeys_of_cursor? hsorted c hc
    have hvalid := (simulation_tracks _).valid (hobeys _ (Nat.le_refl _))
    have hdrain : c.drain = e.walk.ids := Cursor.collect_of_obeys hobeys hmeans.unmoved none
    refine ⟨hdrain ▸ hvalid.ascending, fun id => ?_, hsome (Option.some_ne_none c)⟩
    rw [hdrain]
    exact (hmeans.holds_iff id).trans (hholds id)

theorem enumerates_cursorOver? {ids : List DocId} (h : ids.Pairwise (· < ·)) (hzero : 0 ∉ ids) :
    Enumerates (cursorOver? ids) (· ∈ ids) := by
  refine enumerates_of_finds (.cursorOver? h hzero) fun hsome => List.exists_mem_of_ne_nil ids ?_
  rintro rfl
  exact hsome rfl

namespace Store

variable {s : Store}

/-- What is found between two times are the documents that were modified then, ascending and each once. -/
theorem Dated.modifiedBetween (h : s.Dated) (first last : UInt64) :
    ∃ ids, s.modifiedBetween first last = .ok ids ∧ ids.Pairwise (· < ·) ∧
      ∀ id, id ∈ ids ↔ ∃ time, s.ModifiedAt id time ∧ first ≤ time ∧ time ≤ last := by
  let low := modifiedKey first 0
  let high := modifiedKey last (UInt64.ofNat (UInt64.size - 1))
  let found := s.modified.entries.filter fun e => low ≤ e.1 ∧ e.1 ≤ high
  have hmem : ∀ {e}, e ∈ found ↔ (e.2 = [] ∧ ∃ id time, s.ModifiedAt id time ∧ e.1 = modifiedKey time id) ∧
      low ≤ e.1 ∧ e.1 ≤ high := by
    intro e
    rw [List.mem_filter, decide_eq_true_eq, ← ByteMap.find?_eq_some_iff, h.entries]
  have hmember : ∀ e ∈ found, Table.member e = .ok e.1 := by
    intro e he
    rw [Table.member, (hmem.mp he).1.1]
    rfl
  have hkeys : found.mapM Table.member = .ok (found.map (·.1)) := mapM_eq_map hmember
  refine ⟨Ascending.ofList ((found.map (·.1)).filterMap modifiedId?), ?_, Ascending.pairwise_ofList _, fun id => ?_⟩
  · unfold Store.modifiedBetween
    simp only [found, low, high] at hkeys
    simp only [hkeys]
    rfl
  · have hlow : ∀ time : UInt64, low ≤ modifiedKey time id ↔ first ≤ time := by
      intro time
      rw [modifiedKey_le_iff, and_iff_left UInt64.zero_le, ← UInt64.le_iff_lt_or_eq]
    have hhigh : ∀ time : UInt64, modifiedKey time id ≤ high ↔ time ≤ last := by
      intro time
      have hid : id ≤ UInt64.ofNat (UInt64.size - 1) := by
        rw [UInt64.le_iff_toNat_le]
        exact Nat.le_sub_one_of_lt id.toNat_lt_size
      rw [modifiedKey_le_iff, and_iff_left hid, ← UInt64.le_iff_lt_or_eq]
    rw [Ascending.mem_ofList, List.mem_filterMap]
    constructor
    · rintro ⟨key, hkey, hid⟩
      obtain ⟨e, he, rfl⟩ := List.mem_map.mp hkey
      obtain ⟨⟨_, id', time, hat, hkey'⟩, hfirst, hlast⟩ := hmem.mp he
      rw [hkey'] at hid hfirst hlast
      rw [modifiedId?_modifiedKey] at hid
      cases hid
      exact ⟨time, hat, (hlow time).mp hfirst, (hhigh time).mp hlast⟩
    · rintro ⟨time, hat, hfirst, hlast⟩
      have hentry : (modifiedKey time id, []) ∈ found :=
        hmem.mpr ⟨⟨rfl, id, time, hat, rfl⟩, (hlow time).mpr hfirst, (hhigh time).mpr hlast⟩
      exact ⟨_, List.mem_map.mpr ⟨_, hentry, rfl⟩, modifiedId?_modifiedKey time id⟩

/-- The times that compare to another as asked are those in the range, and none if there is no range. -/
theorem holds_iff_mem_timeRange? (c : Comparison) (time reference : UInt64) :
    c.holds time reference = true ↔ ∃ range, timeRange? reference c = some range ∧ range.1 ≤ time ∧ time ≤ range.2 := by
  have hgreatest : time ≤ UInt64.ofNat (UInt64.size - 1) := by
    rw [UInt64.le_iff_toNat_le]
    exact Nat.le_sub_one_of_lt time.toNat_lt_size
  have hrange : ∀ first last : UInt64, (∃ range, some (first, last) = some range ∧ range.1 ≤ time ∧ time ≤ range.2) ↔
      first ≤ time ∧ time ≤ last := by simp
  cases c with
  | less =>
    simp only [Comparison.holds, timeRange?, decide_eq_true_eq]
    by_cases hzero : reference = 0
    · rw [if_pos hzero, hzero]
      simp
    · have hone : 1 ≤ reference := by
        rw [← UInt64.toNat_inj] at hzero
        rw [UInt64.le_iff_toNat_le]
        exact Nat.pos_of_ne_zero hzero
      have hpred : (reference - 1).toNat = reference.toNat - 1 := UInt64.toNat_sub_of_le reference 1 hone
      rw [if_neg hzero, hrange, and_iff_right UInt64.zero_le]
      rw [UInt64.le_iff_toNat_le] at hone ⊢
      rw [UInt64.lt_iff_toNat_lt, hpred]
      have hone' : 1 ≤ reference.toNat := hone
      omega
  | lessEqual =>
    simp only [Comparison.holds, timeRange?, decide_eq_true_eq]
    rw [hrange, and_iff_right UInt64.zero_le]
  | equal =>
    simp only [Comparison.holds, timeRange?, decide_eq_true_eq]
    rw [hrange]
    constructor
    · rintro rfl
      exact ⟨UInt64.le_refl _, UInt64.le_refl _⟩
    · exact fun h => UInt64.le_antisymm h.2 h.1
  | greaterEqual =>
    simp only [Comparison.holds, timeRange?, decide_eq_true_eq]
    rw [hrange, and_iff_left hgreatest]
  | greater =>
    simp only [Comparison.holds, timeRange?, decide_eq_true_eq]
    by_cases hlast : reference.toNat + 1 = UInt64.size
    · rw [if_pos hlast, UInt64.lt_iff_toNat_lt]
      have htime := time.toNat_lt_size
      simp
      omega
    · have hreference := reference.toNat_lt_size
      have hsucc : (reference + 1).toNat = reference.toNat + 1 := by
        rw [UInt64.toNat_add]
        exact Nat.mod_eq_of_lt (by simp only [UInt64.size] at hlast hreference; simp; omega)
      rw [if_neg hlast, hrange, and_iff_left hgreatest, UInt64.lt_iff_toNat_lt, UInt64.le_iff_toNat_le, hsucc]
      exact Iff.rfl

/-- A document with a modification time is not the id 0. -/
theorem Dated.ne_zero (h : s.Dated) {id : DocId} {time : UInt64} (hat : s.ModifiedAt id time) : id ≠ 0 := by
  rintro rfl
  obtain ⟨info, hinfo, _⟩ := hat
  cases h.zero.symm.trans hinfo

/-- The cursor between two times goes through the documents that were modified then. -/
theorem Dated.enumerates_between (h : s.Dated) (first last : UInt64) :
    ∃ ids, s.modifiedBetween first last = .ok ids ∧
      Enumerates (cursorOver? ids) fun id => ∃ time, s.ModifiedAt id time ∧ first ≤ time ∧ time ≤ last := by
  obtain ⟨ids, hids, hascending, hmem⟩ := h.modifiedBetween first last
  have hzero : 0 ∉ ids := fun hid => (h.ne_zero ((hmem 0).mp hid).choose_spec.1) rfl
  exact ⟨ids, hids, (enumerates_cursorOver? hascending hzero).congr hmem⟩

/-- The cursor for a comparison goes through the documents whose modification time compares so. -/
theorem Dated.enumerates_compared (h : s.Dated) (reference : UInt64) (c : Comparison) :
    ∃ c?, s.modifiedCursor? reference c = .ok c? ∧
      Enumerates c? fun id => ∃ time, s.ModifiedAt id time ∧ c.holds time reference = true := by
  cases hrange : timeRange? reference c with
  | none =>
    refine ⟨none, by rw [Store.modifiedCursor?, hrange], ?_⟩
    rintro id ⟨time, _, hholds⟩
    obtain ⟨range, hsome, _⟩ := (holds_iff_mem_timeRange? c time reference).mp hholds
    cases hrange.symm.trans hsome
  | some range =>
    obtain ⟨ids, hids, henumerates⟩ := h.enumerates_between range.1 range.2
    refine ⟨cursorOver? ids, ?_, henumerates.congr fun id => exists_congr fun time => and_congr_right fun _ => ?_⟩
    · rw [Store.modifiedCursor?, hrange]
      simp only [hids]
      rfl
    · rw [holds_iff_mem_timeRange?, hrange]
      simp

end Store

/-- In every store of a run, committed or open, exactly the documents with times are entered by modification time. So a
comparison with a time, and a range of times, find the documents whose modification time is asked for, in
ascending order and each once; where there are none, there is no cursor. -/
theorem Session.modified_afterAt (resolver : Resolver) (moments : List Moment) :
    let s := ({ resolver } : Session).afterAt moments
    ∀ store, (store = s.committed ∨ ∃ d, s.draft = some d ∧ store = d.store) →
      (∀ key value, store.modified.find? key = some value ↔
        value = [] ∧ ∃ id info, store.timeOf? id = .ok (some info) ∧ key = modifiedKey info.modified id) ∧
      (∀ reference c, ∃ c?, store.modifiedCursor? reference c = .ok c? ∧
        Enumerates c? fun id => ∃ info, store.timeOf? id = .ok (some info) ∧ c.holds info.modified reference = true) ∧
      ∀ first last, ∃ ids, store.modifiedBetween first last = .ok ids ∧
        Enumerates (cursorOver? ids) fun id => ∃ info, store.timeOf? id = .ok (some info) ∧
          first ≤ info.modified ∧ info.modified ≤ last := by
  intro s store hstore
  have hobeys : ∀ (s : Session) (moments : List Moment), s.ObeysAt (fun _ _ _ => True) moments := by
    intro s moments
    induction moments generalizing s with
    | nil => trivial
    | cons m ms ih => exact ⟨fun _ _ _ _ => trivial, ih _⟩
  have h : store.Dated := (upkept_afterAt upkeep_dated dated_empty (hobeys _ moments) store hstore).1
  have hat : ∀ (id : DocId) (Q : UInt64 → Prop), (∃ time, store.ModifiedAt id time ∧ Q time) ↔
      ∃ info, store.timeOf? id = .ok (some info) ∧ Q info.modified := by
    intro id Q
    constructor
    · rintro ⟨_, ⟨info, hinfo, rfl⟩, hQ⟩
      exact ⟨info, hinfo, hQ⟩
    · rintro ⟨info, hinfo, hQ⟩
      exact ⟨_, ⟨info, hinfo, rfl⟩, hQ⟩
  refine ⟨fun key value => ?_, fun reference c => ?_, fun first last => ?_⟩
  · rw [h.entries]
    exact and_congr_right fun _ => exists_congr fun id => hat id fun time => key = modifiedKey time id
  · obtain ⟨c?, hc, henumerates⟩ := h.enumerates_compared reference c
    exact ⟨c?, hc, henumerates.congr fun id => hat id fun time => c.holds time reference = true⟩
  · obtain ⟨ids, hids, henumerates⟩ := h.enumerates_between first last
    exact ⟨ids, hids, henumerates.congr fun id => hat id fun time => first ≤ time ∧ time ≤ last⟩

/-- A document gets another modification time, and is found under that one. -/
theorem Session.modified_afterAt_rewritten_time :
    let old : Document := { id := 7, url := [0x2F, 0x61], time := ⟨5, 0⟩ }
    let new : Document := { id := 7, time := ⟨9, 0⟩ }
    let moments : List Moment := [⟨.nowhere, .beginWrite⟩, ⟨.nowhere, .write (.add old)⟩,
      ⟨.nowhere, .write (.replace new { time := true })⟩, ⟨.nowhere, .commit⟩]
    let store := (({ resolver := .nowhere } : Session).afterAt moments).committed
    ∃ ids, store.modifiedBetween 6 9 = .ok ids ∧ ∃ c, cursorOver? ids = some c ∧ 7 ∈ c.drain := by
  intro old new moments store
  have htime : store.timeOf? 7 = .ok (some ⟨9, 0⟩) := by decide +kernel
  obtain ⟨ids, hids, henumerates⟩ := (modified_afterAt .nowhere moments store (.inl rfl)).2.2 6 9
  have hfound : ∃ info, store.timeOf? 7 = .ok (some info) ∧ 6 ≤ info.modified ∧ info.modified ≤ 9 :=
    ⟨⟨9, 0⟩, htime, by decide, by decide⟩
  cases hcursor : cursorOver? ids with
  | none =>
    rw [hcursor] at henumerates
    exact absurd hfound (henumerates 7)
  | some c =>
    rw [hcursor] at henumerates
    exact ⟨ids, hids, c, hcursor, (henumerates.2.1 7).mpr hfound⟩

end FileIndex
