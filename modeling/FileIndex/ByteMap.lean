import FileIndex.Bytes

/-!
# Ordered maps with byte-string keys

`ByteMap α` lists its entries in strictly ascending key order, and that order is part of the type.
Everything said about a map is said through `find?`:

* `ByteMap.find?_insert`, `ByteMap.find?_erase`, `ByteMap.find?_empty`.
* `ByteMap.ext_find?`: two maps with the same values under every key are equal.
-/

namespace FileIndex

/-- A finite map from byte strings, listed by ascending key. -/
structure ByteMap (α : Type) where
  /-- The key and value pairs. -/
  entries : List (Bytes × α)
  ascending : entries.Pairwise (·.1 < ·.1) := by simp
  deriving DecidableEq

namespace ByteMap

variable {α : Type}

/-- Puts a value under a key in a list ascending by key, replacing the one that is there. -/
def insertEntry (key : Bytes) (value : α) : List (Bytes × α) → List (Bytes × α)
  | [] => [(key, value)]
  | e :: es =>
    if key < e.1 then (key, value) :: e :: es
    else if key = e.1 then (key, value) :: es
    else e :: insertEntry key value es

theorem mem_insertEntry {key : Bytes} {value : α} {x : Bytes × α} {es : List (Bytes × α)}
    (h : x ∈ insertEntry key value es) : x = (key, value) ∨ x ∈ es := by
  induction es with
  | nil => simpa [insertEntry] using h
  | cons e es ih => rw [insertEntry] at h; grind

theorem pairwise_insertEntry (key : Bytes) (value : α) {es : List (Bytes × α)}
    (h : es.Pairwise (·.1 < ·.1)) : (insertEntry key value es).Pairwise (·.1 < ·.1) := by
  induction es with
  | nil => simp [insertEntry]
  | cons e es ih =>
    rw [List.pairwise_cons] at h
    rw [insertEntry]
    split
    · rename_i hlt
      refine List.pairwise_cons.2 ⟨fun a ha => ?_, List.pairwise_cons.2 h⟩
      rcases List.mem_cons.1 ha with rfl | ha
      · exact hlt
      · exact List.lt_trans hlt (h.1 a ha)
    · split
      · rename_i heq
        exact List.pairwise_cons.2 ⟨fun a ha => heq ▸ h.1 a ha, h.2⟩
      · rename_i hlt hne
        refine List.pairwise_cons.2 ⟨fun a ha => ?_, ih h.2⟩
        rcases mem_insertEntry ha with rfl | ha
        · exact (List.le_iff_lt_or_eq.1 (List.not_lt.1 hlt)).resolve_right (Ne.symm hne)
        · exact h.1 a ha

/-- The map without keys. -/
def empty : ByteMap α := ⟨[], List.Pairwise.nil⟩

instance : EmptyCollection (ByteMap α) := ⟨empty⟩
instance : Inhabited (ByteMap α) := ⟨empty⟩

/-- The value under `key`. -/
def find? (m : ByteMap α) (key : Bytes) : Option α := m.entries.lookup key

/-- Whether there is a value under `key`. -/
def contains (m : ByteMap α) (key : Bytes) : Bool := (m.find? key).isSome

/-- The map with `value` under `key`. -/
def insert (m : ByteMap α) (key : Bytes) (value : α) : ByteMap α :=
  ⟨insertEntry key value m.entries, pairwise_insertEntry key value m.ascending⟩

/-- The map without the key `key`. -/
def erase (m : ByteMap α) (key : Bytes) : ByteMap α :=
  ⟨m.entries.filter (·.1 != key), m.ascending.filter _⟩

/-- The keys, ascending. -/
def keys (m : ByteMap α) : List Bytes := m.entries.map (·.1)

/-- The number of keys. -/
def size (m : ByteMap α) : Nat := m.entries.length

/-- Whether there are no keys. -/
def isEmpty (m : ByteMap α) : Bool := m.entries.isEmpty

/-! ## The map through its values -/

theorem lookup_eq_some_iff {es : List (Bytes × α)} (h : es.Pairwise (·.1 < ·.1)) {key : Bytes}
    {value : α} : es.lookup key = some value ↔ (key, value) ∈ es := by
  induction es with
  | nil => simp
  | cons e es ih =>
    obtain ⟨k, v⟩ := e
    rw [List.pairwise_cons] at h
    by_cases hk : key = k
    · subst hk
      have : (key, value) ∉ es := fun hm => List.lt_irrefl key (h.1 (key, value) hm)
      simp [this, eq_comm]
    · rw [List.lookup_cons, beq_false_of_ne hk, ih h.2]
      simp [hk]

theorem find?_eq_some_iff {m : ByteMap α} {key : Bytes} {value : α} :
    m.find? key = some value ↔ (key, value) ∈ m.entries := lookup_eq_some_iff m.ascending

theorem mem_insertEntry_iff {key : Bytes} {value : α} {x : Bytes × α} {es : List (Bytes × α)}
    (h : es.Pairwise (·.1 < ·.1)) :
    x ∈ insertEntry key value es ↔ x = (key, value) ∨ x.1 ≠ key ∧ x ∈ es := by
  induction es with
  | nil => simp [insertEntry]
  | cons e es ih =>
    rw [List.pairwise_cons] at h
    rw [insertEntry]
    have ih := ih h.2
    split
    · rename_i hlt
      have : ∀ a ∈ e :: es, a.1 ≠ key := fun a ha heq => by
        rcases List.mem_cons.1 ha with rfl | ha
        · exact List.lt_irrefl _ (heq ▸ hlt)
        · exact List.lt_irrefl _ (List.lt_trans hlt (heq ▸ h.1 a ha))
      rw [List.mem_cons]; grind
    · split
      · rename_i heq
        have : ∀ a ∈ es, a.1 ≠ key := fun a ha he => List.lt_irrefl _ (he ▸ heq ▸ h.1 a ha)
        rw [List.mem_cons, List.mem_cons]; grind
      · rw [List.mem_cons, List.mem_cons, ih]; grind

/-- The inserted value is found under its key and all else is as before. -/
@[simp] theorem find?_insert (m : ByteMap α) (key other : Bytes) (value : α) :
    (m.insert key value).find? other = if other = key then some value else m.find? other := by
  apply Option.ext
  intro v
  rw [find?_eq_some_iff, insert, mem_insertEntry_iff m.ascending]
  split
  · simp_all [eq_comm]
  · simp_all [find?_eq_some_iff]

/-- The erased key is gone and all else is as before. -/
@[simp] theorem find?_erase (m : ByteMap α) (key other : Bytes) :
    (m.erase key).find? other = if other = key then none else m.find? other := by
  apply Option.ext
  intro v
  rw [find?_eq_some_iff, erase]
  split <;> simp_all [find?_eq_some_iff]

@[simp] theorem find?_empty (key : Bytes) : (∅ : ByteMap α).find? key = none := rfl

/-- A map is determined by its values. -/
theorem ext_find? {m m' : ByteMap α} (h : ∀ key, m.find? key = m'.find? key) : m = m' := by
  obtain ⟨es, hs⟩ := m
  obtain ⟨es', hs'⟩ := m'
  congr
  have mem : ∀ x, x ∈ es ↔ x ∈ es' := fun x => by
    have := h x.1
    rw [Option.ext_iff] at this
    simpa [find?_eq_some_iff] using this x.2
  clear h
  induction es generalizing es' with
  | nil =>
    cases es' with
    | nil => rfl
    | cons e _ => exact absurd ((mem e).2 List.mem_cons_self) (by simp)
  | cons e es ih =>
    cases es' with
    | nil => exact absurd ((mem e).1 List.mem_cons_self) (by simp)
    | cons e' es' =>
      rw [List.pairwise_cons] at hs hs'
      have hee : e = e' := by
        rcases List.mem_cons.1 ((mem e).1 List.mem_cons_self) with he | he
        · exact he
        rcases List.mem_cons.1 ((mem e').2 List.mem_cons_self) with he' | he'
        · exact he'.symm
        · exact absurd (List.lt_trans (hs'.1 _ he) (hs.1 _ he')) (List.lt_irrefl _)
      subst hee
      congr
      refine ih hs.2 _ hs'.2 fun x => ?_
      have hx := mem x
      simp only [List.mem_cons] at hx
      have h1 : x = e → x ∉ es := fun he hm => List.lt_irrefl _ (he ▸ hs.1 _ hm)
      have h2 : x = e → x ∉ es' := fun he hm => List.lt_irrefl _ (he ▸ hs'.1 _ hm)
      grind

/-- To insert what is there changes nothing. -/
theorem insert_eq_self {m : ByteMap α} {key : Bytes} {value : α} (h : m.find? key = some value) :
    m.insert key value = m := by
  refine ext_find? fun other => ?_
  rw [find?_insert]
  split
  · rename_i hother
    rw [hother, h]
  · rfl

/-- What is inserted under a key may have been erased there before. -/
theorem insert_erase (m : ByteMap α) (key : Bytes) (value : α) :
    (m.erase key).insert key value = m.insert key value := by
  refine ext_find? fun other => ?_
  rw [find?_insert, find?_insert, find?_erase]
  split <;> rfl

end ByteMap
end FileIndex
