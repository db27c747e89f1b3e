import FileIndex.Store.Paths

/-!
# Ids that tell paths apart

* `Naming`: a resolver with the paths that it tells apart.
* `Naming.idOf`: the id of a path given by its names.
* `Naming.ofList`: a naming of listed paths.
* `Naming.Folders`: a set of paths that has with each path the folders above it.
-/

namespace FileIndex

/-- A resolver with a set of paths that it tells apart. The set has with each path what is above it, up to the root.
Ids are of a fixed width, so that no resolver tells all paths apart. -/
structure Naming where
  resolve : Resolver
  known : List Bytes → Prop
  up : ∀ {name above}, known (name :: above) → known above
  ne_zero : ∀ {names}, known names → names ≠ [] → resolve (Path.render names) ≠ 0
  injective : ∀ {names names'}, known names → known names' → names ≠ [] → names' ≠ [] →
    resolve (Path.render names) = resolve (Path.render names') → names = names'

namespace Naming

variable {r : Naming} {names names' above : List Bytes} {name : Bytes}

/-- The id of a path given by its names; the root has the id 0. -/
def idOf (r : Naming) (names : List Bytes) : DocId := if names = [] then 0 else r.resolve (Path.render names)

@[simp] theorem idOf_nil (r : Naming) : r.idOf [] = 0 := rfl

@[simp] theorem idOf_cons (r : Naming) (name : Bytes) (above : List Bytes) :
    r.idOf (name :: above) = r.resolve (Path.render (name :: above)) := if_neg (List.cons_ne_nil name above)

theorem known.of_suffix (h : r.known names) (hsuffix : above <:+ names) : r.known above := by
  induction names with
  | nil =>
    rw [List.suffix_nil.mp hsuffix]
    exact h
  | cons name names ih =>
    rcases List.suffix_cons_iff.mp hsuffix with rfl | hsuffix
    · exact h
    · exact ih (r.up h) hsuffix

theorem idOf_ne_zero (hne : names ≠ []) (h : r.known names) : r.idOf names ≠ 0 := by
  rw [idOf, if_neg hne]
  exact r.ne_zero h hne

theorem idOf_inj (h : r.known names) (h' : r.known names') : r.idOf names = r.idOf names' ↔ names = names' := by
  refine ⟨fun hid => ?_, fun heq => heq ▸ rfl⟩
  by_cases hne : names = []
  · by_cases hne' : names' = []
    · rw [hne, hne']
    · rw [hne] at hid
      exact absurd hid.symm (idOf_ne_zero hne' h')
  · by_cases hne' : names' = []
    · rw [hne'] at hid
      exact absurd hid (idOf_ne_zero hne h)
    · rw [idOf, idOf, if_neg hne, if_neg hne'] at hid
      exact r.injective h h' hne hne' hid

/-- A naming of listed paths. -/
def ofList (resolve : Resolver) (paths : List (List Bytes)) (hup : ∀ names ∈ paths, names.tail ∈ paths)
    (hzero : ∀ names ∈ paths, names ≠ [] → resolve (Path.render names) ≠ 0)
    (hinj : ∀ names ∈ paths, ∀ names' ∈ paths, names ≠ [] → names' ≠ [] →
      resolve (Path.render names) = resolve (Path.render names') → names = names') : Naming where
  resolve
  known names := names ∈ paths
  up h := hup _ h
  ne_zero h := hzero _ h
  injective h h' := hinj _ h _ h'

/-- Known paths, and with each path the folders above it. -/
structure Folders (r : Naming) (P : List Bytes → Prop) : Prop where
  ne_nil : ¬ P []
  known : ∀ {names}, P names → r.known names
  up : ∀ {name above}, P (name :: above) → above ≠ [] → P above

theorem Folders.of_suffix {P : List Bytes → Prop} (hP : r.Folders P) (h : P names) (hsuffix : above <:+ names)
    (hne : above ≠ []) : P above := by
  induction names with
  | nil => exact absurd (List.suffix_nil.mp hsuffix) hne
  | cons name names ih =>
    rcases List.suffix_cons_iff.mp hsuffix with rfl | hsuffix
    · exact h
    · refine ih (hP.up h ?_) hsuffix
      rintro rfl
      exact hne (List.suffix_nil.mp hsuffix)

end Naming
end FileIndex
