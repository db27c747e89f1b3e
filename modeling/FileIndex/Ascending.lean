/-!
# Strictly ascending lists

A finite set is kept as the strictly ascending list of its members.

* `Ascending.insert x l`: the list `l` with the member `x`.
* `Ascending.ofList l`: the members of any list, ascending and each once.
* `Ascending.mem_insert`, `Ascending.mem_ofList`: what the members are.
* `Ascending.pairwise_insert`, `Ascending.pairwise_ofList`: the result is strictly ascending.
-/

namespace FileIndex.Ascending

variable {α : Type} [LT α] [DecidableLT α]

/-- Adds `x` at its place in a strictly ascending list; a member is not added twice. -/
def insert (x : α) : List α → List α
  | [] => [x]
  | y :: ys => if x < y then x :: y :: ys else if y < x then y :: insert x ys else y :: ys

/-- The members of `l`, ascending and each once. -/
def ofList (l : List α) : List α := l.foldr insert []

theorem mem_insert [Std.Trichotomous (α := α) (· < ·)] {x a : α} {l : List α} :
    a ∈ insert x l ↔ a = x ∨ a ∈ l := by
  induction l with
  | nil => simp [insert]
  | cons y ys ih =>
    rw [insert]
    split
    · simp
    · split
      · simp only [List.mem_cons, ih]; grind
      · rename_i h h'
        have : x = y := Std.Trichotomous.trichotomous x y h h'
        subst this; simp

theorem mem_ofList [Std.Trichotomous (α := α) (· < ·)] {a : α} {l : List α} :
    a ∈ ofList l ↔ a ∈ l := by
  induction l with
  | nil => rfl
  | cons x xs ih => rw [ofList, List.foldr_cons, mem_insert]; simp [← ih, ofList]

theorem pairwise_insert [Std.Trichotomous (α := α) (· < ·)]
    [Trans (α := α) (· < ·) (· < ·) (· < ·)] {x : α} {l : List α} (h : l.Pairwise (· < ·)) :
    (insert x l).Pairwise (· < ·) := by
  induction l with
  | nil => simp [insert]
  | cons y ys ih =>
    rw [List.pairwise_cons] at h
    rw [insert]
    split
    · rename_i hxy
      refine List.pairwise_cons.2 ⟨fun a ha => ?_, List.pairwise_cons.2 h⟩
      rcases List.mem_cons.1 ha with rfl | ha
      · exact hxy
      · exact Trans.trans hxy (h.1 a ha)
    · split
      · rename_i hyx
        refine List.pairwise_cons.2 ⟨fun a ha => ?_, ih h.2⟩
        rcases mem_insert.1 ha with rfl | ha
        · exact hyx
        · exact h.1 a ha
      · exact List.pairwise_cons.2 h

theorem pairwise_ofList [Std.Trichotomous (α := α) (· < ·)]
    [Trans (α := α) (· < ·) (· < ·) (· < ·)] (l : List α) : (ofList l).Pairwise (· < ·) := by
  induction l with
  | nil => exact List.Pairwise.nil
  | cons x xs ih => exact pairwise_insert ih

end FileIndex.Ascending
