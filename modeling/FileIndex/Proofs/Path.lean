import FileIndex.Path

/-!
# Reading and writing paths

The absolute paths are those that names can be read from, and names are read back from the path that they are
written as.

* `Path.Valid`: names that can stand in a path.
* `Path.parse_spec`: the names of a path are valid, there is one at least, and they are written as the path.
* `Path.parse_render`: valid names are read back.
* `Path.nil_mem_split`: what leaves an empty piece.
-/

namespace FileIndex.Path

/-- No name is empty or holds a slash. -/
def Valid (names : List Bytes) : Prop := ∀ name ∈ names, name ≠ [] ∧ slash ∉ name

theorem split_ne_nil (bs : Bytes) : split bs ≠ [] := by
  cases bs with
  | nil => simp [split]
  | cons b bs =>
    rw [split]
    split
    · simp
    · split <;> simp

theorem split_cons_of_ne {b : UInt8} (hb : b ≠ slash) {bs piece : Bytes} {pieces : List Bytes}
    (h : split bs = piece :: pieces) : split (b :: bs) = (b :: piece) :: pieces := by
  rw [split, if_neg hb, h]

theorem split_append_slash (a b : Bytes) : split (a ++ slash :: b) = split a ++ split b := by
  induction a with
  | nil => simp [split]
  | cons c a ih =>
    by_cases hc : c = slash
    · rw [List.cons_append, split, split, if_pos hc, if_pos hc, ih, List.cons_append]
    · obtain ⟨piece, pieces, hpieces⟩ := List.exists_cons_of_ne_nil (split_ne_nil a)
      have hrest : split (a ++ slash :: b) = piece :: (pieces ++ split b) := by
        rw [ih, hpieces, List.cons_append]
      rw [List.cons_append, split_cons_of_ne hc hpieces, split_cons_of_ne hc hrest, List.cons_append]

theorem split_of_not_mem {name : Bytes} (h : slash ∉ name) : split name = [name] := by
  induction name with
  | nil => rfl
  | cons b bs ih =>
    rw [List.mem_cons, not_or] at h
    exact split_cons_of_ne (Ne.symm h.1) (ih h.2)

theorem not_mem_of_mem_split {bs piece : Bytes} (h : piece ∈ split bs) : slash ∉ piece := by
  induction bs generalizing piece with
  | nil =>
    rw [split, List.mem_singleton] at h
    simp [h]
  | cons b bs ih =>
    by_cases hb : b = slash
    · rw [split, if_pos hb, List.mem_cons] at h
      rcases h with rfl | h
      · simp
      · exact ih h
    · obtain ⟨first, pieces, hpieces⟩ := List.exists_cons_of_ne_nil (split_ne_nil bs)
      rw [split_cons_of_ne hb hpieces, List.mem_cons] at h
      rcases h with rfl | h
      · rw [List.mem_cons, not_or]
        exact ⟨Ne.symm hb, ih (hpieces ▸ List.mem_cons_self)⟩
      · exact ih (hpieces ▸ List.mem_cons_of_mem first h)

theorem render_append (names above : List Bytes) : render (names ++ above) = render above ++ render names := by
  induction names with
  | nil => simp [render]
  | cons name names ih => rw [List.cons_append, render, render, ih, List.append_assoc]

theorem render_reverse_split (bs : Bytes) : render (split bs).reverse = slash :: bs := by
  induction bs with
  | nil => rfl
  | cons b bs ih =>
    by_cases hb : b = slash
    · rw [split, if_pos hb, List.reverse_cons, render_append, ih, hb]
      rfl
    · obtain ⟨piece, pieces, hpieces⟩ := List.exists_cons_of_ne_nil (split_ne_nil bs)
      rw [hpieces, List.reverse_cons, render_append] at ih
      rw [split_cons_of_ne hb hpieces, List.reverse_cons, render_append]
      simp only [render, List.nil_append, List.cons_append, List.cons.injEq, true_and] at ih ⊢
      rw [ih]

/-- No name is longer than the path. -/
theorem length_le_of_mem_render {names : List Bytes} {name : Bytes} (h : name ∈ names) :
    name.length ≤ (render names).length := by
  induction names with
  | nil => cases h
  | cons first above ih =>
    rw [render, List.length_append, List.length_cons]
    rcases List.mem_cons.mp h with rfl | h
    · omega
    · have hle := ih h
      omega

theorem render_cons_eq (name : Bytes) (above : List Bytes) : ∃ rest, render (name :: above) = slash :: rest := by
  induction above generalizing name with
  | nil => exact ⟨name, rfl⟩
  | cons above₁ above ih =>
    obtain ⟨rest, hrest⟩ := ih above₁
    exact ⟨rest ++ slash :: name, by rw [render, hrest, List.cons_append]⟩

theorem split_tail_render {name : Bytes} {above : List Bytes} (h : Valid (name :: above)) :
    split (render (name :: above)).tail = (name :: above).reverse := by
  induction above generalizing name with
  | nil =>
    rw [render, render, List.nil_append, List.tail_cons, List.reverse_singleton]
    exact split_of_not_mem (h name List.mem_cons_self).2
  | cons above₁ above ih =>
    have hname := (h name List.mem_cons_self).2
    have habove := ih fun n hn => h n (List.mem_cons_of_mem name hn)
    obtain ⟨rest, hrest⟩ := render_cons_eq above₁ above
    rw [hrest, List.tail_cons] at habove
    rw [render, hrest, List.cons_append, List.tail_cons, split_append_slash, habove, split_of_not_mem hname,
      List.reverse_cons (a := name)]

/-- The names of a path are valid, and they are written as the path. -/
theorem parse_spec {url : Bytes} {names : List Bytes} (h : parse url = .ok names) :
    names ≠ [] ∧ Valid names ∧ render names = url := by
  unfold parse at h
  split at h
  · cases h
  · rename_i habsolute
    split at h
    · cases h
    · rename_i hempty
      cases h
      refine ⟨by simpa using split_ne_nil url.tail, fun name hname => ?_, ?_⟩
      · rw [List.mem_reverse] at hname
        refine ⟨?_, not_mem_of_mem_split hname⟩
        rintro rfl
        exact hempty (by simpa using hname)
      · rw [render_reverse_split]
        cases url with
        | nil => simp at habsolute
        | cons b bs =>
          rw [not_or] at habsolute
          have hb : b = slash := by simpa using habsolute.1
          rw [hb, List.tail_cons]

/-- Valid names are read back from the path that they are written as. -/
theorem parse_render {names : List Bytes} (hne : names ≠ []) (h : Valid names) : parse (render names) = .ok names := by
  obtain ⟨name, above, rfl⟩ := List.exists_cons_of_ne_nil hne
  have hsplit := split_tail_render h
  obtain ⟨hname, hslash⟩ := h name List.mem_cons_self
  obtain ⟨rest, hrest⟩ := render_cons_eq name above
  have hlast : (render (name :: above)).getLast? = name.getLast? := by
    obtain ⟨b, bs, rfl⟩ := List.exists_cons_of_ne_nil hname
    rw [render, List.getLast?_append, List.getLast?_cons_cons]
    cases hlast : (b :: bs).getLast? with
    | none => simp at hlast
    | some last => rfl
  have habsolute : ¬ ((render (name :: above)).head? ≠ some slash ∨
    (render (name :: above)).getLast? = some slash) := by
    rw [not_or, hlast, hrest]
    refine ⟨by simp, fun hmem => hslash (List.mem_of_getLast? hmem)⟩
  have hnonempty : ¬ (split (render (name :: above)).tail).contains [] = true := by
    rw [hsplit, List.contains_iff_mem, List.mem_reverse]
    exact fun hmem => (h [] hmem).1 rfl
  rw [parse, if_neg habsolute, if_neg hnonempty, hsplit, List.reverse_reverse]

/-- There are two reasons for which no names are read. -/
theorem parse_error {url : Bytes} {e : Error} (h : parse url = .error e) : e = .notAbsolute ∨ e = .emptyComponent := by
  unfold parse at h
  by_cases habsolute : url.head? ≠ some slash ∨ url.getLast? = some slash
  · rw [if_pos habsolute] at h
    cases h
    exact .inl rfl
  · rw [if_neg habsolute] at h
    by_cases hempty : (split url.tail).contains [] = true
    · rw [if_pos hempty] at h
      cases h
      exact .inr rfl
    · rw [if_neg hempty] at h
      cases h

/-- A slash at the end and two adjacent slashes leave an empty piece. -/
theorem nil_mem_split {bs : Bytes} (h : (slash :: bs).getLast? = some slash ∨ [slash, slash] <:+: slash :: bs) :
    [] ∈ split bs := by
  rcases h with hlast | ⟨front, rest, hinfix⟩
  · by_cases hbs : bs = []
    · rw [hbs]
      exact List.mem_singleton_self []
    · rw [List.getLast?_cons, List.getLast?_eq_some_getLast hbs, Option.getD_some, Option.some.injEq] at hlast
      have hsplit := split_append_slash bs.dropLast []
      rw [← hlast, List.dropLast_concat_getLast] at hsplit
      rw [hsplit]
      simp [split]
  · cases front with
    | nil =>
      simp only [List.nil_append, List.cons_append, List.cons.injEq, true_and] at hinfix
      rw [← hinfix, split, if_pos rfl]
      exact List.mem_cons_self
    | cons b front =>
      simp only [List.cons_append, List.append_assoc, List.cons.injEq, List.nil_append] at hinfix
      rw [← hinfix.2, split_append_slash, split, if_pos rfl]
      simp

end FileIndex.Path
