import FileIndex.Proofs.Tree.Names

/-!
# Looking up a path and writing out the path of an id

One walk goes down from the root and looks for each name among the children; the other goes up by the entries. If the
children and the entries agree, what is found by going down leads up by the same names, as long as they are not too many
to be followed. If siblings have different names as well, each of the walks undoes the other.

* `Store.Consistent`, `Store.NamesDiffer`: what is asked of the two maps.
* `Consistent.entry_of_childNamed`, `Consistent.childNamed_of_entry`: one name downwards.
* `NamedWay.of_descend`, `NamedWay.descend`: a list of names downwards.
* `Consistent.paths`: the ids that can be followed upwards correspond to their paths.
* `idAt_pathOf`: the two walks are inverse to each other.
-/

namespace FileIndex.Store

/-- The maps can be read, they agree on what hangs where, and names can stand in a path. -/
structure Consistent (s : Store) : Prop where
  children : ∀ id, ∃ ids, s.childrenOf id = .ok ids
  entries : ∀ id, ∃ entry, s.pathEntryOf? id = .ok entry
  lists_iff : ∀ parent id, s.ListsBelow parent id ↔ s.HangsFrom id parent
  names : ∀ id e, s.pathEntryOf? id = .ok (some e) → e.name ≠ [] ∧ Path.slash ∉ e.name

/-- No two ids hang from the same one under the same name. -/
def NamesDiffer (s : Store) : Prop :=
  ∀ e id id', s.pathEntryOf? id = .ok (some e) → s.pathEntryOf? id' = .ok (some e) → id = id'

theorem Linked.consistent {s : Store} (h : s.Linked) : s.Consistent where
  children id := (h.readable.children id).imp fun _ hids => hids.1
  entries := h.readable.entries
  lists_iff := h.lists_iff
  names := h.names

variable {s : Store} {id parent child : DocId} {name : Bytes} {names above : List Bytes} {ids : List DocId}

/-! ### One name downwards -/

theorem Consistent.firstNamed_total (hs : s.Consistent) (name : Bytes) (ids : List DocId) :
    ∃ child, s.firstNamed name ids = .ok child := by
  induction ids with
  | nil => exact ⟨0, rfl⟩
  | cons id ids ih =>
    obtain ⟨entry, hentry⟩ := hs.entries id
    rw [firstNamed]
    simp only [hentry, bind, Except.bind, pure, Except.pure]
    cases entry with
    | none => exact ih
    | some e =>
      by_cases hname : e.name = name
      · exact ⟨id, if_pos hname⟩
      · simp only [if_neg hname]
        exact ih

theorem firstNamed_spec (h : s.firstNamed name ids = .ok child) (hchild : child ≠ 0) :
    child ∈ ids ∧ ∃ e, s.pathEntryOf? child = .ok (some e) ∧ e.name = name := by
  induction ids with
  | nil =>
    rw [firstNamed, Except.ok.injEq] at h
    exact absurd h.symm hchild
  | cons id ids ih =>
    have hrest : s.firstNamed name ids = .ok child →
        child ∈ id :: ids ∧ ∃ e, s.pathEntryOf? child = .ok (some e) ∧ e.name = name := by
      intro hrest
      obtain ⟨hmem, hentry⟩ := ih hrest
      exact ⟨List.mem_cons_of_mem id hmem, hentry⟩
    rw [firstNamed] at h
    cases hentry : s.pathEntryOf? id with
    | error e => simp [hentry, bind, Except.bind] at h
    | ok entry =>
      simp only [hentry, bind, Except.bind, pure, Except.pure] at h
      cases entry with
      | none => exact hrest h
      | some e =>
        by_cases hname : e.name = name
        · simp only [if_pos hname, Except.ok.injEq] at h
          subst h
          exact ⟨List.mem_cons_self, e, hentry, hname⟩
        · simp only [if_neg hname] at h
          exact hrest h

/-- An id that alone has its name among the ids is found by it. -/
theorem Consistent.firstNamed_of_mem (hs : s.Consistent) (hid : id ∈ ids)
    (honly : ∀ other ∈ ids, (∃ e, s.pathEntryOf? other = .ok (some e) ∧ e.name = name) ↔ other = id) :
    s.firstNamed name ids = .ok id := by
  induction ids with
  | nil => simp at hid
  | cons first ids ih =>
    obtain ⟨hfirst, hrest⟩ := List.forall_mem_cons.mp honly
    obtain ⟨entry, hentry⟩ := hs.entries first
    rw [firstNamed]
    simp only [hentry, bind, Except.bind, pure, Except.pure]
    by_cases hsame : first = id
    · obtain ⟨e, he, hname⟩ := hfirst.mpr hsame
      rw [hentry, Except.ok.injEq] at he
      rw [he]
      simp only [if_pos hname, hsame]
    · have hmem : id ∈ ids := (List.mem_cons.mp hid).resolve_left (Ne.symm hsame)
      cases entry with
      | none => exact ih hmem hrest
      | some e =>
        have hname : e.name ≠ name := fun hname => hsame (hfirst.mp ⟨e, hentry, hname⟩)
        simp only [if_neg hname]
        exact ih hmem hrest

theorem Consistent.childNamed_total (hs : s.Consistent) (parent : DocId) (name : Bytes) :
    ∃ child, s.childNamed parent name = .ok child := by
  obtain ⟨ids, hids⟩ := hs.children parent
  obtain ⟨child, hchild⟩ := hs.firstNamed_total name ids
  rw [childNamed, hids]
  split
  · exact ⟨0, rfl⟩
  · exact ⟨child, hchild⟩

/-- What is found below an id has an entry that says so. -/
theorem Consistent.entry_of_childNamed (hs : s.Consistent) (h : s.childNamed parent name = .ok child)
    (hchild : child ≠ 0) :
    s.pathEntryOf? child = .ok (some ⟨parent, name⟩) := by
  obtain ⟨ids, hids⟩ := hs.children parent
  rw [childNamed, hids] at h
  split at h
  · rw [Except.ok.injEq] at h
    exact absurd h.symm hchild
  · obtain ⟨hmem, e, he, hname⟩ := firstNamed_spec h hchild
    have hhangs := (hs.lists_iff parent child).mp ((listsBelow_iff hids).mpr hmem)
    rw [he, (hangsFrom_iff he).mp hhangs, ← hname]

/-- An id is found under its name below the one that it hangs from. -/
theorem Consistent.childNamed_of_entry (hs : s.Consistent) (hdiffer : s.NamesDiffer) {e : PathEntry}
    (he : s.pathEntryOf? id = .ok (some e)) : s.childNamed e.parent e.name = .ok id := by
  obtain ⟨ids, hids⟩ := hs.children e.parent
  have hlisted : ∀ other, other ∈ ids ↔ s.HangsFrom other e.parent := fun other => by
    rw [← listsBelow_iff hids, hs.lists_iff]
  have hnonempty : ¬ e.name.isEmpty := by simpa using (hs.names id e he).1
  rw [childNamed, hids, if_neg hnonempty]
  apply hs.firstNamed_of_mem ((hlisted id).mpr ⟨e.name, he⟩)
  intro other hother
  constructor
  · rintro ⟨e', he', hname⟩
    have hparent := (hangsFrom_iff he').mp ((hlisted other).mp hother)
    have hsame : e' = e := by
      obtain ⟨parent', name'⟩ := e'
      obtain ⟨parent, name⟩ := e
      simp_all
    exact hdiffer e other id (hsame ▸ he') he
  · rintro rfl
    exact ⟨e, he, rfl⟩

/-! ### A list of names downwards -/

/-- Nothing is found by an empty name. -/
theorem Consistent.descend_of_nil_mem (hs : s.Consistent) (hnil : [] ∈ names) (id : DocId) :
    s.descend id names = .ok 0 := by
  induction names generalizing id with
  | nil => simp at hnil
  | cons name names ih =>
    obtain ⟨child, hchild⟩ := hs.childNamed_total id name
    simp only [descend, hchild, bind, Except.bind, pure, Except.pure]
    split
    · rfl
    · rename_i hfound
      apply ih
      refine (List.mem_cons.mp hnil).resolve_left ?_
      rintro rfl
      rw [childNamed, List.isEmpty_nil, if_pos rfl, Except.ok.injEq] at hchild
      exact hfound hchild.symm

/-- What is found by going down leads up by the same names. -/
theorem NamedWay.of_descend {found : DocId} (hs : s.Consistent) (hway : s.NamedWay id above)
    (h : s.descend id names = .ok found) (hfound : found ≠ 0) : s.NamedWay found (names.reverse ++ above) := by
  induction names generalizing id above with
  | nil =>
    rw [descend, Except.ok.injEq] at h
    exact h ▸ hway
  | cons name names ih =>
    obtain ⟨child, hchild⟩ := hs.childNamed_total id name
    simp only [descend, hchild, bind, Except.bind, pure, Except.pure] at h
    split at h
    · rw [Except.ok.injEq] at h
      exact absurd h.symm hfound
    · rename_i hne
      have hbelow := ih (.up (hs.entry_of_childNamed hchild hne) hway) h
      rwa [List.reverse_cons, List.append_assoc]

/-- What leads up by some names is found by going down by them, whatever else is to be followed then. -/
theorem NamedWay.descend (hs : s.Consistent) (hdiffer : s.NamesDiffer) (hway : s.NamedWay id names)
    (further : List Bytes) : s.descend 0 (names.reverse ++ further) = s.descend id further := by
  induction hway generalizing further with
  | root => rfl
  | @up id e above he _ ih =>
    rw [List.reverse_cons, List.append_assoc, List.singleton_append, ih, Store.descend]
    simp only [hs.childNamed_of_entry hdiffer he, bind, Except.bind, if_neg (ne_zero_of_pathEntryOf? he)]

theorem NamedWay.valid (hs : s.Consistent) (hway : s.NamedWay id names) : Path.Valid names := by
  induction hway with
  | root => exact fun _ hname => absurd hname List.not_mem_nil
  | up he _ ih => exact List.forall_mem_cons.mpr ⟨hs.names _ _ he, ih⟩

/-! ### The two walks -/

theorem idAt_cons (bs : Bytes) : s.idAt (Path.slash :: bs) = s.descend 0 (Path.split bs) := by
  rw [idAt, if_pos rfl]

theorem idAt_of_relative {url : Bytes} (h : url.head? ≠ some Path.slash) : s.idAt url = .ok 0 := by
  cases url with
  | nil => rfl
  | cons b bs => exact if_neg fun hb => h (congrArg some hb)

/-- A path by which an id is found is the path of the id, if it has no more names than are followed upwards. -/
theorem Consistent.pathOf_of_idAt (hs : s.Consistent) {url : Bytes} (h : s.idAt url = .ok id) (hid : id ≠ 0)
    (hlength : (Path.split url.tail).length ≤ maxDepth + 1) : s.pathOf id = .ok url := by
  by_cases habsolute : url.head? = some Path.slash
  · obtain ⟨bs, rfl⟩ := List.head?_eq_some_iff.mp habsolute
    rw [idAt_cons] at h
    have hway := NamedWay.of_descend hs .root h hid
    rw [List.append_nil] at hway
    rw [List.tail_cons] at hlength
    rw [hway.pathOf, List.length_reverse, if_pos hlength, Path.render_reverse_split]
  · rw [idAt_of_relative habsolute, Except.ok.injEq] at h
    exact absurd h.symm hid

/-- An id is found by its path. -/
theorem Consistent.idAt_of_pathOf (hs : s.Consistent) (hdiffer : s.NamesDiffer) {url : Bytes}
    (h : s.pathOf id = .ok url)
    (hne : url ≠ []) : s.idAt url = .ok id := by
  obtain ⟨names, hway, _, hrender⟩ := namedWay_of_pathOf h hne
  cases names with
  | nil => exact absurd hrender.symm hne
  | cons name above =>
    have hsplit := Path.split_tail_render (hway.valid hs)
    obtain ⟨bs, hbs⟩ := Path.render_cons_eq name above
    rw [hbs, List.tail_cons] at hsplit
    rw [← hrender, hbs, idAt_cons, hsplit]
    have hdown := hway.descend hs hdiffer []
    rwa [List.append_nil] at hdown

/-- A path that is not absolute, ends with a slash or has two of them in a row leads nowhere. -/
theorem Consistent.idAt_of_malformed (hs : s.Consistent) {url : Bytes}
    (h : url.head? ≠ some Path.slash ∨ url.getLast? = some Path.slash ∨ [Path.slash, Path.slash] <:+: url) :
    s.idAt url = .ok 0 := by
  by_cases habsolute : url.head? = some Path.slash
  · obtain ⟨bs, rfl⟩ := List.head?_eq_some_iff.mp habsolute
    rw [idAt_cons]
    apply hs.descend_of_nil_mem
    exact Path.nil_mem_split (h.resolve_left fun hrelative => hrelative habsolute)
  · exact idAt_of_relative habsolute

/-- The id has a way up to the root, with no more ids on it than are followed. -/
def Traceable (s : Store) (id : DocId) : Prop := ∃ ids, s.WayUp id ids ∧ ids ≠ [] ∧ ids.length ≤ maxDepth + 1

theorem traceable_iff : s.Traceable id ↔ ∃ names, s.NamedWay id names ∧ names ≠ [] ∧ names.length ≤ maxDepth + 1 := by
  have hiff := @exists_wayUp_iff s id fun n => n ≠ 0 ∧ n ≤ maxDepth + 1
  simpa only [Traceable, ne_eq, List.length_eq_zero_iff] using hiff

/-- It is these ids that have a path. -/
theorem traceable_iff_exists_pathOf : s.Traceable id ↔ ∃ url, s.pathOf id = .ok url ∧ url ≠ [] := by
  rw [traceable_iff]
  constructor
  · rintro ⟨names, hway, hne, hlength⟩
    obtain ⟨name, above, rfl⟩ := List.exists_cons_of_ne_nil hne
    obtain ⟨rest, hrest⟩ := Path.render_cons_eq name above
    refine ⟨Path.render (name :: above), by rw [hway.pathOf, if_pos hlength], ?_⟩
    rw [hrest]
    exact List.cons_ne_nil Path.slash rest
  · rintro ⟨url, hurl, hne⟩
    obtain ⟨names, hway, hlength, hrender⟩ := namedWay_of_pathOf hurl hne
    refine ⟨names, hway, ?_, hlength⟩
    rintro rfl
    exact hne hrender.symm

/-- The paths of the ids whose way up can be followed. -/
def IsPath (s : Store) (url : Bytes) : Prop := ∃ id, s.Traceable id ∧ s.pathOf id = .ok url

theorem IsPath.ne_nil {url : Bytes} (h : s.IsPath url) : url ≠ [] := by
  obtain ⟨id, hid, hurl⟩ := h
  obtain ⟨url', hurl', hne⟩ := traceable_iff_exists_pathOf.mp hid
  rw [hurl, Except.ok.injEq] at hurl'
  exact hurl' ▸ hne

theorem Traceable.pathOf_eq (h : s.Traceable id) : s.pathOf id = .ok ((s.pathOf id).toOption.getD []) := by
  obtain ⟨url, hurl, _⟩ := traceable_iff_exists_pathOf.mp h
  rw [hurl]
  rfl

theorem Consistent.idAt_of_isPath (hs : s.Consistent) (hdiffer : s.NamesDiffer) {url : Bytes} (h : s.IsPath url) :
    s.idAt url = .ok ((s.idAt url).toOption.getD 0) ∧ s.Traceable ((s.idAt url).toOption.getD 0) := by
  obtain ⟨id, hid, hurl⟩ := h
  rw [hs.idAt_of_pathOf hdiffer hurl (IsPath.ne_nil ⟨id, hid, hurl⟩)]
  exact ⟨rfl, hid⟩

/-- The ids whose way up can be followed correspond to their paths. -/
def Consistent.paths (hs : s.Consistent) (hdiffer : s.NamesDiffer) :
    {id // s.Traceable id} ≃ {url // s.IsPath url} where
  toFun id := ⟨(s.pathOf id).toOption.getD [], id, id.2, id.2.pathOf_eq⟩
  invFun url := ⟨(s.idAt url).toOption.getD 0, (hs.idAt_of_isPath hdiffer url.2).2⟩
  left_inv id := by
    obtain ⟨url, hurl, hne⟩ := traceable_iff_exists_pathOf.mp id.2
    apply Subtype.ext
    simp only [hurl, Except.toOption, Option.getD_some, hs.idAt_of_pathOf hdiffer hurl hne]
  right_inv url := by
    obtain ⟨url, id, hid, hurl⟩ := url
    have hne := IsPath.ne_nil ⟨id, hid, hurl⟩
    apply Subtype.ext
    simp only [hs.idAt_of_pathOf hdiffer hurl hne, Except.toOption, Option.getD_some, hurl]

/-- A path by which an id is found is the path of the id, if it has no more names than are followed upwards. If siblings
have different names, an id is found by its path, and the ids whose way up can be followed correspond to their paths.
Nothing is found by a path that is empty, is not absolute, ends with a slash or has two in a row. -/
theorem idAt_pathOf (hs : s.Consistent) :
    (∀ url id, s.idAt url = .ok id → id ≠ 0 → (Path.split url.tail).length ≤ maxDepth + 1 → s.pathOf id = .ok url) ∧
    (s.NamesDiffer →
      (∀ id url, s.pathOf id = .ok url → url ≠ [] → s.idAt url = .ok id) ∧
      ∃ paths : {id // s.Traceable id} ≃ {url // s.IsPath url},
        (∀ id : {id // s.Traceable id}, s.pathOf id = .ok (paths id)) ∧
        ∀ url : {url // s.IsPath url}, s.idAt url = .ok (paths.symm url)) ∧
    ∀ url, (url.head? ≠ some Path.slash ∨ url.getLast? = some Path.slash ∨ [Path.slash, Path.slash] <:+: url) →
      s.idAt url = .ok 0 := by
  refine ⟨fun url id h hid hlength => hs.pathOf_of_idAt h hid hlength, fun hdiffer => ⟨fun id url h hne => ?_, ?_⟩,
    fun url h => hs.idAt_of_malformed h⟩
  · exact hs.idAt_of_pathOf hdiffer h hne
  · exact ⟨hs.paths hdiffer, fun id => id.2.pathOf_eq, fun url => (hs.idAt_of_isPath hdiffer url.2).1⟩

/-- A folder with a document in it. -/
theorem idAt_pathOf_two_levels :
    let s : Store :=
      ((((∅ : Store).setChildren 0 [7]).setPathEntry 7 ⟨0, [0x64]⟩).setChildren 7 [8]).setPathEntry 8 ⟨7, [0x65]⟩
    s.Consistent ∧ s.NamesDiffer ∧ s.pathOf 8 = .ok [0x2F, 0x64, 0x2F, 0x65] ∧
      s.idAt [0x2F, 0x64, 0x2F, 0x65] = .ok 8 ∧ s.idAt [0x2F, 0x64, 0x2F, 0x2F, 0x65] = .ok 0 := by
  intro s
  have hroot : (∅ : Store).CanHold 0 := .inl rfl
  have hnames : (([0x64] : Bytes) ≠ [] ∧ Path.slash ∉ [0x64]) ∧ (([0x65] : Bytes) ≠ [] ∧ Path.slash ∉ [0x65]) := by
    decide
  obtain ⟨s₁, hfirst, hlinked₁, hentry₁⟩ := (linked_iff.mp linked_empty).hang (by decide : (7 : DocId) ≠ 0) hnames.1
    (by decide) hroot (.inl nofun)
  have hs₁ : s₁ = ((∅ : Store).setChildren 0 [7]).setPathEntry 7 ⟨0, [0x64]⟩ := by
    cases hfirst
    rfl
  have hfolder : s₁.CanHold 7 := .inr ⟨⟨0, [0x64]⟩, hentry₁ 7⟩
  obtain ⟨s₂, hsecond, hlinked₂, hentry₂⟩ := hlinked₁.hang (by decide : (8 : DocId) ≠ 0) hnames.2 (by decide) hfolder
    (.inl fun ⟨e, he⟩ => by simp [hentry₁] at he)
  have hs₂ : s₂ = s := by
    rw [hs₁] at hsecond
    cases hsecond
    rfl
  rw [hs₂] at hlinked₂ hentry₂
  have hdiffer : s.NamesDiffer := by
    intro e id id' h h'
    simp only [hentry₂, hentry₁, pathEntryOf?_empty] at h h'
    grind
  obtain ⟨hdown, hback, hmalformed⟩ := idAt_pathOf (linked_iff.mpr hlinked₂).consistent
  have hfound : s.idAt [0x2F, 0x64, 0x2F, 0x65] = .ok 8 := by decide +kernel
  have hpath := hdown [0x2F, 0x64, 0x2F, 0x65] 8 hfound (by decide) (by decide)
  exact ⟨(linked_iff.mpr hlinked₂).consistent, hdiffer, hpath, (hback hdiffer).1 8 _ hpath (by decide),
    hmalformed [0x2F, 0x64, 0x2F, 0x2F, 0x65] (.inr (.inr ⟨[0x2F, 0x64], [0x65], rfl⟩))⟩

end FileIndex.Store
