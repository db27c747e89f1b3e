import FileIndex.Proofs.Store.Lists
import FileIndex.Proofs.Tree.Edits
import FileIndex.Proofs.Tree.Naming
import Mathlib.Data.List.Sort

/-!
# The tree that a set of paths makes

With ids that tell paths apart, the two tables of the tree are determined by the set of the paths that have an entry.
Hanging a path adds it with the folders above it.

* `Store.ShowsEntries`, `Store.ShowsChildren`, `Store.ShowsTree`: the tables say just this set of paths.
* `With`: a set with another path and the folders above it.
* `ShowsTree.exists_missingFolders`, `ShowsTree.exists_locate`: where a path hangs is found.
* `ShowsTree.hang`, `ShowsTree.hangFolders`, `ShowsTree.attach`: hanging it there, as a change of the set.
-/

namespace FileIndex

namespace Store

/-- The ids directly below a path, ascending. -/
def Below (r : Naming) (P : List Bytes → Prop) (above : List Bytes) (ids : List DocId) : Prop :=
  ids.Pairwise (· < ·) ∧ ∀ id, id ∈ ids ↔ ∃ name, P (name :: above) ∧ id = r.idOf (name :: above)

/-- The entries are those of the paths. -/
def ShowsEntries (r : Naming) (P : List Bytes → Prop) (s : Store) : Prop :=
  ∀ key value, s.pathEntries.find? key = some value ↔ ∃ name above, P (name :: above) ∧
    key = DocId.toKey (r.idOf (name :: above)) ∧ value = PathEntry.encode ⟨r.idOf above, name⟩

/-- The children are those of the paths. -/
structure ShowsChildren (r : Naming) (P : List Bytes → Prop) (s : Store) : Prop where
  rows : ∀ key value, s.children.find? key = some value ↔ ∃ above ids, Below r P above ids ∧ ids ≠ [] ∧
    key = DocId.toKey (r.idOf above) ∧ value = IdList.encode ids
  finite : ∀ above, ∃ ids, Below r P above ids

/-- The tree is that of the paths. -/
structure ShowsTree (r : Naming) (P : List Bytes → Prop) (s : Store) : Prop where
  folders : r.Folders P
  entries : ShowsEntries r P s
  children : ShowsChildren r P s

variable {r : Naming} {P : List Bytes → Prop} {s : Store} {names above : List Bytes} {name : Bytes}
  {ids ids' : List DocId}

theorem Below.unique (h : Below r P above ids) (h' : Below r P above ids') : ids = ids' :=
  h.1.eq_of_mem_iff h'.1 fun id => (h.2 id).trans (h'.2 id).symm

theorem ShowsEntries.of_iff {P' : List Bytes → Prop} (h : ShowsEntries r P s) (hP : ∀ names, P names ↔ P' names) :
    ShowsEntries r P' s := by
  have heq : P = P' := funext fun names => propext (hP names)
  exact heq ▸ h

theorem ShowsEntries.congr {s' : Store} (h : ShowsEntries r P s) (hentries : s'.pathEntries = s.pathEntries) :
    ShowsEntries r P s' := by
  unfold ShowsEntries
  rw [hentries]
  exact h

theorem ShowsTree.of_iff {P' : List Bytes → Prop} (h : ShowsTree r P s) (hP : ∀ names, P names ↔ P' names) :
    ShowsTree r P' s := by
  have heq : P = P' := funext fun names => propext (hP names)
  exact heq ▸ h

theorem ShowsTree.congr {s' : Store} (h : ShowsTree r P s) (hchildren : s'.children = s.children)
    (hentries : s'.pathEntries = s.pathEntries) : ShowsTree r P s' := by
  refine ⟨h.folders, h.entries.congr hentries, ?_, h.children.finite⟩
  rw [hchildren]
  exact h.children.rows

theorem showsTree_empty : ShowsTree r (fun _ => False) ∅ := by
  refine ⟨⟨id, False.elim, False.elim⟩, ?_, ?_, fun above => ⟨[], .nil, by simp⟩⟩
  · intro key value
    constructor
    · intro h
      cases h
    · rintro ⟨_, _, hfalse, _⟩
      exact hfalse.elim
  · intro key value
    constructor
    · intro h
      cases h
    · rintro ⟨_, ids, hids, hne, _⟩
      obtain ⟨id, hid⟩ := List.exists_mem_of_ne_nil ids hne
      obtain ⟨_, hfalse, _⟩ := (hids.2 id).mp hid
      exact hfalse.elim

/-! ### Reading -/

/-- The tables can be read under every id. -/
theorem ShowsTree.treeReadable (h : ShowsTree r P s) : s.TreeReadable := by
  constructor
  · intro id
    unfold Store.childrenOf
    cases hfind : s.children.find? (DocId.toKey id) with
    | none => exact ⟨[], rfl, .nil⟩
    | some value =>
      obtain ⟨_, ids, hids, _, _, rfl⟩ := (h.children.rows _ _).mp hfind
      refine ⟨ids, ?_, hids.1⟩
      simp only [IdList.decode_encode hids.1, Malformed.orFail]
  · intro id
    unfold Store.pathEntryOf?
    split
    · exact ⟨none, rfl⟩
    · split
      · exact ⟨none, rfl⟩
      · rename_i value hfind
        obtain ⟨_, _, _, _, rfl⟩ := (h.entries _ _).mp hfind
        rw [PathEntry.decode_encode]
        exact ⟨_, rfl⟩

theorem ShowsEntries.pathEntryOf?_eq (h : ShowsEntries r P s) (hnames : P (name :: above))
    (hknown : r.known (name :: above)) :
    s.pathEntryOf? (r.idOf (name :: above)) = .ok (some ⟨r.idOf above, PathEntry.storedName ⟨r.idOf above, name⟩⟩) := by
  have hfind := (h _ _).mpr ⟨name, above, hnames, rfl, rfl⟩
  have hne := Naming.idOf_ne_zero (List.cons_ne_nil name above) hknown
  unfold Store.pathEntryOf?
  rw [if_neg hne, hfind]
  simp only [PathEntry.decode_encode]
  rfl

theorem ShowsEntries.pathEntryOf? (h : ShowsEntries r P s) (hnames : P (name :: above))
    (hknown : r.known (name :: above)) :
    ∃ e, s.pathEntryOf? (r.idOf (name :: above)) = .ok (some e) ∧ e.parent = r.idOf above :=
  ⟨_, h.pathEntryOf?_eq hnames hknown, rfl⟩

/-- Only paths have entries. -/
theorem ShowsEntries.of_pathEntryOf? (hP : ∀ {names}, P names → r.known names)
    (h : ShowsEntries r P s) (hknown : r.known names) {e : PathEntry}
    (hentry : s.pathEntryOf? (r.idOf names) = .ok (some e)) : P names := by
  unfold Store.pathEntryOf? at hentry
  split at hentry
  · cases hentry
  · split at hentry
    · cases hentry
    · rename_i hfind
      obtain ⟨name', above', hnames, hkey, _⟩ := (h _ _).mp hfind
      rw [(Naming.idOf_inj hknown (hP hnames)).mp (DocId.toKey_inj.mp hkey)]
      exact hnames

theorem ShowsEntries.exists_of_hasPath (h : ShowsEntries r P s) {id : DocId} (hpath : s.hasPath id = true) :
    ∃ names, P names ∧ r.idOf names = id := by
  unfold hasPath ByteMap.contains at hpath
  rw [Bool.and_eq_true, Option.isSome_iff_exists] at hpath
  obtain ⟨_, value, hfind⟩ := hpath
  obtain ⟨name, above, hnames, hkey, _⟩ := (h _ _).mp hfind
  exact ⟨name :: above, hnames, (DocId.toKey_inj.mp hkey).symm⟩

section Reading

variable (hP : ∀ {names}, P names → r.known names)

include hP

/-- What is below a path is found under its id. -/
theorem ShowsChildren.childrenOf (h : ShowsChildren r P s) (hknown : r.known above) (hids : Below r P above ids) :
    s.childrenOf (r.idOf above) = .ok ids := by
  unfold Store.childrenOf
  cases hfind : s.children.find? (DocId.toKey (r.idOf above)) with
  | none =>
    by_cases hne : ids = []
    · rw [hne]
    · have hrow := (h.rows _ _).mpr ⟨above, ids, hids, hne, rfl, rfl⟩
      rw [hfind] at hrow
      cases hrow
  | some value =>
    obtain ⟨above', ids', hids', hne, hkey, rfl⟩ := (h.rows _ _).mp hfind
    obtain ⟨id, hid⟩ := List.exists_mem_of_ne_nil ids' hne
    obtain ⟨name, hname, _⟩ := (hids'.2 id).mp hid
    have hknown' := r.up (hP hname)
    have hsame := (Naming.idOf_inj hknown hknown').mp (DocId.toKey_inj.mp hkey)
    subst hsame
    simp only [IdList.decode_encode hids'.1, hids.unique hids', Malformed.orFail]

theorem ShowsEntries.hasPath_iff (h : ShowsEntries r P s) (hknown : r.known (name :: above)) :
    s.hasPath (r.idOf (name :: above)) = true ↔ P (name :: above) := by
  unfold hasPath ByteMap.contains
  constructor
  · intro hpath
    rw [Bool.and_eq_true, Option.isSome_iff_exists] at hpath
    obtain ⟨_, value, hfind⟩ := hpath
    obtain ⟨name', above', hnames, hkey, _⟩ := (h _ _).mp hfind
    rw [(Naming.idOf_inj hknown (hP hnames)).mp (DocId.toKey_inj.mp hkey)]
    exact hnames
  · intro hnames
    have hfind := (h _ _).mpr ⟨name, above, hnames, rfl, rfl⟩
    have hne := Naming.idOf_ne_zero (List.cons_ne_nil name above) hknown
    rw [hfind, Option.isSome_some, Bool.and_true]
    simpa using hne

end Reading

/-! ### Writing -/

section Writing

variable {P' : List Bytes → Prop} (hP : ∀ {names}, P names → r.known names)

include hP

/-- The children of one id are replaced, as those of its path are. -/
theorem ShowsChildren.setChildren (h : ShowsChildren r P s) (hknown : r.known above)
    (hids : Below r P' above ids) (hsame : ∀ above' name, above' ≠ above → (P' (name :: above') ↔ P (name :: above'))) :
    ShowsChildren r P' (s.setChildren (r.idOf above) ids) := by
  have hbelow : ∀ above' ids', above' ≠ above → (Below r P' above' ids' ↔ Below r P above' ids') := by
    intro above' ids' hne
    unfold Below
    simp only [hsame above' _ hne]
  have hfind : ∀ key, (s.setChildren (r.idOf above) ids).children.find? key =
      if key = DocId.toKey (r.idOf above) then stored? IdList.encode ids else s.children.find? key := by
    intro key
    unfold Store.setChildren stored?
    split
    · exact ByteMap.find?_erase ..
    · exact ByteMap.find?_insert ..
  constructor
  · intro key value
    rw [hfind]
    by_cases hkey : key = DocId.toKey (r.idOf above)
    · rw [if_pos hkey]
      constructor
      · intro hstored
        unfold stored? at hstored
        split at hstored
        · cases hstored
        · rename_i hne
          cases hstored
          exact ⟨above, ids, hids, by simpa using hne, hkey, rfl⟩
      · rintro ⟨above', ids', hids', hne, hkey', rfl⟩
        have habove : above' = above := by
          by_contra hother
          obtain ⟨id, hid⟩ := List.exists_mem_of_ne_nil ids' hne
          obtain ⟨name, hname, _⟩ := (((hbelow above' ids' hother).mp hids').2 id).mp hid
          have hknown' := r.up (hP hname)
          exact hother ((Naming.idOf_inj hknown' hknown).mp (DocId.toKey_inj.mp (hkey'.symm.trans hkey)))
        subst habove
        rw [hids'.unique hids] at hne ⊢
        unfold stored?
        rw [if_neg (by simpa using hne)]
    · rw [if_neg hkey, h.rows]
      have hother : ∀ above', key = DocId.toKey (r.idOf above') → above' ≠ above := by
        rintro _ hkey' rfl
        exact hkey hkey'
      constructor
      · rintro ⟨above', ids', hids', hne, hkey', hvalue⟩
        exact ⟨above', ids', (hbelow above' ids' (hother above' hkey')).mpr hids', hne, hkey', hvalue⟩
      · rintro ⟨above', ids', hids', hne, hkey', hvalue⟩
        exact ⟨above', ids', (hbelow above' ids' (hother above' hkey')).mp hids', hne, hkey', hvalue⟩
  · intro above'
    by_cases hother : above' = above
    · exact ⟨ids, hother ▸ hids⟩
    · obtain ⟨ids', hids'⟩ := h.finite above'
      exact ⟨ids', (hbelow above' ids' hother).mpr hids'⟩

theorem ShowsEntries.setPathEntry (h : ShowsEntries r P s) (hknown : r.known (name :: above)) :
    ShowsEntries r (fun names => P names ∨ names = name :: above)
      (s.setPathEntry (r.idOf (name :: above)) ⟨r.idOf above, name⟩) := by
  intro key value
  have hfind : (s.setPathEntry (r.idOf (name :: above)) ⟨r.idOf above, name⟩).pathEntries.find? key =
      if key = DocId.toKey (r.idOf (name :: above)) then some (PathEntry.encode ⟨r.idOf above, name⟩)
      else s.pathEntries.find? key := ByteMap.find?_insert ..
  rw [hfind]
  by_cases hkey : key = DocId.toKey (r.idOf (name :: above))
  · rw [if_pos hkey]
    constructor
    · intro hvalue
      cases hvalue
      exact ⟨name, above, .inr rfl, hkey, rfl⟩
    · rintro ⟨name', above', hnames, hkey', rfl⟩
      have hknown' : r.known (name' :: above') := by
        rcases hnames with hnames | hnames
        · exact hP hnames
        · exact hnames ▸ hknown
      have hsame := (Naming.idOf_inj hknown' hknown).mp (DocId.toKey_inj.mp (hkey'.symm.trans hkey))
      obtain ⟨rfl, rfl⟩ := List.cons.inj hsame
      rfl
  · rw [if_neg hkey, h key value]
    constructor
    · rintro ⟨name', above', hnames, hkey', hvalue⟩
      exact ⟨name', above', .inl hnames, hkey', hvalue⟩
    · rintro ⟨name', above', hnames | hnames, hkey', hvalue⟩
      · exact ⟨name', above', hnames, hkey', hvalue⟩
      · exact absurd (hnames ▸ hkey') hkey

theorem ShowsEntries.erasePathEntry (h : ShowsEntries r P s) (hknown : r.known names) :
    ShowsEntries r (fun other => P other ∧ other ≠ names) (s.erasePathEntry (r.idOf names)) := by
  intro key value
  have hfind : (s.erasePathEntry (r.idOf names)).pathEntries.find? key =
      if key = DocId.toKey (r.idOf names) then none else s.pathEntries.find? key := ByteMap.find?_erase ..
  rw [hfind]
  by_cases hkey : key = DocId.toKey (r.idOf names)
  · rw [if_pos hkey]
    constructor
    · intro hvalue
      cases hvalue
    · rintro ⟨name', above', ⟨hnames, hne⟩, hkey', _⟩
      exact absurd ((Naming.idOf_inj (hP hnames) hknown).mp (DocId.toKey_inj.mp (hkey'.symm.trans hkey))) hne
  · rw [if_neg hkey, h key value]
    constructor
    · rintro ⟨name', above', hnames, hkey', hvalue⟩
      refine ⟨name', above', ⟨hnames, ?_⟩, hkey', hvalue⟩
      rintro rfl
      exact hkey hkey'
    · rintro ⟨name', above', hnames, hkey', hvalue⟩
      exact ⟨name', above', hnames.1, hkey', hvalue⟩

end Writing

/-! ### Hanging a path -/

/-- The path and the folders above it. -/
def With (P : List Bytes → Prop) (names other : List Bytes) : Prop := P other ∨ (other ≠ [] ∧ other <:+ names)

theorem with_cons {other : List Bytes} :
    With P (name :: above) other ↔ With P above other ∨ other = name :: above := by
  unfold With
  rw [List.suffix_cons_iff]
  constructor
  · rintro (hother | ⟨hne, rfl | hsuffix⟩)
    · exact .inl (.inl hother)
    · exact .inr rfl
    · exact .inl (.inr ⟨hne, hsuffix⟩)
  · rintro ((hother | ⟨hne, hsuffix⟩) | rfl)
    · exact .inl hother
    · exact .inr ⟨hne, .inr hsuffix⟩
    · exact .inr ⟨List.cons_ne_nil name above, .inl rfl⟩

theorem with_self (P : List Bytes → Prop) (names : List Bytes) : names = [] ∨ With P names names := by
  by_cases hne : names = []
  · exact .inl hne
  · exact .inr (.inr ⟨hne, List.suffix_refl names⟩)

theorem with_of_folders (hP : r.Folders P) (h : names = [] ∨ P names) (other : List Bytes) :
    P other ↔ With P names other := by
  refine ⟨.inl, ?_⟩
  rintro (hother | ⟨hne, hsuffix⟩)
  · exact hother
  · rcases h with rfl | h
    · exact absurd (List.suffix_nil.mp hsuffix) hne
    · exact hP.of_suffix h hsuffix hne

theorem ShowsTree.hang (h : ShowsTree r P s) (hknown : r.known (name :: above)) (habove : above = [] ∨ P above) :
    ∃ s', hang (r.idOf (name :: above)) (r.idOf above) name s = .ok () s' ∧
      ShowsTree r (fun other => P other ∨ other = name :: above) s' := by
  obtain ⟨ids, hids⟩ := h.children.finite above
  have hknown' := r.up hknown
  refine ⟨_, hang_eq (h.children.childrenOf h.folders.known hknown' hids), ?_, ?_, ?_⟩
  · constructor
    · rintro (hnil | hnil)
      · exact h.folders.ne_nil hnil
      · cases hnil
    · rintro names (hnames | rfl)
      · exact h.folders.known hnames
      · exact hknown
    · rintro name' above' (hnames | hnames) hne
      · exact .inl (h.folders.up hnames hne)
      · obtain ⟨rfl, rfl⟩ := List.cons.inj hnames
        exact .inl (habove.resolve_left hne)
  · have hentries : ShowsEntries r P (s.setChildren (r.idOf above) (Ascending.insert (r.idOf (name :: above)) ids)) :=
      h.entries.congr (pathEntries_setChildren ..)
    exact hentries.setPathEntry h.folders.known hknown
  · have hbelow : Below r (fun other => P other ∨ other = name :: above) above
        (Ascending.insert (r.idOf (name :: above)) ids) := by
      refine ⟨Ascending.pairwise_insert hids.1, fun id => ?_⟩
      rw [Ascending.mem_insert, hids.2]
      constructor
      · rintro (hid | ⟨name', hname', hid⟩)
        · exact ⟨name, .inr rfl, hid⟩
        · exact ⟨name', .inl hname', hid⟩
      · rintro ⟨name', hname' | hname', hid⟩
        · exact .inr ⟨name', hname', hid⟩
        · exact .inl (hname' ▸ hid)
    have hchildren := h.children.setChildren h.folders.known hknown' hbelow (by
      intro above' name' hne
      refine or_iff_left fun hnames => hne (List.cons.inj hnames).2)
    exact ⟨hchildren.rows, hchildren.finite⟩

/-- The folders above a path that have no entry are found, if there is room for those below one that has. -/
theorem ShowsTree.exists_missingFolders (h : ShowsTree r P s) {room count : Nat} (hroom : count ≤ room)
    (hhung : above.drop count = [] ∨ P (above.drop count)) (hknown : r.known above) :
    ∃ anchor missing, s.missingFolders r.resolve room above = .ok (some (anchor, missing)) := by
  induction above generalizing room count with
  | nil => exact ⟨0, [], by cases room <;> rfl⟩
  | cons name above ih =>
    have hne := Naming.idOf_ne_zero (List.cons_ne_nil name above) hknown
    have hpath := h.entries.hasPath_iff h.folders.known hknown
    rw [Naming.idOf_cons] at hne hpath
    unfold missingFolders
    rw [if_neg hne]
    by_cases hfolder : P (name :: above)
    · rw [if_pos (hpath.mpr hfolder)]
      exact ⟨_, [], rfl⟩
    · rw [if_neg fun hhas => hfolder (hpath.mp hhas)]
      cases count with
      | zero => exact absurd hhung (by simpa using hfolder)
      | succ count =>
        obtain ⟨room, rfl⟩ := Nat.exists_eq_add_one_of_ne_zero (Nat.ne_zero_of_lt hroom)
        obtain ⟨anchor, missing, hmissing⟩ := ih (Nat.le_of_succ_le_succ hroom) hhung (r.up hknown)
        refine ⟨anchor, (r.resolve (Path.render (name :: above)), name) :: missing, ?_⟩
        simp only [hmissing]
        rfl

/-- Hanging the folders that were found to have no entry adds all folders above. -/
theorem ShowsTree.hangFolders (h : ShowsTree r P s) {room : Nat} (hknown : r.known above) {anchor : DocId}
    {missing : List (DocId × Bytes)} (hmissing : s.missingFolders r.resolve room above = .ok (some (anchor, missing))) :
    (missing.head?.map (·.1)).getD anchor = r.idOf above ∧
      ∀ s', ShowsTree r P s' → ∃ s'', hangFolders anchor missing s' = .ok (r.idOf above) s'' ∧
        ShowsTree r (With P above) s'' := by
  induction above generalizing room missing with
  | nil =>
    have hnone : anchor = 0 ∧ missing = [] := by
      cases room <;> simpa [missingFolders, eq_comm] using hmissing
    obtain ⟨rfl, rfl⟩ := hnone
    exact ⟨rfl, fun s' hs' => ⟨s', rfl, hs'.of_iff (with_of_folders h.folders (.inl rfl))⟩⟩
  | cons name above ih =>
    have hne := Naming.idOf_ne_zero (List.cons_ne_nil name above) hknown
    have hpath := h.entries.hasPath_iff h.folders.known hknown
    rw [Naming.idOf_cons] at hne hpath
    unfold missingFolders at hmissing
    rw [if_neg hne] at hmissing
    by_cases hhung : P (name :: above)
    · simp only [if_pos (hpath.mpr hhung), Except.ok.injEq, Option.some.injEq, Prod.mk.injEq] at hmissing
      obtain ⟨rfl, rfl⟩ := hmissing
      refine ⟨(r.idOf_cons name above).symm, fun s' hs' => ⟨s', ?_, ?_⟩⟩
      · rw [Naming.idOf_cons]
        rfl
      · exact hs'.of_iff (with_of_folders h.folders (.inr hhung))
    · rw [if_neg fun hhas => hhung (hpath.mp hhas)] at hmissing
      cases room with
      | zero => cases hmissing
      | succ room =>
        cases habove : s.missingFolders r.resolve room above with
        | error e => simp [habove, bind, Except.bind] at hmissing
        | ok found =>
          simp only [habove, bind, Except.bind, pure, Except.pure, Except.ok.injEq, Option.map_eq_some_iff,
            Prod.mk.injEq] at hmissing
          obtain ⟨⟨_, further⟩, rfl, rfl, rfl⟩ := hmissing
          obtain ⟨_, hhang⟩ := ih (r.up hknown) habove
          refine ⟨by rw [Naming.idOf_cons]; rfl, fun s' hs' => ?_⟩
          obtain ⟨s₁, hfolders, hs₁⟩ := hhang s' hs'
          obtain ⟨s₂, hlast, hs₂⟩ := hs₁.hang hknown (with_self P above)
          rw [Naming.idOf_cons] at hlast
          refine ⟨s₂, ?_, hs₂.of_iff fun other => with_cons.symm⟩
          unfold Store.hangFolders
          rw [bind_of_ok hfolders, bind_of_ok hlast, Naming.idOf_cons]
          rfl

/-- A path hangs somewhere, if there is room for the folders above it that have no entry. -/
theorem ShowsTree.exists_locate (h : ShowsTree r P s) {url : Bytes} (hparse : Path.parse url = .ok (name :: above))
    (hknown : r.known (name :: above)) {count : Nat} (hroom : count ≤ maxDepth)
    (hhung : above.drop count = [] ∨ P (above.drop count)) :
    ∃ p, s.locate r.resolve (r.resolve url) url = .ok (some p) := by
  have hrender := (Path.parse_spec hparse).2.2
  have hid := r.idOf_cons name above
  rw [hrender] at hid
  obtain ⟨anchor, missing, hmissing⟩ := h.exists_missingFolders hroom hhung (r.up hknown)
  refine ⟨⟨r.resolve url, name, anchor, missing⟩, ?_⟩
  have hnonzero : r.resolve url ≠ 0 := hid ▸ Naming.idOf_ne_zero (List.cons_ne_nil name above) hknown
  have hown : ¬ (above ≠ [] ∧ r.resolve (Path.render above) = r.resolve url) := by
    rintro ⟨hne, hsame⟩
    rw [← hrender] at hsame
    exact List.cons_ne_self name above (r.injective (r.up hknown) hknown hne (List.cons_ne_nil name above) hsame).symm
  unfold Store.locate
  rw [if_neg hnonzero]
  simp only [hparse, bind, Except.bind, pure, Except.pure]
  rw [if_neg hown]
  simp only [hmissing]
  rfl

/-- The path of a document hangs below the path above it, and hanging it where it was found to belong adds it with all
folders above. -/
theorem ShowsTree.attach (h : ShowsTree r P s) {url : Bytes} (hparse : Path.parse url = .ok (name :: above))
    (hknown : r.known (name :: above)) {p : Placement}
    (hplace : s.locate r.resolve (r.resolve url) url = .ok (some p)) :
    p.parent = r.idOf above ∧ p.name = name ∧
      ∀ s', ShowsTree r P s' → ∃ s'', Store.attach p s' = .ok () s'' ∧ ShowsTree r (With P (name :: above)) s'' := by
  have hid := r.idOf_cons name above
  rw [(Path.parse_spec hparse).2.2] at hid
  obtain ⟨_, _, _, hparse', hpid, hpname, hmissing⟩ := locate_spec hplace
  rw [hparse, Except.ok.injEq, List.cons.injEq] at hparse'
  obtain ⟨rfl, rfl⟩ := hparse'
  obtain ⟨hparent, hhang⟩ := h.hangFolders (r.up hknown) hmissing
  refine ⟨hparent, hpname, fun s' hs' => ?_⟩
  obtain ⟨s₁, hfolders, hs₁⟩ := hhang s' hs'
  obtain ⟨s₂, hlast, hs₂⟩ := hs₁.hang hknown (with_self P above)
  refine ⟨s₂, ?_, hs₂.of_iff fun other => with_cons.symm⟩
  unfold Store.attach
  rw [bind_of_ok hfolders, hpid, hpname, ← hid]
  exact hlast

/-- A path with no more names than are followed can be hung. -/
theorem ShowsTree.locate (h : ShowsTree r P s) {url : Bytes} (hparse : Path.parse url = .ok (name :: above))
    (hknown : r.known (name :: above)) (hdepth : above.length ≤ maxDepth) :
    ∃ p, s.locate r.resolve (r.resolve url) url = .ok (some p) ∧ p.parent = r.idOf above ∧ p.name = name ∧
      ∀ s', ShowsTree r P s' → ∃ s'', Store.attach p s' = .ok () s'' ∧ ShowsTree r (With P (name :: above)) s'' := by
  obtain ⟨p, hplace⟩ := h.exists_locate hparse hknown hdepth (.inl List.drop_length)
  exact ⟨p, hplace, h.attach hparse hknown hplace⟩

end Store
end FileIndex
