import FileIndex.Proofs.Tree.Shape

/-!
# Unlinking a path

Unlinking a path that is no longer live takes away what no other path needs. On the way up from the path, one folder
after the other is detached from the folder above it; the way ends below the first that is to be left.

* `Store.Leaves`: what is to be left of the tree.
* `Store.Climbs`, `Climbs.detachUp`: the state on the way up, and how the way ends.
* `ShowsTree.unlink`: what unlinking a path does to the set of paths.
-/

namespace FileIndex
namespace Store

variable {r : Naming} {P T live : List Bytes → Prop} {prune : DocId → Bool} {path names above : List Bytes}
  {name : Bytes} {s : Store} {ids : List DocId}

theorem not_cons_suffix (name : Bytes) (above : List Bytes) : ¬ name :: above <:+ above := by
  intro hsuffix
  have hlength := hsuffix.length_le
  rw [List.length_cons] at hlength
  omega

/-- Of the folders above a path none is below it. -/
theorem with_child_iff : With T above (name :: above) ↔ T (name :: above) :=
  or_iff_left fun h => not_cons_suffix name above h.2

/-- Without a path that is to go, the folders above it are left. -/
theorem with_and_ne_iff (hgone : ¬ T (name :: above)) (other : List Bytes) :
    With T (name :: above) other ∧ other ≠ name :: above ↔ With T above other := by
  rw [with_cons]
  constructor
  · exact fun h => h.1.resolve_right h.2
  · intro h
    refine ⟨.inl h, ?_⟩
    rintro rfl
    exact hgone (with_child_iff.mp h)

theorem with_eq_self (hT : r.Folders T) (h : names = [] ∨ T names) : With T names = T :=
  funext fun other => propext (with_of_folders hT h other).symm

theorem folders_with (hT : r.Folders T) (hknown : r.known names) : r.Folders (With T names) := by
  constructor
  · rintro (h | h)
    · exact hT.ne_nil h
    · exact h.1 rfl
  · rintro other (h | ⟨_, hsuffix⟩)
    · exact hT.known h
    · exact hknown.of_suffix hsuffix
  · rintro name above (h | ⟨_, hsuffix⟩) hne
    · exact .inl (hT.up h hne)
    · exact .inr ⟨hne, (List.suffix_cons name above).trans hsuffix⟩

theorem Below.eq_nil_iff (h : Below r P above ids) : ids = [] ↔ ∀ name, ¬ P (name :: above) := by
  rw [List.eq_nil_iff_forall_not_mem]
  constructor
  · exact fun hnone name hname => hnone _ ((h.2 _).mpr ⟨name, hname, rfl⟩)
  · intro hnone id hid
    obtain ⟨name, hname, _⟩ := (h.2 id).mp hid
    exact hnone name hname

/-- One path less. -/
theorem Below.erase (hP : ∀ {names}, P names → r.known names) (h : Below r P above ids) (hname : P (name :: above)) :
    Below r (fun other => P other ∧ other ≠ name :: above) above (ids.erase (r.idOf (name :: above))) := by
  have hnodup : ids.Nodup := h.1.imp fun hlt heq => by grind
  refine ⟨h.1.sublist List.erase_sublist, fun id => ?_⟩
  rw [hnodup.mem_erase_iff, h.2]
  constructor
  · rintro ⟨hne, name', hname', rfl⟩
    exact ⟨name', ⟨hname', fun heq => hne (heq ▸ rfl)⟩, rfl⟩
  · rintro ⟨name', ⟨hname', hne⟩, rfl⟩
    exact ⟨fun heq => hne ((Naming.idOf_inj (hP hname') (hP hname)).mp heq), name', hname', rfl⟩

/-- What is to be left of the tree, when `path` goes: the paths that are live and the folders above them. Folders are
pruned exactly if they are not live. -/
structure Leaves (r : Naming) (T live : List Bytes → Prop) (prune : DocId → Bool) (path : List Bytes) : Prop where
  folders : r.Folders T
  kept : ∀ {names}, live names → T names
  reason : ∀ {names}, T names → live names ∨ ∃ name, T (name :: names)
  pruned : ∀ {names}, names ≠ [] → names <:+ path → names ≠ path → (prune (r.idOf names) = true ↔ ¬ live names)

theorem Leaves.gone_iff (h : Leaves r T live prune path) (hne : names ≠ []) :
    ¬ T names ↔ ¬ live names ∧ ∀ name, ¬ T (name :: names) := by
  constructor
  · exact fun hgone => ⟨fun hlive => hgone (h.kept hlive), fun name hname => hgone (h.folders.up hname hne)⟩
  · rintro ⟨hdead, hnone⟩ hkept
    rcases h.reason hkept with hlive | ⟨name, hname⟩
    · exact hdead hlive
    · exact hnone name hname

/-! ### The way up -/

/-- On the way up from `path`, where `current` is the next to go. The entry of `path` itself stays until the end. -/
structure Climbs (r : Naming) (T : List Bytes → Prop) (path current : List Bytes) (s : Store) : Prop where
  suffix : current <:+ path
  gone : ¬ T current
  children : ShowsChildren r (With T current) s
  entries : ShowsEntries r (fun other => With T current other ∨ other = path) s

/-- The entry of a folder goes with it, that of the path stays. -/
theorem ShowsEntries.dropEntry (hT : r.Folders T) (hpath : r.known path) (hsuffix : name :: above <:+ path)
    (hgone : ¬ T (name :: above)) (h : ShowsEntries r (fun other => With T (name :: above) other ∨ other = path) s) :
    ShowsEntries r (fun other => With T above other ∨ other = path)
      (if r.idOf (name :: above) ≠ r.idOf path then s.erasePathEntry (r.idOf (name :: above)) else s) := by
  have hknown := hpath.of_suffix hsuffix
  by_cases hself : name :: above = path
  · rw [hself, if_neg (not_not_intro rfl)]
    apply h.of_iff
    intro other
    rw [with_cons, or_assoc, hself, or_self]
  · rw [if_pos fun hid => hself ((Naming.idOf_inj hknown hpath).mp hid)]
    have hwithin : ∀ {names}, With T (name :: above) names ∨ names = path → r.known names := by
      rintro names (hnames | rfl)
      · exact (folders_with hT hknown).known hnames
      · exact hpath
    apply (h.erasePathEntry hwithin hknown).of_iff
    intro other
    rw [or_and_right, with_and_ne_iff hgone]
    refine or_congr_right (and_iff_left_of_imp ?_)
    rintro rfl
    exact Ne.symm hself

/-- One folder is detached, and the way goes on or ends. -/
theorem Climbs.detachUp_succ (hT : r.Folders T) (hpath : r.known path) (h : Climbs r T path (name :: above) s)
    (prune : DocId → Bool) (levels : Nat) :
    ∃ (ids : List DocId) (s' : Store), Store.detachUp prune (r.idOf path) (levels + 1) (r.idOf (name :: above)) s =
        (if ids.isEmpty ∧ r.idOf above ≠ 0 ∧ prune (r.idOf above) then
          Store.detachUp prune (r.idOf path) levels (r.idOf above) else pure ()) s' ∧
      (ids = [] ↔ ∀ name, ¬ T (name :: above)) ∧ ShowsChildren r (With T above) s' ∧
      ShowsEntries r (fun other => With T above other ∨ other = path) s' := by
  have hknown := hpath.of_suffix h.suffix
  have hfolders := folders_with hT hknown
  have hname : With T (name :: above) (name :: above) := .inr ⟨List.cons_ne_nil name above, List.suffix_refl _⟩
  obtain ⟨e, hentry, hparent⟩ := h.entries.pathEntryOf? (.inl hname) hknown
  obtain ⟨ids, hids⟩ := h.children.finite above
  have hread : Edit.read (·.pathEntryOf? (r.idOf (name :: above))) s = .ok (some e) s := Edit.read_of_ok hentry
  have hread' : Edit.read (·.childrenOf e.parent) s = .ok ids s :=
    Edit.read_of_ok (hparent ▸ h.children.childrenOf hfolders.known (r.up hknown) hids)
  have hsiblings := hids.erase hfolders.known hname
  let s₁ := s.setChildren (r.idOf above) (ids.erase (r.idOf (name :: above)))
  have hchildren : ShowsChildren r (fun other => With T (name :: above) other ∧ other ≠ name :: above) s₁ :=
    h.children.setChildren hfolders.known (r.up hknown) hsiblings fun above' name' habove =>
      and_iff_left fun heq => habove (List.cons.inj heq).2
  simp only [with_and_ne_iff h.gone] at hsiblings hchildren
  have hentries : ShowsEntries r (fun other => With T (name :: above) other ∨ other = path) s₁ :=
    h.entries.congr (pathEntries_setChildren ..)
  refine ⟨ids.erase (r.idOf (name :: above)),
    if r.idOf (name :: above) ≠ r.idOf path then s₁.erasePathEntry (r.idOf (name :: above)) else s₁, ?_, ?_, ?_, ?_⟩
  · rw [Store.detachUp, bind_of_ok hread]
    simp only
    rw [bind_of_ok hread', hparent]
    split <;> rfl
  · rw [hsiblings.eq_nil_iff]
    simp only [with_child_iff]
  · split
    · exact ⟨hchildren.rows, hchildren.finite⟩
    · exact hchildren
  · exact hentries.dropEntry hT hpath h.suffix h.gone

/-- The way ends with just what is to be left, but for the entry of the path that it began with. -/
theorem Climbs.detachUp (hleaves : Leaves r T live prune path) (hpath : r.known path) {current : List Bytes}
    (hne : current ≠ []) {levels : Nat} (hlevels : current.length ≤ levels) (h : Climbs r T path current s) :
    ∃ s', Store.detachUp prune (r.idOf path) levels (r.idOf current) s = .ok () s' ∧ ShowsChildren r T s' ∧
      ShowsEntries r (fun other => T other ∨ other = path) s' := by
  induction levels generalizing current s with
  | zero => exact absurd (List.length_eq_zero_iff.mp (Nat.le_zero.mp hlevels)) hne
  | succ levels ih =>
    obtain ⟨name, above, rfl⟩ := List.exists_cons_of_ne_nil hne
    rw [List.length_cons, Nat.succ_le_succ_iff] at hlevels
    obtain ⟨ids, s₁, hstep, hempty, hchildren, hentries⟩ := h.detachUp_succ hleaves.folders hpath prune levels
    rw [hstep]
    have habove : above <:+ path := (List.suffix_cons name above).trans h.suffix
    have hproper : above ≠ path := by
      rintro rfl
      exact not_cons_suffix name above h.suffix
    by_cases hroot : above = []
    · rw [with_eq_self hleaves.folders (.inl hroot)] at hchildren hentries
      rw [if_neg fun hyes => hyes.2.1 (hroot ▸ r.idOf_nil)]
      exact ⟨s₁, rfl, hchildren, hentries⟩
    -- the way goes on exactly if the folder above is to go as well
    have hgo : (ids.isEmpty ∧ r.idOf above ≠ 0 ∧ prune (r.idOf above) = true) ↔ ¬ T above := by
      have hid := Naming.idOf_ne_zero hroot (hpath.of_suffix habove)
      rw [hleaves.gone_iff hroot, hleaves.pruned hroot habove hproper, List.isEmpty_iff, hempty, and_iff_right hid]
      exact and_comm
    by_cases hgone : T above
    · rw [if_neg fun hyes => hgo.mp hyes hgone]
      rw [with_eq_self hleaves.folders (.inr hgone)] at hchildren hentries
      exact ⟨s₁, rfl, hchildren, hentries⟩
    · rw [if_pos (hgo.mpr hgone)]
      exact ih hroot hlevels ⟨habove, hgone, hchildren, hentries⟩

/-! ### Unlinking -/

/-- A path that is no longer live goes together with the folders that only it had below them, unless something is
below it. -/
theorem ShowsTree.unlink (h : ShowsTree r P s) (hleaves : Leaves r T live prune path) (hpath : P path)
    (hdead : ¬ live path) (hdepth : path.length ≤ maxDepth) (hleft : ∀ other, P other ↔ With T path other) :
    ∃ b s', unlink prune (r.idOf path) s = .ok b s' ∧ ShowsTree r T s' := by
  have hne : path ≠ [] := by
    rintro rfl
    exact h.folders.ne_nil hpath
  have hknown := h.folders.known hpath
  obtain ⟨ids, hids⟩ := h.children.finite path
  have hchildren : s.childrenOf (r.idOf path) = .ok ids := h.children.childrenOf h.folders.known hknown hids
  have hempty : ids = [] ↔ ¬ T path := by
    rw [hleaves.gone_iff hne, hids.eq_nil_iff, and_iff_right hdead]
    simp only [hleft, with_child_iff]
  have hhas : s.hasPath (r.idOf path) = true := by
    obtain ⟨name, above, rfl⟩ := List.exists_cons_of_ne_nil hne
    exact (h.entries.hasPath_iff h.folders.known hknown).mpr hpath
  by_cases hkept : T path
  · refine ⟨false, s, unlink_of_children hhas hchildren fun hnil => hempty.mp hnil hkept, h.of_iff fun other => ?_⟩
    rw [hleft]
    exact (with_of_folders hleaves.folders (.inr hkept) other).symm
  · rw [hempty.mpr hkept] at hchildren
    have hclimbs : Climbs r T path path s := by
      refine ⟨List.suffix_refl path, hkept, ?_, h.entries.of_iff fun other => ?_⟩
      · have heq : P = With T path := funext fun other => propext (hleft other)
        exact heq ▸ h.children
      · rw [← hleft]
        refine (or_iff_left_of_imp ?_).symm
        rintro rfl
        exact hpath
    obtain ⟨s₁, hdetach, hleft', hentries⟩ := hclimbs.detachUp hleaves hknown hne hdepth
    have hwithin : ∀ {names}, T names ∨ names = path → r.known names := by
      rintro names (hnames | rfl)
      · exact hleaves.folders.known hnames
      · exact hknown
    refine ⟨true, _, unlink_of_detach hhas hchildren hdetach, hleaves.folders, ?_, hleft'.rows, hleft'.finite⟩
    apply (hentries.erasePathEntry hwithin hknown).of_iff
    intro other
    constructor
    · exact fun hother => hother.1.resolve_right hother.2
    · intro hother
      exact ⟨.inl hother, fun heq => hkept (heq ▸ hother)⟩

end Store
end FileIndex
