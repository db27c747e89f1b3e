import FileIndex.FileId
import FileIndex.Proofs.Tree.Hanging

/-!
# Hanging the path of a document

A path is a way up through levels: the document at the bottom, its folders above it, and the root at the top. To
hang it, the folders are looked at from the nearest one upwards. Those with an id and without an entry are passed by;
the first other one decides how the call ends. Nothing is written unless it succeeds, and then just the levels that were
passed by are hung, each from the next one.

* `Resolver.idOf`, `Resolver.level`: the id of a path given by its names, and the ids of the levels of a path.
* `Resolver.Refuses`: what is refused whatever is stored.
* `Store.PassedBy`: the levels that are passed by. `missingFolders_search`: the search for the folders that are missing.
* `Store.HungUpTo`: the levels below one were hung, and nothing else changed.
* `putPath_outcome`: how hanging a path ends, and what it writes.
-/

namespace FileIndex

/-- The id of the path with these names; the root has the id 0. -/
def Resolver.idOf (resolver : Resolver) (names : List Bytes) : DocId :=
  if names = [] then 0 else resolver (Path.render names)

/-- The id at a level of a path: that of the document at the bottom, those of its folders above it, and 0 at the top. -/
def Resolver.level (resolver : Resolver) (id : DocId) (names : List Bytes) (j : Nat) : DocId :=
  if j = 0 then id else resolver.idOf (names.drop j)

/-- Refused are the id 0, what is not the path of any names, and a path directly below the id itself. -/
def Resolver.Refuses (resolver : Resolver) (id : DocId) (url : Bytes) : Prop :=
  id = 0 ∨ (∀ names, names ≠ [] → Path.Valid names → Path.render names ≠ url) ∨
    ∃ names, Path.Valid names ∧ Path.render names = url ∧ names.tail ≠ [] ∧ resolver (Path.render names.tail) = id

@[simp] theorem Resolver.idOf_nil (resolver : Resolver) : resolver.idOf [] = 0 := rfl

@[simp] theorem Resolver.idOf_cons (resolver : Resolver) (name : Bytes) (above : List Bytes) :
    resolver.idOf (name :: above) = resolver (Path.render (name :: above)) := if_neg (List.cons_ne_nil name above)

namespace Store

variable {s s' : Store} {resolver : Resolver} {id : DocId} {names above : List Bytes} {k : Nat}

/-- The search upwards passes this level by: it has an id and no entry, and is not too far up. -/
def PassedBy (s : Store) (resolver : Resolver) (names : List Bytes) (j : Nat) : Prop :=
  resolver.idOf (names.drop j) ≠ 0 ∧ ¬ s.HasEntry (resolver.idOf (names.drop j)) ∧ j ≤ maxDepth

/-- The levels of a path below the `k`-th were hung, each from the next one and under its own name. There are no
other new entries and no other new links, and what is stored under the keys of other ids is the same. -/
structure HungUpTo (resolver : Resolver) (id : DocId) (names : List Bytes) (k : Nat) (s s' : Store) : Prop where
  entries : ∀ x e, s'.pathEntryOf? x = .ok (some e) ↔ s.pathEntryOf? x = .ok (some e) ∨
    ∃ j < k, x = resolver.level id names j ∧ e.parent = resolver.level id names (j + 1) ∧ names[j]? = some e.name
  lists : ∀ parent x, s'.ListsBelow parent x ↔ s.ListsBelow parent x ∨
    ∃ j < k, x = resolver.level id names j ∧ parent = resolver.level id names (j + 1)
  entryRows : ∀ key, (∀ j < k, key ≠ DocId.toKey (resolver.level id names j)) →
    s'.pathEntries.find? key = s.pathEntries.find? key
  childRows : ∀ key, (∀ j < k, key ≠ DocId.toKey (resolver.level id names (j + 1))) →
    s'.children.find? key = s.children.find? key

/-! ### The search -/

theorem map_range_succ {α : Type} (f : Nat → α) (k : Nat) :
    (List.range (k + 1)).map f = f 0 :: (List.range k).map fun j => f (j + 1) := by
  rw [List.range_succ_eq_map, List.map_cons, List.map_map]
  rfl

/-- The folders of a path, with their ids, up to one of them. -/
def foldersUpTo (resolver : Resolver) (above : List Bytes) (k : Nat) : List (DocId × Bytes) :=
  (List.range k).map fun j => (resolver.idOf (above.drop j), above.getD j [])

theorem foldersUpTo_succ (name : Bytes) :
    foldersUpTo resolver (name :: above) (k + 1) =
      (resolver.idOf (name :: above), name) :: foldersUpTo resolver above k := by
  unfold foldersUpTo
  rw [map_range_succ]
  rfl

/-- The search goes past the folders that have an id and no entry, as long as there is room. It ends at a folder without
an id, at one that is one too many, or at one that has an entry or is the root. -/
theorem missingFolders_search (s : Store) (resolver : Resolver) (room : Nat) (above : List Bytes) :
    ∃ k ≤ above.length,
      (∀ j < k, resolver.idOf (above.drop j) ≠ 0 ∧ s.hasPath (resolver.idOf (above.drop j)) = false ∧ j < room) ∧
      ((k < above.length ∧ resolver.idOf (above.drop k) = 0 ∧ s.missingFolders resolver room above = .ok none) ∨
        (k = room ∧ k < above.length ∧ resolver.idOf (above.drop k) ≠ 0 ∧
          s.hasPath (resolver.idOf (above.drop k)) = false ∧ s.missingFolders resolver room above = .error .tooDeep) ∨
        ((k = above.length ∨ s.hasPath (resolver.idOf (above.drop k)) = true) ∧
          s.missingFolders resolver room above =
            .ok (some (resolver.idOf (above.drop k), foldersUpTo resolver above k)))) := by
  induction above generalizing room with
  | nil => exact ⟨0, Nat.le_refl 0, nofun, .inr (.inr ⟨.inl rfl, missingFolders_nil⟩)⟩
  | cons name above ih =>
    have hid : resolver.idOf ((name :: above).drop 0) = resolver (Path.render (name :: above)) :=
      resolver.idOf_cons name above
    have hfirst : 0 < (name :: above).length := Nat.succ_pos _
    rw [missingFolders.eq_def]
    simp only
    by_cases hzero : resolver (Path.render (name :: above)) = 0
    · rw [if_pos hzero]
      exact ⟨0, Nat.zero_le _, nofun, .inl ⟨hfirst, hid.trans hzero, rfl⟩⟩
    rw [if_neg hzero]
    cases hpath : s.hasPath (resolver (Path.render (name :: above))) with
    | true => exact ⟨0, Nat.zero_le _, nofun, .inr (.inr ⟨.inr (hid ▸ hpath), by rw [hid]; rfl⟩)⟩
    | false =>
      rw [if_neg Bool.false_ne_true]
      cases room with
      | zero => exact ⟨0, Nat.zero_le _, nofun, .inr (.inl ⟨rfl, hfirst, hid ▸ hzero, hid ▸ hpath, rfl⟩)⟩
      | succ room =>
        obtain ⟨k, hk, hpassed, hends⟩ := ih room
        refine ⟨k + 1, Nat.succ_le_succ hk, fun j hj => ?_, ?_⟩
        · cases j with
          | zero => exact ⟨hid ▸ hzero, hid ▸ hpath, Nat.succ_pos room⟩
          | succ j =>
            obtain ⟨hne, hnone, hroom⟩ := hpassed j (Nat.lt_of_succ_lt_succ hj)
            exact ⟨hne, hnone, Nat.succ_lt_succ hroom⟩
        · rw [foldersUpTo_succ, resolver.idOf_cons]
          obtain ⟨hlt, hend, hsearch⟩ | ⟨rfl, hlt, hne, hnone, hsearch⟩ | ⟨hend, hsearch⟩ := hends
          · exact .inl ⟨Nat.succ_lt_succ hlt, hend, by simp only [hsearch]; rfl⟩
          · exact .inr (.inl ⟨rfl, Nat.succ_lt_succ hlt, hne, hnone, by simp only [hsearch]; rfl⟩)
          · exact .inr (.inr ⟨hend.imp_left (congrArg (· + 1)), by simp only [hsearch]; rfl⟩)

/-- Where the path of some names hangs is a matter of the folders that are missing. -/
theorem locate_of_parse {url name : Bytes} (hid : id ≠ 0) (hparse : Path.parse url = .ok (name :: above))
    (hown : ¬ (above ≠ [] ∧ resolver (Path.render above) = id)) :
    s.locate resolver id url =
      (s.missingFolders resolver maxDepth above).map (Option.map fun r => ⟨id, name, r.1, r.2⟩) := by
  unfold locate
  rw [if_neg hid, hparse]
  simp only [bind, Except.bind, pure, Except.pure]
  rw [if_neg hown]
  cases s.missingFolders resolver maxDepth above <;> rfl

theorem locate_of_refuses {url : Bytes} (h : resolver.Refuses id url) :
    ∃ e, e.kind = .invalidArgument ∧ s.locate resolver id url = .error e := by
  unfold locate
  by_cases hid : id = 0
  · exact ⟨.zeroId, rfl, if_pos hid⟩
  rw [if_neg hid]
  obtain hnames | ⟨names, hvalid, rfl, htail, hown⟩ := h.resolve_left hid
  · cases hparse : Path.parse url with
    | error e =>
      refine ⟨e, ?_, rfl⟩
      obtain rfl | rfl := Path.parse_error hparse <;> rfl
    | ok names =>
      obtain ⟨hne, hvalid, hrender⟩ := Path.parse_spec hparse
      exact absurd hrender (hnames names hne hvalid)
  · have hne : names ≠ [] := by
      rintro rfl
      exact htail rfl
    obtain ⟨name, above, rfl⟩ := List.exists_cons_of_ne_nil hne
    rw [Path.parse_render (List.cons_ne_nil name above) hvalid]
    exact ⟨.ownParent, rfl, if_pos ⟨htail, hown⟩⟩

/-! ### What is hung -/

/-- The entries of folders that are given one for each level, with the anchor at the next level. -/
theorem entriesInTurn_range (ids : Nat → DocId) (name : Nat → Bytes) (k : Nat) :
    entriesInTurn (ids k) ((List.range k).map fun j => (ids j, name j)) =
      (List.range k).map fun j => (ids j, ⟨ids (j + 1), name j⟩) := by
  induction k generalizing ids name with
  | zero => rfl
  | succ k ih =>
    have hrest := ih (fun j => ids (j + 1)) fun j => name (j + 1)
    have hnext : (((List.range k).map fun j => (ids (j + 1), name (j + 1))).map (·.1)).headD (ids (k + 1)) = ids 1 := by
      cases k with
      | zero => rfl
      | succ k =>
        rw [map_range_succ]
        rfl
    rw [map_range_succ, map_range_succ, entriesInTurn, hnext, hrest]

/-- The levels of a path that are hung, with the folders that are missing above the first of them. -/
theorem levels_eq (name : Bytes) :
    (id, name) :: foldersUpTo resolver above k =
      (List.range (k + 1)).map fun j => (resolver.level id (name :: above) j, (name :: above).getD j []) := by
  rw [map_range_succ]
  rfl

/-- When a path is hung whose levels have no entries and different ids, it is hung level by level. -/
theorem Gains.hungUpTo (hk : k ≤ names.length) (hlength : ∀ name ∈ names, name.length < UInt64.size)
    (hnone : ∀ j < k, ¬ s.HasEntry (resolver.level id names j))
    (hnodup : ((List.range k).map (resolver.level id names)).Nodup)
    (h : Gains ((List.range k).map fun j =>
      (resolver.level id names j, ⟨resolver.level id names (j + 1), names.getD j []⟩)) s s') :
    HungUpTo resolver id names k s s' := by
  have hkeys : ∀ x, x ∉ (List.range k).map (resolver.level id names) → s'.pathEntryOf? x = s.pathEntryOf? x := by
    intro x hx
    apply h.entry_of_not_mem
    rwa [List.map_map]
  have hentry : ∀ j < k, s'.pathEntryOf? (resolver.level id names j) =
      .ok (some ⟨resolver.level id names (j + 1), names.getD j []⟩) := by
    intro j hj
    have hmem : names.getD j [] ∈ names := by
      rw [List.getD_eq_getElem?_getD, List.getElem?_eq_getElem (Nat.lt_of_lt_of_le hj hk)]
      exact List.getElem_mem _
    have hnodup' := hnodup
    rw [show resolver.level id names = Prod.fst ∘ fun j => (resolver.level id names j,
      (⟨resolver.level id names (j + 1), names.getD j []⟩ : PathEntry)) from rfl, ← List.map_map] at hnodup'
    have hstored := h.entry_of_mem hnodup' (List.mem_map_of_mem (List.mem_range.mpr hj))
    rwa [storedName_of_length (hlength _ hmem)] at hstored
  constructor
  · intro x e
    by_cases hx : x ∈ (List.range k).map (resolver.level id names)
    · obtain ⟨j, hj, rfl⟩ := List.mem_map.mp hx
      rw [List.mem_range] at hj
      have hname : names[j]? = some (names.getD j []) := by
        rw [List.getD_eq_getElem?_getD, List.getElem?_eq_getElem (Nat.lt_of_lt_of_le hj hk)]
        rfl
      rw [hentry j hj]
      constructor
      · intro heq
        cases heq
        exact .inr ⟨j, hj, rfl, rfl, hname⟩
      · rintro (hbefore | ⟨i, hi, hsame, hparent, hname'⟩)
        · exact absurd ⟨e, hbefore⟩ (hnone j hj)
        · have hij : i = j := List.inj_on_of_nodup_map hnodup (List.mem_range.mpr hi) (List.mem_range.mpr hj) hsame.symm
          subst hij
          rw [hname, Option.some.injEq] at hname'
          rw [hname', ← hparent]
    · rw [hkeys x hx]
      refine (or_iff_left ?_).symm
      rintro ⟨j, hj, rfl, _⟩
      exact hx (List.mem_map_of_mem (List.mem_range.mpr hj))
  · intro parent x
    rw [h.lists]
    apply or_congr_right
    constructor
    · rintro ⟨e, he, rfl⟩
      obtain ⟨j, hj, heq⟩ := List.mem_map.mp he
      cases heq
      exact ⟨j, List.mem_range.mp hj, rfl, rfl⟩
    · rintro ⟨j, hj, rfl, rfl⟩
      exact ⟨_, List.mem_map.mpr ⟨j, List.mem_range.mpr hj, rfl⟩, rfl⟩
  · intro key hkey
    apply h.entryRows
    rintro _ hx
    obtain ⟨j, hj, rfl⟩ := List.mem_map.mp hx
    exact hkey j (List.mem_range.mp hj)
  · intro key hkey
    apply h.childRows
    rintro _ hx
    obtain ⟨j, hj, rfl⟩ := List.mem_map.mp hx
    exact hkey j (List.mem_range.mp hj)

/-! ### Hanging a path -/

/-- The path of some names that is not refused: what the search finds decides how the call ends. -/
theorem putPath_of_render (hs : s.TreeReadable) {name : Bytes} (hid : id ≠ 0) (hvalid : Path.Valid (name :: above))
    (hown : ¬ (above ≠ [] ∧ resolver (Path.render above) = id)) :
    let names := name :: above
    let url := Path.render names
    ∃ k, 1 ≤ k ∧ k ≤ names.length ∧ (∀ j, 1 ≤ j → j < k → s.PassedBy resolver names j) ∧
      ((k < names.length ∧ resolver.idOf (names.drop k) = 0 ∧ putPath resolver id url s = .ok false s) ∨
        (k = maxDepth + 1 ∧ k < names.length ∧ resolver.idOf (names.drop k) ≠ 0 ∧
          ¬ s.HasEntry (resolver.idOf (names.drop k)) ∧ putPath resolver id url s = .error .tooDeep s) ∨
        ((k = names.length ∨ s.HasEntry (resolver.idOf (names.drop k))) ∧
        ∃ s', putPath resolver id url s = .ok true s' ∧
          Gains ((List.range k).map fun j =>
            (resolver.level id names j, ⟨resolver.level id names (j + 1), names.getD j []⟩)) s s')) := by
  intro names url
  have hlocate := locate_of_parse (s := s) hid (Path.parse_render (List.cons_ne_nil name above) hvalid) hown
  have hentry : ∀ {x}, s.hasPath x = false ↔ ¬ s.HasEntry x := by
    intro x
    rw [← hasPath_iff_hasEntry hs, Bool.not_eq_true]
  obtain ⟨k, hk, hpassed, hends⟩ := missingFolders_search s resolver maxDepth above
  refine ⟨k + 1, Nat.succ_pos k, Nat.succ_le_succ hk, fun j hj hlt => ?_, ?_⟩
  · obtain ⟨i, rfl⟩ := Nat.exists_eq_succ_of_ne_zero (Nat.ne_of_gt hj)
    obtain ⟨hne, hnone, hroom⟩ := hpassed i (Nat.lt_of_succ_lt_succ hlt)
    exact ⟨hne, hentry.mp hnone, hroom⟩
  obtain ⟨hlt, hend, hsearch⟩ | ⟨hroom, hlt, hne, hnone, hsearch⟩ | ⟨hend, hsearch⟩ := hends
  · rw [hsearch] at hlocate
    exact .inl ⟨Nat.succ_lt_succ hlt, hend, putPath_of_locate_none hlocate⟩
  · rw [hsearch] at hlocate
    exact .inr (.inl ⟨congrArg (· + 1) hroom, Nat.succ_lt_succ hlt, hne, hentry.mp hnone,
      putPath_of_locate_error hlocate⟩)
  · rw [hsearch] at hlocate
    have hend' : k + 1 = names.length ∨ s.HasEntry (resolver.idOf (names.drop (k + 1))) :=
      hend.imp (congrArg (· + 1)) (hasPath_iff_hasEntry hs).mp
    have hzero : ∀ x ∈ foldersUpTo resolver above k, x.1 ≠ 0 := by
      intro x hx
      obtain ⟨j, hj, rfl⟩ := List.mem_map.mp hx
      exact (hpassed j (List.mem_range.mp hj)).1
    let p : Placement := ⟨id, name, resolver.level id names (k + 1), foldersUpTo resolver above k⟩
    obtain ⟨s', hattach, hgains⟩ := attach_gains (p := p) hs hid hzero
    refine .inr (.inr ⟨hend', s', putPath_of_attach (p := p) hlocate hattach, ?_⟩)
    rwa [levels_eq, entriesInTurn_range (resolver.level id names)] at hgains

/-- In any tree that can be read, hanging a path ends in one of these ways. The call is refused for what it is
given. Else the levels above the document are looked at in turn, up to the first one that is not passed by. If this is
a folder without an id, the answer is no; if it is a folder that is too far up, the call is refused; and if it is a
folder with an entry, or the root, the levels below it are hung. A call that does not succeed writes nothing, and one
that does changes the tree only: if the levels to be hung have different ids and the document has no entry, just these
levels are new. -/
theorem putPath_outcome (hs : s.TreeLegible) (resolver : Resolver) (id : DocId) {url : Bytes}
    (hlength : url.length < UInt64.size) :
    (resolver.Refuses id url → ∃ e, e.kind = .invalidArgument ∧ putPath resolver id url s = .error e s) ∧
      (¬ resolver.Refuses id url → ∃ names k, Path.Valid names ∧ Path.render names = url ∧ 1 ≤ k ∧ k ≤ names.length ∧
        (∀ j, 1 ≤ j → j < k → s.PassedBy resolver names j) ∧
        ((k < names.length ∧ resolver.idOf (names.drop k) = 0 ∧ putPath resolver id url s = .ok false s) ∨
          (k = maxDepth + 1 ∧ k < names.length ∧ resolver.idOf (names.drop k) ≠ 0 ∧
            ¬ s.HasEntry (resolver.idOf (names.drop k)) ∧
            ∃ e, e.kind = .invalidArgument ∧ putPath resolver id url s = .error e s) ∨
          ((k = names.length ∨ s.HasEntry (resolver.idOf (names.drop k))) ∧
            ∃ s', putPath resolver id url s = .ok true s' ∧ SameButTree s s' ∧
              (((List.range k).map (resolver.level id names)).Nodup → ¬ s.HasEntry id →
                HungUpTo resolver id names k s s')))) := by
  refine ⟨fun hrefused => ?_, fun haccepted => ?_⟩
  · obtain ⟨e, hkind, hlocate⟩ := locate_of_refuses (s := s) hrefused
    exact ⟨e, hkind, putPath_of_locate_error hlocate⟩
  obtain ⟨hid, hnames, hown⟩ : id ≠ 0 ∧ (∃ names, names ≠ [] ∧ Path.Valid names ∧ Path.render names = url) ∧
      ∀ names, Path.Valid names → Path.render names = url →
        ¬ (names.tail ≠ [] ∧ resolver (Path.render names.tail) = id) := by
    simp only [Resolver.Refuses, not_or, not_forall, not_exists, not_not] at haccepted
    obtain ⟨hid, ⟨names, hne, hvalid, hrender⟩, hown⟩ := haccepted
    exact ⟨hid, ⟨names, hne, hvalid, hrender⟩, fun names hvalid hrender hboth => hown names ⟨hvalid, hrender, hboth⟩⟩
  obtain ⟨names, hne, hvalid, rfl⟩ := hnames
  obtain ⟨name, above, rfl⟩ := List.exists_cons_of_ne_nil hne
  obtain ⟨k, hpositive, hk, hpassed, hends⟩ := putPath_of_render hs.readable hid hvalid (hown _ hvalid rfl)
  refine ⟨name :: above, k, hvalid, rfl, hpositive, hk, hpassed, ?_⟩
  obtain hnone | ⟨hroom, hlt, hne, hnone, hput⟩ | ⟨hend, s', hput, hgains⟩ := hends
  · exact .inl hnone
  · exact .inr (.inl ⟨hroom, hlt, hne, hnone, .tooDeep, rfl, hput⟩)
  · refine .inr (.inr ⟨hend, s', hput, hgains.rest, fun hnodup hnew => ?_⟩)
    have hshort : ∀ name' ∈ name :: above, name'.length < UInt64.size := fun name' hname' =>
      Nat.lt_of_le_of_lt (Path.length_le_of_mem_render hname') hlength
    refine hgains.hungUpTo hk hshort (fun j hj => ?_) hnodup
    by_cases hbottom : j = 0
    · rwa [hbottom, Resolver.level, if_pos rfl]
    · rw [Resolver.level, if_neg hbottom]
      exact (hpassed j (Nat.one_le_iff_ne_zero.mpr hbottom) hj).2.1

/-- A document is hung below a folder that is missing, and this one below one that is stored. -/
theorem putPath_outcome_below_folder :
    let store : Store := ((∅ : Store).setChildren 0 [7]).setPathEntry 7 ⟨0, [0x64]⟩
    let resolver : Resolver := .listed [([0x2F, 0x64], 7), ([0x2F, 0x64, 0x2F, 0x65], 8)]
    let url : Bytes := [0x2F, 0x64, 0x2F, 0x65, 0x2F, 0x66]
    store.TreeLegible ∧ url.length < UInt64.size ∧ ∃ s', putPath resolver 9 url store = .ok true s' ∧
      s'.pathEntryOf? 9 = .ok (some ⟨8, [0x66]⟩) ∧ s'.pathEntryOf? 8 = .ok (some ⟨7, [0x65]⟩) ∧
      s'.ListsBelow 8 9 ∧ s'.ListsBelow 7 8 := by
  intro store resolver url
  have hlegible : store.TreeLegible :=
    ⟨Table.forall_values_insert (t := ∅) nofun (DocId.toKey 0) ⟨[7], IdList.decode_encode (by decide)⟩,
      Table.forall_values_insert (t := ∅) nofun (DocId.toKey 7) ⟨_, PathEntry.decode_encode _⟩⟩
  have hlength : url.length < UInt64.size := by decide
  have hparse : Path.parse url = .ok [[0x66], [0x65], [0x64]] := by decide +kernel
  have hseven : store.HasEntry 7 := ⟨⟨0, [0x64]⟩, by decide +kernel⟩
  have height : ¬ store.HasEntry 8 := not_hasEntry_of_none (by decide +kernel)
  have hnine : ¬ store.HasEntry 9 := not_hasEntry_of_none (by decide +kernel)
  have hnames : ∀ {names}, names ≠ [] → Path.Valid names → Path.render names = url →
    names = [[0x66], [0x65], [0x64]] := by
    intro names hne hvalid hrender
    have hparse' := Path.parse_render hne hvalid
    rw [hrender, hparse, Except.ok.injEq] at hparse'
    exact hparse'.symm
  have hvalid : Path.Valid [[0x66], [0x65], [0x64]] := (Path.parse_spec hparse).2.1
  have haccepted : ¬ resolver.Refuses 9 url := by
    rintro (hzero | hnone | ⟨names, hvalid', hrender, hbelow, hown⟩)
    · exact absurd hzero (by decide)
    · exact hnone _ (List.cons_ne_nil _ _) hvalid (Path.parse_spec hparse).2.2
    · have hne : names ≠ [] := by
        rintro rfl
        exact hbelow rfl
      rw [hnames hne hvalid' hrender] at hown
      exact absurd hown (by decide +kernel)
  obtain ⟨names, k, hvalid', hrender, hpositive, hk, hpassed, hends⟩ :=
    (putPath_outcome hlegible resolver 9 hlength).2 haccepted
  have hne : names ≠ [] := by
    rintro rfl
    exact absurd (Nat.le_trans hpositive hk) (by decide)
  obtain rfl := hnames hne hvalid' hrender
  -- the folder that is missing is passed by, and the next one is stored
  have hone : resolver.idOf ([[0x66], [0x65], [0x64]].drop 1) = 8 := by decide +kernel
  have htwo : resolver.idOf ([[0x66], [0x65], [0x64]].drop 2) = 7 := by decide +kernel
  have hstop : k = 2 := by
    have hle : k ≤ 2 := by
      by_contra hlt
      exact (hpassed 2 (by decide) (Nat.lt_of_not_le hlt)).2.1 (htwo ▸ hseven)
    obtain rfl | rfl : k = 1 ∨ k = 2 := by omega
    · rw [hone] at hends
      obtain ⟨_, hzero, _⟩ | ⟨hdeep, _⟩ | ⟨htop | hstored, _⟩ := hends
      · exact absurd hzero (by decide)
      · exact absurd hdeep (by decide)
      · exact absurd htop (by decide)
      · exact absurd hstored height
    · rfl
  subst hstop
  rw [htwo] at hends
  obtain ⟨_, hzero, _⟩ | ⟨hdeep, _⟩ | ⟨_, s', hput, _, hhung⟩ := hends
  · exact absurd hzero (by decide)
  · exact absurd hdeep (by decide)
  have hspec := hhung (by decide +kernel) hnine
  refine ⟨hlegible, hlength, s', hput, ?_, ?_, ?_, ?_⟩
  · exact (hspec.entries 9 _).mpr (.inr ⟨0, by decide, by decide +kernel, by decide +kernel, rfl⟩)
  · exact (hspec.entries 8 _).mpr (.inr ⟨1, by decide, by decide +kernel, by decide +kernel, rfl⟩)
  · exact (hspec.lists 8 9).mpr (.inr ⟨0, by decide, by decide +kernel, by decide +kernel⟩)
  · exact (hspec.lists 7 8).mpr (.inr ⟨1, by decide, by decide +kernel, by decide +kernel⟩)

end Store
end FileIndex
