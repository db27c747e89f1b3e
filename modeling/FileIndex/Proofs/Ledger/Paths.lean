import FileIndex.Proofs.Ledger.Tables
import FileIndex.Proofs.Tree.Unlinking

/-!
# The paths of documents

The tree of paths is that of the documents and the folders above them. It changes with the list of the documents.

* `Document.names`, `Document.Admitted`: the path of a document, and documents that have one.
* `paths`: the paths of documents and of the folders above them.
* `with_paths`, `leaves_paths`: adding and removing a document adds and removes the right paths.
* `ShowsTree.unlinkDocument`: unlinking an id makes the tree that of the documents without it.
-/

namespace FileIndex

/-- The names of the path of a document, none if it has no absolute path. -/
def Document.names (doc : Document) : List Bytes :=
  match Path.parse doc.url with
  | .ok names => names
  | .error _ => []

/-- A fit document with an absolute path. -/
def Document.Admitted (r : Naming) (doc : Document) : Prop := doc.Fit r ∧ Path.parse doc.url = .ok doc.names

theorem Document.parse_of_ok {doc : Document} {names : List Bytes} (h : Path.parse doc.url = .ok names) :
    Path.parse doc.url = .ok doc.names := by
  rw [Document.names, h]

/-- The paths of the documents and the folders above them. -/
def paths (docs : List Document) (names : List Bytes) : Prop := names ≠ [] ∧ ∃ doc ∈ docs, names <:+ doc.names

namespace Document.Admitted

variable {r : Naming} {doc doc' : Document} {docs : List Document} {names : List Bytes}

theorem names_ne_nil (h : doc.Admitted r) : doc.names ≠ [] := (Path.parse_spec h.2).1

theorem known_names (h : doc.Admitted r) : r.known doc.names := h.1.known _ h.2

theorem id_eq_idOf (h : doc.Admitted r) : doc.id = r.idOf doc.names := by
  rw [Naming.idOf, if_neg h.names_ne_nil, (Path.parse_spec h.2).2.2]
  exact h.1.id_eq

theorem length_names_le (h : doc.Admitted r) : doc.names.length ≤ maxDepth := h.1.depth _ h.2

theorem id_ne_zero (h : doc.Admitted r) : doc.id ≠ 0 := by
  rw [h.id_eq_idOf]
  exact Naming.idOf_ne_zero h.names_ne_nil h.known_names

theorem idOf_eq_iff (h : doc.Admitted r) (hknown : r.known names) :
    r.idOf names = doc.id ↔ names = doc.names := by
  rw [h.id_eq_idOf]
  exact Naming.idOf_inj hknown h.known_names

theorem names_eq (h : doc.Admitted r) (h' : doc'.Admitted r) (hid : doc.id = doc'.id) :
    doc.names = doc'.names := by
  rw [h.id_eq_idOf] at hid
  exact (h'.idOf_eq_iff h.known_names).mp hid

end Document.Admitted

section Paths

variable {r : Naming} {docs : List Document} (hdocs : ∀ doc ∈ docs, doc.Admitted r)

theorem paths_nil (names : List Bytes) : ¬ paths [] names := by
  rintro ⟨_, doc, hdoc, _⟩
  cases hdoc

theorem exists_cons_suffix {names all : List Bytes} (h : names <:+ all) :
    all = names ∨ ∃ name, name :: names <:+ all := by
  induction all with
  | nil => exact .inl (List.suffix_nil.mp h).symm
  | cons name all ih =>
    rcases List.suffix_cons_iff.mp h with rfl | h
    · exact .inl rfl
    · rcases ih h with rfl | ⟨other, hother⟩
      · exact .inr ⟨name, List.suffix_refl _⟩
      · exact .inr ⟨other, hother.trans (List.suffix_cons name all)⟩

theorem paths_names {doc : Document} (h : doc.Admitted r) (hdoc : doc ∈ docs) : paths docs doc.names :=
  ⟨h.names_ne_nil, doc, hdoc, List.suffix_refl _⟩

include hdocs

theorem folders_paths : r.Folders (paths docs) := by
  refine ⟨fun h => h.1 rfl, ?_, ?_⟩
  · rintro names ⟨_, doc, hdoc, hsuffix⟩
    exact (hdocs doc hdoc).known_names.of_suffix hsuffix
  · rintro name above ⟨_, doc, hdoc, hsuffix⟩ hne
    exact ⟨hne, doc, hdoc, (List.suffix_cons name above).trans hsuffix⟩

theorem length_le_of_paths {names : List Bytes} (h : paths docs names) : names.length ≤ maxDepth := by
  obtain ⟨_, doc, hdoc, hsuffix⟩ := h
  exact Nat.le_trans hsuffix.length_le (hdocs doc hdoc).length_names_le

/-- A document that is written adds its path; one that had the same id had the same path. -/
theorem with_paths {doc : Document} (hdoc : doc.Admitted r) (other : List Bytes) :
    Store.With (paths docs) doc.names other ↔ paths (doc :: without doc.id docs) other := by
  constructor
  · rintro (⟨hne, doc', hdoc', hsuffix⟩ | ⟨hne, hsuffix⟩)
    · refine ⟨hne, ?_⟩
      by_cases hid : doc'.id = doc.id
      · have hnames := (hdocs doc' hdoc').names_eq hdoc hid
        exact ⟨doc, List.mem_cons_self, hnames ▸ hsuffix⟩
      · exact ⟨doc', List.mem_cons_of_mem doc (mem_without.mpr ⟨hdoc', hid⟩), hsuffix⟩
    · exact ⟨hne, doc, List.mem_cons_self, hsuffix⟩
  · rintro ⟨hne, doc', hdoc', hsuffix⟩
    rcases List.mem_cons.mp hdoc' with rfl | hdoc'
    · exact .inr ⟨hne, hsuffix⟩
    · exact .inl ⟨hne, doc', (mem_without.mp hdoc').1, hsuffix⟩

/-- A document that is removed leaves the paths of the others. -/
theorem paths_eq_with {path : List Bytes} (hpath : paths docs path) (other : List Bytes) :
    paths docs other ↔ Store.With (paths (without (r.idOf path) docs)) path other := by
  have hfolders := folders_paths hdocs
  constructor
  · rintro ⟨hne, doc, hdoc, hsuffix⟩
    by_cases hid : doc.id = r.idOf path
    · have hnames := ((hdocs doc hdoc).idOf_eq_iff (hfolders.known hpath)).mp hid.symm
      exact .inr ⟨hne, hnames ▸ hsuffix⟩
    · exact .inl ⟨hne, doc, mem_without.mpr ⟨hdoc, hid⟩, hsuffix⟩
  · rintro (⟨hne, doc, hdoc, hsuffix⟩ | ⟨hne, hsuffix⟩)
    · exact ⟨hne, doc, (mem_without.mp hdoc).1, hsuffix⟩
    · exact hfolders.of_suffix hpath hsuffix hne

theorem leaves_paths {path : List Bytes} (hpath : paths docs path) {prune : DocId → Bool}
    (hprune : ∀ folder, prune folder = true ↔ ∀ doc ∈ docs, doc.id ≠ folder) :
    Store.Leaves r (paths (without (r.idOf path) docs))
      (fun names => ∃ doc ∈ without (r.idOf path) docs, doc.names = names) prune path := by
  have hfolders := folders_paths hdocs
  have hrest : ∀ doc ∈ without (r.idOf path) docs, doc.Admitted r := fun doc hdoc => hdocs doc (mem_without.mp hdoc).1
  refine ⟨folders_paths hrest, ?_, ?_, fun {names} hne hsuffix hdiffers => ?_⟩
  · rintro names ⟨doc, hdoc, rfl⟩
    exact paths_names (hrest doc hdoc) hdoc
  · rintro names ⟨hne, doc, hdoc, hsuffix⟩
    rcases exists_cons_suffix hsuffix with heq | ⟨name, hname⟩
    · exact .inl ⟨doc, hdoc, heq⟩
    · exact .inr ⟨name, List.cons_ne_nil name names, doc, hdoc, hname⟩
  -- a folder is pruned if it is no document, and `path` itself is no folder above
  · have hknown := hfolders.known hpath
    have hid : ∀ doc ∈ docs, doc.id = r.idOf names ↔ doc.names = names := by
      intro doc hdoc
      rw [eq_comm, (hdocs doc hdoc).idOf_eq_iff (hknown.of_suffix hsuffix), eq_comm]
    rw [hprune]
    constructor
    · rintro hnone ⟨doc, hdoc, hnames⟩
      have hmem := (mem_without.mp hdoc).1
      exact hnone doc hmem ((hid doc hmem).mpr hnames)
    · intro hdead doc hdoc hsame
      have hnames := (hid doc hdoc).mp hsame
      refine hdead ⟨doc, mem_without.mpr ⟨hdoc, fun hpathId => hdiffers ?_⟩, hnames⟩
      rw [((hdocs doc hdoc).idOf_eq_iff hknown).mp hpathId.symm, hnames]

end Paths

namespace Store

variable {r : Naming} {docs : List Document} {s : Store}

/-- Unlinking an id makes the tree that of the documents without it, whether it is a document, a folder or neither. -/
theorem ShowsTree.unlinkDocument (hdocs : ∀ doc ∈ docs, doc.Admitted r)
    (h : ShowsTree r (paths docs) s) {prune : DocId → Bool}
    (hprune : ∀ folder, prune folder = true ↔ ∀ doc ∈ docs, doc.id ≠ folder) (id : DocId) :
    ∃ b s', Store.unlink prune id s = .ok b s' ∧ ShowsTree r (paths (without id docs)) s' := by
  cases hpath : s.hasPath id with
  | false =>
    refine ⟨false, s, unlink_of_not_hasPath hpath, ?_⟩
    rw [without_eq_self]
    · exact h
    · rintro doc hdoc rfl
      have hadmitted := hdocs doc hdoc
      obtain ⟨name, above, hnames⟩ := List.exists_cons_of_ne_nil hadmitted.names_ne_nil
      have hhung := paths_names hadmitted hdoc
      have hknown := hadmitted.known_names
      rw [hnames] at hhung hknown
      have hhas := (h.entries.hasPath_iff h.folders.known hknown).mpr hhung
      rw [← hnames, ← hadmitted.id_eq_idOf, hpath] at hhas
      cases hhas
  | true =>
    obtain ⟨path, hhung, rfl⟩ := h.entries.exists_of_hasPath hpath
    have hleaves := leaves_paths hdocs hhung hprune
    refine h.unlink hleaves hhung ?_ (length_le_of_paths hdocs hhung) (paths_eq_with hdocs hhung)
    rintro ⟨doc, hdoc, hnames⟩
    obtain ⟨hmem, hid⟩ := mem_without.mp hdoc
    exact hid (((hdocs doc hmem).idOf_eq_iff (h.folders.known hhung)).mpr hnames.symm).symm

end Store
end FileIndex
