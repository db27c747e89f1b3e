import FileIndex.Proofs.Draft.Outline
import FileIndex.Proofs.Tree.Names
import FileIndex.Proofs.Tree.Shape

/-!
# Paths that come back

A document that is added is found under its path later: the path of its id is the one that it was added with, and the
paths of all ids that had one before are what they were. The way back follows no more than `maxDepth + 1` names though,
while hanging a path asks only that no more than `maxDepth` folders are missing. Below a stored folder a document
can lie deeper than the way back goes, and then its id has no path.

* `Document.Named`, `onlyAdds`: what is asked of documents.
* `Store.Grown`: the tree is that of a set of paths whose lengths are machine words. `Draft.add_grows`: adding
  a document adds its path and the folders above it.
* `ShowsTree.pathOf`: what the path of an id is in such a tree.
* `Session.pathOf_added`: what becomes of the paths when a document is added. `Session.pathOf_added_too_deep`: one that
  does not come back.
-/

namespace FileIndex

/-- The id is that of the path, which the resolver tells apart, and the length of the path is a machine word. -/
structure Document.Named (r : Naming) (doc : Document) : Prop where
  id : doc.id = r.resolve doc.url
  known : ∀ names, Path.parse doc.url = .ok names → r.known names
  size : doc.url.length < UInt64.size

/-- Documents are added and nothing else. -/
def onlyAdds (r : Naming) (_ : Draft) (op : WriteOp) : Prop := ∃ doc, op = .add doc ∧ doc.Named r

namespace Store

variable {r : Naming} {P : List Bytes → Prop} {s : Store} {names : List Bytes}

theorem hasDocument_empty (id : DocId) : (∅ : Store).hasDocument id = false := rfl

/-- The lengths of paths are machine words. -/
def Sized (P : List Bytes → Prop) : Prop := ∀ names, P names → (Path.render names).length < UInt64.size

/-- In the tree of a set of paths each of them is the way up from its id. -/
theorem ShowsTree.namedWay (h : ShowsTree r P s) (hsize : Sized P) (hnames : names = [] ∨ P names) :
    s.NamedWay (r.idOf names) names := by
  induction names with
  | nil => exact .root
  | cons name above ih =>
    have hhung := hnames.resolve_left (List.cons_ne_nil name above)
    have hlength : name.length < UInt64.size :=
      Nat.lt_of_le_of_lt (Path.length_le_of_mem_render List.mem_cons_self) (hsize _ hhung)
    have hentry := h.entries.pathEntryOf?_eq hhung (h.folders.known hhung)
    rw [storedName_of_length hlength] at hentry
    refine .up hentry (ih ?_)
    by_cases habove : above = []
    · exact .inl habove
    · exact .inr (h.folders.up hhung habove)

/-- The path of an id is written from its names, if they are not too many. -/
theorem ShowsTree.pathOf (h : ShowsTree r P s) (hsize : Sized P) (hnames : P names) :
    s.pathOf (r.idOf names) = .ok (if names.length ≤ maxDepth + 1 then Path.render names else []) :=
  (h.namedWay hsize (.inr hnames)).pathOf

/-- Of a path and the folders above it all lengths are machine words, if that of the path is. -/
theorem sized_with (hsize : Sized P) (hlength : (Path.render names).length < UInt64.size) : Sized (With P names) := by
  rintro other (hother | ⟨_, front, rfl⟩)
  · exact hsize other hother
  · rw [Path.render_append, List.length_append] at hlength
    omega

/-- The tree is that of a set of paths whose lengths are machine words. -/
def Grown (r : Naming) (s : Store) : Prop := ∃ P, ShowsTree r P s ∧ Sized P

theorem Grown.congr {s' : Store} (h : s.Grown r) (hsame : SameOutline s s') : s'.Grown r := by
  obtain ⟨P, htree, hsize⟩ := h
  exact ⟨P, htree.congr hsame.children hsame.pathEntries, hsize⟩

theorem grown_empty : (∅ : Store).Grown r := ⟨_, showsTree_empty, fun _ => False.elim⟩

end Store

open Store

/-! ### Adding a document -/

namespace Draft

variable {r : Naming} {P : List Bytes → Prop} {d : Draft} {doc : Document}

/-- A document is refused, and nothing changes, or its path is added with the folders above it. -/
theorem add_grows (h : ShowsTree r P d.store) (hdoc : doc.Named r) :
    (∃ e, add r.resolve doc d = .error e d) ∨
      ∃ names d', Path.parse doc.url = .ok names ∧ r.idOf names = doc.id ∧ add r.resolve doc d = .ok () d' ∧
        ShowsTree r (With P names) d'.store := by
  rcases add_cases r.resolve doc h.treeReadable with ⟨_, hfailed⟩ | ⟨_, _, p, s, hplace, hattach, _, _, hadd⟩
  · exact .inl hfailed
  · right
    rw [hdoc.id] at hplace
    obtain ⟨_, name, above, hparse, _⟩ := locate_spec hplace
    have hknown := hdoc.known _ hparse
    obtain ⟨s', hattach', htree⟩ := (h.attach hparse hknown hplace).2.2 d.store h
    rw [hattach, EStateM.Result.ok.injEq] at hattach'
    obtain ⟨_, rfl⟩ := hattach'
    have houtline := sameOutline_entered doc { d with store := s }
    refine ⟨name :: above, _, hparse, ?_, hadd, htree.congr houtline.children houtline.pathEntries⟩
    rw [Naming.idOf_cons, (Path.parse_spec hparse).2.2, hdoc.id]

theorem grown_add (h : d.store.Grown r) (hdoc : doc.Named r) : (leftBy (add r.resolve doc d)).store.Grown r := by
  obtain ⟨P, htree, hsize⟩ := h
  rcases add_grows htree hdoc with ⟨e, hadd⟩ | ⟨names, d', hparse, _, hadd, htree'⟩
  · rw [hadd]
    exact ⟨P, htree, hsize⟩
  · rw [hadd]
    refine ⟨_, htree', sized_with hsize ?_⟩
    rw [(Path.parse_spec hparse).2.2]
    exact hdoc.size

/-- A new document is accepted below a stored folder, or if no more folders are missing than are followed. -/
theorem add_of_room (h : ShowsTree r P d.store) (hdoc : doc.Named r) (hnew : d.store.hasDocument doc.id = false)
    {name : Bytes} {above : List Bytes} (hparse : Path.parse doc.url = .ok (name :: above)) {count : Nat}
    (hroom : count ≤ maxDepth) (hhung : above.drop count = [] ∨ P (above.drop count)) :
    ∃ d', add r.resolve doc d = .ok () d' ∧ ShowsTree r (With P (name :: above)) d'.store ∧
      ∀ id, d'.store.hasDocument id = (id = doc.id || d.store.hasDocument id) := by
  have hplace := h.exists_locate hparse (hdoc.known _ hparse) hroom hhung
  rw [← hdoc.id] at hplace
  obtain ⟨p, hplace⟩ := hplace
  rcases add_cases r.resolve doc h.treeReadable with ⟨hbad | hbad, _⟩ | ⟨_, _, _, s, _, _, _, hsame, hadd⟩
  · simp [hnew] at hbad
  · exact absurd hplace (hbad p)
  · have htimes := times_entered doc { d with store := s }
    rcases add_grows h hdoc with ⟨e, hadd'⟩ | ⟨names, d', hparse', _, hadd', htree⟩
    · simp [hadd] at hadd'
    · rw [hadd, EStateM.Result.ok.injEq] at hadd'
      obtain ⟨_, rfl⟩ := hadd'
      rw [hparse, Except.ok.injEq] at hparse'
      refine ⟨_, hadd, hparse' ▸ htree, fun id => ?_⟩
      have hsameTimes : s.times = d.store.times := by rw [hsame]
      rw [hasDocument_of_insert htimes]
      exact congrArg _ (hasDocument_congr hsameTimes id)

end Draft

/-! ### Runs of additions -/

/-- Adding documents keeps the tree that of a set of paths. -/
theorem invariant_grown (r : Naming) :
    Invariant r.resolve (onlyAdds r) (fun s => s.Grown r) fun d => d.store.Grown r where
  begun _ h := h
  changed d op h := by
    rintro ⟨doc, rfl, hdoc⟩
    exact Draft.grown_add h hdoc
  committed _ _ h hcommit := h.congr (Draft.sameButLists_commit hcommit).sameOutline

/-- Paths after a document was added: that of the document and those of ids that had an entry before. -/
theorem Draft.pathOf_of_add {r : Naming} {doc : Document} {d d' : Draft} (h : d.store.Grown r) (hdoc : doc.Named r)
    (hadd : Draft.add r.resolve doc d = .ok () d') :
    (∃ names, Path.parse doc.url = .ok names ∧
      d'.store.pathOf doc.id = .ok (if names.length ≤ maxDepth + 1 then doc.url else [])) ∧
      ∀ id, d.store.HasEntry id → d'.store.pathOf id = d.store.pathOf id := by
  obtain ⟨P, htree, hsize⟩ := h
  rcases add_grows htree hdoc with ⟨e, hadd'⟩ | ⟨names, _, hparse, hid, hadd', htree'⟩
  · simp [hadd] at hadd'
  · rw [hadd, EStateM.Result.ok.injEq] at hadd'
    obtain ⟨_, rfl⟩ := hadd'
    obtain ⟨hne, _, hrender⟩ := Path.parse_spec hparse
    have hsize' : Store.Sized (With P names) := by
      apply sized_with hsize
      rw [hrender]
      exact hdoc.size
    refine ⟨⟨names, hparse, ?_⟩, fun id hentry => ?_⟩
    · have hpath := htree'.pathOf hsize' ((with_self P names).resolve_left hne)
      rwa [hid, hrender] at hpath
    · obtain ⟨other, hother, rfl⟩ :=
        htree.entries.exists_of_hasPath ((hasPath_iff_hasEntry htree.treeReadable).mpr hentry)
      rw [htree.pathOf hsize hother, htree'.pathOf hsize' (.inl hother)]

/-- Documents are added to an empty index, in any number of transactions. A further one that is accepted is found under
the path that it was added with, if the path has no more names than the way back follows, and else under none. The paths
of the ids that had entries before are what they were. -/
theorem Session.pathOf_added (r : Naming) (events : List Event)
    (hobeys : ({ resolver := r.resolve } : Session).Obeys (onlyAdds r) events) (doc : Document) (hdoc : doc.Named r) :
    let s := ({ resolver := r.resolve } : Session).after events
    let added := s.handle (.write (.add doc))
    added.1 = .ok () →
      (∃ names, Path.parse doc.url = .ok names ∧
        added.2.current.store.pathOf doc.id = .ok (if names.length ≤ maxDepth + 1 then doc.url else [])) ∧
      ∀ id, s.current.store.HasEntry id → added.2.current.store.pathOf id = s.current.store.pathOf id := by
  intro s added hadded
  have hstart : Invariant.Holds (fun s => s.Grown r) (fun d => d.store.Grown r) ({ resolver := r.resolve } : Session) :=
    ⟨grown_empty, nofun⟩
  have hholds := (invariant_grown r).after hstart rfl hobeys
  obtain ⟨d, d', hd, hadd⟩ := exists_run_of_ok hadded
  have hbefore : s.current = .writing d := by simp only [current, hd]
  have hafter : added.2.current = .writing d' := by
    rw [show added = _ from handle_write_of_ok hd hadd]
    rfl
  have hresolver : s.resolver = r.resolve := after_resolver _ events
  rw [hresolver] at hadd
  rw [hafter, hbefore]
  exact Draft.pathOf_of_add (hholds.2 d hd) hdoc hadd

/-! ### A ladder of folders -/

/-- The names of a path in which each folder has the same name. -/
def rungs (depth : Nat) : List Bytes := List.replicate depth [0x61]

theorem length_render_rungs (depth : Nat) : (Path.render (rungs depth)).length = 2 * depth := by
  induction depth with
  | zero => rfl
  | succ depth ih =>
    rw [rungs, List.replicate_succ, Path.render, List.length_append, ← rungs, ih]
    simp only [List.length_cons, List.length_nil]
    omega

theorem toNat_length_rungs {depth : Nat} (h : depth ≤ 1000) :
    (UInt64.ofNat (Path.render (rungs depth)).length).toNat = 2 * depth := by
  rw [length_render_rungs]
  apply UInt64.toNat_ofNat_of_lt
  simp only [UInt64.size]
  omega

/-- The lengths of such paths tell them apart. -/
def Naming.ladder : Naming where
  resolve url := UInt64.ofNat url.length
  known names := ∃ depth ≤ 1000, names = rungs depth
  up := by
    rintro name above ⟨depth, hdepth, hnames⟩
    refine ⟨depth - 1, by omega, ?_⟩
    rw [rungs, ← List.tail_replicate, ← rungs, ← hnames, List.tail_cons]
  ne_zero := by
    rintro names ⟨depth, hdepth, rfl⟩ hne hzero
    have hlength := toNat_length_rungs hdepth
    rw [hzero, UInt64.toNat_zero] at hlength
    have hnone : depth = 0 := by omega
    exact hne (by rw [hnone]; rfl)
  injective := by
    rintro names names' ⟨depth, hdepth, rfl⟩ ⟨depth', hdepth', rfl⟩ _ _ hsame
    have hlength := toNat_length_rungs hdepth
    rw [hsame, toNat_length_rungs hdepth'] at hlength
    have heq : depth = depth' := by omega
    rw [heq]

/-- The document at a depth of the ladder. -/
def rung (depth : Nat) : Document :=
  { id := Naming.ladder.resolve (Path.render (rungs depth)), url := Path.render (rungs depth) }

theorem parse_rungs (depth : Nat) : Path.parse (Path.render (rungs (depth + 1))) = .ok ([0x61] :: rungs depth) := by
  refine Path.parse_render (List.cons_ne_nil _ _) fun name hname => ?_
  obtain rfl := List.eq_of_mem_replicate hname
  decide

theorem named_rung {depth : Nat} (h : depth < 1000) : (rung (depth + 1)).Named Naming.ladder where
  id := rfl
  known names hnames := by
    have hparse := parse_rungs depth
    rw [show Path.parse (Path.render (rungs (depth + 1))) = .ok names from hnames, Except.ok.injEq] at hparse
    exact ⟨depth + 1, h, hparse⟩
  size := by
    show (Path.render (rungs (depth + 1))).length < UInt64.size
    rw [length_render_rungs]
    simp only [UInt64.size]
    omega

theorem rungs_ne_nil (depth : Nat) : rungs (depth + 1) ≠ [] := List.cons_ne_nil _ _

theorem drop_rungs (depth : Nat) : (rungs depth).drop depth = [] := by
  rw [rungs, List.drop_replicate, Nat.sub_self, List.replicate_zero]

theorem rung_id_ne {depth : Nat} (h : depth + 1 < 1000) : (rung (depth + 2)).id ≠ (rung (depth + 1)).id := by
  intro hsame
  have hnames := Naming.ladder.injective ⟨depth + 2, by omega, rfl⟩ ⟨depth + 1, by omega, rfl⟩ (rungs_ne_nil _)
    (rungs_ne_nil _) hsame
  have hlength := congrArg List.length hnames
  rw [rungs, rungs, List.length_replicate, List.length_replicate] at hlength
  omega

/-- A rung is added where it has not been, if the one below it has or no more folders are missing than are followed. -/
theorem Session.add_rung {P : List Bytes → Prop} {s : Session} {d : Draft}
    (hresolver : s.resolver = Naming.ladder.resolve)
    (hd : s.draft = some d) (h : ShowsTree .ladder P d.store) (hsize : Sized P) {depth : Nat} (hdepth : depth < 1000)
    (hnew : d.store.hasDocument (rung (depth + 1)).id = false) (hroom : depth ≤ maxDepth ∨ P (rungs depth)) :
    ∃ d', s.handle (.write (.add (rung (depth + 1)))) = (.ok (), { s with draft := some d' }) ∧
      ShowsTree .ladder (With P (rungs (depth + 1))) d'.store ∧
      (∀ id, d'.store.hasDocument id = (id = (rung (depth + 1)).id || d.store.hasDocument id)) ∧
      d'.store.pathOf (rung (depth + 1)).id = .ok (if depth ≤ maxDepth then (rung (depth + 1)).url else []) := by
  have hparse := parse_rungs depth
  have hadded : ∃ d', Draft.add Naming.ladder.resolve (rung (depth + 1)) d = .ok () d' ∧
      ShowsTree .ladder (With P (rungs (depth + 1))) d'.store ∧
      ∀ id, d'.store.hasDocument id = (id = (rung (depth + 1)).id || d.store.hasDocument id) := by
    rcases hroom with hroom | hhung
    · exact Draft.add_of_room h (named_rung hdepth) hnew hparse hroom (.inl (drop_rungs depth))
    · exact Draft.add_of_room h (named_rung hdepth) hnew hparse (Nat.zero_le _) (.inr hhung)
  obtain ⟨d', hadd, htree, hdocuments⟩ := hadded
  obtain ⟨⟨names, hparse', hpath⟩, _⟩ := Draft.pathOf_of_add ⟨P, h, hsize⟩ (named_rung hdepth) hadd
  rw [show Path.parse (rung (depth + 1)).url = _ from hparse, Except.ok.injEq] at hparse'
  rw [← hparse', List.length_cons, rungs, List.length_replicate] at hpath
  simp only [Nat.succ_le_succ_iff] at hpath
  exact ⟨d', handle_write_of_ok hd (hresolver ▸ hadd), htree, hdocuments, hpath⟩

/-- The ladder is built up to the depth that comes back, and then one rung is added. -/
theorem Session.pathOf_added_too_deep :
    let start : Session := { resolver := Naming.ladder.resolve }
    let events : List Event := [.beginWrite, .write (.add (rung (maxDepth + 1)))]
    let s := start.after events
    let added := s.handle (.write (.add (rung (maxDepth + 2))))
    start.Obeys (onlyAdds .ladder) events ∧ (rung (maxDepth + 2)).Named .ladder ∧
      s.current.store.pathOf (rung (maxDepth + 1)).id = .ok (rung (maxDepth + 1)).url ∧ added.1 = .ok () ∧
      added.2.current.store.pathOf (rung (maxDepth + 2)).id = .ok [] ∧ (rung (maxDepth + 2)).url ≠ [] := by
  intro start events s added
  have hobeys : start.Obeys (onlyAdds .ladder) events := by
    refine ⟨fun op d hop => ?_, fun op d hop _ => ?_, trivial⟩
    · simp at hop
    · rw [Event.write.injEq] at hop
      exact ⟨rung (maxDepth + 1), hop.symm, named_rung (by decide)⟩
  let begun : Session := { start with draft := some { store := ∅ } }
  have hbegun : begun.draft = some { store := ∅ } := rfl
  have hbegins : (start.handle .beginWrite).2 = begun := rfl
  obtain ⟨d₁, hadd₁, htree₁, hdocuments₁, hpath₁⟩ := add_rung (s := begun) rfl hbegun showsTree_empty
    (fun _ => False.elim) (by decide : maxDepth < 1000) (hasDocument_empty _) (.inl (Nat.le_refl _))
  have hs : s = { begun with draft := some d₁ } := by
    show start.after events = _
    rw [after_cons, after_cons, after_nil, hbegins, hadd₁]
  have hnew : d₁.store.hasDocument (rung (maxDepth + 2)).id = false := by
    rw [hdocuments₁, Bool.or_eq_false_iff, decide_eq_false_iff_not]
    exact ⟨rung_id_ne (by decide), hasDocument_empty _⟩
  have hsize₁ : Sized (With (fun _ => False) (rungs (maxDepth + 1))) :=
    sized_with (fun _ => False.elim) (named_rung (by decide : maxDepth < 1000)).size
  have hhung := (with_self (fun _ => False) (rungs (maxDepth + 1))).resolve_left (rungs_ne_nil maxDepth)
  obtain ⟨d₂, hadd₂, _, _, hpath₂⟩ := add_rung (s := s) (by rw [hs]) (by rw [hs]) htree₁ hsize₁
    (by decide : maxDepth + 1 < 1000) hnew (.inr hhung)
  rw [if_pos (Nat.le_refl _)] at hpath₁
  rw [if_neg (Nat.not_succ_le_self _)] at hpath₂
  have hadded : added = (.ok (), { s with draft := some d₂ }) := hadd₂
  refine ⟨hobeys, named_rung (by decide : maxDepth + 1 < 1000), ?_, ?_, ?_, ?_⟩
  · rw [hs]
    exact hpath₁
  · rw [hadded]
  · rw [hadded]
    exact hpath₂
  · intro hnil
    have hlength := length_render_rungs (maxDepth + 2)
    rw [show Path.render (rungs (maxDepth + 2)) = [] from hnil] at hlength
    simp at hlength

/-- A document is added below one that was committed. -/
theorem Session.pathOf_added_below :
    let start : Session := { resolver := Naming.ladder.resolve }
    let events : List Event := [.beginWrite, .write (.add (rung 1)), .commit, .beginWrite]
    let s := start.after events
    let added := s.handle (.write (.add (rung 2)))
    start.Obeys (onlyAdds .ladder) events ∧ added.1 = .ok () ∧
      added.2.current.store.pathOf (rung 2).id = .ok [0x2F, 0x61, 0x2F, 0x61] ∧
      added.2.current.store.pathOf (rung 1).id = s.current.store.pathOf (rung 1).id := by
  intro start events s added
  have hobeys : start.Obeys (onlyAdds .ladder) events := by
    refine ⟨fun op d hop => ?_, fun op d hop _ => ?_, fun op d hop => ?_, fun op d hop => ?_, trivial⟩
    · simp at hop
    · rw [Event.write.injEq] at hop
      exact ⟨rung 1, hop.symm, named_rung (by decide)⟩
    · simp at hop
    · simp at hop
  have hadded : added.1 = .ok () := by decide +kernel
  have hfolder : s.current.store.HasEntry (rung 1).id := ⟨⟨0, [0x61]⟩, by decide +kernel⟩
  obtain ⟨⟨names, hparse, hpath⟩, hothers⟩ :=
    pathOf_added .ladder events hobeys (rung 2) (named_rung (by decide)) hadded
  rw [show Path.parse (rung 2).url = _ from parse_rungs 1, Except.ok.injEq] at hparse
  rw [← hparse] at hpath
  exact ⟨hobeys, hadded, hpath, hothers (rung 1).id hfolder⟩

end FileIndex
