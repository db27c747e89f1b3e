import FileIndex.Proofs.Agreement
import FileIndex.Proofs.Ledger.Paths
import FileIndex.Proofs.Tree.Subtree
import Mathlib.Data.List.Infix

/-!
# What changes do to a ledger

A draft holds a list of documents if each of its tables, with the queued changes carried out, is made of just these
documents. Each change of documents is then a change of the list.

* `Draft.Holds`: the draft holds the documents.
* `Holds.add`, `Holds.remove`, `Holds.replaceEverything`, `Holds.removeSubtree`: one change.
* `WriteOp.recorded`, `Holds.run`: a change that succeeds makes of the documents what it should, and one that fails
  leaves them.
-/

namespace FileIndex

open Store OccurrenceList

namespace Draft

/-- The draft is made of the documents, whatever has led there. -/
structure Holds (r : Naming) (docs : List Document) (d : Draft) : Prop where
  admitted : ∀ doc ∈ docs, doc.Admitted r
  distinct : docs.Pairwise (·.id ≠ ·.id)
  sound : d.Sound
  neat : ∀ t, Neat (d.listsOf t).2
  positions : ∀ t id position, HasPosition (d.listsOf t).2 id position ↔
    ∃ doc ∈ docs, doc.id = id ∧ ∃ field positions, (doc.terms field).find? t = some positions ∧ position ∈ positions
  occurrences : d.store.OccurrencesTidy
  holdable : d.Holdable
  records : d.store.Records docs
  tree : ShowsTree r (paths docs) d.store

theorem eq_of_distinct {docs : List Document} (h : docs.Pairwise (·.id ≠ ·.id)) {doc doc' : Document}
    (hdoc : doc ∈ docs) (hdoc' : doc' ∈ docs) (hid : doc.id = doc'.id) : doc = doc' := by
  have hnodup : (docs.map (·.id)).Nodup := List.pairwise_map.mpr h
  exact List.inj_on_of_nodup_map hnodup hdoc hdoc' hid

theorem distinct_cons_without {docs : List Document} (h : docs.Pairwise (·.id ≠ ·.id)) (doc : Document) :
    (doc :: without doc.id docs).Pairwise (·.id ≠ ·.id) :=
  List.pairwise_cons.mpr ⟨fun _ hother => (mem_without.mp hother).2.symm, h.filter _⟩

namespace Holds

variable {r : Naming} {docs : List Document} {d : Draft}

/-- Records do not matter that no document tells. -/
theorem of_records (h : Holds r docs d) {s : Store} (hsame : SameButRecords d.store s)
    (htimes : s.times = d.store.times)
    (hpayloads : s.payloads = d.store.payloads) (hmodified : s.modified = d.store.modified) :
    Holds r docs { d with store := s } := by
  have hlists : ∀ t, ({ d with store := s } : Draft).listsOf t = d.listsOf t :=
    listsOf_congr rfl (by rw [hsame]) (by rw [hsame])
  refine ⟨h.admitted, h.distinct, h.sound.of_records hsame htimes, fun t => ?_, fun t id position => ?_, ?_, h.holdable,
    h.records.congr htimes hpayloads (fun field => ?_) hmodified, h.tree.congr (by rw [hsame]) (by rw [hsame])⟩
  · rw [hlists]
    exact h.neat t
  · rw [hlists]
    exact h.positions t id position
  · exact OccurrencesTidy.congr (by rw [hsame]) h.occurrences
  · exact hsame.sameIndex.termTable field

theorem storable (h : Holds r docs d) : ∀ doc ∈ docs, ∀ field, Storable (doc.terms field).keys :=
  fun doc hdoc => (h.admitted doc hdoc).1.storable

theorem mem_termsOf_iff (h : Holds r docs d) {field : Field} {id : DocId} {t : Bytes} :
    t ∈ d.store.termsOf field id ↔ ∃ doc ∈ docs, doc.id = id ∧ t ∈ (doc.terms field).keys :=
  h.records.mem_termsOf_iff h.storable

theorem holdable_termsOf (h : Holds r docs d) {id : DocId} {field : Field} {t : Bytes}
    (ht : t ∈ d.store.termsOf field id) : Table.holdsKey t = true := by
  obtain ⟨doc, hdoc, _, hmem⟩ := h.mem_termsOf_iff.mp ht
  exact (h.admitted doc hdoc).1.terms field t hmem

theorem hasDocument_eq_false_iff (h : Holds r docs d) (id : DocId) :
    d.store.hasDocument id = false ↔ ∀ doc ∈ docs, doc.id ≠ id := by
  rw [← Bool.not_eq_true, h.records.hasDocument_iff]
  simp

theorem eq_of_id_eq (h : Holds r docs d) : ∀ doc ∈ docs, ∀ doc' ∈ docs, doc.id = doc'.id → doc = doc' :=
  fun _ hdoc _ hdoc' hid => eq_of_distinct h.distinct hdoc hdoc' hid

/-! ### Writing a document -/

/-- The old terms of a document were retracted, its fields were filled, and its rows were written. Fields that were not
filled have no terms, and the document is new then. -/
structure Writes (docs : List Document) (d : Draft) (doc : Document) (selected : Field → Bool) (dropped : List Bytes)
    (base d' : Draft) (time? : Option TimeInfo) : Prop where
  mem_dropped : ∀ t, t ∈ dropped ↔ d.store.HasTerm doc.id t
  unselected : ∀ field, selected field = false → (doc.terms field).keys = [] ∧ ∀ other ∈ docs, other.id ≠ doc.id
  basePending : base.pending = (d.enqueueRemovals doc.id dropped).pending
  baseIndex : SameIndex d.store base.store
  pending : d'.pending = (withFields doc selected Field.all base).pending
  index : SameIndex (withFields doc selected Field.all base).store d'.store
  time : d.store.timeOf? doc.id = .ok time?
  times : d'.store.times = d.store.times.insert (DocId.toKey doc.id) doc.time.encode
  payloads : ∀ key, d'.store.payloads.find? key =
    if key = DocId.toKey doc.id then stored? (fun bytes => bytes) doc.payload else d.store.payloads.find? key
  modified : d'.store.modified =
    (d.store.withoutModified doc.id time?).modified.insert (modifiedKey doc.time.modified doc.id) []

section Writes

variable {doc : Document} {selected : Field → Bool} {dropped : List Bytes} {base d' : Draft} {time? : Option TimeInfo}
  (h : Holds r docs d) (hdoc : doc.Admitted r) (w : Writes docs d doc selected dropped base d' time?)

include w

theorem Writes.listsOf_base (t : Bytes) : base.listsOf t = (d.enqueueRemovals doc.id dropped).listsOf t := by
  apply listsOf_congr w.basePending
  · rw [enqueueRemovals_store]
    exact w.baseIndex.postings
  · rw [enqueueRemovals_store]
    exact w.baseIndex.occurrences

theorem Writes.listsOf_eq (t : Bytes) : d'.listsOf t = (withFields doc selected Field.all base).listsOf t :=
  listsOf_congr w.pending w.index.postings w.index.occurrences t

theorem Writes.occurrences_eq : d'.store.occurrences = d.store.occurrences := by
  rw [w.index.occurrences, sameButTerms_withFields]
  exact w.baseIndex.occurrences

include h hdoc

theorem Writes.neat (t : Bytes) : Neat (d'.listsOf t).2 := by
  rw [w.listsOf_eq]
  refine lasting_neat.withFields (fun t => ?_) (fun field t positions hfind => ?_) t
  · rw [w.listsOf_base]
    exact lasting_neat.enqueueRemovals (h.neat t) dropped
  · exact ⟨hdoc.id_ne_zero, hdoc.1.built.ascending field t positions hfind⟩

omit hdoc in
/-- The positions are those of the document, and those that the others had. -/
theorem Writes.hasPosition_iff (t : Bytes) (id : DocId) (position : UInt32) :
    HasPosition (d'.listsOf t).2 id position ↔ ∃ other ∈ doc :: without doc.id docs, other.id = id ∧
      ∃ field positions, (other.terms field).find? t = some positions ∧ position ∈ positions := by
  rw [w.listsOf_eq, (tracked_position position).withFields, w.listsOf_base,
    (tracked_position position).enqueueRemovals h.sound.ascend, h.positions, List.exists_mem_cons_iff]
  refine or_congr ⟨?_, ?_⟩ ⟨?_, ?_⟩
  · rintro ⟨rfl, field, _, _, hplace⟩
    exact ⟨rfl, field, hplace⟩
  · rintro ⟨rfl, field, positions, hfind, hposition⟩
    refine ⟨rfl, field, Field.mem_all field, ?_, positions, hfind, hposition⟩
    by_contra hselected
    have hmem : t ∈ (doc.terms field).keys := mem_keys_iff.mpr ⟨positions, hfind⟩
    rw [(w.unselected field (by simpa using hselected)).1] at hmem
    cases hmem
  · rintro ⟨⟨other, hother, hsame, field, positions, hfind, hposition⟩, hkept⟩
    have hterm : other.id = doc.id → t ∈ dropped := fun hself =>
      (w.mem_dropped t).mpr ⟨field, h.mem_termsOf_iff.mpr ⟨other, hother, hself, mem_keys_iff.mpr ⟨positions, hfind⟩⟩⟩
    have hdiffers : other.id ≠ doc.id := fun hself => hkept ⟨hsame.symm.trans hself, hterm hself⟩
    exact ⟨other, mem_without.mpr ⟨hother, hdiffers⟩, hsame, field, positions, hfind, hposition⟩
  · rintro ⟨other, hother, hsame, hplace⟩
    obtain ⟨hmem, hdiffers⟩ := mem_without.mp hother
    exact ⟨⟨other, hmem, hsame, hplace⟩, fun hself => hdiffers (hsame.trans hself.1)⟩

theorem Writes.holdable : d'.Holdable := by
  have hbase : base.Holdable := by
    unfold Holdable
    rw [w.basePending]
    apply h.holdable.enqueueRemovals doc.id
    intro t ht
    obtain ⟨field, hterm⟩ := (w.mem_dropped t).mp ht
    exact h.holdable_termsOf hterm
  unfold Holdable
  rw [w.pending]
  exact hbase.withFields selected Field.all hdoc.1.terms

omit hdoc in
theorem Writes.records : d'.store.Records (doc :: without doc.id docs) := by
  refine h.records.written h.eq_of_id_eq w.time w.times w.payloads (fun field key => ?_) w.modified
  rw [w.index.termTable, find?_withFields, w.baseIndex.termTable]
  simp only [Field.mem_all, true_and]
  by_cases hselected : selected field = true
  · simp only [hselected, true_and]
  · obtain ⟨hempty, hnew⟩ := w.unselected field (by simpa using hselected)
    rw [if_neg fun hboth => hselected hboth.1]
    by_cases hkey : key = DocId.toKey doc.id
    · rw [if_pos hkey, hkey, (h.records.terms field).find?_eq_none hnew, hempty]
      rfl
    · rw [if_neg hkey]

/-- A document that is written takes the place of the one with its id. -/
theorem written (hsound : d'.Sound) (htree : ShowsTree r (paths (doc :: without doc.id docs)) d'.store) :
    Holds r (doc :: without doc.id docs) d' := by
  refine ⟨fun other hother => ?_, distinct_cons_without h.distinct doc, hsound, w.neat h hdoc, w.hasPosition_iff h,
    OccurrencesTidy.congr w.occurrences_eq h.occurrences, w.holdable h hdoc, w.records h, htree⟩
  rcases List.mem_cons.mp hother with rfl | hother
  · exact hdoc
  · exact h.admitted other (mem_without.mp hother).1

end Writes

/-! ### Adding -/

/-- A document whose id is new is added. -/
theorem add_of_new (h : Holds r docs d) {doc : Document} (hdoc : doc.Admitted r)
    (hnew : ∀ other ∈ docs, other.id ≠ doc.id) :
    ∃ d', Draft.add r.resolve doc d = .ok () d' ∧ Holds r (doc :: without doc.id docs) d' := by
  obtain ⟨name, above, hnames⟩ := List.exists_cons_of_ne_nil hdoc.names_ne_nil
  have hparse := hdoc.2
  have hknown := hdoc.known_names
  have hlength := hdoc.length_names_le
  rw [hnames] at hparse hknown hlength
  rw [List.length_cons] at hlength
  obtain ⟨p, hplace, _, _, hshown⟩ := h.tree.locate hparse hknown (by omega)
  rw [← hdoc.1.id_eq] at hplace
  have hfree := (h.hasDocument_eq_false_iff doc.id).mpr hnew
  rcases add_cases r.resolve doc h.sound.readable.tree with ⟨hbad | hbad, _⟩
    | ⟨_, _, p', s, hplace', hattach, _, hsame, hadd⟩
  · rw [hfree] at hbad
    cases hbad
  · exact absurd hplace (hbad p)
  · rw [hplace] at hplace'
    cases hplace'
    obtain ⟨s', hattach', htree⟩ := hshown d.store h.tree
    rw [hattach] at hattach'
    cases hattach'
    rw [← hnames] at htree
    have hsound := h.sound.add r.resolve hdoc.1.storable
    rw [hadd, leftBy_ok] at hsound
    refine ⟨_, hadd, ?_⟩
    let timed : Draft := { d with store := s.withTime doc.id doc.time }
    let selected : Field → Bool := fun field => !(doc.terms field).isEmpty
    have hrecords := sameButRecords_entered doc { d with store := s }
    have hframe := sameButTerms_withFields doc selected Field.all timed
    have hdropped : ∀ t, t ∈ ([] : List Bytes) ↔ d.store.HasTerm doc.id t := by
      refine fun t => ⟨fun ht => absurd ht List.not_mem_nil, ?_⟩
      rintro ⟨field, ht⟩
      obtain ⟨other, hother, hid, _⟩ := h.mem_termsOf_iff.mp ht
      exact absurd hid (hnew other hother)
    have hunselected : ∀ field, selected field = false →
        (doc.terms field).keys = [] ∧ ∀ other ∈ docs, other.id ≠ doc.id := by
      intro field hselected
      have hempty : (doc.terms field).entries = [] := by simpa [selected, ByteMap.isEmpty] using hselected
      refine ⟨?_, hnew⟩
      rw [ByteMap.keys, hempty]
      rfl
    have hindex : SameIndex d.store timed.store :=
      hsame.sameIndex.trans (sameButRecords_withTime s doc.id doc.time).sameIndex
    have htime : d.store.timeOf? doc.id = .ok none := by
      unfold timeOf?
      rw [h.records.times.find?_eq_none hnew]
    have hbase : timed.pending = (d.enqueueRemovals doc.id []).pending := rfl
    refine h.written hdoc ⟨hdropped, hunselected, hbase, hindex, pending_entered doc { d with store := s },
      hrecords.sameIndex, htime, ?_, fun key => ?_, ?_⟩ hsound ?_
    · rw [times_entered, show s.times = d.store.times by rw [hsame]]
    · rw [payloads_entered, show s.payloads = d.store.payloads by rw [hsame]]
      unfold stored?
      by_cases hempty : doc.payload.isEmpty = true
      · rw [if_pos hempty, if_pos hempty]
        by_cases hkey : key = DocId.toKey doc.id
        · rw [if_pos hkey, hkey, h.records.payloads.find?_eq_none hnew]
        · rw [if_neg hkey]
      · rw [if_neg hempty, if_neg hempty, ByteMap.find?_insert]
    · rw [modified_entered, show s.modified = d.store.modified by rw [hsame]]
      rfl
    · have hshown := htree.of_iff (with_paths h.admitted hdoc)
      refine hshown.congr ?_ ?_
      · rw [hrecords, hframe]
        rfl
      · rw [hrecords, hframe]
        rfl

/-- What became of the documents of a draft: what was asked for, or nothing if it failed. -/
def Leads (r : Naming) (docs docs' : List Document) : EStateM.Result Error Draft Unit → Prop
  | .ok _ d => Holds r docs' d
  | .error _ d => Holds r docs d

theorem add (h : Holds r docs d) {doc : Document} (hdoc : doc.Fit r) :
    Leads r docs (doc :: without doc.id docs) (Draft.add r.resolve doc d) := by
  rcases add_cases r.resolve doc h.sound.readable.tree with ⟨_, e, hadd⟩ | ⟨_, hfree, p, _, hplace, _, _, _, _⟩
  · rw [hadd]
    exact h
  · obtain ⟨_, _, _, hparse, _⟩ := locate_spec hplace
    obtain ⟨d', hadd, h'⟩ := h.add_of_new ⟨hdoc, Document.parse_of_ok hparse⟩
      ((h.hasDocument_eq_false_iff doc.id).mp hfree)
    rw [hadd]
    exact h'

/-! ### Replacing -/

/-- The path of a document is hung if it has no entry, and else left as it is: an id has only one path. -/
theorem showsTree_changePath {P : List Bytes → Prop} {s s' s'' : Store} (h : ShowsTree r P s)
    {url name : Bytes} {above : List Bytes} (hparse : Path.parse url = .ok (name :: above))
    (hknown : r.known (name :: above)) (hdepth : above.length ≤ maxDepth) {change : PathChange}
    (hplan : planPath s r.resolve (r.resolve url) url = .ok change)
    (hs' : ShowsTree r P s') (hchange : changePath (r.resolve url) change s' = .ok () s'') :
    ShowsTree r (With P (name :: above)) s'' := by
  obtain ⟨p, hplace, hparent, hname, hshown⟩ := h.locate hparse hknown hdepth
  obtain ⟨_, hvalid, hrender⟩ := Path.parse_spec hparse
  have hid : r.resolve url = r.idOf (name :: above) := by rw [Naming.idOf_cons, hrender]
  obtain ⟨p', hplace', hcases⟩ := planPath_spec hplan
  rw [hplace] at hplace'
  cases hplace'
  rcases hcases with ⟨_, rfl⟩ | ⟨e, hentry, rfl⟩
  · obtain ⟨s₁, hattach, htree⟩ := hshown s' hs'
    have hsame : attach p s' = .ok () s'' := hchange
    rw [hattach] at hsame
    cases hsame
    exact htree
  -- an id has only one path, so that the entry that is there is written again
  · rw [hid] at hentry
    have hhung := h.entries.of_pathEntryOf? h.folders.known hknown hentry
    obtain ⟨e', hentry', habove⟩ := h.entries.pathEntryOf? hhung hknown
    rw [hentry] at hentry'
    cases hentry'
    obtain ⟨e₁, hentry₁, habove₁⟩ := hs'.entries.pathEntryOf? hhung hknown
    rw [if_pos (habove.trans hparent.symm), hname, hid] at hchange
    have hrenamed : Store.rename (r.idOf (name :: above)) name s' = .ok () s'' := hchange
    rw [rename_eq (hvalid name List.mem_cons_self) hentry₁, habove₁] at hrenamed
    cases hrenamed
    have hsame : ∀ other, P other ∨ other = name :: above ↔ With P (name :: above) other := by
      intro other
      rw [← with_of_folders h.folders (.inr hhung)]
      refine ⟨?_, .inl⟩
      rintro (hother | rfl)
      · exact hother
      · exact hhung
    have hfolders := hs'.of_iff (with_of_folders h.folders (.inr hhung))
    exact ⟨hfolders.folders, (hs'.entries.setPathEntry h.folders.known hknown).of_iff hsame,
      hfolders.children.rows, hfolders.children.finite⟩

theorem replaceEverything (h : Holds r docs d) {doc : Document} (hdoc : doc.Fit r) :
    Leads r docs (doc :: without doc.id docs) (Draft.replace r.resolve doc .everything d) := by
  rcases replace_cases r.resolve doc .everything h.sound.readable with
    ⟨e, hreplace⟩ | ⟨_, s, time?, htime, _, hsame, hurl, _, hreplace⟩
  · rw [hreplace]
    exact h
  · obtain ⟨change, hplan, hchange⟩ := hurl rfl
    obtain ⟨p, hplace, _⟩ := planPath_spec hplan
    obtain ⟨_, name, above, hparse, _⟩ := locate_spec hplace
    have hadmitted : doc.Admitted r := ⟨hdoc, Document.parse_of_ok hparse⟩
    have hnames : doc.names = name :: above := Except.ok.inj (hadmitted.2.symm.trans hparse)
    have hlength := hdoc.depth _ hparse
    rw [List.length_cons] at hlength
    have hsound := h.sound.replace r.resolve hdoc.storable (.inr rfl : _ ∨ Parts.everything.time = true)
    rw [hreplace, leftBy_ok] at hsound
    have hframe := sameButTerms_refilled doc .everything d
    have hrecords := sameButRecords_rewritten s doc .everything time?
    have hselected : ∀ field, Parts.everything.terms field = true := by
      intro field
      cases field <;> rfl
    have hdropped : ∀ t, t ∈ droppedTerms d.store doc.id .everything ↔ d.store.HasTerm doc.id t := by
      intro t
      rw [mem_droppedTerms]
      simp [hselected]
    have hunselected : ∀ field, Parts.everything.terms field = false →
        (doc.terms field).keys = [] ∧ ∀ other ∈ docs, other.id ≠ doc.id := by
      intro field hfield
      rw [hselected] at hfield
      cases hfield
    have hbase : (d.enqueueRemovals doc.id (droppedTerms d.store doc.id .everything)).store = d.store :=
      enqueueRemovals_store ..
    have hbaseIndex : SameIndex d.store (d.enqueueRemovals doc.id (droppedTerms d.store doc.id .everything)).store := by
      rw [hbase]
      exact ⟨rfl, rfl, fun _ => rfl⟩
    have hrewritten : s.rewritten doc .everything time? =
        ((s.withoutModified doc.id time?).withTime doc.id doc.time).withPayload doc.id doc.payload := rfl
    rw [hreplace]
    refine h.written hadmitted ⟨hdropped, hunselected, rfl, hbaseIndex, rfl, hsame.sameIndex.trans hrecords.sameIndex,
      htime, ?_, fun key => ?_, ?_⟩ hsound ?_
    · show (s.rewritten doc .everything time?).times = _
      rw [times_rewritten, if_pos (show Parts.everything.time = true from rfl), hsame, hframe]
    · show (s.rewritten doc .everything time?).payloads.find? key = _
      rw [hrewritten, find?_withPayload]
      apply if_congr Iff.rfl rfl
      show (s.withoutModified doc.id time?).payloads.find? key = _
      rw [payloads_withoutModified, hsame, hframe]
    · show (s.rewritten doc .everything time?).modified = _
      rw [hrewritten, modified_withPayload]
      show (s.withoutModified doc.id time?).modified.insert _ _ = _
      rw [modified_withoutModified_congr (by rw [hsame, hframe] : s.modified = d.store.modified)]
    · have hrefilled : ShowsTree r (paths docs) (refilled doc .everything d).store :=
        h.tree.congr (by rw [hframe]) (by rw [hframe])
      rw [hdoc.id_eq] at hplan hchange
      have hshown := showsTree_changePath h.tree hparse (hdoc.known _ hparse) (by omega) hplan hrefilled hchange
      rw [← hnames] at hshown
      exact (hshown.of_iff (with_paths h.admitted hadmitted)).congr (by rw [hrecords]) (by rw [hrecords])

/-! ### Removing -/

theorem remove_of_ne_zero (h : Holds r docs d) {id : DocId} (hid : id ≠ 0) :
    ∃ d', Draft.remove id d = .ok () d' ∧ Holds r (without id docs) d' := by
  obtain ⟨b, s, time?, htime, hunlink, _, hsame, hremove⟩ := remove_eq hid h.sound.readable
  have hframe := sameButTerms_withoutFields id Field.all d
  have hrecords := sameButRecords_withoutRecords s id time?
  have hindex := hsame.sameIndex.trans hrecords.sameIndex
  have hcleared : ShowsTree r (paths docs) (withoutFields id Field.all d).store :=
    h.tree.congr (by rw [hframe]) (by rw [hframe])
  have hprune : ∀ folder, (!d.store.hasDocument folder) = true ↔ ∀ doc ∈ docs, doc.id ≠ folder := by
    intro folder
    rw [Bool.not_eq_true', h.hasDocument_eq_false_iff]
  obtain ⟨b', s', hunlink', htree⟩ := hcleared.unlinkDocument h.admitted hprune id
  rw [hunlink] at hunlink'
  cases hunlink'
  have hsound := h.sound.remove id
  rw [hremove, leftBy_ok] at hsound
  have hlists : ∀ t, ({ withoutFields id Field.all d with store := s.withoutRecords id time? } : Draft).listsOf t =
      (withoutFields id Field.all d).listsOf t := listsOf_congr rfl hindex.postings hindex.occurrences
  refine ⟨_, hremove, fun doc hdoc => h.admitted doc (mem_without.mp hdoc).1, h.distinct.filter _, hsound, fun t => ?_,
    fun t other position => ?_, ?_, ?_, ?_, ?_⟩
  · rw [hlists]
    exact lasting_neat.withoutFields h.neat id Field.all t
  · rw [hlists, (tracked_position position).withoutFields Field.nodup_all h.sound.ascend, h.positions]
    simp only [Field.mem_all, true_and]
    constructor
    · rintro ⟨⟨doc, hdoc, rfl, field, positions, hfind, hposition⟩, hkept⟩
      refine ⟨doc, mem_without.mpr ⟨hdoc, fun hself => hkept ⟨hself, field, ?_⟩⟩, rfl, field, positions,
        hfind, hposition⟩
      exact h.mem_termsOf_iff.mpr ⟨doc, hdoc, hself, mem_keys_iff.mpr ⟨positions, hfind⟩⟩
    · rintro ⟨doc, hdoc, rfl, hplace⟩
      obtain ⟨hmem, hdiffers⟩ := mem_without.mp hdoc
      exact ⟨⟨doc, hmem, rfl, hplace⟩, fun hself => hdiffers hself.1⟩
  · refine OccurrencesTidy.congr ?_ h.occurrences
    rw [hindex.occurrences, hframe]
  · have hholdable : (withoutFields id Field.all d).Holdable :=
      h.holdable.withoutFields Field.all fun field t ht => h.holdable_termsOf ht
    exact hholdable
  · refine h.records.removed h.eq_of_id_eq htime ?_ ?_ (fun field key => ?_) ?_
    · show (s.withoutRecords id time?).times = _
      rw [times_withoutRecords, hsame, hframe]
    · show (s.withoutRecords id time?).payloads = _
      rw [payloads_withoutRecords, hsame, hframe]
    · rw [hindex.termTable, find?_withoutFields]
      simp only [Field.mem_all, true_and]
    · show (s.withoutRecords id time?).modified = _
      rw [modified_withoutRecords]
      exact modified_withoutModified_congr (by rw [hsame, hframe]) id time?
  · exact htree.congr (by rw [hrecords]) (by rw [hrecords])

theorem remove (h : Holds r docs d) (id : DocId) : Leads r docs (without id docs) (Draft.remove id d) := by
  by_cases hid : id = 0
  · rw [hid, remove_zero]
    exact h
  · obtain ⟨d', hremove, h'⟩ := h.remove_of_ne_zero hid
    rw [hremove]
    exact h'

theorem forM_remove (h : Holds r docs d) {ids : List DocId} (hids : 0 ∉ ids) :
    ∃ d', ids.forM Draft.remove d = .ok () d' ∧ Holds r (docs.filter (·.id ∉ ids)) d' := by
  induction ids generalizing docs d with
  | nil =>
    refine ⟨d, rfl, ?_⟩
    simpa using h
  | cons id ids ih =>
    rw [List.mem_cons, not_or] at hids
    obtain ⟨d₁, hremove, h₁⟩ := h.remove_of_ne_zero (Ne.symm hids.1)
    obtain ⟨d', hrest, h'⟩ := ih h₁ hids.2
    refine ⟨d', ?_, ?_⟩
    · show (Draft.remove id >>= fun _ => ids.forM Draft.remove) d = _
      rw [bind_of_ok hremove]
      exact hrest
    · have hsame : (without id docs).filter (·.id ∉ ids) = docs.filter (·.id ∉ id :: ids) := by
        unfold without
        rw [List.filter_filter]
        apply List.filter_congr
        intro doc _
        simp only [List.mem_cons, not_or]
        grind
      exact hsame ▸ h'

end Holds

/-- Whether the id is that of the document or of a folder above it. -/
def isBeneath (r : Naming) (id : DocId) (doc : Document) : Bool :=
  doc.names.tails.any fun top => !top.isEmpty && r.idOf top == id

theorem isBeneath_iff {r : Naming} {id : DocId} {doc : Document} :
    isBeneath r id doc = true ↔ ∃ top, top ≠ [] ∧ top <:+ doc.names ∧ r.idOf top = id := by
  unfold isBeneath
  simp only [List.any_eq_true, List.mem_tails, Bool.and_eq_true, Bool.not_eq_true', List.isEmpty_eq_false_iff,
    beq_iff_eq]
  grind

namespace Holds

variable {r : Naming} {docs : List Document} {d : Draft}

theorem removeSubtree (h : Holds r docs d) (id : DocId) :
    Leads r docs (docs.filter fun doc => !isBeneath r id doc) (Draft.removeSubtree id d) := by
  by_cases hid : id = 0
  · have hremove : Draft.removeSubtree id d = .error .zeroId d := by
      unfold Draft.removeSubtree
      rw [hid]
      exact bind_of_error (requireId_zero d)
    rw [hremove]
    exact h
  · obtain ⟨out, hout, hzero, hbeneath⟩ := h.tree.subtree (fun _ => length_le_of_paths h.admitted) hid
    have hreverse : 0 ∉ out.reverse := by simpa using hzero
    obtain ⟨d', hrest, h'⟩ := h.forM_remove hreverse
    have hremove : Draft.removeSubtree id d = .ok () d' := by
      unfold Draft.removeSubtree
      rw [bind_of_ok (requireId_eq hid d), bind_of_ok (look_of_ok hout)]
      exact hrest
    rw [hremove]
    have hsame : docs.filter (·.id ∉ out.reverse) = docs.filter fun doc => !isBeneath r id doc := by
      apply List.filter_congr
      intro doc hdoc
      have hadmitted := h.admitted doc hdoc
      have hiff := hbeneath doc.names (paths_names hadmitted hdoc)
      rw [← hadmitted.id_eq_idOf, ← isBeneath_iff] at hiff
      simp only [List.mem_reverse, hiff, Bool.not_eq_true]
      grind
    exact hsame ▸ h'

end Holds
end Draft

/-! ### Every change -/

/-- A change of whole documents: what is written is fit, and only everything is replaced. -/
def WriteOp.Fit (r : Naming) : WriteOp → Prop
  | .add doc => doc.Fit r
  | .replace doc parts => doc.Fit r ∧ parts = .everything
  | .rename _ => False
  | _ => True

/-- What a change makes of the documents if it succeeds. -/
def WriteOp.recorded (r : Naming) (docs : List Document) : WriteOp → List Document
  | .add doc | .replace doc _ | .rename doc => doc :: without doc.id docs
  | .remove id => without id docs
  | .removeSubtree id => docs.filter fun doc => !Draft.isBeneath r id doc
  | _ => docs

namespace Draft

theorem Holds.run {r : Naming} {docs : List Document} {d : Draft} (h : Holds r docs d) {op : WriteOp}
    (hop : op.Fit r) : Holds.Leads r docs (op.recorded r docs) (run r.resolve op d) := by
  have hmark : Marks op → Holds.Leads r docs docs (Draft.run r.resolve op d) := by
    intro hmarks
    rcases mark_cases hmarks r.resolve d with ⟨e, hrun⟩ | ⟨s, hsame, hrun⟩
    · rw [hrun]
      exact h
    · rw [hrun]
      exact h.of_records hsame.sameButRecords (by rw [hsame]) (by rw [hsame]) (by rw [hsame])
  cases op with
  | add doc => exact h.add hop
  | remove id => exact h.remove id
  | removeSubtree id => exact h.removeSubtree id
  | replace doc parts =>
    obtain ⟨hdoc, rfl⟩ := hop
    exact h.replaceEverything hdoc
  | rename doc => exact hop.elim
  | addPending | removePending | addFailed | removeFailed => exact hmark trivial

end Draft
end FileIndex
