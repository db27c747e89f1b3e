import FileIndex.Proofs.Draft.Terms
import FileIndex.Proofs.Tree.Edits

/-!
# What the changes of documents do

Each change of a document either is refused before anything has changed, or goes through all of its steps. In a store
that can be read, what it then leaves is written down without its steps.

* `Store.Readable`: the tree of paths and the times can be read.
* `add_cases`: adding is refused, or hangs the path and enters the document, `entered`.
* `remove_eq`: removing takes the terms away, unlinks the path and erases the records, `Store.withoutRecords`.
* `replace_cases`: replacing is refused, or retracts what only overwritten fields have, fills these, changes the path
  and rewrites the records, `Store.rewritten`.
* `mark_cases`: noting what is pending or has failed touches nothing else.
-/

namespace FileIndex

namespace Store

/-- The tree of paths and all times can be read. -/
structure Readable (s : Store) : Prop where
  tree : s.TreeReadable
  times : ∀ id, ∃ time, s.timeOf? id = .ok time

/-- The store in which the document has these times. -/
def withTime (s : Store) (id : DocId) (time : TimeInfo) : Store :=
  { s with
    times := s.times.insert (DocId.toKey id) time.encode
    modified := s.modified.insert (modifiedKey time.modified id) [] }

/-- The store in which the document has this payload, or none if it is empty. -/
def withPayload (s : Store) (id : DocId) (payload : Bytes) : Store :=
  if payload.isEmpty then s.erasePayload id
  else { s with payloads := s.payloads.insert (DocId.toKey id) payload }

/-- The store in which the modification time of a document is not entered. -/
def withoutModified (s : Store) (id : DocId) : Option TimeInfo → Store
  | none => s
  | some time => s.removeModified time.modified id

/-- The store without the records of a document, of which only terms and path are left. -/
def withoutRecords (s : Store) (id : DocId) (time? : Option TimeInfo) : Store :=
  (({ s with
      contentPending := IdTable.remove s.contentPending id
      failed := IdTable.remove s.failed id }.withoutModified id time?).eraseTime id).erasePayload id

/-- The store with the records of a document rewritten as far as the parts ask for it. -/
def rewritten (s : Store) (doc : Document) (parts : Parts) (time? : Option TimeInfo) : Store :=
  let s := if parts.time then (s.withoutModified doc.id time?).withTime doc.id doc.time else s
  if parts.payload then s.withPayload doc.id doc.payload else s

/-- Nothing but the records of documents differs. -/
def SameButRecords (s s' : Store) : Prop :=
  s' = { s with
    times := s'.times, payloads := s'.payloads, contentPending := s'.contentPending, failed := s'.failed
    modified := s'.modified }

/-- Nothing but what is known to be pending or to have failed differs. -/
def SameButMarks (s s' : Store) : Prop := s' = { s with contentPending := s'.contentPending, failed := s'.failed }

theorem SameButMarks.sameButRecords {s s' : Store} (h : SameButMarks s s') : SameButRecords s s' := by
  unfold SameButRecords
  rw [h]

theorem SameButRecords.trans {s s' s'' : Store} (h : SameButRecords s s') (h' : SameButRecords s' s'') :
    SameButRecords s s'' := by
  unfold SameButRecords at *
  rw [h', h]

theorem sameButRecords_withTime (s : Store) (id : DocId) (time : TimeInfo) :
    SameButRecords s (s.withTime id time) := rfl

theorem sameButRecords_withPayload (s : Store) (id : DocId) (payload : Bytes) :
    SameButRecords s (s.withPayload id payload) := by
  unfold withPayload
  split <;> rfl

theorem sameButRecords_withoutModified (s : Store) (id : DocId) (time? : Option TimeInfo) :
    SameButRecords s (s.withoutModified id time?) := by
  cases time? <;> rfl

theorem sameButRecords_withoutRecords (s : Store) (id : DocId) (time? : Option TimeInfo) :
    SameButRecords s (s.withoutRecords id time?) := by
  cases time? <;> rfl

theorem sameButRecords_rewritten (s : Store) (doc : Document) (parts : Parts) (time? : Option TimeInfo) :
    SameButRecords s (s.rewritten doc parts time?) := by
  have htime : SameButRecords s
      (if parts.time then (s.withoutModified doc.id time?).withTime doc.id doc.time else s) := by
    split
    · exact (sameButRecords_withoutModified s doc.id time?).trans (sameButRecords_withTime ..)
    · rfl
  unfold rewritten
  simp only
  split
  · exact htime.trans (sameButRecords_withPayload ..)
  · exact htime

@[simp] theorem times_withPayload (s : Store) (id : DocId) (payload : Bytes) :
    (s.withPayload id payload).times = s.times := by
  unfold withPayload
  split <;> rfl

@[simp] theorem times_withoutModified (s : Store) (id : DocId) (time? : Option TimeInfo) :
    (s.withoutModified id time?).times = s.times := by
  cases time? <;> rfl

theorem find?_withPayload (s : Store) (id : DocId) (payload key : Bytes) :
    (s.withPayload id payload).payloads.find? key =
      if key = DocId.toKey id then stored? (fun bytes => bytes) payload else s.payloads.find? key := by
  unfold withPayload stored?
  split
  · exact ByteMap.find?_erase ..
  · exact ByteMap.find?_insert ..

@[simp] theorem modified_withPayload (s : Store) (id : DocId) (payload : Bytes) :
    (s.withPayload id payload).modified = s.modified := by
  unfold withPayload
  split <;> rfl

@[simp] theorem payloads_withoutModified (s : Store) (id : DocId) (time? : Option TimeInfo) :
    (s.withoutModified id time?).payloads = s.payloads := by
  cases time? <;> rfl

theorem modified_withoutModified_congr {s s' : Store} (h : s'.modified = s.modified) (id : DocId)
    (time? : Option TimeInfo) : (s'.withoutModified id time?).modified = (s.withoutModified id time?).modified := by
  cases time? with
  | none => exact h
  | some time =>
    unfold withoutModified removeModified
    rw [h]

theorem payloads_withoutRecords (s : Store) (id : DocId) (time? : Option TimeInfo) :
    (s.withoutRecords id time?).payloads = s.payloads.erase (DocId.toKey id) := by
  cases time? <;> rfl

theorem contentPending_withoutRecords (s : Store) (id : DocId) (time? : Option TimeInfo) :
    (s.withoutRecords id time?).contentPending = s.contentPending.erase (DocId.toKey id) := by
  cases time? <;> rfl

theorem failed_withoutRecords (s : Store) (id : DocId) (time? : Option TimeInfo) :
    (s.withoutRecords id time?).failed = s.failed.erase (DocId.toKey id) := by
  cases time? <;> rfl

theorem modified_withoutRecords (s : Store) (id : DocId) (time? : Option TimeInfo) :
    (s.withoutRecords id time?).modified = (s.withoutModified id time?).modified := by
  cases time? <;> rfl

theorem times_withoutRecords (s : Store) (id : DocId) (time? : Option TimeInfo) :
    (s.withoutRecords id time?).times = s.times.erase (DocId.toKey id) := by
  cases time? <;> rfl

theorem times_rewritten (s : Store) (doc : Document) (parts : Parts) (time? : Option TimeInfo) :
    (s.rewritten doc parts time?).times =
      if parts.time then s.times.insert (DocId.toKey doc.id) doc.time.encode else s.times := by
  unfold rewritten
  cases parts.time <;> cases parts.payload <;> simp [withTime]

theorem timeOf?_congr {s s' : Store} (h : s'.times = s.times) (id : DocId) : s'.timeOf? id = s.timeOf? id := by
  unfold timeOf?
  rw [h]

theorem hasDocument_congr {s s' : Store} (h : s'.times = s.times) (id : DocId) :
    s'.hasDocument id = s.hasDocument id := by
  unfold hasDocument
  rw [h]

/-- Times that are written can be read. -/
theorem timeOf?_of_insert {s s' : Store} {id : DocId} {time : TimeInfo}
    (h : s'.times = s.times.insert (DocId.toKey id) time.encode) (other : DocId) :
    s'.timeOf? other = if other = id then .ok (some time) else s.timeOf? other := by
  unfold timeOf?
  rw [h]
  simp only [ByteMap.find?_insert, DocId.toKey_inj]
  by_cases hother : other = id
  · simp [hother, TimeInfo.decode_encode, Malformed.orFail, bind, Except.bind, pure, Except.pure]
  · simp [hother]

theorem timeOf?_of_erase {s s' : Store} {id : DocId} (h : s'.times = s.times.erase (DocId.toKey id)) (other : DocId) :
    s'.timeOf? other = if other = id then .ok none else s.timeOf? other := by
  unfold timeOf?
  rw [h]
  simp only [ByteMap.find?_erase, DocId.toKey_inj]
  by_cases hother : other = id
  · simp [hother]
  · simp [hother]

theorem hasDocument_of_insert {s s' : Store} {id : DocId} {value : Bytes}
    (h : s'.times = s.times.insert (DocId.toKey id) value) (other : DocId) :
    s'.hasDocument other = (other = id || s.hasDocument other) := by
  unfold hasDocument ByteMap.contains
  rw [h]
  simp only [ByteMap.find?_insert, DocId.toKey_inj]
  by_cases hother : other = id
  · simp [hother]
  · simp [hother]

theorem hasDocument_of_erase {s s' : Store} {id : DocId} (h : s'.times = s.times.erase (DocId.toKey id))
    (other : DocId) :
    s'.hasDocument other = (other ≠ id && s.hasDocument other) := by
  unfold hasDocument ByteMap.contains
  rw [h]
  simp only [ByteMap.find?_erase, DocId.toKey_inj]
  by_cases hother : other = id
  · simp [hother]
  · simp [hother]

theorem TreeReadable.congr {s s' : Store} (hs : s.TreeReadable) (hchildren : s'.children = s.children)
    (hentries : s'.pathEntries = s.pathEntries) : s'.TreeReadable := by
  constructor
  · intro id
    have hsame : s'.childrenOf id = s.childrenOf id := by
      unfold childrenOf
      rw [hchildren]
    exact hsame ▸ hs.children id
  · intro id
    have hsame : s'.pathEntryOf? id = s.pathEntryOf? id := by
      unfold pathEntryOf?
      rw [hentries]
    exact hsame ▸ hs.entries id

theorem SameButTerms.treeReadable {s s' : Store} (h : SameButTerms s s') (hs : s.TreeReadable) : s'.TreeReadable :=
  hs.congr (by rw [h]) (by rw [h])

theorem SameButRecords.treeReadable {s s' : Store} (h : SameButRecords s s') (hs : s.TreeReadable) :
    s'.TreeReadable :=
  hs.congr (by rw [h]) (by rw [h])

end Store

namespace Draft

open Store

theorem requireId_eq {id : DocId} (hid : id ≠ 0) (d : Draft) : requireId id d = .ok () d := by
  unfold requireId
  rw [if_neg hid]
  rfl

theorem requireId_zero (d : Draft) : requireId 0 d = .error .zeroId d := rfl

theorem edit_of_ok {α : Type} {change : Edit α} {d : Draft} {a : α} {s : Store} (h : change d.store = .ok a s) :
    edit change d = .ok a { d with store := s } := by
  unfold edit
  rw [h]

theorem edit_of_error {α : Type} {change : Edit α} {d : Draft} {e : Error} {s : Store}
    (h : change d.store = .error e s) : edit change d = .error e { d with store := s } := by
  unfold edit
  rw [h]

theorem look_of_ok {α : Type} {f : Store → Except Error α} {d : Draft} {a : α} (h : f d.store = .ok a) :
    look f d = .ok a d := edit_of_ok (Edit.read_of_ok h)

theorem look_of_error {α : Type} {f : Store → Except Error α} {d : Draft} {e : Error} (h : f d.store = .error e) :
    look f d = .error e d := edit_of_error (Edit.read_of_error h)

theorem putTime_eq {id : DocId} (hid : id ≠ 0) (s : Store) (time : TimeInfo) :
    s.putTime id time = .ok { s with times := s.times.insert (DocId.toKey id) time.encode } := if_neg hid

theorem addModified_eq {id : DocId} (hid : id ≠ 0) (s : Store) (time : UInt64) :
    s.addModified time id = .ok { s with modified := s.modified.insert (modifiedKey time id) [] } := if_neg hid

theorem putPayload_eq {id : DocId} (hid : id ≠ 0) (s : Store) (payload : Bytes) :
    s.putPayload id payload = .ok (s.withPayload id payload) := by
  unfold putPayload withPayload
  rw [if_neg hid]
  split <;> rfl

/-! ### Adding -/

/-- The draft with everything of a document but its path. -/
def entered (doc : Document) (d : Draft) : Draft :=
  let d := withFields doc (fun field => !(doc.terms field).isEmpty) Field.all
    { d with store := d.store.withTime doc.id doc.time }
  let s := if doc.contentPending then
    { d.store with contentPending := d.store.contentPending.insert (DocId.toKey doc.id) [] } else d.store
  { d with store := if doc.payload.isEmpty then s else s.withPayload doc.id doc.payload }

theorem sameButRecords_entered (doc : Document) (d : Draft) :
    SameButRecords (withFields doc (fun field => !(doc.terms field).isEmpty) Field.all
      { d with store := d.store.withTime doc.id doc.time }).store (entered doc d).store := by
  unfold entered
  cases doc.contentPending <;> cases doc.payload.isEmpty <;> first | rfl | exact sameButRecords_withPayload ..

theorem pending_entered (doc : Document) (d : Draft) :
    (entered doc d).pending = (withFields doc (fun field => !(doc.terms field).isEmpty) Field.all
      { d with store := d.store.withTime doc.id doc.time }).pending := rfl

theorem times_entered (doc : Document) (d : Draft) :
    (entered doc d).store.times = d.store.times.insert (DocId.toKey doc.id) doc.time.encode := by
  have hterms := sameButTerms_withFields doc (fun field => !(doc.terms field).isEmpty) Field.all
    { d with store := d.store.withTime doc.id doc.time }
  unfold entered
  cases doc.contentPending <;> cases doc.payload.isEmpty <;>
    simp only [Bool.false_eq_true, if_false, if_true, times_withPayload] <;> rw [hterms] <;> rfl

theorem payloads_entered (doc : Document) (d : Draft) :
    (entered doc d).store.payloads =
      if doc.payload.isEmpty then d.store.payloads else d.store.payloads.insert (DocId.toKey doc.id) doc.payload := by
  have hterms := sameButTerms_withFields doc (fun field => !(doc.terms field).isEmpty) Field.all
    { d with store := d.store.withTime doc.id doc.time }
  unfold entered withPayload
  cases doc.contentPending <;> cases doc.payload.isEmpty <;>
    simp only [Bool.false_eq_true, if_false, if_true] <;> rw [hterms] <;> rfl

theorem modified_entered (doc : Document) (d : Draft) :
    (entered doc d).store.modified = d.store.modified.insert (modifiedKey doc.time.modified doc.id) [] := by
  have hterms := sameButTerms_withFields doc (fun field => !(doc.terms field).isEmpty) Field.all
    { d with store := d.store.withTime doc.id doc.time }
  unfold entered
  cases doc.contentPending <;> cases doc.payload.isEmpty <;>
    simp only [Bool.false_eq_true, if_false, if_true, modified_withPayload] <;> rw [hterms] <;> rfl

/-- The steps of adding that follow the path. -/
def enter (doc : Document) : Write Unit := do
  update (·.putTime doc.id doc.time)
  update (·.addModified doc.time.modified doc.id)
  Field.all.forM fun field =>
    if (doc.terms field).isEmpty then return else putField doc field
  if doc.contentPending then
    update fun s => return { s with contentPending := ← IdTable.add s.contentPending doc.id }
  if !doc.payload.isEmpty then update (·.putPayload doc.id doc.payload)

theorem enter_eq {doc : Document} (hid : doc.id ≠ 0) (d : Draft) : enter doc d = .ok () (entered doc d) := by
  have hfields : ∀ field d, (if (doc.terms field).isEmpty then pure () else putField doc field : Write Unit) d =
      .ok () (if (!(doc.terms field).isEmpty) = true then withField doc d field else d) := by
    intro field d
    cases (doc.terms field).isEmpty with
    | true => rfl
    | false => exact putField_eq hid field d
  unfold enter
  rw [bind_of_ok (update_of_ok (putTime_eq hid d.store doc.time)), bind_of_ok (update_of_ok (addModified_eq hid _ _)),
    bind_of_ok (forM_eq_foldl hfields _ _)]
  have hpayload : ∀ d : Draft, (if (!doc.payload.isEmpty) = true then update (·.putPayload doc.id doc.payload)
      else pure () : Write Unit) d =
        .ok () { d with store := if doc.payload.isEmpty then d.store else d.store.withPayload doc.id doc.payload } := by
    intro d
    cases doc.payload.isEmpty with
    | true => rfl
    | false => exact update_of_ok (putPayload_eq hid d.store doc.payload)
  cases hpending : doc.contentPending with
  | false =>
    simp only [Bool.false_eq_true, if_false]
    rw [hpayload]
    simp only [entered, hpending, Bool.false_eq_true, if_false]
    rfl
  | true =>
    simp only [if_true]
    have hadd : ∀ s : Store, IdTable.add s.contentPending doc.id =
      .ok (s.contentPending.insert (DocId.toKey doc.id) []) :=
      fun s => if_neg hid
    have hupdate : ∀ d : Draft,
      update (fun s => return { s with contentPending := ← IdTable.add s.contentPending doc.id }) d =
        .ok () { d with store :=
          { d.store with contentPending := d.store.contentPending.insert (DocId.toKey doc.id) [] } } := by
      intro d
      apply update_of_ok
      simp only [hadd]
      rfl
    rw [bind_of_ok (hupdate _), hpayload]
    simp only [entered, hpending, if_true]
    rfl

theorem add_zero {resolver : Resolver} {doc : Document} (hid : doc.id = 0) (d : Draft) :
    add resolver doc d = .error .zeroId d := by
  unfold add
  rw [hid]
  exact bind_of_error (requireId_zero d)

theorem add_of_hasDocument {resolver : Resolver} {doc : Document} {d : Draft} (hid : doc.id ≠ 0)
    (hdoc : d.store.hasDocument doc.id = true) : add resolver doc d = .error (.documentExists doc.id) d := by
  have hget : (get : Write Draft) d = .ok d d := rfl
  unfold add
  rw [bind_of_ok (requireId_eq hid d), bind_of_ok hget]
  simp only [hdoc, if_true]
  rfl

/-- A new document gets its path first. -/
theorem add_of_absent {resolver : Resolver} {doc : Document} {d : Draft} (hid : doc.id ≠ 0)
    (hdoc : d.store.hasDocument doc.id = false) :
    add resolver doc d = (edit (putPath resolver doc.id doc.url) >>= fun hung =>
      if (!hung) = true then ((throw (.unresolvedParent doc.url) : Write Unit) >>= fun _ => enter doc)
      else enter doc) d := by
  have hget : (get : Write Draft) d = .ok d d := rfl
  unfold add enter
  rw [bind_of_ok (requireId_eq hid d), bind_of_ok hget]
  simp only [hdoc, Bool.false_eq_true, if_false]

theorem add_of_locate_error {resolver : Resolver} {doc : Document} {d : Draft} (hid : doc.id ≠ 0)
    (hdoc : d.store.hasDocument doc.id = false) {e : Error}
    (hplace : d.store.locate resolver doc.id doc.url = .error e) :
    add resolver doc d = .error e d := by
  rw [add_of_absent hid hdoc]
  exact bind_of_error (edit_of_error (putPath_of_locate_error hplace))

theorem add_of_locate_none {resolver : Resolver} {doc : Document} {d : Draft} (hid : doc.id ≠ 0)
    (hdoc : d.store.hasDocument doc.id = false) (hplace : d.store.locate resolver doc.id doc.url = .ok none) :
    add resolver doc d = .error (.unresolvedParent doc.url) d := by
  rw [add_of_absent hid hdoc, bind_of_ok (edit_of_ok (putPath_of_locate_none hplace))]
  rfl

/-- Adding is refused before anything has changed, if the id is that of a document or the path cannot be placed; else
the document gets its path and is entered. -/
theorem add_cases (resolver : Resolver) (doc : Document) {d : Draft} (hd : d.store.TreeReadable) :
    ((d.store.hasDocument doc.id = true ∨ ∀ p, d.store.locate resolver doc.id doc.url ≠ .ok (some p)) ∧
      ∃ e, add resolver doc d = .error e d) ∨
      (doc.id ≠ 0 ∧ d.store.hasDocument doc.id = false ∧ ∃ p s, d.store.locate resolver doc.id doc.url = .ok (some p) ∧
        attach p d.store = .ok () s ∧ s.TreeReadable ∧ SameButTree d.store s ∧
        add resolver doc d = .ok () (entered doc { d with store := s })) := by
  by_cases hid : doc.id = 0
  · exact .inl ⟨.inr fun p hplace => (locate_spec hplace).1 hid, .zeroId, add_zero hid d⟩
  · cases hdoc : d.store.hasDocument doc.id with
    | true => exact .inl ⟨.inl rfl, .documentExists doc.id, add_of_hasDocument hid hdoc⟩
    | false =>
      rcases putPath_cases hd resolver doc.id doc.url with
        ⟨e, hplace, _⟩ | ⟨hplace, _⟩ | ⟨p, s, hplace, hput, hattach, hs, hsame⟩
      · refine .inl ⟨.inr fun p => ?_, e, add_of_locate_error hid hdoc hplace⟩
        rw [hplace]
        exact fun h => by cases h
      · refine .inl ⟨.inr fun p => ?_, .unresolvedParent doc.url, add_of_locate_none hid hdoc hplace⟩
        rw [hplace]
        exact fun h => by cases h
      · refine .inr ⟨hid, rfl, p, s, hplace, hattach, hs, hsame, ?_⟩
        rw [add_of_absent hid hdoc, bind_of_ok (edit_of_ok hput)]
        exact enter_eq hid _

/-! ### Removing -/

theorem remove_zero (d : Draft) : remove 0 d = .error .zeroId d := bind_of_error (requireId_zero d)

/-- Removing goes through all of its steps. -/
theorem remove_eq {id : DocId} (hid : id ≠ 0) {d : Draft} (hd : d.store.Readable) :
    ∃ b s time?, d.store.timeOf? id = .ok time? ∧
      unlink (fun folder => !d.store.hasDocument folder) id (withoutFields id Field.all d).store = .ok b s ∧
      s.TreeReadable ∧ SameButTree (withoutFields id Field.all d).store s ∧
      remove id d = .ok () { withoutFields id Field.all d with store := s.withoutRecords id time? } := by
  have hterms := sameButTerms_withoutFields id Field.all d
  obtain ⟨time?, htime⟩ := hd.times id
  have hprune : (fun folder => !(withoutFields id Field.all d).store.hasDocument folder) =
      fun folder => !d.store.hasDocument folder := by
    have htimes : (withoutFields id Field.all d).store.times = d.store.times := by rw [hterms]
    funext folder
    rw [hasDocument_congr htimes folder]
  obtain ⟨b, s, hunlink, hs, hsame⟩ :=
    unlink_safe (fun folder => !d.store.hasDocument folder) id _ (hterms.treeReadable hd.tree)
  refine ⟨b, s, time?, htime, hunlink, hs, hsame, ?_⟩
  have hget : (get : Write Draft) (withoutFields id Field.all d) =
      .ok (withoutFields id Field.all d) (withoutFields id Field.all d) := rfl
  have htime' : ({ s with
      contentPending := IdTable.remove s.contentPending id
      failed := IdTable.remove s.failed id } : Store).timeOf? id = .ok time? := by
    rw [← htime]
    refine timeOf?_congr ?_ id
    show s.times = d.store.times
    rw [hsame, hterms]
  have hforM : Field.all.forM (removeField id) d = .ok () (withoutFields id Field.all d) :=
    forM_eq_foldl (removeField_eq id) Field.all d
  unfold remove
  rw [bind_of_ok (requireId_eq hid d), bind_of_ok hforM, bind_of_ok hget]
  simp only [hprune]
  rw [bind_of_ok (edit_of_ok hunlink)]
  have hmodify : ∀ (change : Store → Store) (d : Draft),
      modifyStore change d = .ok () { d with store := change d.store } :=
    fun _ _ => rfl
  rw [bind_of_ok (hmodify _ _), bind_of_ok (look_of_ok htime')]
  cases time? with
  | none => rfl
  | some time => rfl

/-! ### Replacing -/

theorem planPath_spec {s : Store} {resolver : Resolver} {id : DocId} {url : Bytes} {change : PathChange}
    (h : planPath s resolver id url = .ok change) : ∃ p, s.locate resolver id url = .ok (some p) ∧
      ((s.pathEntryOf? id = .ok none ∧ change = .insert p) ∨
        ∃ e, s.pathEntryOf? id = .ok (some e) ∧
          change = if e.parent = p.parent then .rename p.name else .move e.parent p) := by
  unfold planPath at h
  cases hlocate : s.locate resolver id url with
  | error e => rw [hlocate] at h; cases h
  | ok place =>
    rw [hlocate] at h
    cases place with
    | none => cases h
    | some p =>
      refine ⟨p, rfl, ?_⟩
      simp only [bind, Except.bind] at h
      cases hentry : s.pathEntryOf? id with
      | error e => rw [hentry] at h; cases h
      | ok entry =>
        rw [hentry] at h
        cases entry with
        | none => cases h; exact .inl ⟨rfl, rfl⟩
        | some e => cases h; exact .inr ⟨e, rfl, rfl⟩

/-- A change of a path that was planned goes through, if the entries of the tree are still as they were. -/
theorem changePath_safe {s s' : Store} {resolver : Resolver} {id : DocId} {url : Bytes} {change : PathChange}
    (h : planPath s resolver id url = .ok change) (hs' : s'.TreeReadable) (hentries : s'.pathEntries = s.pathEntries) :
    ∃ s'', changePath id change s' = .ok () s'' ∧ s''.TreeReadable ∧ SameButTree s' s'' := by
  obtain ⟨p, hlocate, hcases⟩ := planPath_spec h
  have hsafe : Edit.Safe (changePath id (.insert p)) := attach_safe p
  rcases hcases with ⟨_, rfl⟩ | ⟨e, he, rfl⟩
  · obtain ⟨_, s'', hchange, hs'', hsame⟩ := hsafe s' hs'
    exact ⟨s'', hchange, hs'', hsame⟩
  · by_cases hparent : e.parent = p.parent
    · rw [if_pos hparent]
      obtain ⟨_, name, above, hparse, _, hname, _⟩ := locate_spec hlocate
      have hvalid := (Path.parse_spec hparse).2.1 name List.mem_cons_self
      have he' : s'.pathEntryOf? id = .ok (some e) := by
        rw [← he]
        unfold pathEntryOf?
        rw [hentries]
      refine ⟨_, rename_eq (hname ▸ hvalid) he', hs'.setPathEntry id _, rfl⟩
    · rw [if_neg hparent]
      have hmove : Edit.Safe (changePath id (.move e.parent p)) := by
        refine .bind (detach_safe _ id) fun _ => .bind (attach_safe p) fun _ => ?_
        intro s hs
        have hget : (get : Edit Store) s = .ok s s := rfl
        rw [bind_of_ok hget]
        by_cases hprune : e.parent ≠ 0 ∧ (!s.hasDocument e.parent) = true
        · rw [if_pos hprune]
          exact Edit.Safe.bind (unlink_safe _ e.parent) (fun _ => .pure ()) s hs
        · rw [if_neg hprune]
          exact Edit.Safe.pure () s hs
      obtain ⟨_, s'', hchange, hs'', hsame⟩ := hmove s' hs'
      exact ⟨s'', hchange, hs'', hsame⟩

/-- The draft in which a document has its terms in the fields that are to be overwritten, and of its old terms those
that another field still has. -/
def refilled (doc : Document) (parts : Parts) (d : Draft) : Draft :=
  withFields doc parts.terms Field.all (d.enqueueRemovals doc.id (droppedTerms d.store doc.id parts))

theorem sameButTerms_refilled (doc : Document) (parts : Parts) (d : Draft) :
    SameButTerms d.store (refilled doc parts d).store := by
  have hsame := sameButTerms_withFields doc parts.terms Field.all
    (d.enqueueRemovals doc.id (droppedTerms d.store doc.id parts))
  rwa [enqueueRemovals_store] at hsame

/-- The steps of replacing once it is known how the path is to change. -/
def replaceWith (doc : Document) (parts : Parts) (change? : Option PathChange) : Write Unit := do
  modify fun d => d.enqueueRemovals doc.id (droppedTerms d.store doc.id parts)
  Field.all.forM fun field => if parts.terms field then putField doc field else return
  if let some change := change? then edit (changePath doc.id change)
  if parts.time then replaceTime doc
  if parts.payload then update (·.putPayload doc.id doc.payload)

theorem replaceTime_eq {doc : Document} (hid : doc.id ≠ 0) {d : Draft} {time? : Option TimeInfo}
    (htime : d.store.timeOf? doc.id = .ok time?) : replaceTime doc d =
      .ok () { d with store := (d.store.withoutModified doc.id time?).withTime doc.id doc.time } := by
  unfold replaceTime
  rw [bind_of_ok (look_of_ok htime)]
  have hrest : ∀ d : Draft, (update (·.putTime doc.id doc.time) >>= fun _ =>
      update (·.addModified doc.time.modified doc.id) : Write Unit) d =
        .ok () { d with store := d.store.withTime doc.id doc.time } := by
    intro d
    rw [bind_of_ok (update_of_ok (putTime_eq hid d.store doc.time))]
    exact update_of_ok (addModified_eq hid _ _)
  cases time? with
  | none => exact hrest d
  | some time => exact hrest { d with store := d.store.removeModified time.modified doc.id }

/-- The fields to be overwritten are filled anew. -/
theorem refill_eq {doc : Document} (hid : doc.id ≠ 0) (parts : Parts) (d : Draft) :
    (Field.all.forM fun field => if parts.terms field then putField doc field else pure () : Write Unit)
      (d.enqueueRemovals doc.id (droppedTerms d.store doc.id parts)) = .ok () (refilled doc parts d) := by
  have hfields : ∀ field d, (if parts.terms field then putField doc field else pure () : Write Unit) d =
      .ok () (if parts.terms field = true then withField doc d field else d) := by
    intro field d
    cases parts.terms field with
    | true => exact putField_eq hid field d
    | false => rfl
  exact forM_eq_foldl hfields Field.all _

/-- After the path, only records are rewritten. -/
theorem replaceWith_eq {doc : Document} (hid : doc.id ≠ 0) {parts : Parts} {change? : Option PathChange} {d : Draft}
    {s : Store} {time? : Option TimeInfo} (htime : s.timeOf? doc.id = .ok time?)
    (hchange : (match change? with
      | some change => changePath doc.id change (refilled doc parts d).store
      | none => .ok () (refilled doc parts d).store) = .ok () s) :
    replaceWith doc parts change? d = .ok () { refilled doc parts d with store := s.rewritten doc parts time? } := by
  have hmodify : (modify fun d => d.enqueueRemovals doc.id (droppedTerms d.store doc.id parts) : Write Unit) d =
      .ok () (d.enqueueRemovals doc.id (droppedTerms d.store doc.id parts)) := rfl
  have hpayload : ∀ d : Draft, (if parts.payload = true then update (·.putPayload doc.id doc.payload)
      else pure () : Write Unit) d =
        .ok () { d with store := if parts.payload then d.store.withPayload doc.id doc.payload else d.store } := by
    intro d
    cases parts.payload with
    | true => exact update_of_ok (putPayload_eq hid d.store doc.payload)
    | false => rfl
  have hrecords : (if parts.time = true then replaceTime doc >>= fun _ =>
        (if parts.payload = true then update (·.putPayload doc.id doc.payload) else pure ())
      else (if parts.payload = true then update (·.putPayload doc.id doc.payload) else pure ()) : Write Unit)
      { refilled doc parts d with store := s } =
        .ok () { refilled doc parts d with store := s.rewritten doc parts time? } := by
    unfold rewritten
    cases parts.time with
    | false =>
      simp only [Bool.false_eq_true, if_false]
      exact hpayload _
    | true =>
      simp only [if_true]
      rw [bind_of_ok (replaceTime_eq hid htime)]
      exact hpayload _
  unfold replaceWith
  rw [bind_of_ok hmodify, bind_of_ok (refill_eq hid parts d)]
  cases change? with
  | none =>
    cases hchange
    exact hrecords
  | some change =>
    have hedit : edit (changePath doc.id change) (refilled doc parts d) =
      .ok () { refilled doc parts d with store := s } :=
      edit_of_ok hchange
    simp only
    rw [bind_of_ok hedit]
    exact hrecords

theorem replace_zero {resolver : Resolver} {doc : Document} {parts : Parts} (hid : doc.id = 0) (d : Draft) :
    replace resolver doc parts d = .error .zeroId d := by
  unfold replace
  rw [hid]
  exact bind_of_error (requireId_zero d)

/-- How the path is to change is found out first. -/
theorem replace_of_ne_zero {resolver : Resolver} {doc : Document} {parts : Parts} {d : Draft} (hid : doc.id ≠ 0) :
    replace resolver doc parts d = (if parts.url = true then
      (some <$> look (planPath · resolver doc.id doc.url)) >>= replaceWith doc parts
      else replaceWith doc parts none) d := by
  unfold replace
  rw [bind_of_ok (requireId_eq hid d)]
  rfl

theorem replace_of_planPath_error {resolver : Resolver} {doc : Document} {parts : Parts} {d : Draft} (hid : doc.id ≠ 0)
    (hurl : parts.url = true) {e : Error} (hplan : planPath d.store resolver doc.id doc.url = .error e) :
    replace resolver doc parts d = .error e d := by
  rw [replace_of_ne_zero hid, if_pos hurl]
  apply bind_of_error
  exact bind_of_error (look_of_error hplan)

theorem replace_of_planPath_ok {resolver : Resolver} {doc : Document} {parts : Parts} {d : Draft} (hid : doc.id ≠ 0)
    (hurl : parts.url = true) {change : PathChange} (hplan : planPath d.store resolver doc.id doc.url = .ok change) :
    replace resolver doc parts d = replaceWith doc parts (some change) d := by
  have hlook : (some <$> look (planPath · resolver doc.id doc.url) : Write (Option PathChange)) d =
      .ok (some change) d := by
    show (look (planPath · resolver doc.id doc.url) >>= fun change => pure (some change)) d = _
    rw [bind_of_ok (look_of_ok hplan)]
    rfl
  rw [replace_of_ne_zero hid, if_pos hurl, bind_of_ok hlook]

/-- Once it is known how the path is to change, replacing goes through all of its steps. -/
theorem replace_of_plan {resolver : Resolver} {doc : Document} {parts : Parts} {d : Draft} (hd : d.store.Readable)
    (hid : doc.id ≠ 0) (hplan : parts.url = true → ∃ change, planPath d.store resolver doc.id doc.url = .ok change) :
    ∃ s time?, d.store.timeOf? doc.id = .ok time? ∧ s.TreeReadable ∧ SameButTree (refilled doc parts d).store s ∧
      (parts.url = true → ∃ change, planPath d.store resolver doc.id doc.url = .ok change ∧
        changePath doc.id change (refilled doc parts d).store = .ok () s) ∧
      (parts.url = false → s = (refilled doc parts d).store) ∧
      replace resolver doc parts d = .ok () { refilled doc parts d with store := s.rewritten doc parts time? } := by
  obtain ⟨time?, htime⟩ := hd.times doc.id
  have hterms := sameButTerms_refilled doc parts d
  have htree := hterms.treeReadable hd.tree
  have htimes : ∀ s, SameButTree (refilled doc parts d).store s → s.timeOf? doc.id = .ok time? := by
    intro s hsame
    rw [← htime]
    refine timeOf?_congr ?_ doc.id
    rw [hsame, hterms]
  cases hurl : parts.url with
  | false =>
    have heq : replaceWith doc parts none d =
        .ok () { refilled doc parts d with store := (refilled doc parts d).store.rewritten doc parts time? } :=
      replaceWith_eq hid (htimes _ (.refl _)) rfl
    refine ⟨_, time?, htime, htree, .refl _, ?_, fun _ => rfl, ?_⟩
    · intro hnot
      cases hnot
    · rw [replace_of_ne_zero hid, hurl]
      exact heq
  | true =>
    obtain ⟨change, hchange⟩ := hplan hurl
    obtain ⟨s, hchanged, hs, hsame⟩ := changePath_safe hchange htree (by rw [hterms])
    refine ⟨s, time?, htime, hs, hsame, fun _ => ⟨change, hchange, hchanged⟩, ?_, ?_⟩
    · intro hnot
      cases hnot
    · rw [replace_of_planPath_ok hid hurl hchange]
      exact replaceWith_eq hid (htimes s hsame) hchanged

/-- Replacing is refused before anything has changed, or goes through all of its steps. -/
theorem replace_cases (resolver : Resolver) (doc : Document) (parts : Parts) {d : Draft} (hd : d.store.Readable) :
    (∃ e, replace resolver doc parts d = .error e d) ∨
      (doc.id ≠ 0 ∧ ∃ s time?, d.store.timeOf? doc.id = .ok time? ∧ s.TreeReadable ∧
        SameButTree (refilled doc parts d).store s ∧
        (parts.url = true → ∃ change, planPath d.store resolver doc.id doc.url = .ok change ∧
          changePath doc.id change (refilled doc parts d).store = .ok () s) ∧
        (parts.url = false → s = (refilled doc parts d).store) ∧
        replace resolver doc parts d =
          .ok () { refilled doc parts d with store := s.rewritten doc parts time? }) := by
  by_cases hid : doc.id = 0
  · exact .inl ⟨.zeroId, replace_zero hid d⟩
  · by_cases hurl : parts.url = true
    · cases hplan : planPath d.store resolver doc.id doc.url with
      | error e => exact .inl ⟨e, replace_of_planPath_error hid hurl hplan⟩
      | ok change => exact .inr ⟨hid, hplan ▸ replace_of_plan hd hid fun _ => ⟨change, hplan⟩⟩
    · exact .inr ⟨hid, replace_of_plan hd hid fun hnot => absurd hnot hurl⟩

/-! ### Marking -/

/-- The change is about what is pending or has failed. -/
def Marks : WriteOp → Prop
  | .addPending _ | .removePending _ | .addFailed _ | .removeFailed _ => True
  | _ => False

/-- Marking changes nothing but marks, or is refused. -/
theorem mark_cases {op : WriteOp} (hop : Marks op) (resolver : Resolver) (d : Draft) :
    (∃ e, run resolver op d = .error e d) ∨
      ∃ s, SameButMarks d.store s ∧ run resolver op d = .ok () { d with store := s } := by
  have hadd : ∀ (t : Table) (id : DocId) (change : Store → Table → Store),
    (∀ t', SameButMarks d.store (change d.store t')) →
      (∃ e, update (fun s => return change s (← IdTable.add t id)) d = .error e d) ∨
        ∃ s, SameButMarks d.store s ∧
          update (fun s => return change s (← IdTable.add t id)) d = .ok () { d with store := s } := by
    intro t id change hchange
    cases hid : IdTable.add t id with
    | error e => exact .inl ⟨e, update_of_error rfl⟩
    | ok t' => exact .inr ⟨change d.store t', hchange t', update_of_ok rfl⟩
  cases op with
  | addPending id => exact hadd d.store.contentPending id (fun s t => { s with contentPending := t }) fun _ => rfl
  | removePending id =>
    exact .inr ⟨{ d.store with contentPending := IdTable.remove d.store.contentPending id }, rfl, rfl⟩
  | addFailed id => exact hadd d.store.failed id (fun s t => { s with failed := t }) fun _ => rfl
  | removeFailed id => exact .inr ⟨{ d.store with failed := IdTable.remove d.store.failed id }, rfl, rfl⟩
  | add | remove | removeSubtree | replace | rename => exact hop.elim

end Draft
end FileIndex
