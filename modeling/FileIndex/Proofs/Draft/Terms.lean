import FileIndex.Proofs.Draft.Queue
import FileIndex.Proofs.Encoding.Records
import FileIndex.Proofs.Store.Lists
import FileIndex.Proofs.Tree.Edits

/-!
# Term sets in a draft

Giving a document the terms of a field, and taking them away, changes a term set at once and queues what follows
for the lists of the terms.

* `Store.withTerms`, `find?_withTerms`: a store with another term set, and where it differs.
* `Draft.withField`, `Draft.withoutField`: a draft with the terms of a field, and without them. `putField_eq` and
  `removeField_eq` say that these are what the changes make of it.
* `Lasting.withFields`, `Tracked.withFields` and the same for `withoutFields`: the lists of terms after several fields
  were changed.
-/

namespace FileIndex

namespace Store

/-- Nothing but the term sets differs. -/
def SameButTerms (s s' : Store) : Prop :=
  s' = { s with
    contentTerms := s'.contentTerms, fileNameTerms := s'.fileNameTerms, attributeTerms := s'.attributeTerms }

theorem SameButTerms.refl (s : Store) : SameButTerms s s := rfl

theorem SameButTerms.trans {s s' s'' : Store} (h : SameButTerms s s') (h' : SameButTerms s' s'') :
    SameButTerms s s'' := by
  unfold SameButTerms at *
  rw [h', h]

theorem sameButTerms_setTermTable (s : Store) (field : Field) (t : Table) :
    SameButTerms s (s.setTermTable field t) := by
  cases field <;> rfl

@[simp] theorem termTable_setTermTable (s : Store) (field other : Field) (t : Table) :
    (s.setTermTable field t).termTable other = if other = field then t else s.termTable other := by
  cases field <;> cases other <;> rfl

/-- The store in which the document has these terms in the field. -/
def withTerms (s : Store) (field : Field) (id : DocId) (terms : List Bytes) : Store :=
  if terms.isEmpty then s.eraseTerms field id
  else s.setTermTable field ((s.termTable field).insert (DocId.toKey id) (TermSet.encode terms))

theorem putTerms_eq {id : DocId} (hid : id ≠ 0) (s : Store) (field : Field) (terms : List Bytes) :
    s.putTerms field id terms = .ok (s.withTerms field id terms) := by
  unfold putTerms withTerms
  rw [if_neg hid]
  split <;> rfl

theorem sameButTerms_withTerms (s : Store) (field : Field) (id : DocId) (terms : List Bytes) :
    SameButTerms s (s.withTerms field id terms) := by
  unfold withTerms
  split <;> exact sameButTerms_setTermTable ..

theorem find?_withTerms (s : Store) (field : Field) (id : DocId) (terms : List Bytes) (other : Field) (key : Bytes) :
    ((s.withTerms field id terms).termTable other).find? key =
      if other = field ∧ key = DocId.toKey id then stored? TermSet.encode terms
      else (s.termTable other).find? key := by
  unfold withTerms stored?
  by_cases hother : other = field
  · subst hother
    split
    · simp [eraseTerms]
    · simp
  · split
    · simp [eraseTerms, hother]
    · simp [hother]

theorem find?_eraseTerms (s : Store) (field : Field) (id : DocId) (other : Field) (key : Bytes) :
    ((s.eraseTerms field id).termTable other).find? key =
      if other = field ∧ key = DocId.toKey id then none else (s.termTable other).find? key := by
  unfold eraseTerms
  by_cases hother : other = field
  · subst hother
    simp
  · simp [hother]

/-- Terms whose lengths can be stored. -/
def Storable (terms : List Bytes) : Prop := ∀ t ∈ terms, t.length < UInt64.size

theorem storable_of_holdsKey {terms : List Bytes} (h : ∀ t ∈ terms, Table.holdsKey t = true) : Storable terms := by
  intro t ht
  have hkey := h t ht
  unfold Table.holdsKey Table.maxKeyLength at hkey
  rw [Bool.and_eq_true, decide_eq_true_eq] at hkey
  exact Nat.lt_of_le_of_lt hkey.2 (by decide)

theorem read_stored {terms : List Bytes} (h : Storable terms) :
    ((stored? TermSet.encode terms).map fun value => Malformed.orElse [] (TermSet.decode value)).getD [] =
      Ascending.ofList terms := by
  unfold stored?
  cases terms with
  | nil => rfl
  | cons t ts =>
    simp only [List.isEmpty_cons, Bool.false_eq_true, if_false, Option.map_some, Option.getD_some,
      TermSet.decode_encode h]
    rfl

theorem termsOf_eraseTerms (s : Store) (field : Field) (id : DocId) (other : Field) (id' : DocId) :
    (s.eraseTerms field id).termsOf other id' = if other = field ∧ id' = id then [] else s.termsOf other id' := by
  unfold termsOf
  simp only [find?_eraseTerms, DocId.toKey_inj]
  by_cases hsame : other = field ∧ id' = id
  · rw [if_pos hsame, if_pos hsame]
    rfl
  · rw [if_neg hsame, if_neg hsame]

end Store

namespace Draft

open Store

/-! ### One field -/

/-- The draft in which the document has its terms in the field. -/
def withField (doc : Document) (d : Draft) (field : Field) : Draft :=
  { d.enqueueTerms doc.id (doc.terms field) with
    store := d.store.withTerms field doc.id (doc.terms field).keys }

/-- The draft in which the document has no terms in the field. -/
def withoutField (id : DocId) (d : Draft) (field : Field) : Draft :=
  { d.enqueueRemovals id (d.store.termsOf field id) with store := d.store.eraseTerms field id }

theorem update_of_ok {d : Draft} {change : Store → Except Error Store} {s : Store} (h : change d.store = .ok s) :
    update change d = .ok () { d with store := s } := by
  unfold update edit Edit.update
  rw [h]

theorem update_of_error {d : Draft} {change : Store → Except Error Store} {e : Error}
    (h : change d.store = .error e) : update change d = .error e d := by
  unfold update edit Edit.update
  rw [h]

theorem putField_eq {doc : Document} (hid : doc.id ≠ 0) (field : Field) (d : Draft) :
    putField doc field d = .ok () (withField doc d field) := by
  have hput : (d.enqueueTerms doc.id (doc.terms field)).store.putTerms field doc.id (doc.terms field).keys =
      .ok (d.store.withTerms field doc.id (doc.terms field).keys) := by
    rw [enqueueTerms_store]
    exact putTerms_eq hid _ _ _
  exact update_of_ok hput

theorem removeField_eq (id : DocId) (field : Field) (d : Draft) :
    removeField id field d = .ok () (withoutField id d field) := by
  have hstore : (d.enqueueRemovals id (d.store.termsOf field id)).store = d.store := enqueueRemovals_store ..
  show EStateM.Result.ok () _ = _
  simp only [hstore, withoutField]

/-- A step that never fails is repeated as a fold. -/
theorem forM_eq_foldl {α : Type} {step : α → Write Unit} {next : Draft → α → Draft}
    (h : ∀ a d, step a d = .ok () (next d a)) (l : List α) (d : Draft) : l.forM step d = .ok () (l.foldl next d) := by
  induction l generalizing d with
  | nil => rfl
  | cons a l ih =>
    show (step a >>= fun _ => l.forM step) d = _
    rw [bind_of_ok (h a d), ih]
    rfl

/-! ### Several fields -/

/-- The draft in which the document has its terms in the selected fields. -/
def withFields (doc : Document) (selected : Field → Bool) (fields : List Field) (d : Draft) : Draft :=
  fields.foldl (fun d field => if selected field then withField doc d field else d) d

/-- The draft in which the document has no terms in the fields. -/
def withoutFields (id : DocId) (fields : List Field) (d : Draft) : Draft := fields.foldl (withoutField id) d

theorem sameButTerms_withFields (doc : Document) (selected : Field → Bool) (fields : List Field) (d : Draft) :
    SameButTerms d.store (withFields doc selected fields d).store := by
  induction fields generalizing d with
  | nil => exact .refl _
  | cons field fields ih =>
    refine SameButTerms.trans ?_ (ih _)
    simp only
    split
    · exact sameButTerms_withTerms ..
    · exact .refl _

theorem sameButTerms_withoutFields (id : DocId) (fields : List Field) (d : Draft) :
    SameButTerms d.store (withoutFields id fields d).store := by
  induction fields generalizing d with
  | nil => exact .refl _
  | cons field fields ih => exact SameButTerms.trans (sameButTerms_setTermTable ..) (ih _)

/-- The tables of term sets after some fields of a document were filled. -/
theorem find?_withFields (doc : Document) (selected : Field → Bool) (fields : List Field) (d : Draft) (other : Field)
    (key : Bytes) :
    ((withFields doc selected fields d).store.termTable other).find? key =
      if (other ∈ fields ∧ selected other) ∧ key = DocId.toKey doc.id then stored? TermSet.encode (doc.terms other).keys
      else (d.store.termTable other).find? key := by
  induction fields generalizing d with
  | nil => simp [withFields]
  | cons field fields ih =>
    have hcons : withFields doc selected (field :: fields) d =
        withFields doc selected fields (if selected field then withField doc d field else d) := rfl
    rw [hcons, ih]
    by_cases hselected : selected field = true
    · rw [if_pos hselected]
      have hfind := find?_withTerms d.store field doc.id (doc.terms field).keys other key
      change ((withField doc d field).store.termTable other).find? key = _ at hfind
      rw [hfind]
      grind
    · rw [if_neg hselected]
      grind

theorem find?_withoutFields (id : DocId) (fields : List Field) (d : Draft) (other : Field) (key : Bytes) :
    ((withoutFields id fields d).store.termTable other).find? key =
      if other ∈ fields ∧ key = DocId.toKey id then none else (d.store.termTable other).find? key := by
  induction fields generalizing d with
  | nil => simp [withoutFields]
  | cons field fields ih =>
    have hcons : withoutFields id (field :: fields) d = withoutFields id fields (withoutField id d field) := rfl
    have hfind := find?_eraseTerms d.store field id other key
    change ((withoutField id d field).store.termTable other).find? key = _ at hfind
    rw [hcons, ih, hfind]
    grind

theorem listsOf_withField (doc : Document) (d : Draft) (field : Field) (t : Bytes) :
    (withField doc d field).listsOf t = (d.enqueueTerms doc.id (doc.terms field)).listsOf t := by
  have hsame := sameButTerms_withTerms d.store field doc.id (doc.terms field).keys
  have hpending : (withField doc d field).pending = (d.enqueueTerms doc.id (doc.terms field)).pending := rfl
  refine listsOf_congr hpending ?_ ?_ t
  · show (d.store.withTerms field doc.id (doc.terms field).keys).postings = _
    rw [hsame, enqueueTerms_store]
  · show (d.store.withTerms field doc.id (doc.terms field).keys).occurrences = _
    rw [hsame, enqueueTerms_store]

theorem listsOf_withoutField (id : DocId) (d : Draft) (field : Field) (t : Bytes) :
    (withoutField id d field).listsOf t = (d.enqueueRemovals id (d.store.termsOf field id)).listsOf t := by
  have hsame := sameButTerms_setTermTable d.store field ((d.store.termTable field).erase (DocId.toKey id))
  have hpending : (withoutField id d field).pending =
      (d.enqueueRemovals id (d.store.termsOf field id)).pending := rfl
  refine listsOf_congr hpending ?_ ?_ t
  · show (d.store.eraseTerms field id).postings = _
    rw [eraseTerms, hsame, enqueueRemovals_store]
  · show (d.store.eraseTerms field id).occurrences = _
    rw [eraseTerms, hsame, enqueueRemovals_store]

/-- Each term that the document has in one of the fields loses it. -/
theorem listsOf_withoutFields {id : DocId} {fields : List Field} {d : Draft} {t : Bytes} (hfields : fields.Nodup)
    (hd : d.IdsAscend) : (withoutFields id fields d).listsOf t =
      if ∃ field ∈ fields, t ∈ d.store.termsOf field id then applyChange (d.listsOf t) (.remove id)
        else d.listsOf t := by
  induction fields generalizing d with
  | nil => simp [withoutFields]
  | cons field fields ih =>
    obtain ⟨hfield, hfields⟩ := List.nodup_cons.mp hfields
    have hcons : withoutFields id (field :: fields) d = withoutFields id fields (withoutField id d field) := rfl
    have hterms : ∀ other ∈ fields, (withoutField id d field).store.termsOf other id = d.store.termsOf other id := by
      intro other hother
      have hne : other ≠ field := fun heq => hfield (heq ▸ hother)
      have herased := termsOf_eraseTerms d.store field id other id
      rwa [if_neg fun hsame => hne hsame.1] at herased
    have hrest : (∃ other ∈ fields, t ∈ (withoutField id d field).store.termsOf other id) ↔
        ∃ other ∈ fields, t ∈ d.store.termsOf other id :=
      exists_congr fun other => and_congr_right fun hother => by rw [hterms other hother]
    have hascend : (withoutField id d field).IdsAscend := by
      intro t
      rw [listsOf_withoutField]
      exact hd.enqueueRemovals id _ t
    have hnodup := nodup_of_ascending (hd t)
    rw [hcons, ih hfields hascend, listsOf_withoutField, listsOf_enqueueRemovals hnodup]
    simp only [hrest, List.exists_mem_cons_iff]
    by_cases hhead : t ∈ d.store.termsOf field id
    · by_cases htail : ∃ other ∈ fields, t ∈ d.store.termsOf other id
      · rw [if_pos htail, if_pos hhead, if_pos (.inl hhead), applyChange_remove_twice hnodup id]
      · rw [if_neg htail, if_pos hhead, if_pos (.inl hhead)]
    · simp only [hhead, if_false, false_or]

theorem Holdable.withFields {d : Draft} (h : d.Holdable) {doc : Document} (selected : Field → Bool)
    (fields : List Field)
    (hterms : ∀ field, ∀ t ∈ (doc.terms field).keys, Table.holdsKey t = true) :
    (withFields doc selected fields d).Holdable := by
  induction fields generalizing d with
  | nil => exact h
  | cons field fields ih =>
    apply ih
    simp only
    split
    · exact h.enqueueTerms doc.id (hterms field)
    · exact h

theorem Holdable.withoutFields {d : Draft} (h : d.Holdable) {id : DocId} (fields : List Field)
    (hterms : ∀ field, ∀ t ∈ d.store.termsOf field id, Table.holdsKey t = true) :
    (withoutFields id fields d).Holdable := by
  induction fields generalizing d with
  | nil => exact h
  | cons field fields ih =>
    refine ih (h.enqueueRemovals id (hterms field)) fun other t ht => ?_
    change t ∈ (d.store.eraseTerms field id).termsOf other id at ht
    rw [termsOf_eraseTerms] at ht
    split at ht
    · cases ht
    · exact hterms other t ht

section Lasting

variable {K : List DocId × List Occurrence → Prop} {fit : Occurrence → Prop} {d : Draft}

theorem Lasting.withFields (h : Lasting K fit) (hd : ∀ t, K (d.listsOf t)) {doc : Document} {selected : Field → Bool}
    {fields : List Field} (hfit : ∀ field t positions, (doc.terms field).find? t = some positions →
      fit ⟨doc.id, positions⟩) (t : Bytes) : K ((withFields doc selected fields d).listsOf t) := by
  induction fields generalizing d with
  | nil => exact hd t
  | cons field fields ih =>
    apply ih
    intro other
    simp only
    split
    · rw [listsOf_withField]
      exact h.enqueueTerms (hd other) (hfit field other)
    · exact hd other

theorem Lasting.withoutFields (h : Lasting K fit) (hd : ∀ t, K (d.listsOf t)) (id : DocId) (fields : List Field)
    (t : Bytes) : K ((withoutFields id fields d).listsOf t) := by
  induction fields generalizing d with
  | nil => exact hd t
  | cons field fields ih =>
    apply ih
    intro other
    rw [listsOf_withoutField]
    exact h.enqueueRemovals (hd other) _

end Lasting

section Tracked

variable {V : List DocId × List Occurrence → DocId → Prop} {A : List UInt32 → Prop} {d : Draft} {other : DocId}
  {t : Bytes}

/-- What the documents of a term have after some fields of one of them were filled. -/
theorem Tracked.withFields (h : Tracked V A) {doc : Document} {selected : Field → Bool} {fields : List Field} :
    V ((withFields doc selected fields d).listsOf t) other ↔
      (other = doc.id ∧ ∃ field ∈ fields, selected field = true ∧
        ∃ positions, (doc.terms field).find? t = some positions ∧ A positions) ∨ V (d.listsOf t) other := by
  induction fields generalizing d with
  | nil => simp [Draft.withFields]
  | cons field fields ih =>
    have hcons : Draft.withFields doc selected (field :: fields) d =
        Draft.withFields doc selected fields (if selected field then withField doc d field else d) := rfl
    rw [hcons, ih, List.exists_mem_cons_iff]
    by_cases hselected : selected field = true
    · rw [if_pos hselected, listsOf_withField, h.enqueueTerms]
      grind
    · rw [if_neg hselected]
      grind

/-- What they have after one of them lost its terms in some fields. -/
theorem Tracked.withoutFields (h : Tracked V A) {id : DocId} {fields : List Field} (hfields : fields.Nodup)
    (hd : d.IdsAscend) :
    V ((withoutFields id fields d).listsOf t) other ↔
      V (d.listsOf t) other ∧ ¬ (other = id ∧ ∃ field ∈ fields, t ∈ d.store.termsOf field id) := by
  rw [listsOf_withoutFields hfields hd]
  by_cases hterm : ∃ field ∈ fields, t ∈ d.store.termsOf field id
  · rw [if_pos hterm, h.remove (nodup_of_ascending (hd t))]
    simp [hterm]
  · rw [if_neg hterm]
    simp [hterm]

end Tracked

end Draft
end FileIndex
