import FileIndex.Proofs.Draft.Operations
import FileIndex.Proofs.Tree.Shape

/-!
# Documents as rows

What a store keeps of a list of documents, table by table, without the history that led there.

* `Document.Built`, `Document.Fit`: documents whose terms were added one by one, and those that a ledger is made of.
* `without`: the documents but one.
* `Table.Tabulates`: a table has what is said of each document under the key of its id, and nothing else.
* `Store.Records`: times, payloads, term sets and modification times are those of the documents.
-/

namespace FileIndex

/-! ### Documents -/

/-- A document whose terms were added one by one. -/
inductive Document.Built : Document → Prop
  | plain (id : DocId) (url : Bytes) (time : TimeInfo) (contentPending : Bool) (payload : Bytes) :
    Built { id, url, time, contentPending, payload }
  | addTerm {doc : Document} (field : Field) (term : Bytes) : Built doc → Built (doc.addTerm field term)
  | addPosition {doc : Document} (field : Field) (term : Bytes) (position : UInt32) : Built doc →
    Built (doc.addPosition field term position)

/-- A document under the id of its path, which is known and not too deep, and with terms that can be keys. -/
structure Document.Fit (r : Naming) (doc : Document) : Prop where
  id_eq : doc.id = r.resolve doc.url
  known : ∀ names, Path.parse doc.url = .ok names → r.known names
  depth : ∀ names, Path.parse doc.url = .ok names → names.length ≤ maxDepth
  built : doc.Built
  terms : ∀ field, ∀ t ∈ (doc.terms field).keys, Table.holdsKey t = true

theorem Document.Fit.of_parse {r : Naming} {doc : Document} {names : List Bytes}
    (hparse : Path.parse doc.url = .ok names)
    (hid : doc.id = r.resolve doc.url) (hknown : r.known names) (hdepth : names.length ≤ maxDepth) (hbuilt : doc.Built)
    (hterms : ∀ field, ∀ t ∈ (doc.terms field).keys, Table.holdsKey t = true) : doc.Fit r := by
  have heq : ∀ {other}, Path.parse doc.url = .ok other → other = names := fun h => Except.ok.inj (h.symm.trans hparse)
  exact ⟨hid, fun _ h => heq h ▸ hknown, fun _ h => heq h ▸ hdepth, hbuilt, hterms⟩

theorem Document.terms_mapTerms (doc : Document) (field other : Field) (f : TermMap → TermMap) :
    (doc.mapTerms field f).terms other = if other = field then f (doc.terms field) else doc.terms other := by
  cases field <;> cases other <;> rfl

theorem Document.Built.ascending {doc : Document} (h : doc.Built) (field : Field) (t : Bytes)
    (positions : List UInt32) (hfind : (doc.terms field).find? t = some positions) : positions.Pairwise (· < ·) := by
  induction h generalizing positions with
  | plain => cases field <;> cases hfind
  | @addTerm doc other term _ ih =>
    rw [Document.addTerm, terms_mapTerms] at hfind
    by_cases hfield : field = other
    · subst hfield
      rw [if_pos rfl] at hfind
      unfold TermMap.addTerm at hfind
      split at hfind
      · exact ih positions hfind
      · rw [ByteMap.find?_insert] at hfind
        split at hfind
        · cases hfind
          exact .nil
        · exact ih positions hfind
    · rw [if_neg hfield] at hfind
      exact ih positions hfind
  | @addPosition doc other term position _ ih =>
    rw [Document.addPosition, terms_mapTerms] at hfind
    by_cases hfield : field = other
    · subst hfield
      rw [if_pos rfl, TermMap.addPosition, ByteMap.find?_insert] at hfind
      split at hfind
      · rename_i ht
        cases hfind
        apply Ascending.pairwise_insert
        cases hold : (doc.terms field).find? term with
        | none => exact .nil
        | some positions => exact ih positions (ht ▸ hold)
      · exact ih positions hfind
    · rw [if_neg hfield] at hfind
      exact ih positions hfind

/-- The terms of the document were added one by one, and all of them can be keys. -/
def Document.Keyed (doc : Document) : Prop := doc.Built ∧ ∀ field, ∀ t ∈ (doc.terms field).keys, Table.holdsKey t = true

theorem Document.Keyed.plain (id : DocId) (url : Bytes) (time : TimeInfo) (contentPending : Bool) (payload : Bytes) :
    Document.Keyed { id, url, time, contentPending, payload } := by
  refine ⟨.plain .., fun field t ht => ?_⟩
  cases field <;> cases ht

theorem Document.Keyed.mapTerms {doc : Document} (h : doc.Keyed) (field : Field) {f : TermMap → TermMap}
    (hbuilt : (doc.mapTerms field f).Built) (hf : ∀ m : TermMap, (∀ t ∈ m.keys, Table.holdsKey t = true) →
      ∀ t ∈ (f m).keys, Table.holdsKey t = true) : (doc.mapTerms field f).Keyed := by
  refine ⟨hbuilt, fun other => ?_⟩
  rw [terms_mapTerms]
  split
  · exact hf _ (h.2 field)
  · exact h.2 other

theorem holdsKey_of_mem_insert {m : TermMap} (h : ∀ t ∈ m.keys, Table.holdsKey t = true) {term : Bytes}
    (hterm : Table.holdsKey term = true) (positions : List UInt32) :
    ∀ t ∈ (m.insert term positions).keys, Table.holdsKey t = true := by
  intro t ht
  obtain ⟨value, hvalue⟩ := mem_keys_iff.mp ht
  rw [ByteMap.find?_insert] at hvalue
  split at hvalue
  · rename_i heq
    exact heq ▸ hterm
  · exact h t (mem_keys_iff.mpr ⟨value, hvalue⟩)

theorem Document.Keyed.addTerm {doc : Document} (h : doc.Keyed) (field : Field) {term : Bytes}
    (hterm : Table.holdsKey term = true) : (doc.addTerm field term).Keyed := by
  refine h.mapTerms field (h.1.addTerm field term) fun m hm => ?_
  unfold TermMap.addTerm
  split
  · exact hm
  · exact holdsKey_of_mem_insert hm hterm []

theorem Document.Keyed.addPosition {doc : Document} (h : doc.Keyed) (field : Field) {term : Bytes} (position : UInt32)
    (hterm : Table.holdsKey term = true) : (doc.addPosition field term position).Keyed :=
  h.mapTerms field (h.1.addPosition field term position) fun _ hm => holdsKey_of_mem_insert hm hterm _

theorem Document.Fit.storable {r : Naming} {doc : Document} (h : doc.Fit r) (field : Field) :
    Store.Storable (doc.terms field).keys := Store.storable_of_holdsKey (h.terms field)

/-- The documents but the one with the id. -/
def without (id : DocId) (docs : List Document) : List Document := docs.filter (·.id ≠ id)

@[simp] theorem mem_without {id : DocId} {docs : List Document} {doc : Document} :
    doc ∈ without id docs ↔ doc ∈ docs ∧ doc.id ≠ id := by
  simp [without]

theorem without_eq_self {id : DocId} {docs : List Document} (h : ∀ doc ∈ docs, doc.id ≠ id) :
    without id docs = docs := by
  unfold without
  rw [List.filter_eq_self]
  simpa using h

/-! ### Tables by id -/

/-- Under the key of each document the table has what is said of it, and nothing else. -/
def Table.Tabulates (t : Table) (said : Document → Option Bytes) (docs : List Document) : Prop :=
  ∀ key value, t.find? key = some value ↔ ∃ doc ∈ docs, key = DocId.toKey doc.id ∧ said doc = some value

namespace Table.Tabulates

variable {t t' : Table} {said : Document → Option Bytes} {docs : List Document}

theorem nil : Tabulates ∅ said [] := by
  intro key value
  simp

theorem find?_eq_none (h : t.Tabulates said docs) {id : DocId} (hnone : ∀ doc ∈ docs, doc.id ≠ id) :
    t.find? (DocId.toKey id) = none := by
  rw [Option.eq_none_iff_forall_ne_some]
  intro value hvalue
  obtain ⟨doc, hdoc, hkey, _⟩ := (h _ _).mp hvalue
  exact hnone doc hdoc (DocId.toKey_inj.mp hkey).symm

/-- The row of a document is written. -/
theorem put (h : t.Tabulates said docs) {doc : Document}
    (hfind : ∀ key, t'.find? key = if key = DocId.toKey doc.id then said doc else t.find? key) :
    t'.Tabulates said (doc :: without doc.id docs) := by
  intro key value
  rw [hfind, List.exists_mem_cons_iff]
  by_cases hkey : key = DocId.toKey doc.id
  · rw [if_pos hkey]
    constructor
    · exact fun hvalue => .inl ⟨hkey, hvalue⟩
    · rintro (⟨_, hvalue⟩ | ⟨other, hother, hkey', _⟩)
      · exact hvalue
      · exact absurd (DocId.toKey_inj.mp (hkey'.symm.trans hkey)) (mem_without.mp hother).2
  · rw [if_neg hkey, h key value]
    constructor
    · rintro ⟨other, hother, hkey', hvalue⟩
      refine .inr ⟨other, mem_without.mpr ⟨hother, fun hid => hkey (hkey'.trans (hid ▸ rfl))⟩, hkey', hvalue⟩
    · rintro (⟨hkey', _⟩ | ⟨other, hother, hkey', hvalue⟩)
      · exact absurd hkey' hkey
      · exact ⟨other, (mem_without.mp hother).1, hkey', hvalue⟩

/-- The row of a document is erased. -/
theorem drop (h : t.Tabulates said docs) {id : DocId}
    (hfind : ∀ key, t'.find? key = if key = DocId.toKey id then none else t.find? key) :
    t'.Tabulates said (without id docs) := by
  intro key value
  rw [hfind]
  by_cases hkey : key = DocId.toKey id
  · rw [if_pos hkey]
    constructor
    · intro hvalue
      cases hvalue
    · rintro ⟨other, hother, hkey', _⟩
      exact absurd (DocId.toKey_inj.mp (hkey'.symm.trans hkey)) (mem_without.mp hother).2
  · rw [if_neg hkey, h key value]
    constructor
    · rintro ⟨other, hother, hkey', hvalue⟩
      exact ⟨other, mem_without.mpr ⟨hother, fun hid => hkey (hkey'.trans (hid ▸ rfl))⟩, hkey', hvalue⟩
    · rintro ⟨other, hother, hkey', hvalue⟩
      exact ⟨other, (mem_without.mp hother).1, hkey', hvalue⟩

end Table.Tabulates

namespace Store

/-! ### Records -/

/-- The tables of records are those of the documents. -/
structure Records (s : Store) (docs : List Document) : Prop where
  times : s.times.Tabulates (fun doc => some doc.time.encode) docs
  payloads : s.payloads.Tabulates (fun doc => stored? (fun bytes => bytes) doc.payload) docs
  terms : ∀ field, (s.termTable field).Tabulates (fun doc => stored? TermSet.encode (doc.terms field).keys) docs
  modified : ∀ key value, s.modified.find? key = some value ↔
    value = [] ∧ ∃ doc ∈ docs, key = modifiedKey doc.time.modified doc.id

theorem records_empty : (∅ : Store).Records [] := by
  refine ⟨.nil, .nil, fun field => ?_, fun key value => ?_⟩
  · cases field <;> exact .nil
  · constructor
    · intro h
      cases h
    · rintro ⟨_, doc, hdoc, _⟩
      cases hdoc

namespace Records

variable {s s' : Store} {docs : List Document}

theorem hasDocument_iff (h : s.Records docs) (id : DocId) : s.hasDocument id = true ↔ ∃ doc ∈ docs, doc.id = id := by
  unfold hasDocument ByteMap.contains
  rw [Option.isSome_iff_exists]
  constructor
  · rintro ⟨value, hvalue⟩
    obtain ⟨doc, hdoc, hkey, _⟩ := (h.times _ _).mp hvalue
    exact ⟨doc, hdoc, (DocId.toKey_inj.mp hkey).symm⟩
  · rintro ⟨doc, hdoc, rfl⟩
    exact ⟨_, (h.times _ _).mpr ⟨doc, hdoc, rfl, rfl⟩⟩

theorem timeOf?_eq (h : s.Records docs) {id : DocId} {time? : Option TimeInfo} (htime : s.timeOf? id = .ok time?) :
    (time? = none ∧ ∀ doc ∈ docs, doc.id ≠ id) ∨ ∃ doc ∈ docs, doc.id = id ∧ time? = some doc.time := by
  unfold timeOf? at htime
  cases hfind : s.times.find? (DocId.toKey id) with
  | none =>
    rw [hfind] at htime
    cases htime
    refine .inl ⟨rfl, ?_⟩
    rintro doc hdoc rfl
    have hrow := (h.times _ _).mpr ⟨doc, hdoc, rfl, rfl⟩
    rw [hfind] at hrow
    cases hrow
  | some value =>
    obtain ⟨doc, hdoc, hkey, hvalue⟩ := (h.times _ _).mp hfind
    cases hvalue
    rw [hfind] at htime
    simp only [TimeInfo.decode_encode, Malformed.orFail] at htime
    cases htime
    exact .inr ⟨doc, hdoc, (DocId.toKey_inj.mp hkey).symm, rfl⟩

/-- Terms are read back as the documents have them. -/
theorem mem_termsOf_iff (h : s.Records docs) (hterms : ∀ doc ∈ docs, ∀ field, Storable (doc.terms field).keys)
    {field : Field} {id : DocId} {t : Bytes} :
    t ∈ s.termsOf field id ↔ ∃ doc ∈ docs, doc.id = id ∧ t ∈ (doc.terms field).keys := by
  unfold termsOf
  constructor
  · intro ht
    cases hfind : (s.termTable field).find? (DocId.toKey id) with
    | none =>
      rw [hfind] at ht
      cases ht
    | some value =>
      obtain ⟨doc, hdoc, hkey, hvalue⟩ := (h.terms field _ _).mp hfind
      refine ⟨doc, hdoc, (DocId.toKey_inj.mp hkey).symm, ?_⟩
      rw [hfind, ← hvalue, read_stored (hterms doc hdoc field), Ascending.mem_ofList] at ht
      exact ht
  · rintro ⟨doc, hdoc, rfl, ht⟩
    have hsaid : stored? TermSet.encode (doc.terms field).keys = some (TermSet.encode (doc.terms field).keys) :=
      if_neg (by simpa using List.ne_nil_of_mem ht)
    rw [(h.terms field _ _).mpr ⟨doc, hdoc, rfl, hsaid⟩, ← hsaid, read_stored (hterms doc hdoc field)]
    exact Ascending.mem_ofList.mpr ht

end Records

/-- Without the modification time of one document, the times of the others are left. -/
theorem modified_withoutModified {s : Store} {docs : List Document} (h : s.Records docs)
    (hdistinct : ∀ doc ∈ docs, ∀ doc' ∈ docs, doc.id = doc'.id → doc = doc') {id : DocId} {time? : Option TimeInfo}
    (htime : s.timeOf? id = .ok time?) (key value : Bytes) :
    (s.withoutModified id time?).modified.find? key = some value ↔
      value = [] ∧ ∃ doc ∈ without id docs, key = modifiedKey doc.time.modified doc.id := by
  rcases h.timeOf?_eq htime with ⟨rfl, hnone⟩ | ⟨doc, hdoc, hid, rfl⟩
  · rw [without_eq_self hnone]
    exact h.modified key value
  · have hfind : (s.withoutModified id (some doc.time)).modified.find? key =
        if key = modifiedKey doc.time.modified id then none else s.modified.find? key := ByteMap.find?_erase ..
    rw [hfind]
    by_cases hkey : key = modifiedKey doc.time.modified id
    · rw [if_pos hkey]
      constructor
      · intro hvalue
        cases hvalue
      · rintro ⟨_, other, hother, hkey'⟩
        obtain ⟨_, hsame⟩ := modifiedKey_inj.mp (hkey'.symm.trans hkey)
        exact absurd hsame (mem_without.mp hother).2
    · rw [if_neg hkey, h.modified]
      refine and_congr_right fun _ => ⟨?_, ?_⟩
      · rintro ⟨other, hother, hkey'⟩
        refine ⟨other, mem_without.mpr ⟨hother, fun hid' => hkey ?_⟩, hkey'⟩
        rw [hkey', hdistinct other hother doc hdoc (hid'.trans hid.symm), hid]
      · rintro ⟨other, hother, hkey'⟩
        exact ⟨other, (mem_without.mp hother).1, hkey'⟩

namespace Records

variable {s s' : Store} {docs : List Document}

/-- The rows of a document are written. -/
theorem written (h : s.Records docs) (hdistinct : ∀ doc ∈ docs, ∀ doc' ∈ docs, doc.id = doc'.id → doc = doc')
    {doc : Document} {time? : Option TimeInfo} (htime : s.timeOf? doc.id = .ok time?)
    (htimes : s'.times = s.times.insert (DocId.toKey doc.id) doc.time.encode)
    (hpayloads : ∀ key, s'.payloads.find? key =
      if key = DocId.toKey doc.id then stored? (fun bytes => bytes) doc.payload else s.payloads.find? key)
    (hterms : ∀ field key, (s'.termTable field).find? key =
      if key = DocId.toKey doc.id then stored? TermSet.encode (doc.terms field).keys else (s.termTable field).find? key)
    (hmodified : s'.modified =
      (s.withoutModified doc.id time?).modified.insert (modifiedKey doc.time.modified doc.id) []) :
    s'.Records (doc :: without doc.id docs) := by
  refine ⟨h.times.put fun key => ?_, h.payloads.put hpayloads, fun field => (h.terms field).put (hterms field), ?_⟩
  · rw [htimes]
    exact ByteMap.find?_insert ..
  · intro key value
    rw [hmodified, ByteMap.find?_insert, List.exists_mem_cons_iff]
    by_cases hkey : key = modifiedKey doc.time.modified doc.id
    · rw [if_pos hkey]
      constructor
      · intro hvalue
        cases hvalue
        exact ⟨rfl, .inl hkey⟩
      · rintro ⟨rfl, _⟩
        rfl
    · rw [if_neg hkey, modified_withoutModified h hdistinct htime]
      simp only [hkey, false_or]

/-- The rows of a document are erased. -/
theorem removed (h : s.Records docs) (hdistinct : ∀ doc ∈ docs, ∀ doc' ∈ docs, doc.id = doc'.id → doc = doc')
    {id : DocId} {time? : Option TimeInfo} (htime : s.timeOf? id = .ok time?)
    (htimes : s'.times = s.times.erase (DocId.toKey id)) (hpayloads : s'.payloads = s.payloads.erase (DocId.toKey id))
    (hterms : ∀ field key, (s'.termTable field).find? key =
      if key = DocId.toKey id then none else (s.termTable field).find? key)
    (hmodified : s'.modified = (s.withoutModified id time?).modified) : s'.Records (without id docs) := by
  refine ⟨h.times.drop fun key => ?_, h.payloads.drop fun key => ?_,
    fun field => (h.terms field).drop (hterms field), ?_⟩
  · rw [htimes]
    exact ByteMap.find?_erase ..
  · rw [hpayloads]
    exact ByteMap.find?_erase ..
  · intro key value
    rw [hmodified]
    exact modified_withoutModified h hdistinct htime key value

theorem congr (h : s.Records docs) (htimes : s'.times = s.times) (hpayloads : s'.payloads = s.payloads)
    (hterms : ∀ field, s'.termTable field = s.termTable field) (hmodified : s'.modified = s.modified) :
    s'.Records docs := by
  refine ⟨htimes ▸ h.times, hpayloads ▸ h.payloads, fun field => ?_, hmodified ▸ h.modified⟩
  rw [hterms]
  exact h.terms field

end Records

end Store
end FileIndex
