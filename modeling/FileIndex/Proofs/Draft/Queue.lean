import FileIndex.Draft
import Mathlib.Data.List.Sort

/-!
# Queued changes of lists

While a draft is open, the lists of a term are the stored ones with the queued changes carried out.

* `Draft.listsOf`: the ids and the occurrences of a term as a draft has them.
* `listsOf_enqueue`, `listsOf_enqueueTerms`, `listsOf_enqueueRemovals`: what queueing does to them.
* `Lasting`: properties of lists that changes keep. `lasting_ascending`, `lasting_neat`: lists stay sorted.
  `lasting_within`: only listed documents have positions.
* `Tracked`: properties that lists give to documents. `tracked_ids`, `tracked_position`: having a term, and having it
  at a position.
-/

namespace FileIndex

theorem mem_keys_iff {α : Type} {m : ByteMap α} {key : Bytes} : key ∈ m.keys ↔ ∃ value, m.find? key = some value := by
  simp only [ByteMap.keys, List.mem_map, ByteMap.find?_eq_some_iff]
  constructor
  · rintro ⟨⟨_, value⟩, he, rfl⟩
    exact ⟨value, he⟩
  · rintro ⟨value, he⟩
    exact ⟨(key, value), he, rfl⟩

namespace Draft

/-- The lists of a term with the queued changes carried out. -/
def listsOf (d : Draft) (term : Bytes) : List DocId × List Occurrence :=
  ((d.pending.find? term).getD []).foldl applyChange (d.store.idsWith term, d.store.occurrencesOf term)

@[simp] theorem enqueue_store (d : Draft) (term : Bytes) (change : PostingChange) :
    (d.enqueue term change).store = d.store := rfl

@[simp] theorem enqueueTerms_store (d : Draft) (id : DocId) (terms : TermMap) :
    (d.enqueueTerms id terms).store = d.store := by
  unfold enqueueTerms
  induction terms.entries generalizing d with
  | nil => rfl
  | cons e es ih => rw [List.foldl_cons, ih, enqueue_store]

@[simp] theorem enqueueRemovals_store (d : Draft) (id : DocId) (terms : List Bytes) :
    (d.enqueueRemovals id terms).store = d.store := by
  unfold enqueueRemovals
  induction terms generalizing d with
  | nil => rfl
  | cons t ts ih => rw [List.foldl_cons, ih, enqueue_store]

theorem listsOf_fresh (s : Store) (term : Bytes) :
    ({ store := s } : Draft).listsOf term = (s.idsWith term, s.occurrencesOf term) := rfl

/-- The lists depend on the queue and on the stored lists only. -/
theorem listsOf_congr {d d' : Draft} (hpending : d'.pending = d.pending)
    (hpostings : d'.store.postings = d.store.postings) (hoccurrences : d'.store.occurrences = d.store.occurrences)
    (term : Bytes) : d'.listsOf term = d.listsOf term := by
  unfold listsOf Store.idsWith Store.occurrencesOf
  rw [hpending, hpostings, hoccurrences]

/-! ### Queueing -/

theorem listsOf_enqueue (d : Draft) (term : Bytes) (change : PostingChange) (other : Bytes) :
    (d.enqueue term change).listsOf other =
      if other = term then applyChange (d.listsOf term) change else d.listsOf other := by
  unfold listsOf enqueue
  simp only [ByteMap.find?_insert]
  by_cases hother : other = term
  · subst hother
    rw [if_pos rfl, if_pos rfl, Option.getD_some, List.foldl_append]
    rfl
  · rw [if_neg hother, if_neg hother]

/-- Each term of the document gets it once. -/
theorem listsOf_enqueueTerms (d : Draft) (id : DocId) (terms : TermMap) (t : Bytes) :
    (d.enqueueTerms id terms).listsOf t =
      match terms.find? t with
      | some positions => applyChange (d.listsOf t) (.add ⟨id, positions⟩)
      | none => d.listsOf t := by
  obtain ⟨entries, hascending⟩ := terms
  unfold enqueueTerms ByteMap.find?
  induction entries generalizing d with
  | nil => rfl
  | cons e es ih =>
    rw [List.pairwise_cons] at hascending
    obtain ⟨k, positions⟩ := e
    rw [List.foldl_cons, ih _ hascending.2, List.lookup_cons, listsOf_enqueue]
    by_cases ht : t = k
    · subst ht
      have hnone : es.lookup t = none := by
        rw [List.lookup_eq_none_iff]
        intro e he
        have hlt := hascending.1 e he
        simp only [ne_eq, bne_iff_ne]
        rintro rfl
        exact List.lt_irrefl _ hlt
      rw [hnone]
      simp
    · rw [beq_false_of_ne ht, if_neg ht]

theorem applyChange_remove_twice {lists : List DocId × List Occurrence} (h : lists.1.Nodup) (id : DocId) :
    applyChange (applyChange lists (.remove id)) (.remove id) = applyChange lists (.remove id) := by
  have hids : (lists.1.erase id).erase id = lists.1.erase id :=
    List.erase_of_not_mem fun hmem => absurd rfl (h.mem_erase_iff.mp hmem).1
  simp only [applyChange, hids, List.filter_filter, Bool.and_self]

/-- Each term loses the document, however often it is named. -/
theorem listsOf_enqueueRemovals {d : Draft} {id : DocId} {terms : List Bytes} {t : Bytes}
    (h : (d.listsOf t).1.Nodup) :
    (d.enqueueRemovals id terms).listsOf t =
      if t ∈ terms then applyChange (d.listsOf t) (.remove id) else d.listsOf t := by
  unfold enqueueRemovals
  induction terms generalizing d with
  | nil => simp
  | cons u us ih =>
    have hlists := listsOf_enqueue d u (.remove id) t
    rw [List.foldl_cons]
    by_cases ht : t = u
    · subst ht
      rw [if_pos rfl] at hlists
      have hnodup : ((d.enqueue t (.remove id)).listsOf t).1.Nodup := by
        rw [hlists]
        exact h.erase id
      rw [ih hnodup, hlists, if_pos List.mem_cons_self]
      split
      · exact applyChange_remove_twice h id
      · rfl
    · rw [if_neg ht] at hlists
      rw [ih (hlists ▸ h), hlists]
      simp only [List.mem_cons, ht, false_or]

/-! ### What lasts through all changes -/

theorem nodup_of_ascending {ids : List DocId} (h : ids.Pairwise (· < ·)) : ids.Nodup :=
  h.imp fun hlt heq => by grind

/-- Changes keep the property of lists, if what they add is fit. -/
structure Lasting (K : List DocId × List Occurrence → Prop) (fit : Occurrence → Prop) : Prop where
  add : ∀ {lists o}, K lists → fit o → K (applyChange lists (.add o))
  remove : ∀ {lists id}, K lists → K (applyChange lists (.remove id))

section Lasting

variable {K : List DocId × List Occurrence → Prop} {fit : Occurrence → Prop} {d : Draft} {id : DocId}

theorem Lasting.enqueueTerms (h : Lasting K fit) {t : Bytes} (hd : K (d.listsOf t)) {terms : TermMap}
    (hfit : ∀ positions, terms.find? t = some positions → fit ⟨id, positions⟩) :
    K ((d.enqueueTerms id terms).listsOf t) := by
  rw [listsOf_enqueueTerms]
  cases hfind : terms.find? t with
  | none => exact hd
  | some positions => exact h.add hd (hfit positions hfind)

theorem Lasting.enqueueRemovals (h : Lasting K fit) {t : Bytes} (hd : K (d.listsOf t)) (terms : List Bytes) :
    K ((d.enqueueRemovals id terms).listsOf t) := by
  unfold Draft.enqueueRemovals
  induction terms generalizing d with
  | nil => exact hd
  | cons term terms ih =>
    rw [List.foldl_cons]
    apply ih
    rw [listsOf_enqueue]
    split
    · rename_i hterm
      exact h.remove (hterm ▸ hd)
    · exact hd

theorem Lasting.and {K' : List DocId × List Occurrence → Prop} {fit' : Occurrence → Prop} (h : Lasting K fit)
    (h' : Lasting K' fit') : Lasting (fun lists => K lists ∧ K' lists) fun o => fit o ∧ fit' o :=
  ⟨fun hlists hfit => ⟨h.add hlists.1 hfit.1, h'.add hlists.2 hfit.2⟩,
    fun hlists => ⟨h.remove hlists.1, h'.remove hlists.2⟩⟩

theorem Lasting.foldl (h : Lasting K fun _ => True) {lists : List DocId × List Occurrence} (hlists : K lists)
    (changes : List PostingChange) : K (changes.foldl applyChange lists) := by
  induction changes generalizing lists with
  | nil => exact hlists
  | cons change changes ih =>
    cases change with
    | add o => exact ih (h.add hlists trivial)
    | remove id => exact ih (h.remove hlists)

end Lasting

theorem lasting_ascending : Lasting (fun lists => lists.1.Pairwise (· < ·)) fun _ => True :=
  ⟨fun h _ => Ascending.pairwise_insert h, fun h => h.sublist List.erase_sublist⟩

theorem lasting_nonzero : Lasting (fun lists => 0 ∉ lists.1) fun o => o.id ≠ 0 := by
  refine ⟨fun {lists o} h hid hzero => ?_, fun h hzero => h (List.mem_of_mem_erase hzero)⟩
  rcases Ascending.mem_insert.mp hzero with hself | hzero
  · exact hid hself.symm
  · exact h hzero

/-- The ids of every term ascend. -/
def IdsAscend (d : Draft) : Prop := ∀ t, (d.listsOf t).1.Pairwise (· < ·)

theorem IdsAscend.enqueueRemovals {d : Draft} (h : d.IdsAscend) (id : DocId) (terms : List Bytes) :
    (d.enqueueRemovals id terms).IdsAscend := fun t => lasting_ascending.enqueueRemovals (h t) terms

/-- Every queued term can be a key. -/
def Holdable (d : Draft) : Prop := ∀ t ∈ d.pending.keys, Table.holdsKey t = true

theorem Holdable.enqueue {d : Draft} (h : d.Holdable) {term : Bytes} (hterm : Table.holdsKey term = true)
    (change : PostingChange) : (d.enqueue term change).Holdable := by
  intro t ht
  obtain ⟨value, hvalue⟩ := mem_keys_iff.mp ht
  rw [Draft.enqueue, ByteMap.find?_insert] at hvalue
  by_cases heq : t = term
  · exact heq ▸ hterm
  · rw [if_neg heq] at hvalue
    exact h t (mem_keys_iff.mpr ⟨value, hvalue⟩)

theorem Holdable.enqueueTerms {d : Draft} (h : d.Holdable) (id : DocId) {terms : TermMap}
    (hterms : ∀ t ∈ terms.keys, Table.holdsKey t = true) : (d.enqueueTerms id terms).Holdable := by
  have hall : ∀ (es : List (Bytes × List UInt32)) (d : Draft), (∀ e ∈ es, Table.holdsKey e.1 = true) → d.Holdable →
      (es.foldl (fun d e => d.enqueue e.1 (.add ⟨id, e.2⟩)) d).Holdable := by
    intro es
    induction es with
    | nil => exact fun d _ h => h
    | cons e es ih =>
      intro d hes h
      rw [List.forall_mem_cons] at hes
      exact ih _ hes.2 (h.enqueue hes.1 _)
  exact hall terms.entries d (fun e he => hterms e.1 (List.mem_map_of_mem he)) h

theorem Holdable.enqueueRemovals {d : Draft} (h : d.Holdable) (id : DocId) {terms : List Bytes}
    (hterms : ∀ t ∈ terms, Table.holdsKey t = true) : (d.enqueueRemovals id terms).Holdable := by
  unfold Draft.enqueueRemovals
  induction terms generalizing d with
  | nil => exact h
  | cons term terms ih =>
    rw [List.forall_mem_cons] at hterms
    exact ih (h.enqueue hterms.1 _) hterms.2

/-! ### What changes say of a document -/

/-- A property that lists give to ids: adding gives it to the id if the positions are such, removing takes it away. -/
structure Tracked (V : List DocId × List Occurrence → DocId → Prop) (A : List UInt32 → Prop) : Prop where
  add : ∀ {lists o other}, V (applyChange lists (.add o)) other ↔ (other = o.id ∧ A o.positions) ∨ V lists other
  remove : ∀ {lists id other}, lists.1.Nodup → (V (applyChange lists (.remove id)) other ↔ V lists other ∧ other ≠ id)

section Tracked

variable {V : List DocId × List Occurrence → DocId → Prop} {A : List UInt32 → Prop} {d : Draft} {id other : DocId}
  {t : Bytes}

theorem Tracked.enqueueTerms (h : Tracked V A) {terms : TermMap} :
    V ((d.enqueueTerms id terms).listsOf t) other ↔
      (other = id ∧ ∃ positions, terms.find? t = some positions ∧ A positions) ∨ V (d.listsOf t) other := by
  rw [listsOf_enqueueTerms]
  cases hfind : terms.find? t with
  | none => simp
  | some positions => simp [h.add]

theorem Tracked.enqueueRemovals (h : Tracked V A) (hd : d.IdsAscend) {terms : List Bytes} :
    V ((d.enqueueRemovals id terms).listsOf t) other ↔ V (d.listsOf t) other ∧ ¬ (other = id ∧ t ∈ terms) := by
  have hnodup := nodup_of_ascending (hd t)
  rw [listsOf_enqueueRemovals hnodup]
  by_cases ht : t ∈ terms
  · rw [if_pos ht, h.remove hnodup]
    simp [ht]
  · rw [if_neg ht]
    simp [ht]

end Tracked

theorem tracked_ids : Tracked (fun lists id => id ∈ lists.1) fun _ => True := by
  refine ⟨fun {lists o other} => ?_, fun {lists id other} hnodup => ?_⟩
  · simp [applyChange, Ascending.mem_insert]
  · simp only [applyChange, hnodup.mem_erase_iff, and_comm]

end Draft

/-! ### Positions -/

namespace OccurrenceList

/-- The document has the position. -/
def HasPosition (os : List Occurrence) (id : DocId) (position : UInt32) : Prop :=
  ∃ o ∈ os, o.id = id ∧ position ∈ o.positions

/-- The ids ascend without the id 0, and each document has ascending positions and one at least. -/
structure Neat (os : List Occurrence) : Prop where
  ascending : os.Pairwise (·.id < ·.id)
  nonzero : ∀ o ∈ os, o.id ≠ 0
  positions : ∀ o ∈ os, o.positions ≠ [] ∧ o.positions.Pairwise (· < ·)

theorem Neat.nil : Neat [] := ⟨.nil, fun _ h => absurd h List.not_mem_nil, fun _ h => absurd h List.not_mem_nil⟩

theorem neat_cons {o : Occurrence} {os : List Occurrence} : Neat (o :: os) ↔
    (o.id ≠ 0 ∧ o.positions ≠ [] ∧ o.positions.Pairwise (· < ·)) ∧ (∀ o' ∈ os, o.id < o'.id) ∧ Neat os := by
  constructor
  · rintro ⟨hascending, hnonzero, hpositions⟩
    rw [List.pairwise_cons] at hascending
    rw [List.forall_mem_cons] at hnonzero hpositions
    exact ⟨⟨hnonzero.1, hpositions.1⟩, hascending.1, hascending.2, hnonzero.2, hpositions.2⟩
  · rintro ⟨⟨hzero, hfirst⟩, hlt, hascending, hnonzero, hpositions⟩
    exact ⟨List.pairwise_cons.mpr ⟨hlt, hascending⟩, List.forall_mem_cons.mpr ⟨hzero, hnonzero⟩,
      List.forall_mem_cons.mpr ⟨hfirst, hpositions⟩⟩

theorem hasPosition_cons {o : Occurrence} {os : List Occurrence} {id : DocId} {position : UInt32} :
    HasPosition (o :: os) id position ↔ (o.id = id ∧ position ∈ o.positions) ∨ HasPosition os id position :=
  List.exists_mem_cons_iff ..

theorem Neat.eq_of_id_eq {os : List Occurrence} (h : Neat os) {o o' : Occurrence} (ho : o ∈ os) (ho' : o' ∈ os)
    (hid : o'.id = o.id) : o' = o := by
  have hnodup : (os.map (·.id)).Nodup := List.pairwise_map.mpr (h.ascending.imp fun hlt heq => by grind)
  exact List.inj_on_of_nodup_map hnodup ho' ho hid

/-- What a document has in a neat list is told by its positions. -/
theorem Neat.mem_iff {os : List Occurrence} (h : Neat os) {id : DocId} {ps : List UInt32}
    (hascending : ps.Pairwise (· < ·))
    (hps : ∀ p, HasPosition os id p ↔ p ∈ ps) {positions : List UInt32} :
    ⟨id, positions⟩ ∈ os ↔ positions ≠ [] ∧ positions = ps := by
  have hmem : ∀ o ∈ os, o.id = id → o.positions = ps := by
    rintro o ho rfl
    refine (h.positions o ho).2.eq_of_mem_iff hascending fun p => ⟨fun hp => (hps p).mp ⟨o, ho, rfl, hp⟩, fun hp => ?_⟩
    obtain ⟨o', ho', hid, hp'⟩ := (hps p).mpr hp
    exact h.eq_of_id_eq ho ho' hid ▸ hp'
  constructor
  · exact fun ho => ⟨(h.positions _ ho).1, hmem _ ho rfl⟩
  · rintro ⟨hne, rfl⟩
    obtain ⟨p, hp⟩ := List.exists_mem_of_ne_nil _ hne
    obtain ⟨o, ho, rfl, _⟩ := (hps p).mpr hp
    exact hmem o ho rfl ▸ ho

/-- Neat lists are told by the positions in them. -/
theorem Neat.eq_of_hasPosition {os os' : List Occurrence} (h : Neat os) (h' : Neat os')
    (hsame : ∀ id position, HasPosition os id position ↔ HasPosition os' id position) : os = os' := by
  have hsub : ∀ {os os' : List Occurrence}, Neat os → Neat os' →
      (∀ id position, HasPosition os id position ↔ HasPosition os' id position) → ∀ o ∈ os, o ∈ os' := by
    intro os os' h h' hsame o ho
    obtain ⟨hne, hascending⟩ := h.positions o ho
    refine (h'.mem_iff hascending fun position => ?_).mpr ⟨hne, rfl⟩
    rw [← hsame]
    refine ⟨fun ⟨o', ho', hid, hmem⟩ => h.eq_of_id_eq ho ho' hid ▸ hmem, fun hmem => ⟨o, ho, rfl, hmem⟩⟩
  exact h.ascending.eq_of_mem_iff h'.ascending fun o =>
    ⟨hsub h h' hsame o, hsub h' h (fun id position => (hsame id position).symm) o⟩

theorem hasPosition_insertOccurrence {o : Occurrence} {os : List Occurrence} {id : DocId} {position : UInt32} :
    HasPosition (Draft.insertOccurrence o os) id position ↔
      (id = o.id ∧ position ∈ o.positions) ∨ HasPosition os id position := by
  induction os with
  | nil => simp [Draft.insertOccurrence, HasPosition, eq_comm]
  | cons x xs ih =>
    rw [Draft.insertOccurrence]
    split
    · rw [hasPosition_cons, hasPosition_cons, ih]
      grind
    · split
      · rename_i heq
        rw [hasPosition_cons, hasPosition_cons, Ascending.mem_ofList, List.mem_append]
        grind
      · rw [hasPosition_cons]
        grind

theorem id_of_mem_insertOccurrence {o o' : Occurrence} {os : List Occurrence} (h : o' ∈ Draft.insertOccurrence o os) :
    o'.id = o.id ∨ ∃ x ∈ os, o'.id = x.id := by
  induction os with
  | nil =>
    rw [List.mem_singleton.mp h]
    exact .inl rfl
  | cons x xs ih =>
    rw [Draft.insertOccurrence] at h
    grind

theorem Neat.insertOccurrence {o : Occurrence} {os : List Occurrence} (h : Neat os) (hid : o.id ≠ 0)
    (hne : o.positions ≠ []) (hascending : o.positions.Pairwise (· < ·)) : Neat (Draft.insertOccurrence o os) := by
  induction os with
  | nil => exact neat_cons.mpr ⟨⟨hid, hne, hascending⟩, fun o' ho' => absurd ho' List.not_mem_nil, .nil⟩
  | cons x xs ih =>
    obtain ⟨hx, hlt, hxs⟩ := neat_cons.mp h
    rw [Draft.insertOccurrence]
    split
    · rename_i hbefore
      refine neat_cons.mpr ⟨hx, fun o' ho' => ?_, ih hxs⟩
      rcases id_of_mem_insertOccurrence ho' with heq | ⟨y, hy, heq⟩
      · rw [heq]
        exact hbefore
      · rw [heq]
        exact hlt y hy
    · split
      · obtain ⟨position, hposition⟩ := List.exists_mem_of_ne_nil _ hne
        have hmem := Ascending.mem_ofList.mpr (List.mem_append_right x.positions hposition)
        exact neat_cons.mpr ⟨⟨hx.1, List.ne_nil_of_mem hmem, Ascending.pairwise_ofList _⟩, hlt, hxs⟩
      · rename_i hbefore hsame
        have hfirst : o.id < x.id := by grind
        refine neat_cons.mpr ⟨⟨hid, hne, hascending⟩, fun o' ho' => ?_, h⟩
        rcases List.mem_cons.mp ho' with rfl | ho'
        · exact hfirst
        · exact UInt64.lt_trans hfirst (hlt o' ho')

end OccurrenceList

namespace Draft

open OccurrenceList

theorem lasting_neat :
    Lasting (fun lists => Neat lists.2) fun o => o.id ≠ 0 ∧ o.positions.Pairwise (· < ·) := by
  refine ⟨fun {lists o} h hfit => ?_, fun h => ⟨h.ascending.filter _, ?_, ?_⟩⟩
  · show Neat (if o.positions.isEmpty then lists.2 else Draft.insertOccurrence o lists.2)
    split
    · exact h
    · rename_i hne
      exact h.insertOccurrence hfit.1 (by simpa using hne) hfit.2
  · exact fun o ho => h.nonzero o (List.mem_of_mem_filter ho)
  · exact fun o ho => h.positions o (List.mem_of_mem_filter ho)

/-- Only listed documents have positions. -/
theorem lasting_within : Lasting (fun lists => ∀ o ∈ lists.2, o.id ∈ lists.1) fun _ => True := by
  refine ⟨fun {lists o} h _ o' ho' => ?_, fun {lists id} h o ho => ?_⟩
  · show o'.id ∈ Ascending.insert o.id lists.1
    change o' ∈ (if o.positions.isEmpty then lists.2 else Draft.insertOccurrence o lists.2) at ho'
    rw [Ascending.mem_insert]
    split at ho'
    · exact .inr (h o' ho')
    · rcases id_of_mem_insertOccurrence ho' with hself | ⟨x, hx, hid⟩
      · exact .inl hself
      · exact .inr (hid ▸ h x hx)
  · obtain ⟨ho, hne⟩ := List.mem_filter.mp ho
    exact (List.mem_erase_of_ne (by simpa using hne)).mpr (h o ho)

theorem tracked_position (position : UInt32) :
    Tracked (fun lists id => HasPosition lists.2 id position) fun positions => position ∈ positions := by
  refine ⟨fun {lists o other} => ?_, fun {lists id other} _ => ?_⟩
  · show HasPosition (if o.positions.isEmpty then lists.2 else Draft.insertOccurrence o lists.2) other position ↔ _
    split
    · rename_i hempty
      simp [List.isEmpty_iff.mp hempty]
    · exact hasPosition_insertOccurrence
  · simp only [applyChange, HasPosition, List.mem_filter, bne_iff_ne]
    constructor
    · rintro ⟨o, ⟨ho, hne⟩, rfl, hposition⟩
      exact ⟨⟨o, ho, rfl, hposition⟩, hne⟩
    · rintro ⟨⟨o, ho, rfl, hposition⟩, hne⟩
      exact ⟨o, ⟨ho, hne⟩, rfl, hposition⟩

end Draft
end FileIndex
