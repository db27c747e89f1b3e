import FileIndex.Intake
import FileIndex.Proofs.Ledger.Tables
import Mathlib.Data.List.Infix

/-!
# Where the terms of texts stand

A document takes in one text after the other. Its terms stand at successive positions exactly where they follow each
other in one of the texts.

* `Passage`: a text with the field that it goes to. `Passage.placements`: the positions that passages give to
  their terms.
* `Passage.successive_placements_iff`: terms at successive positions are a run of one passage; the induction is on the
  passages, and the gap between two of them keeps a run from crossing it.
* `Document.At`: the document has a term at a position.
* `Source`, `Source.document`: a document that is made of passages. `Source.at_document_iff`: where its terms stand.
-/

namespace FileIndex

/-- A text that is taken in: the field that it goes to, and what is put in front of each of its terms. -/
structure Passage where
  field : Field
  lead : Bytes := []
  text : String

namespace Passage

variable (tokens : Tokenizer)

/-- The terms of the text as they are stored. -/
def terms (p : Passage) : List Bytes := (tokens p.text).map (p.lead ++ ·)

/-- The terms with their positions, counted from `start`. A single term has none. -/
def placed (start : Nat) (p : Passage) : List (Bytes × Nat) :=
  if (p.terms tokens).length = 1 then [] else (p.terms tokens).zipIdx start

/-- How far positions go on with the passage; one is left out after it. -/
def span (p : Passage) : Nat := if (p.terms tokens).length = 1 then 0 else (p.terms tokens).length + 1

/-- How far positions go on with all passages. -/
def spanAll : List Passage → Nat
  | [] => 0
  | p :: ps => p.span tokens + spanAll ps

/-- The terms of all passages with their positions. -/
def placements (start : Nat) : List Passage → List (Bytes × Nat)
  | [] => []
  | p :: ps => p.placed tokens start ++ placements (start + p.span tokens) ps

end Passage

/-! ### Successive positions -/

/-- The terms stand one after the other, the first of them at `start`. -/
def Successive (places : List (Bytes × Nat)) (start : Nat) (ws : List Bytes) : Prop :=
  ∀ i (h : i < ws.length), (ws[i], start + i) ∈ places

section Successive

variable {places places' : List (Bytes × Nat)} {start : Nat} {ws ts : List Bytes}

theorem Successive.mono (h : Successive places start ws) (hsub : places ⊆ places') : Successive places' start ws :=
  fun i hi => hsub (h i hi)

/-- In a single text, terms stand one after the other where they follow each other. -/
theorem successive_zipIdx_iff {first : Nat} : (∃ start, Successive (ts.zipIdx first) start ws) ↔ ws <:+: ts := by
  constructor
  · rintro ⟨start, h⟩
    rcases ws.eq_nil_or_concat with rfl | ⟨_, _, hws⟩
    · exact List.nil_infix
    have hpos : 0 < ws.length := by simp [hws]
    have hfirst : first ≤ start := (List.mk_mem_zipIdx_iff_le_and_getElem?_sub.mp (h 0 hpos)).1
    have hrun : ws <+: ts.drop (start - first) := by
      rw [List.prefix_iff_getElem?]
      intro i hi
      have hplace := (List.mk_mem_zipIdx_iff_le_and_getElem?_sub.mp (h i hi)).2
      rw [List.getElem?_drop, ← hplace]
      congr 1
      omega
    exact hrun.isInfix.trans (List.drop_suffix _ ts).isInfix
  · rintro ⟨before, behind, rfl⟩
    refine ⟨first + before.length, fun i hi => ?_⟩
    rw [List.mk_mem_zipIdx_iff_le_and_getElem?_sub]
    refine ⟨by omega, ?_⟩
    rw [show first + before.length + i - first = before.length + i by omega, List.append_assoc,
      List.getElem?_append_right (by omega), Nat.add_sub_cancel_left, List.getElem?_append_left hi,
      List.getElem?_eq_getElem hi]

/-- Terms one after the other do not cross a position that is left out. -/
theorem Successive.of_gap {next : Nat} (h : Successive (places ++ places') start ws)
    (hbefore : ∀ x ∈ places, x.2 + 1 < next) (hbehind : ∀ x ∈ places', next ≤ x.2) :
    Successive places start ws ∨ Successive places' start ws := by
  have hside : ∀ i (hi : i < ws.length), start + i < next → (ws[i], start + i) ∈ places := by
    intro i hi hlt
    rcases List.mem_append.mp (h i hi) with hmem | hmem
    · exact hmem
    · exact absurd (hbehind _ hmem) (Nat.not_le.mpr hlt)
  by_cases hstart : start < next
  · left
    -- by induction along the run: a place before the gap is followed by one that is not behind it
    have hrun : ∀ i, i < ws.length → start + i < next := by
      intro i hi
      induction i with
      | zero => exact hstart
      | succ i ih => exact hbefore _ (hside i (by omega) (ih (by omega)))
    exact fun i hi => hside i hi (hrun i hi)
  · right
    intro i hi
    rcases List.mem_append.mp (h i hi) with hmem | hmem
    · have hlt : start + i + 1 < next := hbefore _ hmem
      omega
    · exact hmem

end Successive

namespace Passage

variable {tokens : Tokenizer} {start : Nat} {p : Passage} {ps : List Passage} {x : Bytes × Nat} {ws : List Bytes}

/-- The last position of the passage's span is left out. -/
theorem lt_of_mem_placed (hx : x ∈ p.placed tokens start) : x.2 + 1 < start + p.span tokens := by
  unfold placed at hx
  unfold span
  split at hx
  · cases hx
  · rename_i hlength
    rw [if_neg hlength]
    have hlt := List.snd_lt_add_of_mem_zipIdx hx
    omega

theorem le_of_mem_placements (hx : x ∈ placements tokens start ps) : start ≤ x.2 := by
  induction ps generalizing start with
  | nil => cases hx
  | cons p ps ih =>
    rcases List.mem_append.mp hx with hx | hx
    · unfold placed at hx
      split at hx
      · cases hx
      · exact List.le_snd_of_mem_zipIdx hx
    · exact Nat.le_of_add_right_le (ih hx)

/-- Several terms stand one after the other where they follow each other in one of the passages. -/
theorem successive_placements_iff (start : Nat) (hws : 2 ≤ ws.length) :
    (∃ n, Successive (placements tokens start ps) n ws) ↔ ∃ p ∈ ps, ws <:+: p.terms tokens := by
  induction ps generalizing start with
  | nil =>
    refine ⟨fun ⟨n, h⟩ => ?_, nofun⟩
    cases h 0 (by omega)
  | cons p ps ih =>
    have hown : (∃ n, Successive (p.placed tokens start) n ws) ↔ ws <:+: p.terms tokens := by
      unfold placed
      split
      · rename_i hlength
        refine ⟨fun ⟨n, h⟩ => ?_, fun hrun => ?_⟩
        · cases h 0 (by omega)
        · have hle := hrun.length_le
          omega
      · exact successive_zipIdx_iff
    have hothers : (∃ n, Successive (placements tokens (start + p.span tokens) ps) n ws) ↔
      ∃ q ∈ ps, ws <:+: q.terms tokens :=
      ih _
    rw [List.exists_mem_cons_iff, ← hothers, ← hown]
    constructor
    · rintro ⟨n, h⟩
      rcases Successive.of_gap h (fun _ => lt_of_mem_placed) fun _ => le_of_mem_placements with h | h
      · exact .inl ⟨n, h⟩
      · exact .inr ⟨n, h⟩
    · rintro (⟨n, h⟩ | ⟨n, h⟩)
      · exact ⟨n, h.mono (List.subset_append_left _ _)⟩
      · exact ⟨n, h.mono (List.subset_append_right _ _)⟩

end Passage

/-! ### Taking in -/

/-- The positions of a term, none if it is not there. -/
def TermMap.positions (m : TermMap) (t : Bytes) : List UInt32 := (m.find? t).getD []

theorem TermMap.positions_addTerm (m : TermMap) (term t : Bytes) : (m.addTerm term).positions t = m.positions t := by
  unfold positions addTerm
  split
  · rfl
  · rename_i hnew
    rw [ByteMap.find?_insert]
    split
    · rename_i ht
      have hnone : m.find? term = none := by simpa [ByteMap.contains] using hnew
      rw [ht, hnone]
      rfl
    · rfl

theorem TermMap.mem_positions_addPosition {m : TermMap} {term t : Bytes} {position p : UInt32} :
    p ∈ (m.addPosition term position).positions t ↔ (t = term ∧ p = position) ∨ p ∈ m.positions t := by
  unfold positions addPosition
  rw [ByteMap.find?_insert]
  by_cases ht : t = term
  · rw [if_pos ht, ht, Option.getD_some, Ascending.mem_insert]
    simp
  · rw [if_neg ht]
    simp [ht]

namespace Document

/-- The document has the term at the position in one of its fields. -/
def At (doc : Document) (t : Bytes) (n : Nat) : Prop := ∃ field, ∃ p ∈ (doc.terms field).positions t, p.toNat = n

variable {doc : Document} {field : Field} {term t : Bytes} {n : Nat}

/-- A term without a position stands nowhere. -/
theorem at_addTerm_iff : (doc.addTerm field term).At t n ↔ doc.At t n := by
  unfold At
  have hpositions : ∀ other, ((doc.addTerm field term).terms other).positions t = (doc.terms other).positions t := by
    intro other
    rw [addTerm, terms_mapTerms]
    split
    · rename_i hother
      rw [hother, TermMap.positions_addTerm]
    · rfl
  simp only [hpositions]

theorem at_addPosition_iff {position : UInt32} :
    (doc.addPosition field term position).At t n ↔ (t = term ∧ n = position.toNat) ∨ doc.At t n := by
  have hpositions : ∀ other p, p ∈ ((doc.addPosition field term position).terms other).positions t ↔
      (other = field ∧ t = term ∧ p = position) ∨ p ∈ (doc.terms other).positions t := by
    intro other p
    rw [addPosition, terms_mapTerms]
    by_cases hother : other = field
    · rw [if_pos hother, TermMap.mem_positions_addPosition, hother]
      simp
    · rw [if_neg hother]
      simp [hother]
  unfold At
  simp only [hpositions]
  constructor
  · rintro ⟨other, p, ⟨_, ht, rfl⟩ | hold, rfl⟩
    · exact .inl ⟨ht, rfl⟩
    · exact .inr ⟨other, p, hold, rfl⟩
  · rintro (⟨ht, rfl⟩ | ⟨other, p, hold, rfl⟩)
    · exact ⟨field, position, .inl ⟨rfl, ht, rfl⟩, rfl⟩
    · exact ⟨other, p, .inr hold, rfl⟩

end Document

namespace Intake

open Passage

variable {tokens : Tokenizer} {i : Intake} {field : Field} {p : Passage} {ps : List Passage} {t : Bytes} {n : Nat}

/-- Takes in passages one after the other. -/
def indexAll (tokens : Tokenizer) (ps : List Passage) (i : Intake) : Intake :=
  ps.foldl (fun i p => i.index tokens p.field p.lead p.text) i

theorem index_of_single (h : p.terms tokens = [t]) :
    i.index tokens p.field p.lead p.text = { i with doc := i.doc.addTerm p.field t } := by
  unfold Passage.terms at h
  obtain ⟨term, hterm, rfl⟩ := List.map_eq_singleton_iff.mp h
  unfold index
  rw [hterm]

theorem index_of_several (h : (p.terms tokens).length ≠ 1) :
    i.index tokens p.field p.lead p.text =
      { (p.terms tokens).foldl (addNext p.field) i with
        position := ((p.terms tokens).foldl (addNext p.field) i).position + 1 } := by
  unfold Passage.terms at h ⊢
  unfold index
  rw [List.length_map] at h
  split
  · rename_i hterm
    rw [hterm] at h
    exact absurd rfl h
  · rfl

theorem toNat_add_one {position : UInt32} (h : position.toNat + 1 < UInt32.size) :
    (position + 1).toNat = position.toNat + 1 := by
  rw [UInt32.toNat_add, UInt32.toNat_one]
  exact Nat.mod_eq_of_lt h

/-- Terms that are added one after the other stand at successive positions. -/
theorem at_foldl_addNext (ts : List Bytes) (h : i.position.toNat + ts.length < UInt32.size) :
    (ts.foldl (addNext field) i).position.toNat = i.position.toNat + ts.length ∧
      ((ts.foldl (addNext field) i).doc.At t n ↔ (t, n) ∈ ts.zipIdx i.position.toNat ∨ i.doc.At t n) := by
  induction ts generalizing i with
  | nil => exact ⟨rfl, by simp⟩
  | cons term ts ih =>
    rw [List.length_cons] at h
    have hnext : (addNext field i term).position.toNat = i.position.toNat + 1 := toNat_add_one (by omega)
    obtain ⟨hposition, hat⟩ := ih (i := addNext field i term) (by omega)
    rw [List.foldl_cons]
    refine ⟨by rw [hposition, List.length_cons]; omega, ?_⟩
    rw [hat, hnext, List.zipIdx_cons, List.mem_cons, Prod.mk.injEq]
    have hfirst : (addNext field i term).doc.At t n ↔ (t = term ∧ n = i.position.toNat) ∨ i.doc.At t n :=
      Document.at_addPosition_iff
    rw [hfirst, or_left_comm, or_assoc]

/-- A passage is taken in where positions stand; they go on by its span. -/
theorem at_index (h : i.position.toNat + p.span tokens < UInt32.size) :
    (i.index tokens p.field p.lead p.text).position.toNat = i.position.toNat + p.span tokens ∧
      ((i.index tokens p.field p.lead p.text).doc.At t n ↔
        (t, n) ∈ p.placed tokens i.position.toNat ∨ i.doc.At t n) := by
  unfold span placed at *
  by_cases hlength : (p.terms tokens).length = 1
  · obtain ⟨term, hterm⟩ := List.length_eq_one_iff.mp hlength
    rw [index_of_single hterm, if_pos hlength, if_pos hlength]
    exact ⟨rfl, by simp [Document.at_addTerm_iff]⟩
  · rw [if_neg hlength] at h
    rw [index_of_several hlength, if_neg hlength, if_neg hlength]
    have hterms : i.position.toNat + (p.terms tokens).length < UInt32.size := by omega
    obtain ⟨hposition, hat⟩ := at_foldl_addNext (p.terms tokens) hterms
    refine ⟨?_, hat⟩
    rw [toNat_add_one, hposition, Nat.add_assoc]
    rw [hposition, Nat.add_assoc]
    exact h

/-- Passages are taken in one after the other. -/
theorem at_indexAll (h : i.position.toNat + spanAll tokens ps < UInt32.size) :
    (i.indexAll tokens ps).doc.At t n ↔ (t, n) ∈ placements tokens i.position.toNat ps ∨ i.doc.At t n := by
  induction ps generalizing i with
  | nil => simp [indexAll, placements]
  | cons p ps ih =>
    rw [spanAll, ← Nat.add_assoc] at h
    obtain ⟨hposition, hat⟩ := at_index (Nat.lt_of_le_of_lt (Nat.le_add_right _ _) h)
    have hrest := ih (i := i.index tokens p.field p.lead p.text) (hposition ▸ h)
    rw [hat, hposition] at hrest
    show ((i.index tokens p.field p.lead p.text).indexAll tokens ps).doc.At t n ↔ _
    rw [hrest, placements, List.mem_append, or_left_comm, or_assoc]

/-- What adding terms and positions keeps is kept by taking in passages. -/
theorem keep_indexAll {P : Document → Prop}
    (hterm : ∀ p ∈ ps, ∀ t ∈ p.terms tokens, ∀ doc, P doc → P (doc.addTerm p.field t))
    (hposition : ∀ p ∈ ps, ∀ t ∈ p.terms tokens, ∀ doc position, P doc → P (doc.addPosition p.field t position))
    (h : P i.doc) : P (i.indexAll tokens ps).doc := by
  induction ps generalizing i with
  | nil => exact h
  | cons p ps ih =>
    rw [List.forall_mem_cons] at hterm hposition
    have hindexed : P (i.index tokens p.field p.lead p.text).doc := by
      by_cases hlength : (p.terms tokens).length = 1
      · obtain ⟨term, hsingle⟩ := List.length_eq_one_iff.mp hlength
        rw [index_of_single hsingle]
        exact hterm.1 term (by rw [hsingle]; exact List.mem_singleton_self term) i.doc h
      · rw [index_of_several hlength]
        refine List.foldlRecOn (p.terms tokens) (addNext p.field) (motive := (P ·.doc)) h fun j hj t ht => ?_
        exact hposition.1 t ht j.doc j.position hj
    exact ih hterm.2 hposition.2 hindexed

end Intake

/-! ### Documents made of passages -/

/-- What a document is made of: its records, and the passages that are taken in one after the other. -/
structure Source where
  id : DocId
  url : Bytes := []
  time : TimeInfo := ⟨0, 0⟩
  contentPending : Bool := false
  payload : Bytes := []
  passages : List Passage

namespace Source

variable (tokens : Tokenizer)

/-- The document before it takes in a text. -/
def plain (src : Source) : Document :=
  { id := src.id, url := src.url, time := src.time, contentPending := src.contentPending, payload := src.payload }

/-- The document with all passages taken in. -/
def document (src : Source) : Document := (({ doc := src.plain } : Intake).indexAll tokens src.passages).doc

/-- Positions do not overflow, and terms are no longer than keys may be. -/
structure Fits (src : Source) : Prop where
  counted : 1 + Passage.spanAll tokens src.passages < UInt32.size
  keys : ∀ p ∈ src.passages, ∀ t ∈ p.terms tokens, t.length ≤ Table.maxKeyLength

variable {tokens} {src : Source} {t : Bytes} {n : Nat}

theorem id_document : (src.document tokens).id = src.id := by
  have hsame : ∀ (doc : Document) field f, (doc.mapTerms field f).id = doc.id :=
    fun doc field f => by cases field <;> rfl
  exact Intake.keep_indexAll (P := (·.id = src.id)) (fun p _ t _ doc hdoc => (hsame doc p.field _).trans hdoc)
    (fun p _ t _ doc _ hdoc => (hsame doc p.field _).trans hdoc) rfl

theorem keyed_document (htokens : ∀ text, [] ∉ tokens text) (h : src.Fits tokens) : (src.document tokens).Keyed := by
  have hkeys : ∀ p ∈ src.passages, ∀ t ∈ p.terms tokens, Table.holdsKey t = true := by
    intro p hp t ht
    have hne : t ≠ [] := by
      obtain ⟨term, hterm, rfl⟩ := List.mem_map.mp ht
      have hne : term ≠ [] := fun hnil => htokens p.text (hnil ▸ hterm)
      simp [hne]
    simp [Table.holdsKey, hne, h.keys p hp t ht]
  have hplain : src.plain.Keyed := .plain ..
  exact Intake.keep_indexAll (fun p hp t ht doc hdoc => hdoc.addTerm p.field (hkeys p hp t ht))
    (fun p hp t ht doc position hdoc => hdoc.addPosition p.field position (hkeys p hp t ht)) hplain

/-- The terms of the document stand where the passages have them. -/
theorem at_document_iff (h : src.Fits tokens) :
    (src.document tokens).At t n ↔ (t, n) ∈ Passage.placements tokens 1 src.passages := by
  have hplain : ¬ src.plain.At t n := by
    rintro ⟨field, p, hp, _⟩
    cases field <;> cases hp
  have hat := Intake.at_indexAll (i := { doc := src.plain }) (t := t) (n := n) h.counted
  exact hat.trans (or_iff_left hplain)

end Source
end FileIndex
