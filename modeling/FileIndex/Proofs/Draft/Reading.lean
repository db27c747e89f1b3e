import FileIndex.Proofs.Draft.Steps
import FileIndex.Proofs.Encoding.Occurrences

/-!
# Occurrences that are read back

A document may be handed over with positions in any order. What of them is stored is read back as it is if the positions
of every document ascend, and as nothing if those of one do not.

* `OccurrenceList.Ordered`: the ids ascend without the id 0, and the positions of each document are as asked.
* `OccurrenceList.Level`, `TermMap.Level`: positions that can be counted and do not go down, for one term and for all.
* `lasting_ordered`: queued changes keep this.
* `Ordered.read_encode`: what is read back.
* `sizedRule`, `Draft.Sized`: what is stored is read back as it is. `Sized.step`, `Sized.commit`: any documents
  keep this.
-/

namespace FileIndex

open Store

namespace OccurrenceList

/-- The ids ascend without the id 0, and the positions of each document are as asked. -/
structure Ordered (Q : List UInt32 → Prop) (os : List Occurrence) : Prop where
  ascending : os.Pairwise (·.id < ·.id)
  nonzero : ∀ o ∈ os, o.id ≠ 0
  positions : ∀ o ∈ os, Q o.positions

variable {Q : List UInt32 → Prop} {o : Occurrence} {os : List Occurrence}

theorem Ordered.nil : Ordered Q [] := ⟨.nil, nofun, nofun⟩

theorem Ordered.imp {Q' : List UInt32 → Prop} (h : Ordered Q os) (himp : ∀ ps, Q ps → Q' ps) : Ordered Q' os :=
  ⟨h.ascending, h.nonzero, fun o ho => himp o.positions (h.positions o ho)⟩

theorem ordered_cons : Ordered Q (o :: os) ↔ (o.id ≠ 0 ∧ Q o.positions) ∧ (∀ o' ∈ os, o.id < o'.id) ∧ Ordered Q os := by
  constructor
  · rintro ⟨hascending, hnonzero, hpositions⟩
    rw [List.pairwise_cons] at hascending
    rw [List.forall_mem_cons] at hnonzero hpositions
    exact ⟨⟨hnonzero.1, hpositions.1⟩, hascending.1, hascending.2, hnonzero.2, hpositions.2⟩
  · rintro ⟨⟨hzero, hfirst⟩, hlt, hascending, hnonzero, hpositions⟩
    exact ⟨List.pairwise_cons.mpr ⟨hlt, hascending⟩, List.forall_mem_cons.mpr ⟨hzero, hnonzero⟩,
      List.forall_mem_cons.mpr ⟨hfirst, hpositions⟩⟩

theorem Ordered.insertOccurrence (hQ : ∀ ps, Q (Ascending.ofList ps)) (h : Ordered Q os) (hid : o.id ≠ 0)
    (hpositions : Q o.positions) : Ordered Q (Draft.insertOccurrence o os) := by
  induction os with
  | nil => exact ordered_cons.mpr ⟨⟨hid, hpositions⟩, nofun, .nil⟩
  | cons x xs ih =>
    obtain ⟨hx, hlt, hxs⟩ := ordered_cons.mp h
    rw [Draft.insertOccurrence]
    split
    · rename_i hbefore
      refine ordered_cons.mpr ⟨hx, fun o' ho' => ?_, ih hxs⟩
      rcases id_of_mem_insertOccurrence ho' with heq | ⟨y, hy, heq⟩
      · exact heq ▸ hbefore
      · exact heq ▸ hlt y hy
    · split
      · exact ordered_cons.mpr ⟨⟨hx.1, hQ _⟩, hlt, hxs⟩
      · rename_i hbefore hsame
        have hfirst : o.id < x.id := by grind
        refine ordered_cons.mpr ⟨⟨hid, hpositions⟩, List.forall_mem_cons.mpr ⟨hfirst, fun o' ho' => ?_⟩, h⟩
        exact UInt64.lt_trans hfirst (hlt o' ho')

/-- The positions can be counted. -/
def Counted (ps : List UInt32) : Prop := ps.length < UInt64.size

/-- The positions can be counted, and ascend. -/
def Level (ps : List UInt32) : Prop := Counted ps ∧ ps.Pairwise (· ≤ ·)

theorem level_of_ascending {ps : List UInt32} (h : ps.Pairwise (· < ·)) : Level ps :=
  ⟨length_lt_of_positions h, h.imp UInt32.le_of_lt⟩

/-- What is level is read back, all else as nothing. -/
theorem Ordered.read_encode (h : Ordered Counted os) :
    (Ordered Level os ∧ readOccurrences (encode os) = os) ∨ readOccurrences (encode os) = [] := by
  have hlength := length_lt_of_ids h.ascending h.nonzero
  have hids := pairwise_zero_cons h.ascending
  unfold readOccurrences
  by_cases hlevel : ∀ o ∈ os, o.positions.Pairwise (· ≤ ·)
  · have hpositions : ∀ o ∈ os, Level o.positions := fun o ho => ⟨h.positions o ho, hlevel o ho⟩
    refine .inl ⟨⟨h.ascending, h.nonzero, hpositions⟩, ?_⟩
    rw [decode_encode_of_ascends ⟨hids, fun o ho => (hpositions o ho).symm⟩ hlength]
    rfl
  · have hdescends : ¬ Ascends 0 os := fun hascends => hlevel fun o ho => (hascends.positions o ho).1
    obtain ⟨cause, hcause⟩ := decode_encode_of_not_ascends ⟨hlength, h.positions⟩ hdescends
    right
    rw [hcause]
    rfl

theorem Ordered.read_encode_of_level (h : Ordered Level os) : readOccurrences (encode os) = os := by
  have hids := pairwise_zero_cons h.ascending
  have hlength := length_lt_of_ids h.ascending h.nonzero
  rw [readOccurrences, decode_encode_of_ascends ⟨hids, fun o ho => (h.positions o ho).symm⟩ hlength]
  rfl

end OccurrenceList

open OccurrenceList

theorem lasting_ordered {Q : List UInt32 → Prop} (hQ : ∀ ps, Q (Ascending.ofList ps)) :
    Draft.Lasting (fun lists => Ordered Q lists.2) fun o => o.id ≠ 0 ∧ Q o.positions := by
  refine ⟨fun {lists o} h hfit => ?_, fun h => ⟨h.ascending.filter _, ?_, ?_⟩⟩
  · show Ordered Q (if o.positions.isEmpty then lists.2 else Draft.insertOccurrence o lists.2)
    split
    · exact h
    · exact h.insertOccurrence hQ hfit.1 hfit.2
  · exact fun o ho => h.nonzero o (List.mem_of_mem_filter ho)
  · exact fun o ho => h.positions o (List.mem_of_mem_filter ho)

/-- The positions of every term can be counted and do not go down. -/
def TermMap.Level (terms : TermMap) : Prop :=
  ∀ t positions, terms.find? t = some positions → OccurrenceList.Level positions

theorem level_ofList (ps : List UInt32) : Level (Ascending.ofList ps) :=
  level_of_ascending (Ascending.pairwise_ofList ps)

/-! ### Runs on any documents -/

/-- The lengths of terms and of lists of positions are machine words. -/
def sizedRule : Rule where
  fit doc := ∀ field, Storable (doc.terms field).keys ∧
    ∀ t positions, (doc.terms field).find? t = some positions → Counted positions

namespace Draft

/-- What is stored is read back as it is, and the lists of the draft can be stored. -/
structure Sized (d : Draft) : Prop where
  listed : Listed (fun lists => Ordered Counted lists.2) d
  stored : ∀ t, Ordered Level (d.store.occurrencesOf t)

theorem Sized.step {resolver : Resolver} {d d' : Draft} (hstep : Step resolver sizedRule d d') (h : d.Sized) :
    d'.Sized := by
  have hterms : ∀ doc, sizedRule.fit doc → ∀ field, Storable (doc.terms field).keys :=
    fun doc hdoc field => (hdoc field).1
  refine ⟨h.listed.step (lasting_ordered fun ps => (level_ofList ps).1) hterms
    (fun doc hdoc hid field t positions hfind => ⟨hid, (hdoc field).2 t positions hfind⟩) hstep, fun t => ?_⟩
  have hsame : d'.store.occurrencesOf t = d.store.occurrencesOf t := by
    unfold Store.occurrencesOf
    rw [hstep.lists_eq.2]
  exact hsame ▸ h.stored t

theorem sized_empty : ({ store := ∅ } : Draft).Sized := by
  have hnil : ∀ t, (∅ : Store).occurrencesOf t = [] := fun t => congrArg (·.2) (listsOf_empty t)
  exact ⟨listed_empty .nil, fun t => hnil t ▸ .nil⟩

theorem Sized.commit {d : Draft} (h : d.Sized) {s : Store} (hcommit : d.commit = .ok s) :
    ({ store := s } : Draft).Sized := by
  refine ⟨h.listed.commit (fun ids os hos => ?_) hcommit, fun t => ?_⟩
  · show Ordered Counted (readOccurrences (OccurrenceList.encode os))
    rcases Ordered.read_encode hos with ⟨_, hread⟩ | hread
    · exact hread ▸ hos
    · exact hread ▸ .nil
  · show Ordered Level (s.occurrencesOf t)
    rw [occurrencesOf_commit_eq hcommit]
    cases hchanges : d.pending.find? t with
    | none => exact h.stored t
    | some changes =>
      rcases (h.listed.lists t).read_encode with ⟨hlevel, hread⟩ | hread
      · exact hread.symm ▸ hlevel
      · exact hread.symm ▸ .nil

end Draft
end FileIndex
