import FileIndex.Proofs.Removal
import FileIndex.Proofs.Tree.Subtree

/-!
# What is left of a removed subtree

A subtree is listed once, and then its ids are removed one after the other. Each removal may take folders along,
also such as are still to be removed. This does no harm: an id that has lost its entry is removed as any other.

* `Store.BottomUp`, `Linked.bottomUp`: the subtree of an id in an order in which each id comes after all below it.
* `Store.Felled`: documents are removed one after the other. What that means for those removed (`Felled.forgets`,
  `Felled.gone`), for all others (`Felled.spares`), and for the folders above them
  (`Felled.lost`, `Felled.not_hasEntry`).
* `Orderly.removeAll`, `Orderly.removeSubtree`: that is what removing them does, and how a subtree is removed.
* `Session.subtree_removed`: of a removed subtree nothing is left, and nothing else goes but folders left behind.
-/

namespace FileIndex

open Store

namespace Store

variable {s s' : Store} {id x : DocId} {ids : List DocId}

/-! ### The order -/

/-- All that is below an id and the id itself, each once and after all that is below it. -/
structure BottomUp (s : Store) (id : DocId) (order : List DocId) : Prop where
  once : order.Nodup
  mem_iff : ∀ x, x ∈ order ↔ Relation.ReflTransGen s.HangsFrom x id
  first : ∀ before x after, order = before ++ x :: after → ∀ y, Relation.TransGen s.HangsFrom y x → y ∈ before

theorem Linked.isChild_iff (h : s.Linked) {parent : DocId} : s.IsChild parent x ↔ s.HangsFrom x parent := by
  rw [← h.lists_iff]
  refine ⟨fun ⟨_, hlists⟩ => hlists, fun hlists => ⟨?_, hlists⟩⟩
  exact ((h.lists_iff parent x).mp hlists).ne_zero

theorem ne_zero_of_below (hid : id ≠ 0) (h : Relation.ReflTransGen s.HangsFrom x id) : x ≠ 0 := by
  obtain rfl | ⟨_, hangs, _⟩ := Relation.ReflTransGen.cases_head h
  · exact hid
  · exact hangs.ne_zero

/-- What a walk from an id can visit, and at which levels. -/
def BelowAt (s : Store) (id x : DocId) (level : Nat) : Prop :=
  Relation.ReflTransGen s.HangsFrom x id ∧ (level = 0 ∨ ∃ way, s.WayUp x way ∧ level < way.length)

/-- A level is less than the length of the way up, so that the limit of levels is not reached. -/
theorem Linked.belowAt_step (h : s.Linked) (hshallow : s.Shallow) (hid : id ≠ 0) (x : DocId) (level : Nat)
    (hx : s.BelowAt id x level) : level < maxDepth ∧ ∀ child, s.IsChild x child → s.BelowAt id child (level + 1) := by
  obtain ⟨hbelow, hlevel⟩ := hx
  refine ⟨?_, fun child hchild => ?_⟩
  · obtain rfl | ⟨way, hway, hlt⟩ := hlevel
    · decide
    · exact hlt.trans_le (hshallow.length_le hway)
  · have hangs := h.isChild_iff.mp hchild
    obtain ⟨way, hway, _⟩ := hshallow child hangs.hasEntry
    refine ⟨.head hangs hbelow, .inr ⟨way, hway, ?_⟩⟩
    obtain ⟨above, rfl, habove⟩ := hway.of_hangsFrom hangs
    rw [List.length_cons, Nat.add_lt_add_iff_right]
    obtain rfl | ⟨_, hway', hlt⟩ := hlevel
    · cases habove with
      | root => exact absurd rfl (ne_zero_of_below hid hbelow)
      | up => exact Nat.zero_lt_succ _
    · rwa [habove.unique hway']

/-- The walk from an id finds just what is below it. -/
theorem Linked.mem_subtree (h : s.Linked) (hshallow : s.Shallow) (hid : id ≠ 0) (hids : s.subtree id = .ok ids) :
    x ∈ ids ↔ Relation.ReflTransGen s.HangsFrom x id := by
  have hstart : s.BelowAt id id 0 := ⟨.refl, .inl rfl⟩
  obtain ⟨out, hout, hself, hsound, hdown⟩ := subtree_spec h.readable (h.belowAt_step hshallow hid) hstart
  cases hids.symm.trans hout
  refine ⟨fun hx => ?_, fun hx => ?_⟩
  · obtain ⟨_, hbelow, _⟩ := hsound x hx
    exact hbelow
  · induction hx using Relation.ReflTransGen.head_induction_on with
    | refl => exact hself
    | head hangs _ ih => exact hdown _ ih _ (h.isChild_iff.mpr hangs)

/-- The walk visits what hangs from an id after the id. -/
theorem Linked.visited_later (h : s.Linked) (hshallow : s.Shallow) (hid : id ≠ 0)
    {before after : List DocId} {y : DocId}
    (hids : s.subtree id = .ok (before ++ x :: after)) (hangs : s.HangsFrom y x) : y ∈ after := by
  obtain ⟨_, hout, _, hnodup, hled⟩ := subtree_walk h.readable.childrenRead id
  cases hids.symm.trans hout
  have hacyclic := not_transGen_of_ways fun other hother => (hshallow other hother).imp fun _ hway => hway.1
  have hx : Relation.ReflTransGen s.HangsFrom x id := (h.mem_subtree hshallow hid hids).mp (by simp)
  have hy : y ∈ before ++ x :: after := (h.mem_subtree hshallow hid hids).mpr (.head hangs hx)
  obtain hbefore | hy := List.mem_append.mp hy
  · exfalso
    -- the walk comes to it from what it hangs from, and from nowhere else
    obtain ⟨earlier, later, rfl⟩ := List.append_of_mem hbefore
    rw [List.append_assoc, List.cons_append] at hled hnodup
    obtain rfl | ⟨parent, hparent, hchild⟩ := hled.of_append
    · exact hacyclic y (.head' hangs hx)
    · cases hangs.unique (h.isChild_iff.mp hchild)
      exact List.disjoint_of_nodup_append hnodup hparent (by simp)
  · obtain rfl | hy := List.mem_cons.mp hy
    · exact absurd (.single hangs) (hacyclic y)
    · exact hy

/-- The other way round, what is below an id comes before the id. -/
theorem Linked.bottomUp (h : s.Linked) (hshallow : s.Shallow) (hid : id ≠ 0) :
    ∃ ids, s.subtree id = .ok ids ∧ BottomUp s id ids.reverse := by
  obtain ⟨out, hout, _, hnodup, _⟩ := subtree_walk h.readable.childrenRead id
  refine ⟨out, hout, List.nodup_reverse.mpr hnodup,
    fun x => List.mem_reverse.trans (h.mem_subtree hshallow hid hout), ?_⟩
  have hdirect : ∀ before x after, out.reverse = before ++ x :: after → ∀ y, s.HangsFrom y x → y ∈ before := by
    intro before x after hsplit y hangs
    have hback : out = after.reverse ++ x :: before.reverse := by
      rw [← List.reverse_reverse out, hsplit]
      simp
    exact List.mem_reverse.mp (h.visited_later hshallow hid (hback ▸ hout) hangs)
  intro before x after hsplit y hbelow
  induction hbelow using Relation.TransGen.head_induction_on with
  | single hangs => exact hdirect before x after hsplit _ hangs
  | @head y z hangs _ ih =>
    obtain ⟨earlier, later, rfl⟩ := List.append_of_mem ih
    rw [List.append_assoc, List.cons_append] at hsplit
    exact List.mem_append_left _ (hdirect earlier z _ hsplit y hangs)

/-! ### One after the other -/

/-- One after the other these documents are removed from a store in order. -/
inductive Felled : List DocId → Store → Store → Prop
  | nil {s : Store} : s.Orderly → Felled [] s s
  | cons {id : DocId} {ids : List DocId} {s s₁ s' : Store} : s.Orderly → Erased id s s₁ → Unlinked id s s₁ →
    Felled ids s₁ s' → Felled (id :: ids) s s'

namespace Felled

theorem start (h : Felled ids s s') : s.Orderly := by
  cases h with
  | nil horderly | cons horderly => exact horderly

theorem finish (h : Felled ids s s') : s'.Orderly := by
  induction h with
  | nil horderly => exact horderly
  | cons _ _ _ _ ih => exact ih

/-- Everything that is stored of other documents stays. -/
theorem spares (h : Felled ids s s') (hx : x ∉ ids) : Spares x s s' := by
  induction h with
  | nil => exact .refl x _
  | cons _ herased _ _ ih =>
    rw [List.mem_cons, not_or] at hx
    exact (herased.spares hx.1).trans (ih hx.2)

/-- Nothing is left of the documents themselves. -/
theorem forgets (h : Felled ids s s') (hx : x ∈ ids) : s'.Forgets x := by
  induction h with
  | nil => cases hx
  | @cons id ids s s₁ s' horderly herased _ hrest ih =>
    by_cases hlater : x ∈ ids
    · exact ih hlater
    · cases (List.mem_cons.mp hx).resolve_right hlater
      exact (hrest.spares hlater).forgets (herased.forgets horderly.nodup horderly.dated)

theorem thinned (h : Felled ids s s') : Thinned s s' := by
  induction h with
  | nil => exact fun _ => .inr rfl
  | cons _ _ hunlinked _ ih => exact hunlinked.thinned.trans ih

/-- Where each id comes after all that hangs from it, all of them lose their entries. -/
theorem gone_of_first (h : Felled ids s s')
    (hfirst : ∀ before x after, ids = before ++ x :: after → ∀ y, s.HangsFrom y x → y ∈ before) (hx : x ∈ ids) :
    s'.pathEntryOf? x = .ok none := by
  induction h with
  | nil => cases hx
  | @cons id ids s s₁ s' horderly _ hunlinked hrest ih =>
    -- nothing is left below the first, so that it goes, and nothing hangs from it that is still to be removed
    have hbare : s.Bare id := by
      intro child hchild
      exact absurd (hfirst [] id ids rfl child ((horderly.linked.lists_iff id child).mp hchild)) List.not_mem_nil
    have hgone : s₁.pathEntryOf? id = .ok none := hunlinked.gone hbare
    obtain rfl | hx := List.mem_cons.mp hx
    · obtain hnone | hsame := hrest.thinned x
      · exact hnone
      · exact hsame.trans hgone
    · refine ih (fun before x after hsplit y hangs => ?_) hx
      have hy := hfirst (id :: before) x after (by rw [hsplit, List.cons_append]) y (hunlinked.thinned.hangsFrom hangs)
      obtain rfl | hy := List.mem_cons.mp hy
      · exact absurd hangs.hasEntry (not_hasEntry_of_none hgone)
      · exact hy

theorem gone (h : Felled ids s s') (horder : BottomUp s id ids) (hx : x ∈ ids) : s'.pathEntryOf? x = .ok none :=
  h.gone_of_first (fun before y after hsplit z hangs => horder.first before y after hsplit z (.single hangs)) hx

/-- What else loses its entry is above a removed document and no document itself. -/
theorem lost (h : Felled ids s s') (hx : x ∉ ids) (hentry : s.HasEntry x) (hlost : ¬ s'.HasEntry x) :
    s.hasDocument x = false ∧ ∃ id ∈ ids, Relation.TransGen s.HangsFrom id x := by
  induction h with
  | nil => exact absurd hentry hlost
  | @cons id ids s s₁ s' _ herased hunlinked _ ih =>
    rw [List.mem_cons, not_or] at hx
    by_cases hstays : s₁.HasEntry x
    · obtain ⟨hdocument, below, hbelow, habove⟩ := ih hx.2 hstays hlost
      refine ⟨(herased.spares hx.1).hasDocument ▸ hdocument, below, List.mem_cons_of_mem id hbelow, ?_⟩
      exact Relation.TransGen.mono (fun _ _ => hunlinked.thinned.hangsFrom) _ _ habove
    · have hdeserted : Deserted s s₁ id x := by
        by_contra hnot
        obtain ⟨e, he⟩ := hentry
        exact hstays ⟨e, (hunlinked.others x hx.1 hnot).trans he⟩
      exact ⟨hdeserted.noDocument, id, List.mem_cons_self, hdeserted.above⟩

/-- A folder that is no document goes when it is left with nothing below it. -/
theorem not_hasEntry (h : Felled ids s s') (hx : x ∉ ids) (hdocument : s.hasDocument x = false) (hfull : ¬ s.Bare x)
    (hbare : s'.Bare x) : ¬ s'.HasEntry x := by
  induction h with
  | nil => exact absurd hbare hfull
  | @cons id ids s s₁ s' horderly herased hunlinked hrest ih =>
    rw [List.mem_cons, not_or] at hx
    by_cases hbare₁ : s₁.Bare x
    · have habove := hunlinked.above_of_bare horderly.linked hrest.start.linked hfull hbare₁
      have hgone := hunlinked.deserted x hx.1 ⟨habove, hdocument, hbare₁⟩
      exact mt hrest.thinned.hasEntry (not_hasEntry_of_none hgone)
    · exact ih hx.2 ((herased.spares hx.1).hasDocument.trans hdocument) hbare₁ hbare

end Felled

/-- Documents are removed from a store in order one after the other, as far as the draft goes that stands for it. -/
theorem Orderly.removeAll (h : s.Orderly) (hids : ∀ id ∈ ids, id ≠ 0) {d : Draft} (halike : d.Alike { store := s }) :
    ∃ d' s', ids.forM Draft.remove d = .ok () d' ∧ d'.Alike { store := s' } ∧ Felled ids s s' := by
  induction ids generalizing s d with
  | nil => exact ⟨d, s, rfl, halike, .nil h⟩
  | cons id ids ih =>
    obtain ⟨hid, hids⟩ := List.forall_mem_cons.mp hids
    obtain ⟨d₁, s₁, hremove, halike₁, herased, hunlinked, horderly⟩ := h.remove hid
    have hagree : Agree Draft.Alike (Draft.remove id d) (Draft.remove id { store := s }) :=
      Draft.run_parallel .nowhere (.remove id) d _ halike
    rw [hremove] at hagree
    obtain ⟨d₂, hremove₂, halike₂⟩ := hagree.eq_ok
    obtain ⟨d', s', hrest, halike', hfelled⟩ := ih horderly hids (halike₂.trans halike₁)
    refine ⟨d', s', ?_, halike', .cons h herased hunlinked hfelled⟩
    show (Draft.remove id >>= fun _ => ids.forM Draft.remove) d = _
    rw [bind_of_ok hremove₂, hrest]

/-- To remove a subtree is to remove its ids one after the other. -/
theorem Orderly.removeSubtree (h : s.Orderly) (hid : id ≠ 0) :
    ∃ order d s', BottomUp s id order ∧
      Draft.removeSubtree id { store := s } = order.forM Draft.remove { store := s } ∧
      Draft.removeSubtree id { store := s } = .ok () d ∧ d.Alike { store := s' } ∧ Felled order s s' := by
  obtain ⟨ids, hids, horder⟩ := h.linked.bottomUp h.shallow hid
  have hnonzero : ∀ x ∈ ids.reverse, x ≠ 0 := fun x hx => ne_zero_of_below hid ((horder.mem_iff x).mp hx)
  have hsame : Draft.removeSubtree id { store := s } = ids.reverse.forM Draft.remove { store := s } := by
    unfold Draft.removeSubtree
    rw [bind_of_ok (Draft.requireId_eq hid _), bind_of_ok (Draft.look_of_ok hids)]
  obtain ⟨d, s', hrun, halike, hfelled⟩ := h.removeAll hnonzero (.refl _)
  exact ⟨ids.reverse, d, s', horder, hsame, hsame.trans hrun, halike, hfelled⟩

/-- Of what is not in a removed subtree, the folders lose their entries that are left behind above it. -/
theorem Felled.others (h : Felled ids s s') (horder : BottomUp s id ids) (hx : x ∉ ids) :
    (Deserted s s' id x → s'.pathEntryOf? x = .ok none) ∧
      (¬ Deserted s s' id x → s'.pathEntryOf? x = s.pathEntryOf? x) := by
  have hlinked := h.start.linked
  have hlinked' := h.finish.linked
  refine ⟨fun hdeserted => ?_, fun hstays => (h.thinned x).elim (fun hnone => ?_) fun hsame => hsame⟩
  · exact pathEntryOf?_of_not_hasEntry hlinked'.readable
      (h.not_hasEntry hx hdeserted.noDocument (hlinked.not_bare_of_transGen hdeserted.above) hdeserted.bare)
  · have hlost : ¬ s'.HasEntry x := not_hasEntry_of_none hnone
    by_cases hentry : s.HasEntry x
    · obtain ⟨hdocument, below, hbelow, habove⟩ := h.lost hx hentry hlost
      -- what is above an id of the subtree and not in it is above the whole subtree
      have hunique : Relator.RightUnique s.HangsFrom := fun _ _ _ hangs hangs' => hangs.unique hangs'
      have hup : Relation.TransGen s.HangsFrom id x := by
        obtain hup | hdown := Relation.ReflTransGen.total_of_right_unique hunique ((horder.mem_iff below).mp hbelow)
          habove.to_reflTransGen
        · obtain rfl | hup := Relation.reflTransGen_iff_eq_or_transGen.mp hup
          · exact absurd ((horder.mem_iff x).mpr .refl) hx
          · exact hup
        · exact absurd ((horder.mem_iff x).mpr hdown) hx
      exact absurd ⟨hup, hdocument, hlinked'.bare_of_not_hasEntry hlost hentry.ne_zero⟩ hstays
    · rw [hnone, pathEntryOf?_of_not_hasEntry hlinked.readable hentry]

end Store

namespace Session

/-- Where lists of children can be read, whatever is in them, the walk from an id ends and visits no id twice.

In a store of a run let terms and documents agree, let the maps of the tree agree, and let every way up be short
enough to be followed. To remove the subtree of an id there in a transaction of its own is to remove all that is below
the id and the id itself, each once and after all that is below it. Afterwards none of them is in a list or has records
or an entry in the tree. For every other id everything is as it was, but folders above the subtree that are no documents
go with it when they are left with nothing below them. -/
theorem subtree_removed :
    (∀ s : Store, (∀ parent, ∃ ids, s.childrenOf parent = .ok ids) → ∀ id, ∃ ids, s.subtree id = .ok ids ∧ ids.Nodup ∧
      ∀ bound, s.childBytes + 1 ≤ bound → s.visit bound [id] [(id, 0)] = .ok ids) ∧
    ∀ (resolver : Resolver) (moments : List Moment), ({ resolver } : Session).ObeysAt sizedRule.Allows moments →
      let s := ({ resolver } : Session).afterAt moments
      s.readOnly = false → (∀ t id, id ∈ s.committed.idsWith t ↔ ∃ field, t ∈ s.committed.termsOf field id) →
        s.committed.Linked → s.committed.Shallow → ∀ (r : Resolver) (id : DocId), id ≠ 0 →
          ∃ order t, BottomUp s.committed id order ∧
            Draft.removeSubtree id { store := s.committed } = order.forM Draft.remove { store := s.committed } ∧
            s.transact [⟨r, .removeSubtree id⟩] = .ok ([.ok ()], t) ∧ t.committed.Linked ∧
            (∀ x ∈ order, t.committed.Forgets x ∧ t.committed.pathEntryOf? x = .ok none) ∧
            ∀ x, x ∉ order → Spares x s.committed t.committed ∧
              (Deserted s.committed t.committed id x → t.committed.pathEntryOf? x = .ok none) ∧
              (¬ Deserted s.committed t.committed id x → t.committed.pathEntryOf? x = s.committed.pathEntryOf? x) := by
  refine ⟨fun s hread id => ?_, ?_⟩
  · obtain ⟨ids, hids, hbound, hnodup, _⟩ := subtree_walk hread id
    exact ⟨ids, hids, hnodup, hbound⟩
  · intro resolver moments h s hwritable hagree hlinked hshallow r id hid
    have horderly : s.committed.Orderly := orderly_afterAt h hagree hlinked hshallow
    obtain ⟨order, d, store, horder, hsame, hrun, halike, hfelled⟩ := horderly.removeSubtree hid
    obtain ⟨t, htransact, rfl⟩ := transact_of_run (c := ⟨r, .removeSubtree id⟩) hwritable horderly.ready
      horderly.readable (fun doc hdoc => by cases hdoc) hrun halike
    exact ⟨order, t, horder, hsame, htransact, hfelled.finish.linked,
      fun x hx => ⟨hfelled.forgets hx, hfelled.gone horder hx⟩,
        fun x hx => ⟨hfelled.spares hx, hfelled.others horder hx⟩⟩

/-- A walk in a store where two ids are listed below each other and below themselves ends. A document is removed with
what is below it: the document further down goes first and takes the folder between them along, which is removed all
the same. The folder above them is left behind. -/
theorem subtree_removed_below_folder :
    let a : Bytes := [0x2F, 0x61]
    let r : Resolver := .listed [(a, 5), (a ++ [0x2F, 0x66], 7), (a ++ [0x2F, 0x66, 0x2F, 0x70], 6)]
    let above : Document := ({ id := 7, url := a ++ [0x2F, 0x66] } : Document).addTerm .fileName [0x78]
    let doc : Document :=
      ({ id := 9, url := a ++ [0x2F, 0x66, 0x2F, 0x70, 0x2F, 0x71] } : Document).addPosition .content [0x78] 3
    let moments : List Moment :=
      [⟨r, .beginWrite⟩, ⟨r, .write (.add above)⟩, ⟨r, .write (.add doc)⟩, ⟨r, .commit⟩]
    let start : Session := { resolver := r }
    let s := start.afterAt moments
    let twisted : Store := ((∅ : Store).setChildren 1 [1, 2]).setChildren 2 [1, 2]
    (start.ObeysAt sizedRule.Allows moments ∧ s.readOnly = false ∧
      (∀ t id, id ∈ s.committed.idsWith t ↔ ∃ field, t ∈ s.committed.termsOf field id) ∧ s.committed.Linked ∧
      s.committed.Shallow) ∧
      (∀ parent, ∃ ids, twisted.childrenOf parent = .ok ids) ∧ (∃ ids, twisted.subtree 1 = .ok ids ∧ ids.Nodup ∧
        ∀ bound, twisted.childBytes + 1 ≤ bound → twisted.visit bound [1] [(1, 0)] = .ok ids) ∧
      ∃ order t, BottomUp s.committed 7 order ∧ 9 ∈ order ∧ 6 ∈ order ∧ 5 ∉ order ∧
        Draft.removeSubtree 7 { store := s.committed } = order.forM Draft.remove { store := s.committed } ∧
        s.transact [⟨r, .removeSubtree 7⟩] = .ok ([.ok ()], t) ∧ t.committed.Linked ∧
        (∀ x ∈ order, t.committed.Forgets x ∧ t.committed.pathEntryOf? x = .ok none) ∧
        (∀ x, x ∉ order → Spares x s.committed t.committed) ∧ t.committed.pathEntryOf? 5 = .ok none := by
  intro a r above doc moments start s twisted
  obtain ⟨hsized, hwritable, hagree, hlinked, hshallow⟩ := orderly_below_document
  obtain ⟨hwalk, hremoved⟩ := subtree_removed
  have htwisted : twisted.TreeReadable := (treeReadable_empty.setChildren 1 (by decide)).setChildren 2 (by decide)
  obtain ⟨order, t, horder, hsame, htransact, hlinked', hgone, hothers⟩ :=
    hremoved r moments hsized hwritable hagree hlinked hshallow r 7 (by decide)
  have hfive : s.committed.HangsFrom 5 0 := ⟨[0x61], by decide +kernel⟩
  have hsix : s.committed.HangsFrom 6 7 := ⟨[0x70], by decide +kernel⟩
  have hnine : s.committed.HangsFrom 9 6 := ⟨[0x71], by decide +kernel⟩
  have hout : 5 ∉ order := by
    rw [horder.mem_iff, (WayUp.up hfive .root).reflTransGen_iff (by decide)]
    decide
  have hfolder : (s.transact [⟨r, .removeSubtree 7⟩]).toOption.map (·.2.committed.pathEntryOf? 5) =
    some (.ok none) := by
    decide +kernel
  rw [htransact] at hfolder
  exact ⟨⟨hsized, hwritable, hagree, hlinked, hshallow⟩, htwisted.childrenRead, hwalk twisted htwisted.childrenRead 1,
    order, t, horder,
    (horder.mem_iff 9).mpr (.head hnine (.single hsix)), (horder.mem_iff 6).mpr (.single hsix), hout, hsame, htransact,
    hlinked', hgone, fun x hx => (hothers x hx).1, Option.some.inj hfolder⟩

end Session

end FileIndex
