import FileIndex.Proofs.Folders

/-!
# What unlinking takes away

Unlinking an id goes up from it and takes along the folders that it leaves with nothing below them. Whatever loses its
entry is therefore the id itself or a folder above it. Where the two maps agree and ways up can be followed, the folders
that go are told without the steps: they are above the id, are no documents, and have nothing left below them.

* `Store.Thinned`: entries are taken away, and none is written.
* `detachUp_frame`, `unlink_frame`: what is not above the id keeps its entry, whatever the tree is.
* `unlink_cases`: the id goes if it has an entry and nothing below it.
* `Store.Deserted`, `Store.Unlinked`: the folders that go, and what becomes of each entry. `Linked.unlinked`: that is
  what unlinking does.
-/

namespace FileIndex.Store

variable {s s' : Store} {prune : DocId → Bool} {id current x : DocId} {b : Bool}

/-! ### Entries that are taken away -/

/-- Entries are taken away, and none is written. -/
def Thinned (s s' : Store) : Prop := ∀ x, s'.pathEntryOf? x = .ok none ∨ s'.pathEntryOf? x = s.pathEntryOf? x

theorem Thinned.trans {s₁ : Store} (h : Thinned s s₁) (h' : Thinned s₁ s') : Thinned s s' := by
  intro x
  obtain hnone | hsame := h' x
  · exact .inl hnone
  · rw [hsame]
    exact h x

/-- What still has an entry has the same one. -/
theorem Thinned.same (h : Thinned s s') (hx : s'.HasEntry x) : s'.pathEntryOf? x = s.pathEntryOf? x :=
  (h x).resolve_left fun hnone => not_hasEntry_of_none hnone hx

theorem Thinned.hangsFrom {parent : DocId} (h : Thinned s s') (hangs : s'.HangsFrom x parent) :
    s.HangsFrom x parent := by
  obtain ⟨name, he⟩ := hangs
  exact ⟨name, h.same ⟨_, he⟩ ▸ he⟩

theorem Thinned.hasEntry (h : Thinned s s') (hx : s'.HasEntry x) : s.HasEntry x := by
  obtain ⟨e, he⟩ := hx
  exact ⟨e, h.same ⟨e, he⟩ ▸ he⟩

/-! ### What unlinking leaves alone -/

/-- Only what is above the starting point can lose its entry. -/
theorem detachUp_frame (hs : s.TreeReadable) {levels : Nat} (h : Store.detachUp prune id levels current s = .ok () s')
    (hx : ¬ Relation.ReflTransGen s.HangsFrom current x) : s'.pathEntryOf? x = s.pathEntryOf? x := by
  induction levels generalizing s current with
  | zero =>
    cases h
    rfl
  | succ levels ih =>
    obtain ⟨entry, hentry⟩ := hs.entries current
    cases entry with
    | none =>
      have hread : Edit.read (·.pathEntryOf? current) s = .ok none s := Edit.read_of_ok hentry
      rw [Store.detachUp, bind_of_ok hread] at h
      cases h
      rfl
    | some e =>
      obtain ⟨siblings, hsiblings, hascending⟩ := hs.children e.parent
      have hup : s.HangsFrom current e.parent := (hangsFrom_iff hentry).mpr rfl
      have hne : x ≠ current := by
        rintro rfl
        exact hx .refl
      have hkept : (s.takenOut id current e.parent siblings).pathEntryOf? x = s.pathEntryOf? x := by
        rw [pathEntryOf?_takenOut, if_neg fun hgone => hne hgone.1]
      rw [detachUp_succ hentry hsiblings] at h
      by_cases hgo : (siblings.erase current).isEmpty ∧ e.parent ≠ 0 ∧ prune e.parent
      · rw [if_pos hgo] at h
        rw [← hkept]
        apply ih (treeReadable_takenOut hascending hs) h
        -- one entry less leads no further up than before
        intro habove
        have hthinned : Thinned s (s.takenOut id current e.parent siblings) := by
          intro y
          rw [pathEntryOf?_takenOut]
          exact ite_eq_or_eq ..
        exact hx (.head hup (Relation.ReflTransGen.mono (fun _ _ => hthinned.hangsFrom) _ _ habove))
      · rw [if_neg hgo] at h
        cases h
        exact hkept

/-- Unlinking changes nothing, or the id has an entry and nothing below it, and is taken out and loses its entry. -/
theorem unlink_cases (hs : s.TreeReadable) (h : Store.unlink prune id s = .ok b s') :
    (s' = s ∧ (s.HasEntry id → ¬ s.Bare id)) ∨
      (s.HasEntry id ∧ s.Bare id ∧ ∃ s₁, Store.detach prune id s = .ok () s₁ ∧ s' = s₁.erasePathEntry id) := by
  cases hpath : s.hasPath id with
  | false =>
    cases (unlink_of_not_hasPath hpath).symm.trans h
    refine .inl ⟨rfl, fun hentry => ?_⟩
    rw [(hasPath_iff_hasEntry hs).mpr hentry] at hpath
    cases hpath
  | true =>
    obtain ⟨children, hchildren, _⟩ := hs.children id
    by_cases hempty : children = []
    · subst hempty
      obtain ⟨_, s₁, hdetach, _⟩ := detach_safe prune id s hs
      cases (unlink_of_detach hpath hchildren hdetach).symm.trans h
      refine .inr ⟨(hasPath_iff_hasEntry hs).mp hpath, fun child hchild => ?_, s₁, hdetach, rfl⟩
      rw [listsBelow_iff hchildren] at hchild
      cases hchild
    · cases (unlink_of_children hpath hchildren hempty).symm.trans h
      refine .inl ⟨rfl, fun _ hbare => ?_⟩
      obtain ⟨child, hchild⟩ := List.exists_mem_of_ne_nil children hempty
      exact hbare child ((listsBelow_iff hchildren).mpr hchild)

theorem unlink_frame (hs : s.TreeReadable) (h : Store.unlink prune id s = .ok b s') (hid : x ≠ id)
    (hx : ¬ Relation.TransGen s.HangsFrom id x) : s'.pathEntryOf? x = s.pathEntryOf? x := by
  obtain ⟨rfl, _⟩ | ⟨_, _, s₁, hdetach, rfl⟩ := unlink_cases hs h
  · rfl
  · rw [pathEntryOf?_erasePathEntry, if_neg hid]
    refine detachUp_frame hs hdetach fun habove => ?_
    obtain heq | habove := Relation.reflTransGen_iff_eq_or_transGen.mp habove
    · exact hid heq
    · exact hx habove

/-! ### Folders that are left behind -/

/-- The folder is above the id and no document, and afterwards it has nothing below it. -/
structure Deserted (s s' : Store) (id folder : DocId) : Prop where
  above : Relation.TransGen s.HangsFrom id folder
  noDocument : s.hasDocument folder = false
  bare : s'.Bare folder

/-- What becomes of the entries when an id is unlinked: its own goes unless something is below it, and those of the
folders go that are left behind. -/
structure Unlinked (id : DocId) (s s' : Store) : Prop where
  gone : s.Bare id → s'.pathEntryOf? id = .ok none
  kept : ¬ s.Bare id → s'.pathEntryOf? id = s.pathEntryOf? id
  deserted : ∀ folder, folder ≠ id → Deserted s s' id folder → s'.pathEntryOf? folder = .ok none
  others : ∀ other, other ≠ id → ¬ Deserted s s' id other → s'.pathEntryOf? other = s.pathEntryOf? other

section Congr

variable {t t' : Store}

/-- The folders that are left behind depend on the entries and the times before, and on the children afterwards. -/
theorem deserted_congr (hentries : t.pathEntries = s.pathEntries) (htimes : t.times = s.times)
    (hchildren' : t'.children = s'.children) (folder : DocId) : Deserted t t' id folder ↔ Deserted s s' id folder := by
  have hfrom : t.HangsFrom = s.HangsFrom :=
    funext fun x => funext fun above => propext (hangsFrom_congr hentries x above)
  have hbare : t'.Bare folder ↔ s'.Bare folder :=
    forall_congr' fun child => not_congr (listsBelow_congr hchildren' folder child)
  have hdocument := hasDocument_congr htimes folder
  constructor
  · rintro ⟨habove, hnone, hleft⟩
    exact ⟨hfrom ▸ habove, hdocument ▸ hnone, hbare.mp hleft⟩
  · rintro ⟨habove, hnone, hleft⟩
    exact ⟨hfrom ▸ habove, hdocument.trans hnone, hbare.mpr hleft⟩

theorem Unlinked.congr (h : Unlinked id s s') (hchildren : t.children = s.children)
    (hentries : t.pathEntries = s.pathEntries) (htimes : t.times = s.times) (hchildren' : t'.children = s'.children)
    (hentries' : t'.pathEntries = s'.pathEntries) : Unlinked id t t' := by
  have hbare : t.Bare id ↔ s.Bare id := forall_congr' fun child => not_congr (listsBelow_congr hchildren id child)
  have hdeserted : ∀ folder, Deserted t t' id folder ↔ Deserted s s' id folder :=
    deserted_congr hentries htimes hchildren'
  have hbefore := pathEntryOf?_congr hentries
  have hafter := pathEntryOf?_congr hentries'
  refine ⟨fun hgone => ?_, fun hkept => ?_, fun folder hne hfolder => ?_, fun other hne hother => ?_⟩
  · rw [hafter, h.gone (hbare.mp hgone)]
  · rw [hafter, hbefore, h.kept (mt hbare.mpr hkept)]
  · rw [hafter, h.deserted folder hne ((hdeserted folder).mp hfolder)]
  · rw [hafter, hbefore, h.others other hne (mt (hdeserted other).mpr hother)]

end Congr

theorem Unlinked.thinned (h : Unlinked id s s') : Thinned s s' := by
  intro x
  by_cases hself : x = id
  · subst hself
    by_cases hbare : s.Bare x
    · exact .inl (h.gone hbare)
    · exact .inr (h.kept hbare)
  · by_cases hdeserted : Deserted s s' id x
    · exact .inl (h.deserted x hself hdeserted)
    · exact .inr (h.others x hself hdeserted)

/-- If the last goes that was below a folder, then the folder is above the id that was unlinked. -/
theorem Unlinked.above_of_bare (h : Unlinked id s s') (hlinked : s.Linked) (hlinked' : s'.Linked) (hfull : ¬ s.Bare x)
    (hbare : s'.Bare x) : Relation.TransGen s.HangsFrom id x := by
  obtain ⟨child, hchild⟩ : ∃ child, s.ListsBelow x child := by simpa only [Bare, not_forall, not_not] using hfull
  have hangs := (hlinked.lists_iff x child).mp hchild
  have hlost : s'.pathEntryOf? child ≠ s.pathEntryOf? child := by
    intro hsame
    obtain ⟨name, he⟩ := hangs
    exact hbare child ((hlinked'.lists_iff x child).mpr ⟨name, hsame.trans he⟩)
  by_cases hself : child = id
  · exact hself ▸ .single hangs
  · exact .tail (not_not.mp fun hstays => hlost (h.others child hself hstays)).above hangs

theorem pathEntryOf?_of_not_hasEntry (hs : s.TreeReadable) (h : ¬ s.HasEntry x) : s.pathEntryOf? x = .ok none := by
  obtain ⟨entry, hentry⟩ := hs.entries x
  cases entry with
  | none => exact hentry
  | some e => exact absurd ⟨e, hentry⟩ h

/-- Of the ids above, one that may go stays only with something below it. -/
theorem Clears.not_bare {gone : DocId → Prop} (hclears : Clears prune id gone s s') (h : s.Linked)
    (hgone : (∀ x, ¬ gone x) ∨ Thorough prune id gone s (s.HangsFrom id)) (habove : Relation.TransGen s.HangsFrom id x)
    (hzero : x ≠ 0) (hmay : prune x = true) (hstays : ¬ gone x) : ¬ s'.Bare x := by
  obtain ⟨below, _, hangs⟩ := Relation.TransGen.tail'_iff.mp habove
  obtain ⟨child, hchild, hangs'⟩ : ∃ child, ¬ gone child ∧ s.HangsFrom child x := by
    obtain hnone | hthorough := hgone
    · exact ⟨below, hnone below, hangs⟩
    · have hlost : s.HangsFrom id x ∨ ∃ child, child ≠ id ∧ s.HangsFrom child x := by
        by_cases heq : below = id
        · exact .inl (heq ▸ hangs)
        · exact .inr ⟨below, heq, hangs⟩
      obtain ⟨child, _, hchild, hangs'⟩ := hthorough x hzero hmay hstays hlost
      exact ⟨child, hchild, hangs'⟩
  intro hbare
  exact hbare child (hclears.lists x child ((h.lists_iff x child).mpr hangs') hchild)

/-- What has no entry has nothing below it. -/
theorem Linked.bare_of_not_hasEntry (h : s.Linked) (hx : ¬ s.HasEntry x) (hzero : x ≠ 0) : s.Bare x :=
  fun child hchild => hx (h.parents child x ((h.lists_iff x child).mp hchild) hzero)

/-- Where the maps agree and the way up can be followed, unlinking takes away just these entries. -/
theorem Linked.unlinked_of_wayUp (h : s.Linked)
    (hway : s.HasEntry id → ∃ ids, s.WayUp id ids ∧ ids.length ≤ maxDepth)
    (hunlink : Store.unlink (fun folder => !s.hasDocument folder) id s = .ok b s') :
    Unlinked id s s' ∧ s'.Linked := by
  have hlinked' : s'.Linked := by
    obtain ⟨_, _, hunlink', hlinked'⟩ := h.unlink (fun folder => !s.hasDocument folder) id
    cases hunlink.symm.trans hunlink'
    exact hlinked'
  obtain ⟨_, _, gone, hunlink', hclears, hgone⟩ := unlink_spec h.readable
    (fun x above hangs => (h.lists_iff above x).mpr hangs) (fun folder => !s.hasDocument folder) id
  cases hunlink.symm.trans hunlink'
  have hthorough : (∀ x, ¬ gone x) ∨ Thorough (fun folder => !s.hasDocument folder) id gone s (s.HangsFrom id) := by
    obtain ⟨hnone, _⟩ | ⟨_, hentry, hthorough⟩ := hgone
    · exact .inl hnone
    · obtain ⟨ids, hway, hlength⟩ := hway hentry
      exact .inr (hthorough ids hway hlength h)
  refine ⟨⟨fun hbare => ?_, fun hbare => ?_, fun folder hne hdeserted => ?_, fun other hne hstays => ?_⟩, hlinked'⟩
  · obtain ⟨rfl, hchildren⟩ | ⟨_, _, s₁, _, rfl⟩ := unlink_cases h.readable hunlink
    · exact pathEntryOf?_of_not_hasEntry h.readable fun hentry => hchildren hentry hbare
    · rw [pathEntryOf?_erasePathEntry, if_pos rfl]
  · obtain ⟨rfl, _⟩ | ⟨_, hnothing, _⟩ := unlink_cases h.readable hunlink
    · rfl
    · exact absurd hnothing hbare
  · by_cases hzero : folder = 0
    · rw [hzero, pathEntryOf?_zero]
    · by_cases hmem : gone folder
      · exact hclears.away folder hmem
      · have hmay : (!s.hasDocument folder) = true := by simpa using hdeserted.noDocument
        exact absurd hdeserted.bare (hclears.not_bare h hthorough hdeserted.above hzero hmay hmem)
  · by_cases hzero : other = 0
    · rw [hzero, pathEntryOf?_zero, pathEntryOf?_zero]
    · by_cases hmem : gone other
      · refine unlink_frame h.readable hunlink hne fun habove => hstays ⟨habove, ?_, ?_⟩
        · simpa using (hclears.pruned other hmem).resolve_left hne
        · exact hlinked'.bare_of_not_hasEntry (not_hasEntry_of_none (hclears.away other hmem)) hzero
      · exact hclears.stays other hmem

theorem Linked.unlinked (h : s.Linked) (hshallow : s.Shallow)
    (hunlink : Store.unlink (fun folder => !s.hasDocument folder) id s = .ok b s') :
    Unlinked id s s' ∧ s'.Linked ∧ s'.Shallow := by
  obtain ⟨hunlinked, hlinked'⟩ := h.unlinked_of_wayUp (hshallow id) hunlink
  exact ⟨hunlinked, hlinked', hshallow.unlink h hunlink⟩

/-- What is above an id has something below it. -/
theorem Linked.not_bare_of_transGen (h : s.Linked) (hx : Relation.TransGen s.HangsFrom id x) : ¬ s.Bare x := by
  obtain ⟨child, _, hangs⟩ := Relation.TransGen.tail'_iff.mp hx
  exact fun hbare => hbare child ((h.lists_iff x child).mpr hangs)

/-- When a folder is unlinked, those lose their entries of it and the folders above it that are no documents and
are left with nothing below them. -/
theorem Linked.lost_iff (h : s.Linked) (hway : s.HasEntry id → ∃ ids, s.WayUp id ids ∧ ids.length ≤ maxDepth)
    (hunlink : Store.unlink (fun folder => !s.hasDocument folder) id s = .ok b s') (hid : s.hasDocument id = false)
    (hx : s.HasEntry x) :
    ¬ s'.HasEntry x ↔ Relation.ReflTransGen s.HangsFrom id x ∧ s.hasDocument x = false ∧ s'.Bare x := by
  obtain ⟨hunlinked, hlinked'⟩ := h.unlinked_of_wayUp hway hunlink
  have hkept : s'.pathEntryOf? x = s.pathEntryOf? x → s'.HasEntry x := fun hsame =>
    hx.imp fun _ he => hsame.trans he
  by_cases hself : x = id
  · subst hself
    refine ⟨fun hlost => ⟨.refl, hid, hlinked'.bare_of_not_hasEntry hlost hx.ne_zero⟩,
      fun ⟨_, _, hbare⟩ => not_hasEntry_of_none ?_⟩
    obtain ⟨rfl, hfull⟩ | ⟨_, hnothing, _⟩ := unlink_cases h.readable hunlink
    · exact absurd hbare (hfull hx)
    · exact hunlinked.gone hnothing
  · refine ⟨fun hlost => ?_, fun ⟨habove, hnone, hbare⟩ => not_hasEntry_of_none ?_⟩
    · have hdeserted := not_not.mp fun hstays => hlost (hkept (hunlinked.others x hself hstays))
      exact ⟨hdeserted.above.to_reflTransGen, hdeserted.noDocument, hdeserted.bare⟩
    · have hup := (Relation.reflTransGen_iff_eq_or_transGen.mp habove).resolve_left hself
      exact hunlinked.deserted x hself ⟨hup, hnone, hbare⟩

end FileIndex.Store
