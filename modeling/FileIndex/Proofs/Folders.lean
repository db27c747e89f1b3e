import FileIndex.Proofs.Hierarchy
import FileIndex.Proofs.Rooted

/-!
# No document without an entry, no folder without a document

The tree holds documents and the folders above them. Folders come with the first path that leads through them, and go
with the last one: when a document is removed or moved away, with everything else removed before or after it.

* `Store.Peopled`: documents have entries, and what has an entry is a document or has something below it.
* `Store.Shallow`: every entry has a way up to the root that is not too long to be followed.
* `HungInTurn.reason`, `unlink_reason`: what hanging and unlinking make of the folders that are no documents.
* `upkeep_peopled`: changes that obey `folderRule` keep documents and folders so. `Session.peopled_afterAt`: so they are
  in every store of a run.
-/

namespace FileIndex

namespace Store

variable {s s' : Store} {p : Placement} {id : DocId}

/-- Every document has an entry, and whatever has an entry is a document or has something below it. -/
structure Peopled (s : Store) : Prop where
  linked : s.Linked
  placed : ∀ id, s.hasDocument id = true → s.HasEntry id
  reason : ∀ id, s.HasEntry id → s.hasDocument id = true ∨ ∃ child, s.HangsFrom child id

/-- Every entry has a way up to the root that can be followed. -/
def Shallow (s : Store) : Prop := ∀ id, s.HasEntry id → ∃ ids, s.WayUp id ids ∧ ids.length ≤ maxDepth

theorem hasEntry_congr (h : s'.pathEntries = s.pathEntries) (id : DocId) : s'.HasEntry id ↔ s.HasEntry id := by
  unfold HasEntry
  rw [pathEntryOf?_congr h]

theorem mem_keys_of_hasEntry (h : s.HasEntry id) : DocId.toKey id ∈ s.pathEntries.keys := by
  obtain ⟨e, he⟩ := h
  unfold pathEntryOf? at he
  split at he
  · cases he
  · cases hfind : s.pathEntries.find? (DocId.toKey id) with
    | none =>
      rw [hfind] at he
      cases he
    | some value => exact mem_keys_iff.mpr ⟨value, hfind⟩

/-- Ways need be known only from the ids that have keys. -/
theorem shallow_of_keys {ids : List DocId} (hkeys : s.pathEntries.keys = ids.map DocId.toKey)
    (hways : ∀ id ∈ ids, ∃ way, s.WayUp id way ∧ way.length ≤ maxDepth) : s.Shallow := by
  intro id hid
  have hmem := mem_keys_of_hasEntry hid
  rw [hkeys] at hmem
  obtain ⟨other, hother, hkey⟩ := List.mem_map.mp hmem
  exact DocId.toKey_inj.mp hkey ▸ hways other hother

theorem Shallow.length_le {ids : List DocId} (h : s.Shallow) (hway : s.WayUp id ids) : ids.length ≤ maxDepth := by
  by_cases hentry : s.HasEntry id
  · obtain ⟨ids', hway', hlength⟩ := h id hentry
    exact hway.unique hway' ▸ hlength
  · cases hway with
    | root => exact Nat.zero_le maxDepth
    | up hangs _ => exact absurd hangs.hasEntry hentry

theorem Peopled.congr (h : s.Peopled) (hchildren : s'.children = s.children) (hentries : s'.pathEntries = s.pathEntries)
    (hdocuments : ∀ id, s'.hasDocument id = s.hasDocument id) : s'.Peopled := by
  refine ⟨h.linked.congr hchildren hentries, fun id hid => ?_, fun id hid => ?_⟩
  · rw [hasEntry_congr hentries]
    exact h.placed id (hdocuments id ▸ hid)
  · rw [hdocuments]
    simp only [hangsFrom_congr hentries]
    exact h.reason id ((hasEntry_congr hentries id).mp hid)

theorem Shallow.congr (h : s.Shallow) (hentries : s'.pathEntries = s.pathEntries) : s'.Shallow := by
  intro id hid
  obtain ⟨ids, hway, hlength⟩ := h id ((hasEntry_congr hentries id).mp hid)
  exact ⟨ids, (wayUp_congr (hangsFrom_congr hentries) id ids).mpr hway, hlength⟩

theorem peopled_empty : (∅ : Store).Peopled := by
  refine ⟨linked_empty, fun id hid => ?_, fun id hid => ?_⟩
  · cases hid
  · obtain ⟨ids, hway⟩ := rooted_empty.ways id hid
    obtain ⟨parent, hangs⟩ := hasEntry_iff_hangsFrom.mp hid
    cases (linked_empty.lists_iff parent id).mpr hangs with
    | intro ids hids =>
      obtain ⟨hids, hmem⟩ := hids
      cases hids
      cases hmem

/-! ### What becomes of folders -/

/-- What has an entry after a path was hung is the document, or has something below it, or had nothing below it
before but the document. -/
theorem HungInTurn.reason (h : HungInTurn p.anchor (p.id :: p.missing.map (·.1)) s s') (hp : s.Placed p) {x : DocId}
    (hx : s'.HasEntry x) : x = p.id ∨ (∃ child, s'.HangsFrom child x) ∨
      (s.HasEntry x ∧ ∀ child, s.HangsFrom child x → child = p.id) := by
  rcases h.hasEntry_iff.mp hx with hhung | hbefore
  · rcases List.mem_cons.mp hhung with rfl | hmissing
    · exact .inl rfl
    · obtain ⟨child, _, hangs⟩ := h.inTurn.exists_child hmissing
      exact .inr (.inl ⟨child, hangs⟩)
  · by_cases hall : ∀ child, s.HangsFrom child x → child = p.id
    · exact .inr (.inr ⟨hbefore, hall⟩)
    · simp only [not_forall] at hall
      obtain ⟨child, hangs, hother⟩ := hall
      refine .inr (.inl ⟨child, (h.others child (fun hmem => ?_) x).mpr hangs⟩)
      rcases List.mem_cons.mp hmem with heq | hmissing
      · exact hother heq
      · exact (hp.missing child hmissing).2 hangs.hasEntry

/-- When an id is unlinked, and the folders above it that are not in `D`, all that keeps an entry is in `D` or has
something below it, if so it was but for the id; and nothing else that is in `D` loses its entry. -/
theorem unlink_reason {D : DocId → Bool} {b : Bool} (h : s.Linked)
    (hreason : ∀ x, s.HasEntry x → x ≠ id → D x = true ∨ ∃ child, s.HangsFrom child x)
    (hway : s.HasEntry id → ∃ ids, s.WayUp id ids ∧ ids.length ≤ maxDepth)
    (hunlink : Store.unlink (fun folder => !D folder) id s = .ok b s') :
    (∀ x, s'.HasEntry x → (x ≠ id ∧ D x = true) ∨ ∃ child, s'.HangsFrom child x) ∧
      ∀ x, s.HasEntry x → x ≠ id → D x = true → s'.HasEntry x := by
  obtain ⟨_, _, gone, hunlink', hclears, hgone⟩ :=
    unlink_spec h.readable (fun x above hangs => (h.lists_iff above x).mpr hangs) (fun folder => !D folder) id
  cases hunlink.symm.trans hunlink'
  have hkept : ∀ x, x ≠ id → D x = true → ¬ gone x := by
    intro x hx hD hgonex
    have hprune := (hclears.pruned x hgonex).resolve_left hx
    simp [hD] at hprune
  refine ⟨fun x hx => ?_, fun x hx hne hD => hclears.hasEntry_iff.mpr ⟨hx, hkept x hne hD⟩⟩
  obtain ⟨hbefore, hstays⟩ := hclears.hasEntry_iff.mp hx
  rcases hgone with ⟨hnone, hfull⟩ | ⟨hid, hentry, hthorough⟩
  · have hsame : ∀ child, s.HangsFrom child x → ∃ child, s'.HangsFrom child x := fun child hangs =>
      ⟨child, hclears.hangsFrom_iff.mpr ⟨hangs, hnone child⟩⟩
    by_cases hne : x = id
    · subst hne
      obtain ⟨child, hlisted⟩ := hfull hbefore
      exact .inr (hsame child ((h.lists_iff x child).mp hlisted))
    · rcases hreason x hbefore hne with hD | ⟨child, hangs⟩
      · exact .inl ⟨hne, hD⟩
      · exact .inr (hsame child hangs)
  · have hne : x ≠ id := fun heq => hstays (heq ▸ hid)
    cases hD : D x with
    | true => exact .inl ⟨hne, rfl⟩
    | false =>
      obtain ⟨ids, hway, hlength⟩ := hway hentry
      obtain ⟨child, hangs⟩ := (hreason x hbefore hne).resolve_left (by simp [hD])
      have hzero := hbefore.ne_zero
      have hbelow : s.HangsFrom id x ∨ ∃ child, child ≠ id ∧ s.HangsFrom child x := by
        by_cases heq : child = id
        · exact .inl (heq ▸ hangs)
        · exact .inr ⟨child, heq, hangs⟩
      obtain ⟨other, _, hleft, hangs'⟩ := hthorough ids hway hlength h x hzero (by simp [hD]) hstays hbelow
      exact .inr ⟨other, hclears.hangsFrom_iff.mpr ⟨hangs', hleft⟩⟩

/-- What keeps its entry when an id is unlinked keeps its way up. -/
theorem Shallow.unlink (h : s.Shallow) (hlinked : s.Linked) {prune : DocId → Bool} {b : Bool}
    (hunlink : Store.unlink prune id s = .ok b s') : s'.Shallow := by
  obtain ⟨_, _, gone, hunlink', hclears, hgone⟩ :=
    unlink_spec hlinked.readable (fun x above hangs => (hlinked.lists_iff above x).mpr hangs) prune id
  cases hunlink.symm.trans hunlink'
  intro x hx
  obtain ⟨hbefore, hstays⟩ := hclears.hasEntry_iff.mp hx
  obtain ⟨ids, hway, hlength⟩ := h x hbefore
  exact ⟨ids, hclears.wayUp (hgone.imp (·.1) (·.1)) hway hstays, hlength⟩

/-! ### The changes -/

/-- A document is added in its place. -/
theorem Peopled.attach (h : s.Peopled) {resolver : Resolver} {doc : Document}
    (hplace : s.locate resolver doc.id doc.url = .ok (some p)) (hadded : pathRule.added s doc p)
    (hattach : Store.attach p s = .ok () s') (hdocuments : s'.hasDocument = s.hasDocument) :
    s'.Linked ∧ s'.HasEntry doc.id ∧ (∀ id, s'.hasDocument id = true → s'.HasEntry id) ∧
      ∀ id, s'.HasEntry id → id = doc.id ∨ s'.hasDocument id = true ∨ ∃ child, s'.HangsFrom child id := by
  have hp := placed_of_locate h.linked.readable hplace
  have hpid : p.id = doc.id := by
    obtain ⟨_, _, _, _, hpid, _⟩ := locate_spec hplace
    exact hpid
  obtain ⟨_, hattach', hung⟩ := attach_spec h.linked.readable hp hadded.2.1
  cases hattach.symm.trans hattach'
  obtain ⟨_, hattach', hlinked⟩ := h.linked.attach hplace hadded
  cases hattach.symm.trans hattach'
  refine ⟨hlinked, hung.hasEntry_iff.mpr (.inl (hpid ▸ List.mem_cons_self)), fun id hid => ?_, fun id hid => ?_⟩
  · rw [hdocuments] at hid
    exact hung.hasEntry_iff.mpr (.inr (h.placed id hid))
  · rcases hung.reason hp hid with rfl | hchild | ⟨hbefore, honly⟩
    · exact .inl hpid
    · exact .inr (.inr hchild)
    · rw [hdocuments]
      refine (h.reason id hbefore).elim (.inr ∘ .inl) fun ⟨child, hangs⟩ => ?_
      -- only the document was below it, and is hung there again
      cases honly child hangs
      obtain ⟨name, he⟩ := hangs
      have hparent : id = p.parent := hadded.2.2 _ (hpid ▸ he)
      have hfrom : s'.HangsFrom p.id p.parent := parent_eq_headD p ▸ hung.inTurn.1.1
      exact .inr (.inr ⟨p.id, hparent ▸ hfrom⟩)

/-- A document is taken out of its folder and hung elsewhere: only that folder may be left with nothing below it. -/
theorem Peopled.move (h : s.Peopled) (hshallow : s.Shallow) {resolver : Resolver} {url : Bytes}
    (hplace : s.locate resolver p.id url = .ok (some p)) (hlength : url.length < UInt64.size)
    (hnodup : (p.id :: p.missing.map (·.1)).Nodup) {old : DocId} (hold : s.HangsFrom p.id old) {siblings : List DocId}
    (hsiblings : s.childrenOf old = .ok siblings)
    (hattach : Store.attach p (s.takenOut p.id p.id old siblings) = .ok () s') :
    s'.Linked ∧ (∀ x, s.HasEntry x → s'.HasEntry x) ∧ (∃ ids, s'.WayUp old ids ∧ ids.length ≤ maxDepth) ∧
      ∀ x, s'.HasEntry x → x ≠ old → x = p.id ∨ s.hasDocument x = true ∨ ∃ child, s'.HangsFrom child x := by
  have hp := placed_of_locate h.linked.readable hplace
  obtain ⟨name, he⟩ := hold
  obtain ⟨_, hsiblings', hascending⟩ := h.linked.readable.children old
  cases hsiblings.symm.trans hsiblings'
  have hout := h.linked.takeOut he hsiblings hascending
  have htable : (s.takenOut p.id p.id old siblings).pathEntries = s.pathEntries := by
    unfold takenOut
    rw [if_neg (not_not_intro rfl), pathEntries_setChildren]
  have hplaced := hp.congr fun x => hasEntry_congr htable x
  obtain ⟨_, hattach', hung⟩ := attach_spec hout.readable hplaced hnodup
  cases hattach.symm.trans hattach'
  have hlinked : s'.Linked := by
    have hplaceable := placeable_of_locate h.linked.readable hplace hlength hnodup htable (.inr rfl)
    obtain ⟨_, hattach', hlinked⟩ := hout.attach hplaceable (.inr (.inl rfl))
    cases hattach.symm.trans hattach'
    rwa [if_pos rfl, ← linked_iff] at hlinked
  refine ⟨hlinked, fun x hx => hung.hasEntry_iff.mpr (.inr ((hasEntry_congr htable x).mpr hx)), ?_, fun x hx hne => ?_⟩
  · obtain ⟨ids, hway, hlength⟩ := hshallow p.id ⟨_, he⟩
    obtain ⟨above, rfl, habove⟩ := hway.of_hangsFrom ⟨name, he⟩
    refine ⟨above, ?_, Nat.le_of_succ_le hlength⟩
    refine hung.wayUp_of_clear ((wayUp_congr (hangsFrom_congr htable) old above).mpr habove) fun y hy hmem => ?_
    rcases List.mem_cons.mp hmem with rfl | hmissing
    · exact hway.not_mem hy
    · exact (hp.missing y hmissing).2 (habove.hasEntry hy)
  · rcases hung.reason hplaced hx with rfl | hchild | ⟨hbefore, honly⟩
    · exact .inl rfl
    · exact .inr (.inr hchild)
    · refine (h.reason x ((hasEntry_congr htable x).mp hbefore)).elim (.inr ∘ .inl) fun ⟨child, hangs⟩ => ?_
      cases honly child ((hangsFrom_congr htable child x).mpr hangs)
      exact absurd (hangs.unique ⟨name, he⟩) hne

/-- The path of a document is changed, and folders that it leaves behind go. -/
theorem Peopled.changePath (h : s.Peopled) (hshallow : s.Shallow) {resolver : Resolver} {url : Bytes}
    {change : Draft.PathChange} (hdocument : s.hasDocument id = true)
    (hplan : Draft.planPath s resolver id url = .ok change)
    (hmoved : ∀ p, s.locate resolver id url = .ok (some p) →
      url.length < UInt64.size ∧ (p.id :: p.missing.map (·.1)).Nodup)
    (hchange : Draft.changePath id change s = .ok () s') (hdocuments : s'.hasDocument = s.hasDocument) :
    s'.Peopled := by
  obtain ⟨p, hplace, hpid, hcases⟩ := changePath_cases h.linked.readable hplan hchange
  have hlinked : s'.Linked := by
    obtain ⟨_, hchange', hlinked⟩ := h.linked.changePath hplan (hmoved p hplace).1 fun p hplace => (hmoved p hplace).2
    cases hchange.symm.trans hchange'
    exact hlinked
  suffices hfolders : (∀ x, s.hasDocument x = true → s'.HasEntry x) ∧
      ∀ x, s'.HasEntry x → s.hasDocument x = true ∨ ∃ child, s'.HangsFrom child x by
    refine ⟨hlinked, fun x hx => hfolders.1 x (hdocuments ▸ hx), fun x hx => ?_⟩
    rw [hdocuments]
    exact hfolders.2 x hx
  rcases hcases with ⟨hnone, _⟩ | ⟨_, name, name', he, hput⟩ | ⟨old, siblings, s₁, hold, _, hsiblings, hattach, hrest⟩
  · exact absurd (h.placed id hdocument) hnone
  · have hfrom : ∀ x parent, s'.HangsFrom x parent ↔ s.HangsFrom x parent := by
      intro x parent
      rw [hangsFrom_of_put hput]
      by_cases hx : x = id
      · subst hx
        simp [hangsFrom_iff he]
      · simp [hx]
    have hentries : ∀ x, s'.HasEntry x ↔ s.HasEntry x := fun x => by simp only [hasEntry_iff_hangsFrom, hfrom]
    simp only [hentries, hfrom]
    exact ⟨h.placed, h.reason⟩
  · subst hpid
    obtain ⟨hlinked₁, hgrown, hway, hreason⟩ :=
      h.move hshallow hplace (hmoved p hplace).1 (hmoved p hplace).2 hold hsiblings hattach
    have hreason₁ : ∀ x, s₁.HasEntry x → x ≠ old → s.hasDocument x = true ∨ ∃ child, s₁.HangsFrom child x := by
      intro x hx hne
      rcases hreason x hx hne with rfl | hrest
      · exact .inl hdocument
      · exact hrest
    rcases hrest with ⟨hfolder, b, hunlink⟩ | ⟨hstays, rfl⟩
    · obtain ⟨hleft, hkept⟩ := unlink_reason hlinked₁ hreason₁ (fun _ => hway) hunlink
      refine ⟨fun x hx => hkept x (hgrown x (h.placed x hx)) (fun heq => ?_) hx,
        fun x hx => (hleft x hx).imp_left (·.2)⟩
      rw [heq, hfolder] at hx
      cases hx
    · refine ⟨fun x hx => hgrown x (h.placed x hx), fun x hx => ?_⟩
      by_cases hne : x = old
      · subst hne
        exact .inl (hstays.resolve_left hx.ne_zero)
      · exact hreason₁ x hx hne

end Store

open Store

/-- What is asked of a run: paths hang as the rule for the tree asks, only documents are replaced and renamed,
and before each change all entries lead up to the root on ways that can be followed. -/
def folderRule (resolver : Resolver) (s : Store) (op : WriteOp) : Prop :=
  pathRule.Allows resolver { store := s } op ∧ s.Shallow ∧
    match op with
    | .replace doc _ | .rename doc => s.hasDocument doc.id = true
    | _ => True

theorem folderRule_congr {resolver : Resolver} {s s' : Store} (h : s'.pathEntries = s.pathEntries)
    (htimes : s'.times = s.times) {op : WriteOp} (hop : folderRule resolver s op) : folderRule resolver s' op := by
  obtain ⟨hallowed, hshallow, hdocument⟩ := hop
  have hplace := fun id url => locate_congr h resolver id url
  have hentry := pathEntryOf?_congr h
  refine ⟨?_, hshallow.congr h, ?_⟩
  · cases op <;> simp only [Rule.Allows, pathRule, hplace, hentry] at hallowed ⊢ <;> exact hallowed
  · cases op <;> simp only [hasDocument_congr htimes] at hdocument ⊢ <;> exact hdocument

/-- Changes that obey the rule leave no folder without a document in it, and no document without an entry. -/
theorem upkeep_peopled (resolver : Resolver) :
    Upkeep resolver (folderRule resolver) (fun s => s.Peopled ∧ s.Shallow) Store.Peopled where
  start h hop := ⟨h, hop.2.1⟩
  weaken h := h.1
  congr_before hsame h :=
    ⟨h.1.congr hsame.children hsame.pathEntries (hasDocument_congr hsame.times), h.2.congr hsame.pathEntries⟩
  congr_after hsame h := h.congr hsame.children hsame.pathEntries (hasDocument_congr hsame.times)
  congr_rule hsame hop := folderRule_congr hsame.pathEntries hsame.times hop
  rename hop := ⟨⟨hop.1.1, fun _ => hop.1.2⟩, hop.2⟩
  add := by
    intro s s₁ doc p h hs hop _ hplace hattach hsame
    obtain ⟨hlinked, hentry, hplaced, hreason⟩ := h.1.attach hplace (hop.1.2 p hplace) hattach
      (funext (hasDocument_congr (by rw [hsame])))
    have hdocuments := hasDocument_of_insert (rfl : (s₁.withTime doc.id doc.time).times = s₁.times.insert _ _)
    refine ⟨hlinked.congr rfl rfl, fun id hid => ?_, fun id hid => ?_⟩
    · rw [hdocuments, Bool.or_eq_true, decide_eq_true_eq] at hid
      rcases hid with rfl | hid
      · exact hentry
      · exact hplaced id hid
    · rw [hdocuments, Bool.or_eq_true, decide_eq_true_eq, or_assoc]
      exact hreason id hid
  remove := by
    intro s s₁ id b time? h hs hid _ hunlink hsame
    obtain ⟨hpeopled, hshallow⟩ := h
    have hframe := sameButRecords_withoutRecords s₁ id time?
    obtain ⟨_, _, hunlink', hlinked⟩ := hpeopled.linked.unlink (fun folder => !s.hasDocument folder) id
    cases hunlink.symm.trans hunlink'
    obtain ⟨hleft, hkept⟩ := unlink_reason hpeopled.linked (fun x hx _ => hpeopled.reason x hx) (hshallow id) hunlink
    have hsame₁ : s₁.hasDocument = s.hasDocument := funext (hasDocument_congr (by rw [hsame]))
    have hdocuments : ∀ x, (s₁.withoutRecords id time?).hasDocument x = (x ≠ id && s.hasDocument x) := by
      intro x
      rw [hasDocument_of_erase (times_withoutRecords s₁ id time?), hsame₁]
    have hentries :=
      hasEntry_congr (s := s₁) (by rw [hframe] : (s₁.withoutRecords id time?).pathEntries = s₁.pathEntries)
    have hfrom := hangsFrom_congr (s := s₁) (by rw [hframe] : (s₁.withoutRecords id time?).pathEntries = s₁.pathEntries)
    refine ⟨⟨hlinked.of_sameButRecords hframe, fun x hx => ?_, fun x hx => ?_⟩,
      (hshallow.unlink hpeopled.linked hunlink).congr (by rw [hframe])⟩
    · simp only [hdocuments, Bool.and_eq_true, decide_eq_true_eq] at hx
      exact (hentries x).mpr (hkept x (hpeopled.placed x hx.2) hx.1 hx.2)
    · simp only [hdocuments, Bool.and_eq_true, decide_eq_true_eq, hfrom]
      exact hleft x ((hentries x).mp hx)
  replace := by
    intro s s₁ doc parts time? h hs hop _ _ hsame hurl hpath
    obtain ⟨hpeopled, hshallow⟩ := h
    obtain ⟨hallowed, _, hdocument⟩ := hop
    have hframe := sameButRecords_rewritten s₁ doc parts time?
    have hsame₁ : s₁.hasDocument = s.hasDocument := funext (hasDocument_congr (by rw [hsame]))
    have h₁ : s₁.Peopled := by
      cases hparts : parts.url with
      | false => exact (hpath hparts).symm ▸ hpeopled
      | true =>
        obtain ⟨change, hplan, hchange⟩ := hurl hparts
        exact hpeopled.changePath hshallow hdocument hplan (hallowed.2 hparts) hchange hsame₁
    refine h₁.congr (by rw [hframe]) (by rw [hframe]) fun x => ?_
    have htimes := times_rewritten s₁ doc parts time?
    cases hparts : parts.time with
    | false =>
      rw [hparts, if_neg Bool.false_ne_true] at htimes
      exact hasDocument_congr htimes x
    | true =>
      rw [hparts, if_pos rfl] at htimes
      rw [hasDocument_of_insert htimes]
      by_cases hx : x = doc.id
      · rw [hx, hsame₁, hdocument, Bool.or_true]
      · simp [hx]

/-- In every store of a run, committed or open, every document has an entry in the tree, and every entry is that of a
document or has something below it. -/
theorem Session.peopled_afterAt (resolver : Resolver) (moments : List Moment)
    (h : ({ resolver } : Session).ObeysAt (fun r d op => folderRule r d.store op) moments) :
    let s := ({ resolver } : Session).afterAt moments
    ∀ store, (store = s.committed ∨ ∃ d, s.draft = some d ∧ store = d.store) →
      (∀ id, store.hasDocument id = true → store.hasPath id = true) ∧
        ∀ id, store.hasPath id = true →
          store.hasDocument id = true ∨ ∃ ids, store.childrenOf id = .ok ids ∧ ids ≠ [] := by
  intro s store hstore
  obtain ⟨hpeopled, _⟩ := upkept_afterAt upkeep_peopled peopled_empty h store hstore
  have hpath : ∀ id, store.hasPath id = true ↔ store.HasEntry id :=
    fun _ => hasPath_iff_hasEntry hpeopled.linked.readable
  refine ⟨fun id hid => (hpath id).mpr (hpeopled.placed id hid), fun id hid => ?_⟩
  refine (hpeopled.reason id ((hpath id).mp hid)).imp_right fun ⟨child, hangs⟩ => ?_
  obtain ⟨ids, hids, hmem⟩ := (hpeopled.linked.lists_iff id child).mpr hangs
  exact ⟨ids, hids, List.ne_nil_of_mem hmem⟩

/-- A document moves from one folder to another that was not known before, and the folder that it leaves goes. -/
theorem Session.peopled_afterAt_move :
    let r : Resolver := .listed [([0x2F, 0x61], 5), ([0x2F, 0x63], 6)]
    let moments : List Moment := [⟨r, .beginWrite⟩, ⟨r, .write (.add { id := 7, url := [0x2F, 0x61, 0x2F, 0x62] })⟩,
      ⟨r, .write (.rename { id := 7, url := [0x2F, 0x63, 0x2F, 0x62] })⟩, ⟨r, .commit⟩]
    let start : Session := { resolver := r }
    let store := (start.afterAt moments).committed
    start.ObeysAt (fun r d op => folderRule r d.store op) moments ∧ store.hasPath 5 = false ∧
      ∃ ids, store.childrenOf 6 = .ok ids ∧ ids ≠ [] := by
  intro r moments start store
  have hobeys : start.ObeysAt (fun r d op => folderRule r d.store op) moments := by
    refine ⟨fun op d hop => ?_, fun op d hop hd => ?_, fun op d hop hd => ?_, fun op d hop => ?_, trivial⟩
    · cases hop
    · cases hop
      cases hd
      refine ⟨⟨trivial, fun p hp => ?_⟩, fun id hid => ?_, trivial⟩
      · cases hp.symm.trans (by decide +kernel : _ = .ok (some ⟨7, [0x62], 0, [(5, [0x61])]⟩))
        refine ⟨by decide, by decide, fun e he => ?_⟩
        cases he
      · cases mem_keys_of_hasEntry hid
    · cases hop
      have hplace := eq_of_draft hd (·.store.locate r 7 [0x2F, 0x63, 0x2F, 0x62])
        (.ok (some ⟨7, [0x62], 0, [(6, [0x63])]⟩)) (by decide +kernel)
      have hdocument := eq_of_draft hd (·.store.hasDocument 7) true (by decide +kernel)
      have hkeys := eq_of_draft hd (·.store.pathEntries.keys) [DocId.toKey 5, DocId.toKey 7] (by decide +kernel)
      have hfolder := eq_of_draft hd (·.store.pathEntryOf? 5) (.ok (some ⟨0, [0x61]⟩)) (by decide +kernel)
      have hleaf := eq_of_draft hd (·.store.pathEntryOf? 7) (.ok (some ⟨5, [0x62]⟩)) (by decide +kernel)
      have hway : d.store.WayUp 5 [5] := .up ⟨_, hfolder⟩ .root
      refine ⟨⟨trivial, fun p hp => ?_⟩, fun id hid => ?_, hdocument⟩
      · cases hp.symm.trans hplace
        exact ⟨by decide, by decide⟩
      · have hmem := mem_keys_of_hasEntry hid
        rw [hkeys] at hmem
        simp only [List.mem_cons, DocId.toKey_inj, List.not_mem_nil, or_false] at hmem
        rcases hmem with rfl | rfl
        · exact ⟨_, hway, by decide⟩
        · exact ⟨_, .up ⟨_, hleaf⟩ hway, by decide⟩
    · cases hop
  have hfolder : store.hasPath 6 = true := by decide +kernel
  have hplain : store.hasDocument 6 = false := by decide +kernel
  refine ⟨hobeys, by decide +kernel, ?_⟩
  exact ((peopled_afterAt r moments hobeys store (.inl rfl)).2 6 hfolder).resolve_left (by simp [hplain])

end FileIndex
