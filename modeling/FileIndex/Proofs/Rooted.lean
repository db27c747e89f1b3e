import FileIndex.FileId
import FileIndex.Proofs.Draft.Outline
import FileIndex.Proofs.Tree.Ascent

/-!
# No entry is above itself

A path is refused if the folder right above it has the id of the document itself. That leaves the places that are below
the document through other folders. As long as no path is hung in such a place, every entry leads up to the root; hung
there, the document is above itself.

* `Store.Clear`, `clearRule`: the document is not on the way up from the place where its path is to hang.
* `Store.Rooted`: every entry has a way up to the root. `upkeep_rooted`: changes that obey the rule keep this.
* `Store.rooted_attach_iff`: hanging a path keeps it exactly if the place is clear.
* `Session.rooted_afterAt`: it holds in every store of a run that obeys the rule. `Session.cyclic_after_move`: a
  run that moves a folder below what is in it.
-/

namespace FileIndex

namespace Store

variable {s s' : Store} {p : Placement}

/-- A path can be hung in the place: the ids to be hung differ, and that of the document is not on the way up
from it. -/
structure Clear (s : Store) (p : Placement) : Prop where
  nodup : (p.id :: p.missing.map (·.1)).Nodup
  anchor : ∀ ids, s.WayUp p.anchor ids → p.id ∉ ids

/-- Every entry is listed below the id that it names, and has a way up to the root. -/
structure Rooted (s : Store) : Prop where
  listed : ∀ id parent, s.HangsFrom id parent → s.ListsBelow parent id
  ways : ∀ id, s.HasEntry id → ∃ ids, s.WayUp id ids

theorem Clear.congr (h : s.Clear p) (hsame : ∀ id parent, s'.HangsFrom id parent ↔ s.HangsFrom id parent) :
    s'.Clear p :=
  ⟨h.nodup, fun ids hway => h.anchor ids ((wayUp_congr hsame p.anchor ids).mp hway)⟩

theorem Rooted.congr (h : s.Rooted) (hfrom : ∀ id parent, s'.HangsFrom id parent ↔ s.HangsFrom id parent)
    (hlists : ∀ id parent, s.ListsBelow parent id → s'.ListsBelow parent id) : s'.Rooted := by
  refine ⟨fun id parent hangs => hlists id parent (h.listed id parent ((hfrom id parent).mp hangs)),
    fun id hentry => ?_⟩
  rw [hasEntry_iff_hangsFrom] at hentry
  simp only [hfrom, ← hasEntry_iff_hangsFrom] at hentry
  exact (h.ways id hentry).imp fun ids => (wayUp_congr hfrom id ids).mpr

theorem Rooted.of_tables (h : s.Rooted) (hchildren : s'.children = s.children)
    (hentries : s'.pathEntries = s.pathEntries) : s'.Rooted :=
  h.congr (hangsFrom_congr hentries) fun id parent => (listsBelow_congr hchildren parent id).mpr

theorem rooted_empty : (∅ : Store).Rooted := by
  have hnone : ∀ id parent, ¬ (∅ : Store).HangsFrom id parent := by
    rintro id parent ⟨name, he⟩
    unfold pathEntryOf? at he
    split at he <;> cases he
  refine ⟨fun id parent hangs => absurd hangs (hnone id parent), fun id hentry => ?_⟩
  obtain ⟨parent, hangs⟩ := hasEntry_iff_hangsFrom.mp hentry
  exact absurd hangs (hnone id parent)

/-! ### Hanging -/

/-- The root and what has an entry have a way up. -/
theorem exists_wayUp_of_canHold (h : ∀ id, s.HasEntry id → ∃ ids, s.WayUp id ids) {id : DocId} (hid : s.CanHold id) :
    ∃ ids, s.WayUp id ids := by
  rcases hid with rfl | hentry
  · exact ⟨[], .root⟩
  · exact h id hentry

/-- In a clear place a path is hung so that every entry has a way up. The document may be out of the lists before. -/
theorem rooted_of_attach (hs : s.TreeReadable) (hp : s.Placed p) (hclear : s.Clear p)
    (hlisted : ∀ id parent, s.HangsFrom id parent → id ≠ p.id → s.ListsBelow parent id)
    (hways : ∀ id, s.HasEntry id → ∃ ids, s.WayUp id ids) (hattach : Store.attach p s = .ok () s') : s'.Rooted := by
  obtain ⟨_, hattach', hung⟩ := attach_spec hs hp hclear.nodup
  cases hattach.symm.trans hattach'
  obtain ⟨above, habove⟩ := exists_wayUp_of_canHold hways hp.anchor
  have hapart : ∀ y ∈ above, y ∉ p.id :: p.missing.map (·.1) := by
    intro y hy hmem
    rcases List.mem_cons.mp hmem with rfl | hmem
    · exact hclear.anchor above habove hy
    · exact (hp.missing y hmem).2 (habove.hasEntry hy)
  refine ⟨fun id parent hangs => ?_, fun id hentry => ?_⟩
  · by_cases hid : id ∈ p.id :: p.missing.map (·.1)
    · obtain ⟨parent', hangs', hbelow⟩ := hung.inTurn.exists_parent hid
      exact hangs.unique hangs' ▸ hbelow
    · have hne : id ≠ p.id := fun heq => hid (heq ▸ List.mem_cons_self)
      exact hung.grows parent id (hlisted id parent ((hung.others id hid parent).mp hangs) hne)
  · rcases hung.hasEntry_iff.mp hentry with hid | hbefore
    · exact hung.exists_wayUp habove hapart (.inl hid : _ ∨ s.WayUp id [])
    · obtain ⟨old, hold⟩ := hways id hbefore
      exact hung.exists_wayUp habove hapart (.inr hold)

/-- From each of the ids that hang in turn there is a way to the anchor. -/
theorem InTurn.transGen {anchor first : DocId} {ids : List DocId} (h : s.InTurn anchor (first :: ids)) :
    Relation.TransGen s.HangsFrom first anchor := by
  induction ids generalizing first with
  | nil => exact .single h.1.1
  | cons second rest ih => exact .head h.1.1 (ih h.2)

/-- On the way up from an id, all that comes before another one hangs below that. -/
theorem reflTransGen_of_mem {id other : DocId} {ids : List DocId} (hway : s.WayUp id ids) (hother : other ∈ ids)
    (hsame : ∀ x ∈ ids, x ≠ other → ∀ parent, s.HangsFrom x parent → s'.HangsFrom x parent) :
    Relation.ReflTransGen s'.HangsFrom id other := by
  induction hway with
  | root => cases hother
  | @up id parent above hangs _ ih =>
    by_cases heq : id = other
    · rw [heq]
    · have hmem := (List.mem_cons.mp hother).resolve_left (Ne.symm heq)
      obtain ⟨hid, hrest⟩ := List.forall_mem_cons.mp hsame
      exact .head (hid heq parent hangs) (ih hmem hrest)

/-- In a place that is below the document itself, hanging its path puts the document above itself. -/
theorem transGen_of_attach (hs : s.TreeReadable) (hp : s.Placed p) (hnodup : (p.id :: p.missing.map (·.1)).Nodup)
    {ids : List DocId} (hway : s.WayUp p.anchor ids) (hmem : p.id ∈ ids) (hattach : Store.attach p s = .ok () s') :
    Relation.TransGen s'.HangsFrom p.id p.id := by
  obtain ⟨_, hattach', hung⟩ := attach_spec hs hp hnodup
  cases hattach.symm.trans hattach'
  refine hung.inTurn.transGen.trans_left (reflTransGen_of_mem hway hmem fun x hx hne parent => ?_)
  refine (hung.others x (fun hin => ?_) parent).mpr
  rcases List.mem_cons.mp hin with heq | hin
  · exact hne heq
  · exact (hp.missing x hin).2 (hway.hasEntry hx)

/-- Hanging a path with different ids keeps every entry below the root exactly if its place is not below
the document. -/
theorem rooted_attach_iff (hs : s.TreeReadable) (h : s.Rooted) (hp : s.Placed p)
    (hnodup : (p.id :: p.missing.map (·.1)).Nodup) (hattach : Store.attach p s = .ok () s') :
    s'.Rooted ↔ ∀ ids, s.WayUp p.anchor ids → p.id ∉ ids := by
  constructor
  · intro h' ids hway hmem
    exact not_transGen_of_ways h'.ways p.id (transGen_of_attach hs hp hnodup hway hmem hattach)
  · exact fun hanchor =>
      rooted_of_attach hs hp ⟨hnodup, hanchor⟩ (fun id parent hangs _ => h.listed id parent hangs) h.ways hattach

theorem Rooted.attach (h : s.Rooted) (hs : s.TreeReadable) (hp : s.Placed p) (hclear : s.Clear p)
    (hattach : Store.attach p s = .ok () s') : s'.Rooted :=
  (rooted_attach_iff hs h hp hclear.nodup hattach).mpr hclear.anchor

/-! ### Unlinking and moving -/

theorem Rooted.unlink (h : s.Rooted) (hs : s.TreeReadable) {prune : DocId → Bool} {id : DocId} {b : Bool}
    (hunlink : Store.unlink prune id s = .ok b s') : s'.Rooted := by
  obtain ⟨_, _, gone, hunlink', hclears, hgone⟩ := unlink_spec hs h.listed prune id
  cases hunlink.symm.trans hunlink'
  refine ⟨fun x parent hangs => ?_, fun x hentry => ?_⟩
  · obtain ⟨hbefore, hstays⟩ := hclears.hangsFrom_iff.mp hangs
    exact hclears.lists parent x (h.listed x parent hbefore) hstays
  · obtain ⟨hbefore, hstays⟩ := hclears.hasEntry_iff.mp hentry
    obtain ⟨ids, hway⟩ := h.ways x hbefore
    exact ⟨ids, hclears.wayUp (hgone.imp (·.1) (·.1)) hway hstays⟩

theorem Rooted.changePath (h : s.Rooted) (hs : s.TreeReadable) {resolver : Resolver} {id : DocId} {url : Bytes}
    {change : Draft.PathChange} (hplan : Draft.planPath s resolver id url = .ok change)
    (hclear : ∀ p, s.locate resolver id url = .ok (some p) → s.Clear p)
    (hchange : Draft.changePath id change s = .ok () s') : s'.Rooted := by
  obtain ⟨p, hplace, hpid, hcases⟩ := changePath_cases hs hplan hchange
  have hp := placed_of_locate hs hplace
  have hc := hclear p hplace
  rcases hcases with ⟨_, hattach⟩ | ⟨hchildren, name, name', he, hentry⟩ |
    ⟨old, siblings, s₁, hold, _, hsiblings, hattach, hrest⟩
  · exact h.attach hs hp hc hattach
  · refine h.congr (fun x parent => ?_) fun x parent => (listsBelow_congr hchildren parent x).mpr
    rw [hangsFrom_of_put hentry]
    by_cases hx : x = id
    · subst hx
      simp [hangsFrom_iff he]
    · simp [hx]
  · obtain ⟨_, hsiblings', hascending⟩ := hs.children old
    cases hsiblings.symm.trans hsiblings'
    have hfrom : ∀ x parent, (s.takenOut id id old siblings).HangsFrom x parent ↔ s.HangsFrom x parent :=
      fun _ _ => hangsFrom_takenOut_self
    have hentry : ∀ x, (s.takenOut id id old siblings).HasEntry x ↔ s.HasEntry x := by
      intro x
      simp only [hasEntry_iff_hangsFrom, hfrom]
    have hout : (s.takenOut id id old siblings).TreeReadable := treeReadable_takenOut hascending hs
    have h₁ : s₁.Rooted := by
      refine rooted_of_attach hout (hp.congr hentry) (hc.congr hfrom)
        (fun x parent hangs hne => ?_) (fun x hx => ?_) hattach
      · have hbefore := h.listed x parent ((hfrom x parent).mp hangs)
        refine (listsBelow_takenOut hsiblings hascending).mpr ⟨hbefore, fun hboth => ?_⟩
        exact hne (hboth.2.trans hpid.symm)
      · exact (h.ways x ((hentry x).mp hx)).imp fun ids => (wayUp_congr hfrom x ids).mpr
    have hs₁ : s₁.TreeReadable := by
      obtain ⟨_, _, hattach', hs₁, _⟩ := attach_safe p _ hout
      cases hattach.symm.trans hattach'
      exact hs₁
    rcases hrest with ⟨_, b, hunlink⟩ | ⟨_, rfl⟩
    · exact h₁.unlink hs₁ hunlink
    · exact h₁

end Store

open Store

/-- No path is hung in a place that is below the document itself, and the ids to be hung differ. -/
def clearRule (resolver : Resolver) (s : Store) : WriteOp → Prop
  | .add doc | .rename doc => ∀ p, s.locate resolver doc.id doc.url = .ok (some p) → s.Clear p
  | .replace doc parts => parts.url = true → ∀ p, s.locate resolver doc.id doc.url = .ok (some p) → s.Clear p
  | _ => True

theorem clearRule_congr {resolver : Resolver} {s s' : Store} (h : s'.pathEntries = s.pathEntries) {op : WriteOp}
    (hop : clearRule resolver s op) : clearRule resolver s' op := by
  have hplace : ∀ {id url}, (∀ p, s.locate resolver id url = .ok (some p) → s.Clear p) →
      ∀ p, s'.locate resolver id url = .ok (some p) → s'.Clear p := by
    intro id url hclear p hp
    rw [locate_congr h] at hp
    exact (hclear p hp).congr (hangsFrom_congr h)
  cases op with
  | add doc => exact hplace hop
  | rename doc => exact hplace hop
  | replace doc parts => exact fun hparts => hplace (hop hparts)
  | _ => trivial

/-- Changes that obey the rule keep every entry below the root. -/
theorem upkeep_rooted (resolver : Resolver) : Upkeep resolver (clearRule resolver) Store.Rooted Store.Rooted where
  start h _ := h
  weaken h := h
  congr_before hsame h := h.of_tables hsame.children hsame.pathEntries
  congr_after hsame h := h.of_tables hsame.children hsame.pathEntries
  congr_rule hsame hop := clearRule_congr hsame.pathEntries hop
  rename hop _ := hop
  add := by
    intro s s₁ doc p h hs hop _ hplace hattach _
    exact (h.attach hs.tree (placed_of_locate hs.tree hplace) (hop p hplace) hattach).of_tables rfl rfl
  remove := by
    intro s s₁ id b time? h hs _ _ hunlink _
    have hframe := sameButRecords_withoutRecords s₁ id time?
    exact (h.unlink hs.tree hunlink).of_tables (by rw [hframe]) (by rw [hframe])
  replace := by
    intro s s₁ doc parts time? h hs hop _ _ _ hurl hsame
    have hframe := sameButRecords_rewritten s₁ doc parts time?
    have h₁ : s₁.Rooted := by
      cases hparts : parts.url with
      | false => exact (hsame hparts).symm ▸ h
      | true =>
        obtain ⟨change, hplan, hchange⟩ := hurl hparts
        exact h.changePath hs.tree hplan (hop hparts) hchange
    exact h₁.of_tables (by rw [hframe]) (by rw [hframe])

/-- In every store of a run, committed or open, every entry leads up to the root, so that none is above itself, if no
path is hung in a place that is below the document itself. -/
theorem Session.rooted_afterAt (resolver : Resolver) (moments : List Moment)
    (h : ({ resolver } : Session).ObeysAt (fun r d op => clearRule r d.store op) moments) :
    let s := ({ resolver } : Session).afterAt moments
    ∀ store, (store = s.committed ∨ ∃ d, s.draft = some d ∧ store = d.store) →
      ∀ id, store.hasPath id = true →
        (∃ ids, store.WayUp id ids) ∧ ¬ Relation.TransGen store.HangsFrom id id := by
  intro s store hstore id hpath
  obtain ⟨hrooted, hreadable⟩ := upkept_afterAt upkeep_rooted rooted_empty h store hstore
  obtain ⟨ids, hway⟩ := hrooted.ways id ((hasPath_iff_hasEntry hreadable.tree).mp hpath)
  exact ⟨⟨ids, hway⟩, hway.not_transGen⟩

/-- A folder is moved to below a folder that is in it, and both are above themselves then. -/
theorem Session.cyclic_after_move :
    let r : Resolver := .listed [([0x2F, 0x64], 7), ([0x2F, 0x64, 0x2F, 0x65], 8)]
    let moments : List Moment := [⟨r, .beginWrite⟩, ⟨r, .write (.add { id := 7, url := [0x2F, 0x64] })⟩,
      ⟨r, .write (.add { id := 8, url := [0x2F, 0x64, 0x2F, 0x65] })⟩,
      ⟨r, .write (.rename { id := 7, url := [0x2F, 0x64, 0x2F, 0x65, 0x2F, 0x78] })⟩, ⟨r, .commit⟩]
    let store := (({ resolver := r } : Session).afterAt moments).committed
    store.HangsFrom 7 8 ∧ store.HangsFrom 8 7 := by
  refine ⟨⟨[0x78], ?_⟩, ⟨[0x65], ?_⟩⟩ <;> decide +kernel

/-- A document in a folder is moved to the top, and the folder into it. -/
theorem Session.rooted_afterAt_swapped :
    let r : Resolver := .listed [([0x2F, 0x64], 7), ([0x2F, 0x65], 8)]
    let moments : List Moment := [⟨r, .beginWrite⟩, ⟨r, .write (.add { id := 7, url := [0x2F, 0x64] })⟩,
      ⟨r, .write (.add { id := 8, url := [0x2F, 0x64, 0x2F, 0x65] })⟩,
      ⟨r, .write (.rename { id := 8, url := [0x2F, 0x65] })⟩,
      ⟨r, .write (.rename { id := 7, url := [0x2F, 0x65, 0x2F, 0x64] })⟩, ⟨r, .commit⟩]
    let start : Session := { resolver := r }
    let store := (start.afterAt moments).committed
    start.ObeysAt (fun r d op => clearRule r d.store op) moments ∧ store.HangsFrom 7 8 ∧
      ¬ Relation.TransGen store.HangsFrom 7 7 := by
  intro r moments start store
  -- where the anchor of a place is the root or right below it, a look at the draft tells that the place is clear
  have hclear : ∀ {o : Option Draft} {d : Draft} {id : DocId} {url : Bytes} (p : Placement), o = some d →
      o.map (·.store.locate r id url) = some (.ok (some p)) → (p.id :: p.missing.map (·.1)).Nodup →
      (p.anchor = 0 ∨ p.id ≠ p.anchor ∧ ∃ name, o.map (·.store.pathEntryOf? p.anchor) = some (.ok (some ⟨0, name⟩))) →
      ∀ p', d.store.locate r id url = .ok (some p') → d.store.Clear p' := by
    rintro o d id url p rfl hp hnodup hanchor p' hp'
    cases hp'.symm.trans (Option.some.inj hp)
    refine ⟨hnodup, fun ids hway => ?_⟩
    rcases hanchor with hzero | ⟨hne, name, hentry⟩
    · rw [hzero] at hway
      rw [hway.unique .root]
      exact List.not_mem_nil
    · rw [hway.unique (.up ⟨name, Option.some.inj hentry⟩ .root)]
      simpa using hne
  have hobeys : start.ObeysAt (fun r d op => clearRule r d.store op) moments := by
    refine ⟨fun op d hop => ?_, fun op d hop hd => ?_, fun op d hop hd => ?_, fun op d hop hd => ?_,
      fun op d hop hd => ?_, fun op d hop => ?_, trivial⟩
    · cases hop
    · cases hop
      exact hclear ⟨7, [0x64], 0, []⟩ hd (by decide +kernel) (by decide) (.inl rfl)
    · cases hop
      exact hclear ⟨8, [0x65], 7, []⟩ hd (by decide +kernel) (by decide) (.inr ⟨by decide, [0x64], by decide +kernel⟩)
    · cases hop
      exact hclear ⟨8, [0x65], 0, []⟩ hd (by decide +kernel) (by decide) (.inl rfl)
    · cases hop
      exact hclear ⟨7, [0x64], 8, []⟩ hd (by decide +kernel) (by decide) (.inr ⟨by decide, [0x65], by decide +kernel⟩)
    · cases hop
  have hpath : store.hasPath 7 = true := by decide +kernel
  exact ⟨hobeys, ⟨[0x64], by decide +kernel⟩, (rooted_afterAt r moments hobeys store (.inl rfl) 7 hpath).2⟩

end FileIndex
