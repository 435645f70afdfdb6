import LivePage.Proofs.Mount.Sealed

/-!
# Refilling a place of the trees

The place of a hole is a region whose comments stand around the contents, or an element that has no
other children (`Hole.opens`); in both cases new contents are put where the old ones stood
(`Hole.moves`). `World.Mounted` says that trees are all that is mounted below a page node, and
renewing one of their places leaves trees that are mounted there again, with other contents in the
hole (`World.Mounted.refill`).
-/

namespace LivePage

open LivePage.Script

variable {w w' : World} {root n content : PageNode} {pg : PageId} {q : Nat} {D : CellId → Prop}
  {m : Teardown} {g x x' : Mounts} {t : Target} {C : Hole} {s : SiteId} {c : CellId} {r : Reaction}
  {d : Nat}

/-- Without the elements in the middle, those before and those behind are left. -/
theorem filter_middle {A M B : List Nat} (h : (A ++ M ++ B).Nodup) :
    (A ++ M ++ B).filter (· ∉ M) = A ++ B := by
  simp only [List.nodup_append, List.mem_append] at h
  have hA : A.filter (· ∉ M) = A :=
    List.filter_eq_self.2 fun i hi => by simpa using fun hm => h.1.2.2 i hi i hm rfl
  have hB : B.filter (· ∉ M) = B :=
    List.filter_eq_self.2 fun i hi => by simpa using fun hm => h.2.2 i (.inr hm) i hi rfl
  have hM : M.filter (· ∉ M) = [] := by simp
  rw [List.filter_append, List.filter_append, hA, hB, hM, List.append_nil]

namespace Hole

theorem slots_subset {i : Nat} (hi : i ∈ (C.fill .nil).slots) : i ∈ (C.fill x).slots :=
  slots_fill.mem_iff.2 (List.mem_append_left _ hi)

theorem lists_subset {l : RecordsId} (hl : l ∈ (C.fill .nil).lists) : l ∈ (C.fill x).lists :=
  lists_fill.mem_iff.2 (List.mem_append_left _ hl)

/-- The target of the place is a region whose comments stand right before and right behind the
contents, or the holder, which then has no other children. -/
inductive Opens (w : World) (pg : PageId) (q : Nat) (C : Hole) : Target → Prop where
  | region {r : RegionId} {region : Region} {A B : List Nat} {a b : Nat} :
      w.regions[r.index]? = some region → region.anchors = (⟨pg, a⟩, ⟨pg, b⟩) →
      C.before = A ++ [a] → C.after = b :: B → Opens w pg q C (.region r)
  | contents : C.isFlat = false → C.before = [] → C.after = [] →
      Opens w pg q C (.contents ⟨pg, C.holder q⟩)

theorem opens (h : (C.fill x).Stand w pg q) (ht : C.Targets pg t) : C.Opens w pg q t := by
  induction C generalizing q with
  | region m rest =>
    obtain ⟨region, hr, ha⟩ := h.1.region
    obtain rfl : t = .region m.region := ht
    exact .region hr ha (A := []) rfl rfl
  | element e rest =>
    obtain rfl : t = .contents ⟨pg, e.slot⟩ := ht
    exact .contents rfl rfl rfl
  | behind first hole ih =>
    cases ih (Mounts.stand_append.1 h).2 ht with
    | @region r region A B a b hr ha hb hf =>
      refine .region hr ha (A := if hole.isFlat then first.tops ++ A else A) ?_ hf
      simp only [before, hb]
      split <;> simp
    | contents hflat hb hf => exact .contents hflat (by simp [before, hflat, hb]) hf
  | inElement e hole rest ih =>
    cases ih h.2.1 ht with
    | region hr ha hb hf => exact .region hr ha hb hf
    | contents hflat hb hf => exact .contents rfl hb hf
  | inRegion m hole rest ih =>
    cases ih h.2.1 ht with
    | @region r region A B a b hr ha hb hf =>
      refine .region hr ha (A := if hole.isFlat then m.start :: A else A)
        (B := if hole.isFlat then B ++ m.finish :: rest.tops else B) ?_ ?_
      · simp only [before, hb]
        split <;> simp
      · simp only [after, hf]
        split <;> simp
    | contents hflat hb hf =>
      exact .contents hflat (by simp [before, hflat, hb]) (by simp [after, hflat, hf])
  | inGroup l hole rest ih =>
    cases ih h.2.1 ht with
    | @region r region A B a b hr ha hb hf =>
      refine .region hr ha hb (B := if hole.isFlat then B ++ rest.tops else B) ?_
      simp only [after, hf]
      split <;> simp
    | contents hflat hb hf => exact .contents hflat hb (by simp [after, hflat, hf])

theorem Opens.fixed (h : C.Opens w pg q t) (hw : w.Fixed w') : C.Opens w' pg q t := by
  cases h with
  | region hr ha hb hf =>
    obtain ⟨region', hr', ha'⟩ := hw.regions hr
    exact .region hr' (ha'.trans ha) hb hf
  | contents hflat hb hf => exact .contents hflat hb hf

/-- Putting new contents into the place moves them below the holder, where the old ones were. -/
theorem moves {mid : List Nat} (h : C.Opens w pg q t) (hs : w.Sound)
    (ho : w.Occupied ⟨pg, C.holder q⟩)
    (hch : (w.slot ⟨pg, C.holder q⟩).children = C.before ++ mid ++ C.after)
    (hroot : (w.slot content).parent = none) (htype : (w.slot content).content.type = .fragment)
    (hput : (t.put content).run w = .ok (.ok ()) w') :
    ∃ v, (v = w ∨ ∃ i, v = w.reparented i ⟨pg, C.holder q⟩) ∧
      v.Moves ⟨pg, C.holder q⟩ mid content C.before.length w' := by
  cases h with
  | contents hflat hb hf =>
    have hm := moves_of_replaceChildren hs ho hroot htype hput
    rw [hch, hb, hf] at hm
    simp only [List.nil_append, List.append_nil] at hm
    exact ⟨w, .inl rfl, by rwa [hb]⟩
  | @region i region A B a b hr ha hb hf =>
    have hstart : region.start = ⟨pg, a⟩ := congrArg Prod.fst ha
    have hfinish : region.finish = ⟨pg, b⟩ := congrArg Prod.snd ha
    have hsplit : C.before ++ mid ++ C.after = A ++ a :: (mid ++ b :: B) := by simp [hb, hf]
    have hnodup := (hs.forest pg).nodup (C.holder q)
    rw [show ((w.page pg).slot (C.holder q)).children = _ from hch] at hnodup
    have hfilter := filter_middle hnodup
    rw [hsplit] at hch hnodup hfilter
    have hparent : (w.slot region.start).parent = some (C.holder q) := by
      rw [hstart]
      exact (hs.forest pg).down (by rw [show ((w.page pg).slot _).children = _ from hch]; simp)
    obtain ⟨k, hm, hk⟩ := moves_of_splice hs hr hroot htype hparent hput
    rw [hstart, hfinish, (hs.forest pg).between_eq hch] at hm hk
    have hstale : ∀ i ∈ mid, ((w.page pg).slot i).parent = some (C.holder q) := fun i hi =>
      (hs.forest pg).down (by rw [show ((w.page pg).slot _).children = _ from hch]; simp [hi])
    simp only [List.nodup_append, List.nodup_cons] at hnodup
    have hbehind : b ∉ C.before := by
      rw [hb, List.mem_append, List.mem_singleton]
      rintro (h | rfl)
      · exact hnodup.2.2 b h b (by simp) rfl
      · exact hnodup.2.1.1 (by simp)
    rw [Page.insertionIndex, Page.slot_detachAll (hs.forest pg) hnodup.2.1.2.1 hstale] at hk
    simp only [if_pos, show ((w.page pg).slot _).children = _ from hch, hfilter, hf,
      Page.idxOf?_append_cons hbehind] at hk
    obtain rfl := Option.some.inj hk
    exact ⟨_, .inr ⟨i, rfl⟩, hm⟩

end Hole

/-! ## Mounted trees -/

namespace World

/-- The trees are mounted below `root` with the record `m`, and nothing else is. -/
structure Mounted (D : CellId → Prop) (root : PageNode) (m : Teardown) (g : Mounts) (w : World) :
    Prop where
  sound : w.Sound
  wired : w.Wired
  tracks : w.Tracks D
  named : .slot root ∈ namesHold w.names
  occupied : w.Occupied root
  stand : g.Stand w root.page root.slot
  children : (w.slot root).children = g.tops
  teardowns : g.teardowns root.page = [m]
  nodup : g.slots.Nodup
  nodupLists : g.lists.Nodup
  apart {c : CellId} {key : Nat} {r : Reaction} : (key, r) ∈ (w.cell c).registry → r.onPage →
    g.Owns root.page c r ∨ r.Apart w root g

namespace Mounted

variable (h : w.Mounted D root m g)
include h

theorem sealed : w.Sealed D root g (g.Owns root.page) where
  sound := h.sound
  wired := h.wired
  tracks := h.tracks
  named := h.named
  occupied := h.occupied
  hangs := h.stand.hangs
  child {p i} hp hi := by
    rcases hp with rfl | hp
    · rw [show (w.slot ⟨root.page, root.slot⟩).children = _ from h.children] at hi
      exact Mounts.tops_subset hi
    · exact h.stand.child_mem hp hi
  list hl := h.stand.lt_of_lists hl
  apart := h.apart

/-- Trees that are left alone stay mounted. -/
theorem spared {X : Prop} (hs : w'.Sealed D root g (g.Owns root.page)) (hsp : w.Spares root g X w')
    (hf : w.Fixed w') : w'.Mounted D root m g where
  sound := hs.sound
  wired := hs.wired
  tracks := hs.tracks
  named := hs.named
  occupied := hs.occupied
  stand := h.stand.frame hf (fun _ hi => hsp.slot hi) fun _ hl => hsp.lists hl
  children := hsp.children.trans h.children
  teardowns := h.teardowns
  nodup := h.nodup
  nodupLists := h.nodupLists
  apart := hs.apart

theorem root_not_mem : root.slot ∉ g.slots := h.sealed.root_not_mem

/-- The page node and the trees below it are still held when something has been released. -/
theorem safe_of_releases {K : Entity → Prop} (hr : Releases D K w w') {p : Nat}
    (hp : p = root.slot ∨ p ∈ g.slots) : w'.Safe ⟨root.page, p⟩ := by
  have hroot : w'.Safe root :=
    Guards.safe (.named (by rw [hr.evolves.names]; exact h.named)) (hr.occupied.2 h.occupied)
  rcases hp with rfl | hp
  · exact hroot
  · exact hroot.down ((hr.page root.page).up.2 (h.stand.up h.sound hp))

end Mounted

/-! ## Killing the contents of a place -/

namespace Mounted

variable (h : w.Mounted D root m (C.fill x))
include h

theorem nodup_fill : ((C.fill .nil).slots ++ x.slots).Nodup := Hole.slots_fill.nodup_iff.1 h.nodup

theorem nodupLists_fill : ((C.fill .nil).lists ++ x.lists).Nodup :=
  Hole.lists_fill.nodup_iff.1 h.nodupLists

theorem children_holder :
    (w.slot ⟨root.page, C.holder root.slot⟩).children = C.before ++ x.tops ++ C.after := by
  by_cases hf : C.isFlat
  · rw [Hole.holder_of_isFlat hf]
    exact h.children.trans (Hole.tops_of_isFlat hf)
  · exact Hole.children_holder h.stand hf

omit h in
theorem holder_mem (C : Hole) : C.holder root.slot = root.slot ∨ C.holder root.slot ∈ (C.fill .nil).slots := by
  by_cases hf : C.isFlat
  · exact .inl (Hole.holder_of_isFlat hf)
  · exact .inr (Hole.holder_mem hf)

/-- Killing the records of the contents releases what these have, and their list. -/
theorem kills_contents {w₂ : World} (hn : w.NoSites D)
    (hk : (killAll (respond d) (x.teardowns root.page)).run (w.taken C.records) = .ok ⟨⟩ w₂) :
    Kills D (fun e => e = .records C.records ∨ x.Covers root.page e) x.cells x.refs
      (C.records :: x.lists) (x.listening root.page) w w₂ := by
  have hnl := h.nodupLists_fill
  simp only [List.nodup_append] at hnl
  have ht := kills_taken (D := D) w C.records
  have hx : x.Stand (w.taken C.records) root.page (C.holder root.slot) := by
    refine ht.releases.stand (Hole.stand_contents h.stand) (fun i _ hi => by cases hi) fun l hl he => ?_
    cases he
    exact hnl.2.2 _ Hole.records_mem _ hl rfl
  have hns := h.nodup_fill
  have hkills := kills_mounts x (ht.releases.hears ⟨h.wired, h.tracks, hn, False.elim⟩) hx
    (List.nodup_append.1 hns).2.1 hnl.2.1 hk
  refine (ht.trans hkills (by simp) ?_).congr (fun _ => id) (by simp) (by simp) (by simp) (by simp)
  intro e _ he
  cases he

end Mounted

/-! ## New contents -/

/-- The contents of the hole have been killed and replaced by the trees `x'`. -/
structure Replaced (D : CellId → Prop) (root : PageNode) (C : Hole) (x x' : Mounts) (m' : Teardown)
    (w w₂ w' : World) : Prop where
  kills : Kills D (fun e => e = .records C.records ∨ x.Covers root.page e) x.cells x.refs
    (C.records :: x.lists) (x.listening root.page) w w₂
  renewed : World.Renewed D (· = ⟨root.page, C.holder root.slot⟩)
    (fun a => a.page = root.page ∧ a.slot ∈ x.tops) root.page (C.holder root.slot) C.records m' x'
    w₂ w'
  holder : C.Refilled w₂ w' root.page (C.holder root.slot) x'
  teardowns : x'.teardowns root.page = [m']
  nodup : x'.slots.Nodup
  nodupLists : x'.lists.Nodup

namespace Replaced

variable {m' : Teardown} {w₂ : World} (h : w.Mounted D root m (C.fill x))
  (hr : World.Replaced D root C x x' m' w w₂ w')
include hr

theorem fixed : w.Fixed w' := hr.kills.releases.fixed.trans hr.renewed.evolves.fixed

/-- What is not the holder and not of the old contents is as it was. -/
theorem alike {i : Nat} (hs : w₂.Safe ⟨root.page, i⟩) (hx : i ∉ x.slots)
    (hi : i ≠ C.holder root.slot) :
    (w.slot ⟨root.page, i⟩).Alike False (w'.slot ⟨root.page, i⟩) := by
  have h₂ : (w.slot ⟨root.page, i⟩).Alike False (w₂.slot ⟨root.page, i⟩) :=
    (hr.kills.releases.slot (by rintro (he | ⟨-, he⟩) <;> [cases he; exact hx he])).mono False.elim
  obtain ⟨s, ha, hs | ⟨⟨-, hs⟩, -⟩⟩ := hr.renewed.slot hs fun he => hi (congrArg PageNode.slot he)
  · rw [hs]
    exact h₂.trans (ha.mono False.elim)
  · exact absurd (Mounts.tops_subset hs) hx

include h

theorem safe {i : Nat} (hi : i ∈ (C.fill .nil).slots) : w₂.Safe ⟨root.page, i⟩ :=
  h.safe_of_releases hr.kills.releases (.inr (Hole.slots_subset hi))

theorem safe_root : w₂.Safe root := h.safe_of_releases hr.kills.releases (.inl rfl)

theorem stand : (C.fill x').Stand w' root.page root.slot := by
  have hn := h.nodup_fill
  have hnl := h.nodupLists_fill
  have hroot := h.root_not_mem
  rw [Hole.slots_fill.mem_iff, List.mem_append, not_or] at hroot
  have hlt : ∀ l ∈ (C.fill .nil).lists, l.index < w₂.records.size := by
    intro l hl
    rw [hr.kills.releases.records]
    exact h.stand.lt_of_lists (Hole.lists_subset hl)
  have hnot : ∀ i ∈ (C.fill .nil).slots, i ∉ x.slots := fun i hi hx =>
    (List.nodup_append.1 hn).2.2 i hi i hx rfl
  refine Hole.stand_fill h.stand hr.fixed (List.nodup_append.1 hn).1 (List.nodup_append.1 hnl).1
    hroot.1 (fun i hi hne => hr.alike (hr.safe h hi) (hnot i hi) hne)
    (fun hf => ?_) (fun l hl hne => ?_) ?_ hr.renewed.stand
  · have hk := hnot _ (Hole.holder_mem (q := root.slot) hf)
    have ha := hr.kills.releases.slot (n := ⟨root.page, C.holder root.slot⟩)
      (by rintro (he | ⟨-, he⟩) <;> [cases he; exact hk he])
    exact ⟨hr.holder.content.trans ha.content, hr.holder.parent.trans ha.parent, hr.holder.children⟩
  · rw [hr.renewed.lists hne (hlt l hl)]
    rcases hr.kills.releases.lists l with h' | ⟨he | he, -⟩
    · exact h'
    · cases he
      exact absurd rfl hne
    · exact absurd rfl ((List.nodup_append.1 hnl).2.2 l hl l he)
  · have hl := hlt _ Hole.records_mem
    refine ⟨Nat.lt_of_lt_of_le hl hr.renewed.evolves.records, ?_⟩
    rw [hr.renewed.list hl, hr.kills.lists List.mem_cons_self, hr.teardowns]
    rfl

theorem children : (w'.slot root).children = (C.fill x').tops := by
  by_cases hf : C.isFlat
  · rw [Hole.tops_of_isFlat hf, ← hr.holder.children, Hole.holder_of_isFlat hf]
  · have hroot := h.root_not_mem
    rw [Hole.slots_fill.mem_iff, List.mem_append, not_or] at hroot
    have hne : root.slot ≠ C.holder root.slot := fun he =>
      hroot.1 (he ▸ Hole.holder_mem (q := root.slot) hf)
    rw [Hole.tops_of_not_isFlat hf, ← Hole.tops_of_not_isFlat (x := x) hf, ← h.children]
    exact (hr.alike (i := root.slot) (hr.safe_root h) hroot.2 hne).children

theorem nodup_fill : ((C.fill .nil).slots ++ x'.slots).Nodup :=
  (List.nodup_append.1 h.nodup_fill).1.append hr.nodup fun i hi hx =>
    hr.renewed.new (e := .slot ⟨root.page, i⟩) ⟨rfl, hx⟩ (hr.safe h hi)

theorem nodupLists_fill : ((C.fill .nil).lists ++ x'.lists).Nodup := by
  refine (List.nodup_append.1 h.nodupLists_fill).1.append hr.nodupLists fun l hl hx => ?_
  have hlt : l.index < w₂.records.size := by
    rw [hr.kills.releases.records]
    exact h.stand.lt_of_lists (Hole.lists_subset hl)
  exact Nat.not_lt.2 (hr.renewed.new (e := .records l) hx) hlt

/-- What subscriptions of others do to a page does not happen to the new contents either. -/
theorem apart {c : CellId} {key : Nat} {r : Reaction} (hreg : (key, r) ∈ (w₂.cell c).registry)
    (hp : r.onPage) (ha : r.Apart w root (C.fill x)) : r.Apart w' root (C.fill x') := by
  have hsound := hr.kills.releases.sound h.sound
  have hpl := hsound.placed hreg hp
  have hold : ∀ {e}, r.Reaches w₂ e → ¬ (C.fill x).Has root.page e := fun he =>
    ha.reaches (hr.kills.releases.reaches he)
  refine ⟨fun {e} he hg => ?_, fun {s} {site} hrs hsite => ?_⟩
  · rcases hr.renewed.reaches hpl he with he | ⟨he, -⟩
    · have hx : ¬ x'.Has root.page e := by
        intro hx
        have hnew := hr.renewed.new hx.covers
        cases e with
        | slot n => exact hnew (Guards.safe (.registered hreg hpl he) (hpl.exists_of_reaches he))
        | records l => exact Nat.not_lt.2 hnew (hpl.exists_of_reaches he)
        | _ => exact hx
      refine hold he ?_
      cases e with
      | slot n =>
        rw [Mounts.Has, Hole.slots_fill.mem_iff, List.mem_append] at hg
        exact ⟨hg.1, Hole.slots_subset (hg.2.resolve_right fun hs => hx ⟨hg.1, hs⟩)⟩
      | records l =>
        rw [Mounts.Has, Hole.lists_fill.mem_iff, List.mem_append] at hg
        exact Hole.lists_subset (hg.resolve_right hx)
      | _ => exact hg
    · exact hold he (Hole.lists_subset Hole.records_mem)
  · subst hrs
    have hs : w'.sites[s.index]? = w.sites[s.index]? := by
      rw [hr.renewed.sites hpl.founded.lt, hr.kills.releases.sites]
    rw [hr.renewed.evolves.pages, hr.kills.releases.evolves.pages]
    exact ha.target rfl (hs ▸ hsite)

/-- The trees with the new contents are mounted. -/
theorem mounted : w'.Mounted D root m (C.fill x') where
  sound := hr.renewed.sound
  wired := h.wired.evolves (hr.kills.releases.evolves.trans hr.renewed.evolves)
  tracks := h.tracks.evolves (hr.kills.releases.evolves.trans hr.renewed.evolves)
  named := by
    rw [hr.renewed.evolves.names, hr.kills.releases.evolves.names]
    exact h.named
  occupied := hr.renewed.occupied (hr.safe_root h)
  stand := hr.stand h
  children := hr.children h
  teardowns := by
    rw [Hole.teardowns_fill, ← Hole.teardowns_fill (x := x)]
    exact h.teardowns
  nodup := Hole.slots_fill.nodup_iff.2 (hr.nodup_fill h)
  nodupLists := Hole.lists_fill.nodup_iff.2 (hr.nodupLists_fill h)
  apart {c key r} hreg hp := by
    rw [Hole.owns_fill]
    rcases hr.renewed.owns hreg hp with hreg | ho
    · rcases h.apart (hr.kills.releases.registry_subset c hreg) hp with ho | ha
      · rcases Hole.owns_fill.1 ho with ho | ho
        · exact .inl (.inl ho)
        · -- the subscriptions of the old contents are gone
          rw [hr.kills.registry (.inl ho.cases.1)] at hreg
          cases hreg
      · exact .inr (hr.apart h hreg hp ha)
    · exact .inl (.inr ho)

end Replaced

section

variable {site : Site} {v : Value} {u : Unit} (h : w.Mounted D root m (C.fill x))
  (hC : C.site? = some s) (hs : w.sites[s.index]? = some site) (hn : w'.NoSites D)
  (hrun : (replaceContents (respond d) site v).run w = .ok u w')
include h hC hs hn hrun

/-- Renewing a place of mounted trees kills its contents and puts new ones there. -/
theorem Mounted.replaced : ∃ w₂ m' x', (∃ b : World, Grows [b.nodeOf v] x') ∧
    World.Replaced D root C x x' m' w w₂ w' := by
  obtain ⟨hlist, c, t, ht, ⟨site', hs', hpg, -, hrec, htgt⟩⟩ := Hole.siteAt h.stand hC
  obtain rfl : site' = site := Option.some.inj (hs'.symm.trans hs)
  have hno : w.NoSites D := hn.of_evolves
    ((lives_replaceContents (respond_lives d) site' v).ok hrun h.wired.reading)
  have hkill : ∀ {w₂}, (killAll (respond d) (w.recordsIn site'.records)).run
      (w.taken site'.records) = .ok ⟨⟩ w₂ →
      Kills D (fun e => e = .records C.records ∨ x.Covers root.page e) x.cells x.refs
        (C.records :: x.lists) (x.listening root.page) w w₂ := by
    intro w₂ hk
    rw [hrec, hlist.records] at hk
    exact h.kills_contents hno hk
  have hpage : site'.surface.page.index < w.pages.size := by
    rw [hpg]
    exact World.lt_of_occupied h.occupied
  obtain ⟨content, w₂, w₅, w₆, m', x', hren⟩ := exists_renewal h.sound h.wired h.tracks hpage hn
    (fun hk => (hkill hk).releases) hrun
  have hk := hkill hren.killed
  have hr := hk.releases
  have hd := hren.drafted
  have hcp : content.page = root.page := hren.page.trans hpg
  -- the holder in the world with the draft
  have hholder : w₂.Safe ⟨root.page, C.holder root.slot⟩ :=
    h.safe_of_releases hr ((holder_mem C).imp_right Hole.slots_subset)
  have hne : (⟨root.page, C.holder root.slot⟩ : PageNode) ≠ content := fun he =>
    hd.fresh (he ▸ hholder)
  have halike := hd.built.slot hholder hne
  have hch : (w₅.slot ⟨root.page, C.holder root.slot⟩).children = C.before ++ x.tops ++ C.after :=
    halike.children.trans (((hr.page root.page).children _).trans h.children_holder)
  have hpinned : w₅.Fixed (w₅.pinned m'.holds) :=
    ⟨fun hs => ⟨_, hs, rfl⟩, fun hr => ⟨_, hr, rfl⟩, Nat.le_refl _⟩
  have hopens := ((Hole.opens h.stand ht).fixed (hr.fixed.trans hd.built.fixed)).fixed hpinned
  have hslot : (w₅.pinned m'.holds).slot content = _ := hd.slot
  have hput := hren.put
  rw [htgt] at hput
  obtain ⟨b, hb, hm⟩ := Hole.moves hopens (hd.built.sound.pinned _) (hd.built.occupied hholder) hch
    (by rw [hslot]) (by rw [hslot]; rfl) hput
  have hset := (hm.settles hb (hd.built.sound.pinned _) (hd.stand.repin _) hd.nodup
    (by rw [hslot])).unpinned
  have hlt : C.records.index < w₂.records.size := by
    rw [hr.records]
    exact h.stand.lt_of_lists (Hole.lists_subset Hole.records_mem)
  have hnew := hd.renewed hset hlt
  have hresult := hren.result
  rw [hrec] at hresult
  rw [← hresult, hcp] at hnew
  have htarget : w'.slot ⟨root.page, C.holder root.slot⟩ =
      { w₅.slot ⟨root.page, C.holder root.slot⟩ with children := C.before ++ x'.tops ++ C.after } := by
    have hsame : ∀ a, b.slot a = w₅.slot a := by
      rcases hb with rfl | ⟨i, rfl⟩ <;> exact fun _ => rfl
    have hn : (C.before ++ x.tops ++ C.after).Nodup := hch ▸ (hd.built.sound.forest _).nodup _
    have := hm.target
    rw [hsame, hsame, hch, hd.slot, filter_middle hn, List.take_left, List.drop_left] at this
    rw [hresult]
    exact this
  have hreplaced : World.Replaced D root C x x' m' w w₂ w' :=
    ⟨hk, hnew, ⟨by rw [htarget]; exact halike.content, by rw [htarget]; exact halike.parent,
      by rw [htarget]⟩, hcp ▸ hd.teardowns, hd.nodup, hd.nodupLists⟩
  exact ⟨w₂, m', x', hren.grows, hreplaced⟩

/-- Renewing a place of mounted trees leaves trees with other contents there, which are mounted. -/
theorem Mounted.refill :
    ∃ x', (∃ b : World, Grows [b.nodeOf v] x') ∧ w'.Mounted D root m (C.fill x') := by
  obtain ⟨w₂, m', x', hgrows, hr⟩ := h.replaced hC hs hn hrun
  exact ⟨x', hgrows, hr.mounted h⟩

/-- Renewing a place takes all that was registered from an observable that the old contents used,
also what the place itself depends on: afterwards only new contents of pages follow it. -/
theorem Mounted.severed {c : CellId} (hc : c ∈ x.cells ∨ c ∈ x.refs) {key : Nat} {r : Reaction}
    (hr : (key, r) ∈ (w'.cell c).registry) : w.nextKey ≤ key ∧ r.onPage := by
  obtain ⟨w₂, m', x', -, hreplaced⟩ := h.replaced hC hs hn hrun
  have hkey := hreplaced.kills.releases.evolves.nextKey
  obtain hold | ⟨hnew, hpage, -⟩ := hreplaced.renewed.evolves.registry _ _ hr
  · -- the old contents were killed, and with them went everything that was registered
    rw [hreplaced.kills.registry hc] at hold
    cases hold
  · exact ⟨Nat.le_trans hkey hnew, hpage⟩

end

end World

end LivePage
