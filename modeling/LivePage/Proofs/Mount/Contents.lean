import LivePage.Proofs.Mount.Opening

/-!
# Contents come into place

New contents are realized in a fragment, which is put into its place when they are complete. Its
children move, and with them the trees that stand below it (`Mounts.Stand.moves`); the nodes that
were in the place leave it. From then on the place follows its observable (`Built.following`).
-/

namespace LivePage

variable {b w w' : World} {n q content start finish : PageNode} {stale : List Nat} {k : Nat}
  {pg : PageId} {p i : Nat} {D : CellId → Prop} {c : CellId} {l : RecordsId} {r : RegionId}
  {g : Mounts} {t : Target} {e : Entity} {ms : List Teardown}

/-! ## Moving contents -/

/-- The children of the fragment `content` have come below `n`, at a place among its children, and
the `stale` nodes have left it. -/
structure World.Moves (w : World) (n : PageNode) (stale : List Nat) (content : PageNode) (k : Nat)
    (w' : World) : Prop where
  page : content.page = n.page
  eq : ∃ page, w' = w.withPage n.page page
  forest : (w'.page n.page).Forest
  occupied {m : PageNode} : w'.Occupied m ↔ w.Occupied m
  notUp : ¬ (w.page n.page).Up n.slot content.slot
  parent_stale {i : Nat} : i ∈ stale → (w.slot ⟨n.page, i⟩).parent = some n.slot
  target : w'.slot n = { w.slot n with
    children := ((w.slot n).children.filter (· ∉ stale)).take k ++ (w.slot content).children ++
      ((w.slot n).children.filter (· ∉ stale)).drop k }
  moved {i : Nat} : i ∈ (w.slot content).children →
    w'.slot ⟨n.page, i⟩ = { w.slot ⟨n.page, i⟩ with parent := some n.slot }
  emptied : w'.slot content = { w.slot content with children := [] }
  left {i : Nat} : i ∈ stale → w'.slot ⟨n.page, i⟩ = { w.slot ⟨n.page, i⟩ with parent := none }
  other {m : PageNode} : m ≠ n → m ≠ content →
    (m.page = n.page → m.slot ∉ (w.slot content).children ∧ m.slot ∉ stale) → w'.slot m = w.slot m

/-- Putting a fragment in place moves its children. -/
theorem World.Fits.moves (hs : w.Sound) (ho : w.Occupied n) (hfit : w.Fits n stale content)
    (hroot : (w.slot content).parent = none) (htype : (w.slot content).content.type = .fragment)
    (k : Nat) : w.Moves n stale content k (w.replaced n stale content k) := by
  obtain ⟨pg, a⟩ := n
  obtain ⟨pg', j⟩ := content
  obtain rfl : pg' = pg := hfit.page
  have hf := hs.forest pg'
  have hlt := World.lt_of_occupied ho
  have hn := hfit.nodup
  have hl := hfit.parent
  have hup : ¬ (w.page pg').Up a j := fun h => hfit.notUp (Page.up_detachAll_of_up hf hn hl h)
  have hne : a ≠ j := fun h => hup (h ▸ .refl _ _)
  have hmoved : (w.page pg').moved j = (w.slot ⟨pg', j⟩).children := if_pos htype
  have hslot := Page.slot_replace hf hn hl hroot ho hne k
  rw [hmoved] at hslot
  have hself := World.slot_withPage_self hlt ((w.page pg').replace a stale j k)
  have hpc : ∀ {i}, i ∈ (w.slot ⟨pg', j⟩).children → ((w.page pg').slot i).parent = some j :=
    fun hi => hf.down hi
  have hps : ∀ {i}, i ∈ stale → ((w.page pg').slot i).parent = some a := hl _
  have hac : a ∉ (w.slot ⟨pg', j⟩).children := fun h => hup (.parent (hpc h))
  have has : a ∉ stale := fun h => hf.parent_ne (hps h) rfl
  have hjc : j ∉ (w.slot ⟨pg', j⟩).children := fun h => hf.parent_ne (hpc h) rfl
  have hjs : j ∉ stale := fun h => by
    have := (hps h).symm.trans hroot
    cases this
  have hsc : ∀ {i}, i ∈ stale → i ∉ (w.slot ⟨pg', j⟩).children := fun h h' =>
    hne (Option.some.inj ((hps h).symm.trans (hpc h')))
  refine ⟨rfl, ⟨_, rfl⟩, ?_, fun {m} => ?_, hup, hps, ?_, fun {i} hi => ?_, ?_, fun {i} hi => ?_,
    fun {m} hmn hmc hm => ?_⟩
  · show ((w.withPage pg' _).page pg').Forest
    rw [World.page_withPage_self hlt]
    exact hf.replace hn hl hroot ho hfit.container hup k
  · by_cases hmp : m.page = pg'
    · subst hmp
      show ((w.withPage m.page _).page m.page).Occupied m.slot ↔ _
      rw [World.page_withPage_self hlt]
      exact Page.occupied_replace
    · show ((w.withPage pg' _).page m.page).Occupied m.slot ↔ _
      rw [World.page_withPage_of_ne hmp]
      rfl
  · refine (hself a).trans ((hslot a).trans ?_)
    rw [if_neg hac, if_neg has, if_pos rfl]
    rfl
  · have hia : i ≠ a := fun h => hac (h ▸ hi)
    have hij : i ≠ j := fun h => hjc (h ▸ hi)
    refine (hself i).trans ((hslot i).trans ?_)
    rw [if_pos hi, if_neg hia, if_neg fun h => hij h.1]
    rfl
  · refine (hself j).trans ((hslot j).trans ?_)
    rw [if_neg hjc, if_neg hjs, if_neg hne.symm, if_pos ⟨rfl, htype⟩]
    rfl
  · have hia : i ≠ a := fun h => has (h ▸ hi)
    have hij : i ≠ j := fun h => hjs (h ▸ hi)
    refine (hself i).trans ((hslot i).trans ?_)
    rw [if_neg (hsc hi), if_pos hi, if_neg hia, if_neg fun h => hij h.1]
    rfl
  · by_cases hmp : m.page = pg'
    · obtain ⟨pg, i⟩ := m
      obtain rfl : pg = pg' := hmp
      obtain ⟨hc, hs⟩ := hm rfl
      have hia : i ≠ a := fun h => hmn (by rw [h])
      have hij : i ≠ j := fun h => hmc (by rw [h])
      refine (hself i).trans ((hslot i).trans ?_)
      rw [if_neg hc, if_neg hs, if_neg hia, if_neg fun h => hij h.1]
      rfl
    · exact World.slot_withPage_of_ne hmp _

/-- Trees that stand in the fragment move with it. -/
theorem Mounts.Stand.moves (hs : w.Sound) (h : g.Stand w n.page content.slot)
    (hnodup : g.slots.Nodup) (htops : (w.slot content).children = g.tops)
    (hm : w.Moves n stale content k w') : g.Stand w' n.page n.slot := by
  obtain ⟨page, rfl⟩ := hm.eq
  refine h.moved (World.within_withPage w n.page page).toFixed (fun i hi => hm.moved (htops ▸ hi))
    (fun i hi => ?_) fun _ _ => rfl
  have hperm := g.slots_perm
  have hi' : i ∈ g.slots := hperm.mem_iff.2 (List.mem_append_right _ hi)
  have hin : i ≠ n.slot := fun he => hm.notUp (he ▸ h.up hs hi')
  refine hm.other (fun he => hin (by rw [← he])) (fun he => ?_) fun _ => ⟨fun ht => ?_, fun hst => ?_⟩
  · exact h.not_mem hs ((congrArg PageNode.slot he).symm ▸ hi')
  · have := (hperm.nodup_iff.1 hnodup)
    exact (List.nodup_append.1 this).2.2 i (htops ▸ ht) i hi rfl
  · obtain ⟨p, hp, hpq⟩ := h.parent hi'
    obtain rfl : n.slot = p := Option.some.inj ((hm.parent_stale hst).symm.trans hp)
    rcases hpq with he | hpq
    · exact hm.notUp (he ▸ .refl _ _)
    · exact hm.notUp (h.up hs hpq)

/-- Moving new contents into place without taking anything out is building. -/
theorem Built.moves (h : Built D q b w) (hq : n = q ∨ ¬ b.Safe n) (hm : w.Moves n [] content k w')
    (hcontent : ¬ b.Safe content)
    (hnew : ∀ i ∈ (w.slot content).children, ¬ b.Safe ⟨n.page, i⟩) : Built D q b w' := by
  obtain ⟨page, rfl⟩ := hm.eq
  have hslot : ∀ i, b.Safe ⟨n.page, i⟩ → w.Occupied ⟨n.page, i⟩ → (⟨n.page, i⟩ : PageNode) ≠ n →
      page.slot i = w.slot ⟨n.page, i⟩ := by
    intro i hi ho hin
    rw [← World.slot_withPage_self (World.lt_of_occupied ho) page i]
    exact hm.other hin (fun he => hcontent (he ▸ hi)) fun _ => ⟨fun ht => hnew i ht hi, by simp⟩
  have hforest := hm.forest
  by_cases hlt : n.page.index < w.pages.size
  · rw [World.page_withPage_self hlt] at hforest
    refine h.edit hforest (fun i hi => ?_) (fun i j hi hp => ?_) fun i hi hne => ?_
    · have := (hm.occupied (m := ⟨n.page, i⟩)).2 hi
      rwa [World.Occupied, World.page_withPage_self hlt] at this
    · by_cases hin : (⟨n.page, i⟩ : PageNode) = n
      · have ht := hm.target
        rw [← hin, World.slot_withPage_self hlt] at ht
        rw [ht]
        exact hp
      · rw [hslot i hi (h.occupied hi) hin]
        exact hp
    · refine hslot i hi (h.occupied hi) ?_
      rintro hin
      rcases hq with rfl | hq
      · exact hne hin
      · exact hq (hin ▸ hi)
  · have : w.withPage n.page page = w := by
      simp [World.withPage, Array.setIfInBounds, hlt]
    rwa [this]

/-! ## Following an observable -/

/-- A new place that follows an observable. -/
def World.following (w : World) (surface : Surface) (c : CellId) (l : RecordsId) (t : Target) :
    World :=
  (w.withSite { surface, source := c, records := l, target := t }).subscribed c
    (.rebuild ⟨w.sites.size⟩)

theorem siteAt_following (w : World) (surface : Surface) (c : CellId) (l : RecordsId) (t : Target) :
    (w.following surface c l t).SiteAt ⟨w.sites.size⟩ surface.page c l t :=
  ⟨(siteAt_withSite w { surface, source := c, records := l, target := t }).site⟩

theorem mem_registry_following {surface : Surface} (hk : w.Keyed) {d : CellId}
    {s : Nat × Reaction} (h : s ∈ ((w.following surface c l t).cell d).registry) :
    s ∈ (w.cell d).registry ∨ d = c ∧ s.2 = .rebuild ⟨w.sites.size⟩ := by
  have hk' : (w.withSite { surface, source := c, records := l, target := t }).Keyed := hk
  rw [World.following, World.registry_subscribed hk'] at h
  split at h
  · next hd =>
    rcases List.mem_append.1 h with h | h
    · exact .inl h
    · exact .inr ⟨hd.1, congrArg Prod.snd (List.mem_singleton.1 h)⟩
  · exact .inl h

theorem registry_subset_following {surface : Surface} (hk : w.Keyed) {d : CellId}
    {s : Nat × Reaction} (h : s ∈ (w.cell d).registry) :
    s ∈ ((w.following surface c l t).cell d).registry := by
  have hk' : (w.withSite { surface, source := c, records := l, target := t }).Keyed := hk
  rw [World.following, World.registry_subscribed hk']
  split
  · exact List.mem_append_left _ h
  · exact h

/-- Following an observable is building, if what the place leads to is new. -/
theorem Built.following (h : Built D q b w) (hk : w.Keyed) (surface : Surface)
    (hl : w.ListAt l (g.teardowns surface.page)) (hg : g.Stand w surface.page p)
    (hnew : b.records.size ≤ l.index) (hcover : ∀ e, g.Covers surface.page e → b.New e)
    (hframe : ∀ e, w.Frames t e → w.Exists e ∧ b.New e) (c : CellId) :
    Built D q b (w.following surface c l t) := by
  let site : Site := { surface, source := c, records := l, target := t }
  have hsite := h.withSite (show site.Rests from ⟨rfl, rfl⟩)
  have hfixed : w.Fixed (w.withSite site) :=
    ⟨fun hs => ⟨_, getElem?_push_of_some hs, rfl⟩, fun hr => ⟨_, hr, rfl⟩, Nat.le_refl _⟩
  have hat : (w.withSite site).SiteAt ⟨w.sites.size⟩ surface.page c l t := siteAt_withSite w site
  have hlist : (w.withSite site).ListAt l (g.teardowns surface.page) := ⟨hl.lt, hl.records⟩
  have hstand : g.Stand (w.withSite site) surface.page p :=
    hg.frame (x := True) hfixed (fun _ _ => .refl _ _) fun _ _ => rfl
  have hreach : ∀ e, Reaction.Reaches (w.withSite site) (.rebuild ⟨w.sites.size⟩) e →
      e = .site ⟨w.sites.size⟩ ∨ e = .records l ∨ g.Covers surface.page e ∨ w.Frames t e :=
    fun e he => he.imp_right (hat.reaches hlist hstand)
  refine hsite.subscribed hk ⟨trivial, ⟨_, Array.getElem?_push_size, rfl⟩, fun {e} he => ?_⟩
    fun e he => ?_
  · rcases hreach e he with rfl | rfl | he | he
    · show w.sites.size < (w.sites.push _).size
      simp
    · exact hl.lt
    · refine hfixed.exists_of_exists (hg.exists_of_covers h.sound he) ?_
      rintro n rfl
      exact hg.exists_of_covers h.sound he
    · refine hfixed.exists_of_exists (hframe e he).1 ?_
      rintro n rfl
      exact (hframe _ he).1
  · rcases hreach e he with rfl | rfl | he | he
    · exact h.sites_size
    · exact hnew
    · exact hcover e he
    · exact (hframe e he).2

/-- What has grown is new. -/
theorem Grown.new (h : Grown D q b w ms g) (he : g.Covers q.page e) : b.New e := by
  cases e with
  | slot n =>
    obtain ⟨pg, i⟩ := n
    obtain ⟨rfl, hi⟩ := he
    exact h.fresh hi
  | records l => exact h.lists he
  | site s => exact h.sites he
  | _ => trivial

end LivePage
