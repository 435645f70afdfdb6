import LivePage.Proofs.Mount.Rooms
import LivePage.Proofs.Rebuild.Amid

/-!
# Worlds at rest

A tidy world is at rest if no place in it is being rebuilt or waits for a value. It is so again after
a subscription has been told something (`World.AtRest.told`), after an emission
(`World.AtRest.emits`), and after realizations and teardowns, provided that callbacks only read and
log, and that no place follows what references are told to. Rebuilding a place then does not come
back to it.
-/

namespace LivePage

open LivePage.Script

variable {w w' w₁ : World} {D : CellId → Prop} {c : CellId} {key d : Nat} {s : SiteId} {site : Site}
  {v : Value} {q n : PageNode} {r : Reaction} {u : Unit}

namespace World

/-- Places are what they were, and new ones are at rest. -/
structure Spawns (w w' : World) : Prop where
  old {k : Nat} : k < w.sites.size → w'.sites[k]? = w.sites[k]?
  new {k : Nat} {site : Site} : w.sites.size ≤ k → w'.sites[k]? = some site → site.Rests

theorem spawns_of_eq (h : w'.sites = w.sites) : w.Spawns w' where
  old _ := by rw [h]
  new hk hs := by
    rw [h] at hs
    exact absurd (Array.getElem?_eq_some_iff.1 hs).1 (Nat.not_lt.2 hk)

theorem Spawns.of_eq (h : w.Spawns w') (hs : w₁.sites = w'.sites) : w.Spawns w₁ :=
  ⟨fun hk => by rw [hs]; exact h.old hk, fun hk hs' => h.new hk (by rwa [← hs])⟩

/-- The world is tidy, and no place is being rebuilt or waits for a value. -/
structure AtRest (w : World) : Prop where
  tidy : w.Tidy
  rests {k : Nat} {site : Site} : w.sites[k]? = some site → site.Rests

end World

theorem Built.spawns (h : Built D q w w') : w.Spawns w' := ⟨h.sites, h.rests⟩

namespace World

namespace AtRest

theorem spawns (h : w.AtRest) (ht : w'.Tidy) (hs : w.Spawns w') : w'.AtRest where
  tidy := ht
  rests {k site} hk := by
    by_cases hlt : k < w.sites.size
    · exact h.rests ((hs.old hlt).symm.trans hk)
    · exact hs.new (Nat.le_of_not_lt hlt) hk

/-- Pages, subscriptions and places are the same. -/
theorem beside (h : w.AtRest) (hb : w.Beside w') (hs : w'.sites = w.sites) : w'.AtRest :=
  h.spawns (h.tidy.beside hb) (spawns_of_eq hs)

theorem repin (h : w.AtRest) (pins : List (List Entity)) : ({ w with pins } : World).AtRest :=
  h.beside (.repin w pins) rfl

end AtRest

/-! ## Renewing a place -/

/-- Renewing a place keeps the world tidy, and every other place at rest. -/
theorem Renewable.renewed (h : w.Renewable s site) (ht : w.Tidy) (hw : w.Wired) (htr : w.Tracks D)
    (hn : w'.NoSites D) (hrun : (replaceContents (respond d) site v).run w = .ok u w') :
    w'.Tidy ∧ w.Spawns w' := by
  have hno : w.NoSites D := hn.of_evolves
    ((lives_replaceContents (respond_lives d) site v).ok hrun hw.reading)
  have hhears : w.Hears D False := ⟨hw, htr, hno, False.elim⟩
  obtain ⟨content, w₂, w₅, w₆, m, x, hren⟩ := exists_renewal ht.sound hw htr h.lt hn
    (kills_place hhears h.record).ok hrun
  have ht₂ := ht.releases hren.releases
  have h₂ := h.releases hren.releases
  have hd := hren.drafted
  obtain ⟨ht₆, hs₆, p, hx⟩ := ((h₂.drafted ht₂ hd).pinned m.holds).tidy_put
    ((hd.tidy ht₂).repin _) (hd.stand.repin _) hd.nodup hd.slot hren.put
  rw [hren.result]
  refine ⟨(ht₆.repin w₆.unpinned.unpinned.pins).pushed (hx.repin _) hd.teardowns _, ?_⟩
  have hspawns : w₂.Spawns w₆ := hd.built.spawns.of_eq hs₆
  have hsites : w₂.sites = w.sites := hren.releases.sites
  exact ⟨fun hk => by rw [← hsites]; exact hspawns.old (by rwa [hsites]),
    fun hk hs => hspawns.new (by rwa [hsites]) hs⟩

/-- A world in which the place is being rebuilt. -/
abbrev busied (w : World) (s : SiteId) : World := w.marked s fun site => { site with busy := true }

/-- What spawns while a place is being rebuilt has spawned when that is over. -/
theorem Spawns.freed (h : (w.busied s).Spawns w') (hs : w.sites[s.index]? = some site)
    (hb : site.busy = false) : w.Spawns (w'.freed s) := by
  have hsize : (w.busied s).sites.size = w.sites.size := by simp [marked]
  have hlt : s.index < w.sites.size := (Array.getElem?_eq_some_iff.1 hs).1
  have hother : ∀ {k}, k ≠ s.index → (w'.freed s).sites[k]? = w'.sites[k]? ∧
      (w.busied s).sites[k]? = w.sites[k]? := fun {k} hk =>
    have hne : (⟨k⟩ : SiteId) ≠ s := fun he => hk (congrArg SiteId.index he)
    ⟨site_marked_of_ne hne, site_marked_of_ne hne⟩
  refine ⟨fun {k} hk => ?_, fun {k site'} hk hs' => ?_⟩
  · by_cases hks : k = s.index
    · subst hks
      have hold := (h.old (hsize ▸ hlt)).trans (site_marked hs)
      rw [site_marked hold, hs]
      simp [← hb]
    · rw [(hother hks).1, h.old (hsize ▸ hk), (hother hks).2]
  · rw [(hother (by omega)).1] at hs'
    exact h.new (hsize ▸ hk) hs'

/-- While it is being rebuilt, a place of a world at rest is renewable. -/
theorem AtRest.busied (h : w.AtRest) (hr : (key, .rebuild s) ∈ (w.cell c).registry)
    (hpin : .site s ∈ w.pins.flatten) (held : List Entity) :
    ∃ site, w.sites[s.index]? = some site ∧ site.Rests ∧ ((w.busied s).pinned held).Tidy ∧
      ((w.busied s).pinned held).Renewable s { site with busy := true } := by
  obtain ⟨site, hsite, -⟩ := h.tidy.room hr
  have hb : w.Beside (w.busied s) := .mark w s _ fun _ => rfl
  have htidy : ((w.busied s).pinned held).Tidy := (h.tidy.beside hb).repin _
  have hreg : (key, .rebuild s) ∈ (((w.busied s).pinned held).cell c).registry := hr
  obtain ⟨_, hren⟩ := htidy.renewable hreg (List.mem_append_right _ hpin)
  have hbusy : (w.busied s).sites[s.index]? = _ := site_marked hsite
  cases hbusy.symm.trans hren.record
  exact ⟨site, hsite, h.rests hsite, htidy, hren⟩

/-- Nothing is told to a place while its contents are replaced, and the world is at rest after that. -/
theorem AtRest.rebuilt (h : w.AtRest) (hw : w.Wired) (htr : w.Tracks D)
    (hr : (key, .rebuild s) ∈ (w.cell c).registry) (hpin : .site s ∈ w.pins.flatten)
    (hs : w.sites[s.index]? = some site)
    (hrun : (replaceContents (respond d) { site with busy := true } v).run
      ((w.busied s).pinned v.holds) = .ok u w') (hn : w'.NoSites D) :
    (w'.unpinned.freed s).AtRest ∧ (w'.unpinned.sites.getD s.index default).queued = none := by
  obtain ⟨_, hsite, hrest, htidy, hren⟩ := h.busied hr hpin v.holds
  cases hs.symm.trans hsite
  have hev : Evolves w (w.busied s) := evolves_mark w s _ fun _ => rfl
  obtain ⟨ht', hsp⟩ := hren.renewed htidy ((hw.evolves hev).pinned _) ((htr.evolves hev).pinned _) hn
    hrun
  have hb : w'.unpinned.Beside (w'.unpinned.freed s) := .mark _ s _ fun _ => rfl
  refine ⟨h.spawns (Tidy.beside (ht'.repin _) hb) (Spawns.freed ⟨hsp.old, hsp.new⟩ hs hrest.1), ?_⟩
  have hlt := (Array.getElem?_eq_some_iff.1 hren.record).1
  rw [show w'.unpinned.sites.getD s.index default = _ from
    getD_site ((hsp.old hlt).trans hren.record)]
  exact hrest.2

/-- Told what its observable holds, a place is rebuilt and comes to rest again. -/
theorem AtRest.told (h : w.AtRest) (hw : w.Wired) (htr : w.Tracks D) (hn : w'.NoSites D)
    (hr : (key, .rebuild s) ∈ (w.cell c).registry) (hpin : .site s ∈ w.pins.flatten)
    (hrun : (s.onEmission (respond d) v).run w = .ok u w') : w'.AtRest := by
  obtain ⟨site, hsite, hrest, -, hren⟩ := h.busied hr hpin []
  rw [run_onEmission_of_idle hsite hrest.1] at hrun
  cases d with
  | zero => exact absurd hrun not_ok_throw
  | succ d =>
    change (s.rebuild (respond d) v).run (w.busied s) = .ok u w' at hrun
    rw [SiteId.rebuild, ok_get_bind, show (w.busied s).sites.getD s.index default = _ from
      getD_site hren.record] at hrun
    obtain ⟨_, w₂, h₂, hafter⟩ := ok_bind.1 hrun
    obtain ⟨w₁, h₁, rfl⟩ := ok_holding.1 h₂
    have hbusy : Evolves w (w.busied s) := evolves_mark w s _ fun _ => rfl
    have hwired : ((w.busied s).pinned v.holds).Wired := (hw.evolves hbusy).pinned _
    have hread := ((lives_replaceContents (respond_lives d) _ v).ok h₁ hwired.reading).reading
      hwired.reading
    rw [ok_get_bind] at hafter
    split at hafter
    · next next hnext =>
      rw [ok_set_bind] at hafter
      have hmarked : Evolves w₁.unpinned (w₁.unpinned.dequeued s) := evolves_mark _ s _ fun _ => rfl
      have hev := (respond_lives d).lives (.rebuild s next) trivial |>.ok hafter
        (hmarked.reading hread)
      have hn₁ : w₁.unpinned.NoSites D := (hn.of_evolves hev).of_evolves hmarked
      cases (h.rebuilt hw htr hr hpin hsite h₁ hn₁).2.symm.trans hnext
    · rw [ok_set] at hafter
      subst hafter
      have hmarked : Evolves w₁.unpinned (w₁.unpinned.freed s) := evolves_mark _ s _ fun _ => rfl
      have hn₁ : w₁.unpinned.NoSites D := hn.of_evolves hmarked
      exact (h.rebuilt hw htr hr hpin hsite h₁ hn₁).1

/-! ## Emissions -/

theorem lasts_of_beside (hb : w.Beside w') (hp : w'.pins = w.pins) (hs : w'.sites = w.sites) :
    w.Lasts D AtRest w' :=
  ⟨by have := hb.evolves; rwa [← hp] at this, fun _ h => h.beside hb hs⟩

theorem carries_atRest :
    Carries (fun _ => True) (fun w => w.Wired ∧ w.Tracks D) (Lasts D AtRest) fun _ => True where
  wired h := h.1
  tracks _ := ⟨fun _ => trivial, fun _ _ _ => trivial⟩
  step hl hw := ⟨hw.1.evolves hl.1, hw.2.evolves hl.1⟩
  pinned held hw := ⟨hw.1.pinned held, hw.2.pinned held⟩
  evolves hl := hl.1
  quiet hq := lasts_of_beside hq.beside hq.pins hq.sites
  unpinned hl := ⟨hl.1.unpinned, fun hn h => (hl.2 hn (h.repin _)).repin _⟩
  hold held _ _ := lasts_of_beside (.hold _ _ held) rfl rfl
  boundary w b _ hf := lasts_of_beside
    ⟨evolves_boundary w b hf, fun _ => rfl, rfl, rfl, rfl, rfl⟩ rfl rfl
  calm _ := trivial

/-- What a subscription does leaves the world at rest. -/
theorem answers_atRest (d : Nat) :
    Answers (fun _ => True) (fun w => w.Wired ∧ w.Tracks D) (Lasts D AtRest) (fun _ => True)
      (respond d) := by
  induction d with
  | zero =>
    intro w c key r held _ _ _ _
    trivial
  | succ d ih =>
    intro w c key r held ⟨hw, htr⟩ _ hr hheld
    show KeepsAt _ _ w (r.run (respond d) held)
    by_cases hp : r.onPage
    · refine keepsAt_of_ok fun u w' hrun => ⟨(lives_react (respond_lives d) r held).ok hrun
        hw.reading, fun hn h => ?_⟩
      have hmarks : ∀ n, r.Marks n → w'.AtRest := fun n hm => by
        have hd := (dresses_react _ hm held).ok hrun
        exact h.spawns (h.tidy.dresses hd) (spawns_of_eq hd.sites)
      cases r with
      | rebuild s =>
        change (do let w ← get; s.onEmission (respond d) (w.heldArgument held) : Run Unit).run w =
          .ok u w' at hrun
        rw [ok_get_bind] at hrun
        exact h.told hw htr hn hr (hheld _ (by simp [World.reactionHolds])) hrun
      | «attribute» e name source => exact hmarks e rfl
      | styleProperty e name source => exact hmarks e rfl
      | _ => exact hp.elim
    · exact carries_atRest.react (respond_lives d) ih ⟨hw, htr⟩ trivial hr hp held

namespace AtRest

/-- A world is at rest after a subscription has been told something. -/
theorem reacts {held : Held} (h : w.AtRest) (hw : w.Wired) (htr : w.Tracks D)
    (hn : w'.NoSites D) (hr : (key, r) ∈ (w.cell c).registry)
    (hheld : ∀ e ∈ w.reactionHolds r, e ∈ w.pins.flatten)
    (hrun : (respond d (.react r held)).run w = .ok u w') : w'.AtRest :=
  ((answers_atRest d held ⟨hw, htr⟩ trivial hr hheld).ok hrun).2 hn h

/-- A world is at rest after an emission. -/
theorem emits (h : w.AtRest) (hw : w.Wired) (htr : w.Tracks D) (hn : w'.NoSites D)
    (he : Emits w w') : w'.AtRest := by
  cases he with
  | @emit d c hrun =>
    exact ((carries_atRest.emit (answers_atRest d) ⟨hw, htr⟩ trivial).ok hrun).2 hn h
  | @assign d c held hrun =>
    obtain ⟨_, w₁, h₁, hrun⟩ := ok_bind.1 hrun
    rw [hold, run_modifyCell] at h₁
    cases h₁
    have hev : Evolves w (w.withCell c fun cell => { cell with held }) :=
      evolves_withCell (fun _ => rfl) fun _ => .refl _
    exact ((carries_atRest.emit (answers_atRest d) ⟨hw.evolves hev, htr.evolves hev⟩ trivial).ok
      hrun).2 hn (h.beside (.hold w c held) rfl)

end AtRest

end World

end LivePage
