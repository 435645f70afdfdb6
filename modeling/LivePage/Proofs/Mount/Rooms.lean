import LivePage.Proofs.Mount.Splicing
import LivePage.Proofs.Mount.Upkeep

/-!
# Renewing a place

A place that a subscription rebuilds is `World.Renewable` in a tidy world. It stays so while its old
records are killed and its new contents are drafted (`World.Renewable.releases`,
`World.Renewable.drafted`), and then they can be put there (`World.Renewable.run_put`), which leaves the
world tidy (`World.Renewable.tidy_put`).
-/

namespace LivePage

variable {w w' w₂ : World} {content : PageNode} {s : SiteId} {site : Site} {m : Teardown} {x : Mounts}
  {D : CellId → Prop} {X : List Nat} {c : CellId} {key : Nat} {r : RegionId} {region : Region}

/-- What stands between the comments of a region is replaced by a node that is not above them. -/
theorem RegionId.exists_splice {q : PageNode} {A B C : List Nat}
    (hr : w.regions[r.index]? = some region) (hf : (w.page q.page).Forest)
    (hstart : region.start.page = q.page) (hfinish : region.finish.page = q.page)
    (hs : (w.slot q).children = A ++ region.start.slot :: (B ++ region.finish.slot :: C))
    (hpage : content.page = q.page) (hc : (w.slot content).parent = none)
    (hu : ¬ (w.page q.page).Up q.slot content.slot) :
    ∃ w', (r.splice content).run w = .ok (.ok ()) w' := by
  have hparent : ((w.page q.page).slot region.start.slot).parent = some q.slot :=
    hf.down (show region.start.slot ∈ (w.slot q).children by rw [hs]; simp)
  have hcon : (w.slot q).content.type.isContainer := by
    by_contra hcon
    have := hf.leaf q.slot (Bool.eq_false_iff.2 hcon)
    rw [show (w.page q.page).slot q.slot = w.slot q from rfl, hs] at this
    simp at this
  have hn := hf.nodup_between hs
  have hl : ∀ i ∈ B, ((w.page q.page).slot i).parent = some q.slot := fun _ => hf.parent_between hs
  have hfits : w.Fits q B content :=
    ⟨hpage, hn, hl, hcon, fun h => hu (Page.up_of_up_detachAll hf hn hl h)⟩
  have hrun : (r.splice content).run w = .ok (.ok ())
      ((w.reparented r q).replaced q B content (A ++ [region.start.slot]).length) := by
    refine (ok_splice hr (by rwa [hstart]) hc).2 (.inr ⟨q, hstart.symm, ?_, ?_, hfinish, ?_⟩)
    · rw [World.slot, hstart]
      exact hparent
    · rwa [hf.between_eq hs]
    · rw [hf.between_eq hs]
      exact ⟨_, hf.insertionIndex_between hs, rfl⟩
  exact ⟨_, hrun⟩

/-- The children of an element are replaced by a node that is not above it. -/
theorem PageNode.exists_replaceChildren {n : PageNode} (hs : w.Sound)
    (hcon : (w.slot n).content.type.isContainer) (ho : w.Occupied n) (hpage : content.page = n.page)
    (hc : (w.slot content).parent = none) (hu : ¬ (w.page n.page).Up n.slot content.slot) :
    ∃ w', (n.replaceChildren content).run w = .ok (.ok ()) w' := by
  have hf := hs.forest n.page
  have hl : ∀ i ∈ (w.slot n).children, (w.slot ⟨n.page, i⟩).parent = some n.slot := fun _ => hf.down
  refine ⟨_, (ok_replaceChildren hf hc (World.lt_of_occupied ho)).2 ⟨⟨hpage, hf.nodup n.slot, hl, hcon,
    fun h => hu (Page.up_of_up_detachAll hf (hf.nodup n.slot) hl h)⟩, rfl⟩⟩

namespace World

/-- The place is there with all that it leads to, it is held, and new contents can be put into it. -/
structure Renewable (w : World) (s : SiteId) (site : Site) : Prop where
  record : w.sites[s.index]? = some site
  founded : w.Founded s
  room : w.Room site
  held : .site s ∈ w.pins.flatten

/-- The places of subscriptions are renewable. -/
theorem Tidy.renewable (h : w.Tidy) (hr : (key, .rebuild s) ∈ (w.cell c).registry)
    (hpin : .site s ∈ w.pins.flatten) : ∃ site, w.Renewable s site := by
  obtain ⟨site, hs, hroom⟩ := h.room hr
  exact ⟨site, hs, (h.sound.placed hr trivial).founded, hroom, hpin⟩

namespace Renewable

section

variable (h : w.Renewable s site)
include h

theorem safe {n : PageNode} (hn : w.Reaches s (.slot n)) : w.Safe n :=
  Guards.safe (.site h.held h.founded hn) (h.founded.exists_of_reaches hn)

/-- The page of the place is there. -/
theorem lt : site.surface.page.index < w.pages.size := by
  cases h.room.sits with
  | region ht hr hs =>
    rw [← hs]
    exact lt_of_occupied ((h.founded.exists_of_reaches (.start (.region h.record ht) hr)))
  | contents ht hn =>
    rw [← hn]
    exact lt_of_occupied (h.founded.exists_of_reaches (.contents h.record ht))

/-- Killing records leaves the place renewable. -/
theorem releases {K : Entity → Prop} (hr : Releases D K w w') : w'.Renewable s site where
  record := by rw [hr.sites]; exact h.record
  founded := h.founded.releases hr
  held := by rw [hr.evolves.pins]; exact h.held
  room := {
    sits := h.room.sits.still hr.fixed rfl fun n _ => (hr.page n.page).type n.slot
    between := fun {r region q} ht hregion hp => by
      rw [hr.regions] at hregion
      obtain ⟨A, B, C, hs, hB⟩ := h.room.between ht hregion (((hr.page _).parent _).symm.trans hp)
      refine ⟨A, B, C, ((hr.page _).children _).trans hs, hB.widen fun a b hab => .inl ?_⟩
      obtain ⟨hreg, hsite, htarget, hregion, ha⟩ := hab
      rw [hr.sites] at hsite
      rw [hr.regions] at hregion
      exact ⟨hr.registry_subset _ hreg, hsite, htarget, hregion, ha⟩ }

end

/-- Drafting new contents leaves the place renewable. -/
theorem drafted (h : w.Renewable s site) (ht : w.Tidy) (hd : Drafted D content w w' m x) :
    w'.Renewable s site where
  record := (hd.built.sites h.founded.lt).trans h.record
  founded := hd.built.within.founded h.founded fun n hn => hd.built.occupied (h.safe hn)
  held := hd.built.pinned_subset _ h.held
  room := by
    have hne : ∀ {n}, w.Safe n → n ≠ content := fun hn he => hd.fresh (he ▸ hn)
    refine ⟨h.room.sits.still hd.built.fixed rfl fun n ht => ?_, fun {r region q} htarget hregion hp => ?_⟩
    · have hn := h.safe (.contents h.record ht)
      exact (hd.built.slot hn (hne hn)).type
    cases h.room.sits with
    | contents ht' => cases htarget.symm.trans ht'
    | @region r₀ region₀ ht' hr₀ hs₀ hf₀ =>
      cases htarget.symm.trans ht'
      obtain ⟨region', hr', ha⟩ := hd.built.fixed.regions hr₀
      obtain rfl := Option.some.inj (hregion.symm.trans hr')
      rw [Region.start_of_anchors ha] at hp ⊢
      rw [Region.finish_of_anchors ha]
      have hstart := h.safe (.start (.region h.record htarget) hr₀)
      rw [(hd.built.slot hstart (hne hstart)).parent] at hp
      have hq : w.Safe ⟨site.surface.page, q⟩ := hs₀ ▸ hstart.up (.parent hp)
      obtain ⟨A, B, C, hs, hB⟩ := h.room.between htarget hr₀ hp
      refine ⟨A, B, C, ((hd.built.slot hq (hne hq)).children).trans hs, hB.widen ?_⟩
      refine hd.builds.pair_or_not_mem ht fun i hi => hq.down (.parent ?_)
      exact (ht.sound.forest _).down (show i ∈ (w.slot ⟨_, q⟩).children by rw [hs]; simp [hi])

/-- What is pinned does not matter. -/
theorem pinned (h : w.Renewable s site) (held : List Entity) : (w.pinned held).Renewable s site where
  record := h.record
  founded := by
    have hw : w.Within (w.pinned held) := World.within_of_eq rfl rfl rfl
    exact hw.founded h.founded fun _ hn => h.founded.exists_of_reaches hn
  held := List.mem_append_right _ h.held
  room := {
    sits := h.room.sits.still ⟨fun hs => ⟨_, hs, rfl⟩, fun hr => ⟨_, hr, rfl⟩, Nat.le_refl _⟩ rfl
      fun _ _ => rfl
    between := fun ht hr hp => by
      obtain ⟨A, B, C, hs, hB⟩ := h.room.between ht hr hp
      refine ⟨A, B, C, hs, hB.widen fun a b hab => .inl ?_⟩
      obtain ⟨hreg, hsite, htarget, hregion, ha⟩ := hab
      exact ⟨hreg, hsite, htarget, hregion, ha⟩ }

/-- The new contents do not stand above the place. -/
theorem not_up (h : w.Renewable s site) (hd : Drafted D content w w' m x) {held : List Entity}
    {n : PageNode} (hn : (w'.pinned held).Reaches s (.slot n)) (hpage : n.page = content.page) :
    ¬ (w'.page n.page).Up n.slot content.slot := by
  intro hu
  have hback := (hd.built.pinned held).within.reaches_of h.founded hn
  have hsafe := hd.built.safe_of_up (fun hc => absurd hc hd.fresh) (h.safe hback) hu
  rw [hpage] at hsafe
  exact hd.fresh hsafe

section

variable (h : w.Renewable s site) (ht : w.Tidy) (hx : x.Stand w content.page content.slot)
  (hnodup : x.slots.Nodup) (hslot : w.slot content = { content := .fragment, children := x.tops })
include h ht hslot

/-- New contents can be put into the place. -/
theorem run_put (hpage : content.page = site.surface.page)
    (hup : ∀ n, w.Reaches s (.slot n) → n.page = content.page →
      ¬ (w.page n.page).Up n.slot content.slot) :
    ∃ w', (site.target.put content).run w = .ok (.ok ()) w' := by
  have hroot : (w.slot content).parent = none := by rw [hslot]
  cases h.room.sits with
  | @region r region htarget hr hstart hfinish =>
    rw [htarget]
    have hreach : w.Reaches s (.slot region.start) := .start (.region h.record htarget) hr
    cases hp : (w.slot region.start).parent with
    | none => exact ⟨w, RegionId.run_splice_of_root hr hp⟩
    | some q =>
      obtain ⟨A, B, C, hs, -⟩ := h.room.between htarget hr hp
      refine RegionId.exists_splice (q := ⟨site.surface.page, q⟩) hr (ht.sound.forest _) hstart
        hfinish hs hpage hroot fun hu => hup _ hreach (hstart.trans hpage.symm) ?_
      rw [hstart]
      refine .step ?_ hu
      rwa [World.slot, hstart] at hp
  | @contents n htarget hn htype =>
    rw [htarget]
    have hreach : w.Reaches s (.slot n) := .contents h.record htarget
    exact PageNode.exists_replaceChildren ht.sound (by rw [htype]; rfl)
      (h.founded.exists_of_reaches hreach) (hpage.trans hn.symm) hroot
      (hup n hreach (hn.trans hpage.symm))

include hx hnodup

/-- Putting them there leaves the world tidy, and places what they are. -/
theorem tidy_put (hput : (site.target.put content).run w = .ok (.ok ()) w') :
    w'.Tidy ∧ w'.sites = w.sites ∧ ∃ p, x.Stand w' content.page p := by
  have hroot : (w.slot content).parent = none := by rw [hslot]
  have htype : (w.slot content).content.type = .fragment := by rw [hslot]; rfl
  cases h.room.sits with
  | @region r region htarget hr hstart hfinish =>
    rw [htarget] at hput
    cases hp : (w.slot region.start).parent with
    | none =>
      cases (RegionId.run_splice_of_root hr hp).symm.trans hput
      exact ⟨ht, rfl, _, hx⟩
    | some q =>
      obtain ⟨A, B, C, hs, hB⟩ := h.room.between htarget hr hp
      obtain ⟨k, hm, -⟩ := moves_of_splice ht.sound hr hroot htype hp hput
      have hstand := (hm.settles (.inr ⟨_, rfl⟩) ht.sound hx hnodup (by rw [hslot])).stand
      rw [hstart, (ht.sound.forest _).between_eq hs] at hm
      refine ⟨(ht.reparented r _).moves hm (hB.widen fun x y hxy => .inl ?_), ?_, _, hstand⟩
      · exact ht.pairs (w.fixed_reparented r _) (fun _ _ hs _ => hs) hxy
      · obtain ⟨page, rfl⟩ := hm.eq
        rfl
  | @contents n htarget hn hcon =>
    rw [htarget] at hput
    have ho : w.Occupied n := h.founded.exists_of_reaches (.contents h.record htarget)
    have hm := moves_of_replaceChildren ht.sound ho hroot htype hput
    have hstand := (hm.settles (.inl rfl) ht.sound hx hnodup (by rw [hslot])).stand
    refine ⟨ht.moves hm (ht.nested n.page n.slot).closed, ?_, _, hstand⟩
    obtain ⟨page, rfl⟩ := hm.eq
    rfl

end

end Renewable

/-- The record of trees that stand somewhere is added to a list. -/
theorem Tidy.pushed (h : w.Tidy) {p : Nat} (hx : x.Stand w content.page p)
    (hm : x.teardowns content.page = [m]) (l : RecordsId) : (w.pushed l m).Tidy :=
  h.shaped (h.sound.pushed hx hm l) (w.fixed_pushed l m) (fun _ _ hs _ => hs) fun _ => .refl _

end World

end LivePage
