import LivePage.Proofs.Mount.Renewal

/-!
# What lasts through emissions

A property of worlds lasts through emissions if the single things that subscriptions do to pages keep
it: dressing an element, and replacing the contents of a place (`Lasting`). Everything else that
happens meanwhile changes what is held, logged and pinned, or what places are waiting for, which such
a property does not depend on.
-/

namespace LivePage

open LivePage.Script

variable {α : Type} {w w' w'' : World} {n : PageNode} {c : CellId} {D : CellId → Prop} {d : Nat}
  {s : SiteId} {P : World → Prop} {A : SiteId → World → Prop} {r : Reaction} {x : Run α}

/-- Pages, subscriptions, records, regions and places are the same, whether or not places are busy. -/
structure World.Beside (w w' : World) : Prop where
  evolves : Evolves w { w' with pins := w.pins }
  registry (c : CellId) : (w'.cell c).registry = (w.cell c).registry
  pages : w'.pages = w.pages
  records : w'.records = w.records
  regions : w'.regions = w.regions
  sites : w'.sites.map Site.still = w.sites.map Site.still

namespace World.Beside

theorem repin (w : World) (pins : List (List Entity)) : w.Beside { w with pins := pins } :=
  ⟨.refl w, fun _ => rfl, rfl, rfl, rfl, rfl⟩

theorem mark (w : World) (s : SiteId) (f : Site → Site) (hf : ∀ x, (f x).still = x.still) :
    w.Beside { w with sites := w.sites.modify s.index f } := by
  refine ⟨evolves_mark w s f hf, fun _ => rfl, rfl, rfl, rfl, Array.ext_getElem? fun i => ?_⟩
  simp only [Array.getElem?_map, Array.getElem?_modify]
  split
  · cases w.sites[i]? with
    | none => rfl
    | some x => simp [hf]
  · rfl

theorem hold (w : World) (c : CellId) (held : Held) :
    w.Beside (w.withCell c fun cell => { cell with held }) := by
  have hev : Evolves w (w.withCell c fun cell => { cell with held }) :=
    evolves_withCell (fun _ => rfl) fun _ => .refl _
  refine ⟨hev, fun d => ?_, rfl, rfl, rfl, rfl⟩
  rw [World.cell_withCell]
  split <;> rfl

section

variable (h : w.Beside w')
include h

theorem page (p : PageId) : w'.page p = w.page p := by rw [World.page, h.pages, World.page]

theorem slot (n : PageNode) : w'.slot n = w.slot n := by rw [World.slot, h.page, World.slot]

theorem recordsIn (l : RecordsId) : w'.recordsIn l = w.recordsIn l := by
  rw [World.recordsIn, h.records, World.recordsIn]

theorem site (s : Nat) : (w'.sites[s]?).map Site.still = (w.sites[s]?).map Site.still := by
  have := congrArg (·[s]?) h.sites
  simpa using this

theorem fixed : w.Fixed w' where
  sites {s site} hs := by
    have hsite := h.site s
    rw [hs] at hsite
    exact Option.map_eq_some_iff.1 hsite
  regions hr := ⟨_, by rwa [h.regions], rfl⟩
  size := Nat.le_of_eq (by rw [h.records])

theorem reaches {e : Entity} (he : r.Reaches w' e) : r.Reaches w e := by
  cases r with
  | rebuild s =>
    refine he.imp_right (World.Reaches.transfer (fun site hs => ?_)
      (fun _ region _ _ hr => ⟨region, by rwa [← h.regions], rfl⟩) fun l m _ _ hm => by
        rwa [← h.recordsIn])
    have hsite := h.site s.index
    rw [hs] at hsite
    exact Option.map_eq_some_iff.1 hsite.symm
  | _ => exact he

theorem exists_of_exists {e : Entity} (he : w.Exists e) : w'.Exists e := by
  refine h.fixed.exists_of_exists he ?_
  rintro n rfl
  show (w'.page n.page).Occupied n.slot
  rw [h.page]
  exact he

theorem sound (hs : w.Sound) : w'.Sound where
  forest p := by rw [h.page]; exact hs.forest p
  placed hr hp := by
    rw [h.registry] at hr
    have hpl := hs.placed hr hp
    exact hpl.mono h.fixed (fun _ => h.reaches) fun n hn =>
      h.exists_of_exists (hpl.exists_of_reaches hn)

end

end World.Beside

theorem Quiet.beside (h : Quiet w w') : w.Beside w' :=
  ⟨h.evolves.repin w.pins, fun c => by rw [h.cell], h.pages, h.records, h.regions,
    by rw [h.sites]⟩

theorem keepsAt_of_ok {R : World → World → Prop} (h : ∀ a w', x.run w = .ok a w' → R w w') :
    KeepsAt R (fun _ => True) w x := by
  unfold KeepsAt
  split
  · next a w' hx => exact h a w' hx
  · trivial

/-- The property `P` lasts, and so does what `A` knows beside it of a place that is being renewed,
as long as no place follows an observable of `D`. -/
structure Lasting (D : CellId → Prop) (P : World → Prop) (A : SiteId → World → Prop) : Prop where
  wired {w : World} : P w → w.Wired
  beside {w w' : World} : P w → w.Beside w' → P w'
  marks {w w' : World} {c : CellId} {key : Nat} {r : Reaction} {n : PageNode} : P w →
    (key, r) ∈ (w.cell c).registry → r.Marks n → Dresses n w w' → P w'
  place {w : World} {c : CellId} {key : Nat} {s : SiteId} : P w →
    (key, .rebuild s) ∈ (w.cell c).registry → A s w
  whole {w : World} {s : SiteId} : A s w → P w
  besidePlace {w w' : World} {s : SiteId} : A s w → w.Beside w' → A s w'
  exists_site {w : World} {s : SiteId} : A s w → ∃ site, w.sites[s.index]? = some site
  renew {w w' : World} {s : SiteId} {site : Site} {d : Nat} {v : Value} {u : Unit} : A s w →
    w.sites[s.index]? = some site → .site s ∈ w.pins.flatten →
    (replaceContents (respond d) site v).run w = .ok u w' → w'.NoSites D → A s w'

/-- The world has evolved, and the property still holds. -/
def World.Lasts (D : CellId → Prop) (P : World → Prop) (w w' : World) : Prop :=
  Evolves w w' ∧ (w'.NoSites D → P w → P w')

instance : IsPreorder World (World.Lasts D P) where
  refl w := ⟨.refl w, fun _ h => h⟩
  trans _ _ _ h h' := ⟨h.1.trans h'.1, fun hn hp => h'.2 hn (h.2 (hn.of_evolves h'.1) hp)⟩

namespace Lasting

variable (h : Lasting D P A)
include h

/-- Renewing a place keeps the property, also when it is renewed again for what has come meanwhile. -/
theorem rebuild {v : Value} {u : Unit} (ha : A s w) (hpin : .site s ∈ w.pins.flatten)
    (hn : w'.NoSites D) (hrun : (respond d (.rebuild s v)).run w = .ok u w') : A s w' := by
  induction d generalizing w v with
  | zero => exact absurd hrun not_ok_throw
  | succ d ih =>
    change (s.rebuild (respond d) v).run w = .ok u w' at hrun
    rw [SiteId.rebuild, ok_get_bind] at hrun
    obtain ⟨site, hs⟩ := h.exists_site ha
    have hsite : w.sites.getD s.index default = site := by
      simp [Array.getD_eq_getD_getElem?, hs]
    rw [hsite] at hrun
    obtain ⟨_, w₂, h₂, hrest⟩ := ok_bind.1 hrun
    obtain ⟨w₁, h₁, rfl⟩ := ok_holding.1 h₂
    have hread := (h.wired (h.whole ha)).reading
    have hev : Evolves w w₁.unpinned :=
      ((lives_replaceContents (respond_lives d) site v).ok h₁ hread).unpinned
    have ha₁ : w₁.unpinned.NoSites D → A s w₁.unpinned := by
      intro hn
      have hpinned : A s (w.pinned v.holds) := h.besidePlace ha (.repin w _)
      exact h.besidePlace (h.renew hpinned hs (List.mem_append_right _ hpin) h₁ hn) (.repin w₁ _)
    rw [ok_get_bind] at hrest
    split at hrest
    · next next _ =>
      rw [ok_set_bind] at hrest
      have hmark := World.Beside.mark w₁.unpinned s
        (fun site => { site with queued := none }) fun _ => rfl
      have hev' := (respond_lives d).lives (.rebuild s next) trivial |>.ok hrest
        (hmark.evolves.reading (hev.reading hread))
      have hn₂ := hn.of_evolves hev'
      refine ih (h.besidePlace (ha₁ (hn₂.of_evolves hmark.evolves)) hmark) ?_ hrest
      show .site s ∈ w₁.unpinned.pins.flatten
      rwa [hev.pins]
    · rw [ok_set] at hrest
      subst hrest
      have hmark := World.Beside.mark w₁.unpinned s
        (fun site => { site with busy := false }) fun _ => rfl
      exact h.besidePlace (ha₁ (hn.of_evolves hmark.evolves)) hmark

theorem lasts_of_beside (hb : w.Beside w') (hp : w'.pins = w.pins) : w.Lasts D P w' :=
  ⟨by have := hb.evolves; rwa [← hp] at this, fun _ hP => h.beside hP hb⟩

theorem carries : Carries (fun _ => True) World.Wired (World.Lasts D P) fun _ => True where
  wired h := h
  tracks _ := ⟨fun _ => trivial, fun _ _ _ => trivial⟩
  step hl hw := hw.evolves hl.1
  pinned held hw := hw.pinned held
  evolves hl := hl.1
  quiet hq := h.lasts_of_beside hq.beside hq.pins
  unpinned hl := ⟨hl.1.unpinned, fun hn hp =>
    h.beside (hl.2 hn (h.beside hp (.repin _ _))) (.repin _ _)⟩
  hold held _ _ := h.lasts_of_beside (.hold _ _ held) rfl
  boundary w b _ hf := h.lasts_of_beside
    ⟨evolves_boundary w b hf, fun _ => rfl, rfl, rfl, rfl, rfl⟩ rfl
  calm _ := trivial

theorem answers (d : Nat) :
    Answers (fun _ => True) World.Wired (World.Lasts D P) (fun _ => True) (respond d) := by
  induction d with
  | zero =>
    intro w c key r held _ _ _ _
    trivial
  | succ d ih =>
    intro w c key r held hw _ hr hheld
    show KeepsAt _ _ w (r.run (respond d) held)
    by_cases hp : r.onPage
    · refine keepsAt_of_ok fun u w' hrun => ⟨(lives_react (respond_lives d) r held).ok hrun
        hw.reading, fun hn hP => ?_⟩
      have hmarks : ∀ n, r.Marks n → P w' := fun n hm =>
        h.marks hP hr hm ((dresses_react _ hm held).ok hrun)
      cases r with
      | rebuild s =>
        have ha := h.place hP hr
        have hpin : .site s ∈ w.pins.flatten := hheld _ (by simp [World.reactionHolds])
        change (do let w ← get; s.onEmission (respond d) (w.heldArgument held) : Run Unit).run w =
          .ok u w' at hrun
        rw [ok_get_bind, SiteId.onEmission, ok_get_bind] at hrun
        split at hrun
        · rw [ok_set] at hrun
          subst hrun
          exact h.beside hP (.mark w s _ fun _ => rfl)
        · rw [ok_set_bind] at hrun
          have hmark := World.Beside.mark w s (fun site => { site with busy := true }) fun _ => rfl
          exact h.whole (h.rebuild (h.besidePlace ha hmark) hpin hn hrun)
      | «attribute» e name source => exact hmarks e rfl
      | styleProperty e name source => exact hmarks e rfl
      | _ => exact hp.elim
    · exact h.carries.react (respond_lives d) ih hw trivial hr hp held

/-- The property lasts through an emission. -/
theorem emit {u : Unit} (hP : P w) (hn : w'.NoSites D)
    (hrun : (LivePage.emit (respond d) c).run w = .ok u w') : P w' :=
  ((h.carries.emit (h.answers d) (h.wired hP) trivial).ok hrun).2 hn hP

/-- The property lasts through an assignment that is emitted. -/
theorem holdAndEmit {u : Unit} {held : Held} (hP : P w) (hn : w'.NoSites D)
    (hrun : (LivePage.holdAndEmit (respond d) c held).run w = .ok u w') : P w' := by
  obtain ⟨_, w₁, h₁, hrun⟩ := ok_bind.1 hrun
  rw [hold, run_modifyCell] at h₁
  cases h₁
  exact h.emit (h.beside hP (.hold w c held)) hn hrun

end Lasting

end LivePage
