import LivePage.Proofs.Run.Living
import LivePage.Proofs.Page.Dressing

/-!
# Emissions that no place on a page follows

References and what is computed from them form a set of observables that is closed under telling
others. If no place on a page follows an observable of such a set, an emission of one of them
changes only what these observables hold, and the attributes of elements that are bound to them:
that is `Murmur`. Subscriptions, records, regions and the structure of pages stay as they are.
-/

namespace LivePage

open LivePage.Script

variable {α : Type} {w w' w'' : World} {c d : CellId} {n : PageNode} {D : CellId → Prop} {x : Prop}

/-! ## Observables that tell others -/

/-- The observable that a reaction assigns, if it does. -/
def World.Feeds (w : World) : Reaction → CellId → Prop
  | .derive target _, c | .combineFirst target _ _, c | .combineSecond target _ _, c
  | .combineAll target _ _, c | .recompute target _, c => c = target
  | .awaited b, c => c = (w.boundary b).display
  | _, _ => False

theorem Evolves.feeds (h : Evolves w w') (r : Reaction) : w'.Feeds r c ↔ w.Feeds r c := by
  have hd : ∀ b : BoundaryId, (w'.boundary b).display = (w.boundary b).display := by
    intro b
    have := congrArg (·[b.index]?) h.displays
    simp only [Array.getElem?_map] at this
    simp only [World.boundary, Array.getD_eq_getD_getElem?]
    cases h1 : w.boundaries[b.index]? with
    | none =>
      rw [h1] at this
      rw [Option.map_eq_none_iff.1 this]
    | some x =>
      rw [h1] at this
      obtain ⟨y, hy, he⟩ := Option.map_eq_some_iff.1 this
      rw [hy]
      exact he
  cases r with
  | awaited b => simp only [World.Feeds, hd]
  | _ => rfl

/-- Subscriptions are in order: callbacks only read, keys are unique, what is done to a page follows
its observable, and nothing is computed into a reference. -/
structure World.Wired (w : World) : Prop where
  reading : w.Reading
  keyed : w.Keyed
  follows {c : CellId} {s : Nat × Reaction} : s ∈ (w.cell c).registry → s.2.onPage →
    w.Follows c s.2
  unfed {c d : CellId} {s : Nat × Reaction} : s ∈ (w.cell c).registry → w.Feeds s.2 d →
    (w.cell d).flavour ≠ .ref

theorem World.not_feeds_of_onPage {r : Reaction} (h : r.onPage) : ¬ w.Feeds r c := by
  cases r with
  | rebuild s => exact id
  | «attribute» e name source => exact id
  | styleProperty e name source => exact id
  | _ => exact h.elim

theorem World.Wired.evolves (hw : w.Wired) (h : Evolves w w') : w'.Wired where
  reading := h.reading hw.reading
  keyed := h.keyed hw.keyed
  follows hs hp := by
    rcases h.registry _ _ hs with hs | ⟨-, -, hf⟩
    · exact h.follows (hw.follows hs hp)
    · exact hf
  unfed hs hf := by
    rw [h.flavour]
    rcases h.registry _ _ hs with hs | ⟨-, hp, -⟩
    · exact hw.unfed hs ((h.feeds _).1 hf)
    · exact absurd hf (World.not_feeds_of_onPage hp)

/-- The set contains the references and whatever is told by a member. -/
structure World.Tracks (D : CellId → Prop) (w : World) : Prop where
  ofRef {c : CellId} : (w.cell c).flavour = .ref → D c
  feeds {c d : CellId} {s : Nat × Reaction} : D c → s ∈ (w.cell c).registry → w.Feeds s.2 d → D d

theorem World.Tracks.evolves (hw : w.Tracks D) (h : Evolves w w') : w'.Tracks D where
  ofRef hc := hw.ofRef (by rwa [h.flavour] at hc)
  feeds hc hs hf := by
    rcases h.registry _ _ hs with hs | ⟨-, hp, -⟩
    · exact hw.feeds hc hs ((h.feeds _).1 hf)
    · exact absurd hf (World.not_feeds_of_onPage hp)

/-- No place on a page follows an observable of the set. -/
def World.NoSites (D : CellId → Prop) (w : World) : Prop :=
  ∀ (s : Nat) (site : Site), w.sites[s]? = some site → ¬ D site.source

theorem World.NoSites.of_evolves (h : w'.NoSites D) (he : Evolves w w') : w.NoSites D := by
  intro s site hs
  obtain ⟨site', hs', hst⟩ := he.sites s site hs
  rw [← Site.source_of_still hst]
  exact h s site' hs'

/-- No observable of the set has a subscription that does something to a page. -/
def World.NoMarks (D : CellId → Prop) (w : World) : Prop :=
  ∀ c s, D c → s ∈ (w.cell c).registry → ¬ s.2.onPage

/-- The reaction changes attributes of the node. -/
def Reaction.Marks : Reaction → PageNode → Prop
  | .attribute e _ _, n | .styleProperty e _ _, n => n = e
  | _, _ => False

theorem Reaction.Marks.onPage {r : Reaction} (h : r.Marks n) : r.onPage := by
  cases r with
  | «attribute» e name source => trivial
  | styleProperty e property source => trivial
  | _ => exact h.elim

/-- No attribute of the node is bound to an observable of the set. -/
def World.Unmarked (D : CellId → Prop) (w : World) (n : PageNode) : Prop :=
  ∀ c s, D c → s ∈ (w.cell c).registry → ¬ s.2.Marks n

theorem World.NoMarks.unmarked (h : w.NoMarks D) (n : PageNode) : w.Unmarked D n :=
  fun c s hc hs hm => h c s hc hs hm.onPage

theorem World.unmarked_congr (h : ∀ c, (w'.cell c).registry = (w.cell c).registry) :
    w'.Unmarked D n ↔ w.Unmarked D n := by
  simp only [World.Unmarked, h]

/-- Everything that keeps emissions of the set away from the structure of pages; if `x`, also from
attributes. -/
structure World.Hears (D : CellId → Prop) (x : Prop) (w : World) : Prop where
  wired : w.Wired
  tracks : w.Tracks D
  noSites : w.NoSites D
  noMarks : x → w.NoMarks D

/-! ## Murmurs -/

/-- Only what the observables of the set hold has changed, and attributes that are bound to them.
References are not assigned. -/
structure Murmur (D : CellId → Prop) (w w' : World) : Prop where
  evolves : Evolves w w'
  registry (c : CellId) : (w'.cell c).registry = (w.cell c).registry
  held (c : CellId) : ¬ D c ∨ (w.cell c).flavour = .ref → (w'.cell c).held = (w.cell c).held
  page (p : PageId) : (w.page p).Dressed (fun i => w.Unmarked D ⟨p, i⟩) (w'.page p)
  records : w'.records = w.records
  regions : w'.regions = w.regions
  sites : w'.sites = w.sites
  nextKey : w'.nextKey = w.nextKey

namespace Murmur

theorem refl (w : World) : Murmur D w w :=
  ⟨.refl w, fun _ => rfl, fun _ _ => rfl, fun _ => .refl _ _, rfl, rfl, rfl, rfl⟩

theorem trans (h : Murmur D w w') (h' : Murmur D w' w'') : Murmur D w w'' where
  evolves := h.evolves.trans h'.evolves
  registry c := (h'.registry c).trans (h.registry c)
  held c hc := (h'.held c (by rwa [h.evolves.flavour])).trans (h.held c hc)
  page p := (h.page p).trans ((h'.page p).mono fun _ => (World.unmarked_congr h.registry).2)
  records := h'.records.trans h.records
  regions := h'.regions.trans h.regions
  sites := h'.sites.trans h.sites
  nextKey := h'.nextKey.trans h.nextKey

instance : IsPreorder World (Murmur D) where
  refl := .refl
  trans _ _ _ := .trans

theorem unpinned {held : List Entity} (h : Murmur D (w.pinned held) w') :
    Murmur D w w'.unpinned :=
  ⟨h.evolves.unpinned, h.registry, h.held, h.page, h.records, h.regions, h.sites, h.nextKey⟩

theorem hears (h : Murmur D w w') (hw : w.Hears D x) : w'.Hears D x where
  wired := hw.wired.evolves h.evolves
  tracks := hw.tracks.evolves h.evolves
  noSites s site hs := hw.noSites s site (by rwa [h.sites] at hs)
  noMarks hx c s hc hs := hw.noMarks hx c s hc (by rwa [h.registry] at hs)

end Murmur

theorem World.Wired.repin (h : w.Wired) (pins : List (List Entity)) :
    ({ w with pins := pins } : World).Wired :=
  ⟨h.reading, h.keyed, h.follows, h.unfed⟩

theorem World.Wired.pinned (h : w.Wired) (held : List Entity) : (w.pinned held).Wired := h.repin _

theorem World.Tracks.repin (h : w.Tracks D) (pins : List (List Entity)) :
    ({ w with pins := pins } : World).Tracks D :=
  ⟨h.ofRef, h.feeds⟩

theorem World.Tracks.pinned (h : w.Tracks D) (held : List Entity) : (w.pinned held).Tracks D :=
  h.repin _

theorem World.Hears.pinned (h : w.Hears D x) (held : List Entity) : (w.pinned held).Hears D x :=
  ⟨h.wired.pinned held, h.tracks.pinned held, h.noSites, h.noMarks⟩

theorem Quiet.cell (h : Quiet w w') (c : CellId) : w'.cell c = w.cell c := by
  simp [World.cell, h.cells]

theorem Quiet.page (h : Quiet w w') (p : PageId) : w'.page p = w.page p := by
  simp [World.page, h.pages]

theorem Quiet.murmur (h : Quiet w w') : Murmur D w w' :=
  ⟨h.evolves, fun c => by rw [h.cell], fun c _ => by rw [h.cell],
    fun p => by rw [h.page]; exact .refl _ _, h.records, h.regions, h.sites, h.nextKey⟩

theorem murmur_hold (hd : D c) (hf : (w.cell c).flavour ≠ .ref) (held : Held) :
    Murmur D w (w.withCell c fun cell => { cell with held }) := by
  refine ⟨evolves_withCell (fun _ => rfl) fun _ => .refl _, fun d => ?_, fun d hn => ?_,
    fun _ => .refl _ _, rfl, rfl, rfl, rfl⟩
  · rw [World.cell_withCell]
    split <;> rfl
  · rw [World.cell_withCell, if_neg]
    rintro ⟨rfl, -⟩
    exact hn.elim (fun h => h hd) hf

/-! ## Attributes -/

/-- Nothing has changed but attributes and the style of one node, and what others do not see. -/
structure Dresses (n : PageNode) (w w' : World) : Prop where
  evolves : Evolves w w'
  cells : w'.cells = w.cells
  page (p : PageId) : (w.page p).Dressed (fun i => (⟨p, i⟩ : PageNode) ≠ n) (w'.page p)
  records : w'.records = w.records
  regions : w'.regions = w.regions
  sites : w'.sites = w.sites
  nextKey : w'.nextKey = w.nextKey

namespace Dresses

theorem refl (w : World) : Dresses n w w :=
  ⟨.refl w, rfl, fun _ => .refl _ _, rfl, rfl, rfl, rfl⟩

theorem trans (h : Dresses n w w') (h' : Dresses n w' w'') : Dresses n w w'' where
  evolves := h.evolves.trans h'.evolves
  cells := h'.cells.trans h.cells
  page p := (h.page p).trans (h'.page p)
  records := h'.records.trans h.records
  regions := h'.regions.trans h.regions
  sites := h'.sites.trans h.sites
  nextKey := h'.nextKey.trans h.nextKey

instance : IsPreorder World (Dresses n) where
  refl := .refl
  trans _ _ _ := .trans

theorem cell (h : Dresses n w w') (c : CellId) : w'.cell c = w.cell c := by
  simp [World.cell, h.cells]

/-- Dressing a node for an observable of the set is a murmur. -/
theorem murmur (h : Dresses n w w') (hn : ¬ w.Unmarked D n) : Murmur D w w' :=
  ⟨h.evolves, fun c => by rw [h.cell], fun c _ => by rw [h.cell],
    fun p => (h.page p).mono fun _ hi he => hn (he ▸ hi), h.records, h.regions, h.sites, h.nextKey⟩

end Dresses

theorem Quiet.dresses (h : Quiet w w') : Dresses n w w' :=
  ⟨h.evolves, h.cells, fun p => by rw [h.page]; exact .refl _ _, h.records, h.regions, h.sites,
    h.nextKey⟩

theorem dresses_page {page : Page} (h : (w.page n.page).Dressed (· ≠ n.slot) page) :
    Dresses n w { w with pages := w.pages.setIfInBounds n.page.index page } := by
  refine ⟨evolves_pages .., rfl, fun q => ?_, rfl, rfl, rfl, rfl⟩
  by_cases hq : q.index = n.page.index
  · have hqp : q = n.page := by
      cases q
      cases hq
      rfl
    subst hqp
    have h : (w.page n.page).Dressed (fun i => (⟨n.page, i⟩ : PageNode) ≠ n) page :=
      h.mono fun i hi (he : i = n.slot) => hi (he ▸ rfl)
    by_cases hlt : n.page.index < w.pages.size
    · simpa [World.page, Array.getD_eq_getD_getElem?, hlt] using h
    · simp [World.page, Array.getD_eq_getD_getElem?, hlt, Page.Dressed.refl]
  · simp [World.page, Array.getD_eq_getD_getElem?, Ne.symm hq, Page.Dressed.refl]

section

variable {E : Stop → Prop}

theorem dresses_editPage {f : Page → Except PageError Page}
    (hf : ∀ page page', f page = .ok page' → page.Dressed (· ≠ n.slot) page') :
    Keeps (Dresses n) E (editPage n.page f) := by
  refine keeps_update (fun w => dresses_page ?_) fun _ => keeps_pure _
  split
  · next page' h => exact hf _ _ h
  · exact .refl _ _

theorem dresses_setAttribute (n : PageNode) (name value : String) :
    Keeps (Dresses n) E (n.setAttribute name value) :=
  dresses_editPage fun _ _ h => Page.dressed_updateElement h fun _ => ⟨rfl, rfl⟩

theorem dresses_removeAttribute (n : PageNode) (name : String) :
    Keeps (Dresses n) E (n.removeAttribute name) :=
  dresses_editPage fun _ _ h => Page.dressed_updateElement h fun _ => ⟨rfl, rfl⟩

theorem dresses_setStyle (n : PageNode) (property value : String) :
    Keeps (Dresses n) E (n.setStyle property value) :=
  dresses_editPage fun _ _ h => Page.dressed_updateElement h fun _ => ⟨rfl, rfl⟩

theorem dresses_putStyle (n : PageNode) (property : String) (value : Option String) :
    Keeps (Dresses n) E (n.putStyle property value) := by
  cases value with
  | none =>
    exact dresses_editPage (f := fun p => p.removeStyle n.slot property) fun _ _ h =>
      Page.dressed_updateElement h fun _ => ⟨rfl, rfl⟩
  | some s => exact dresses_setStyle n property s

theorem dresses_putStyles (n : PageNode) (style : Style) :
    Keeps (Dresses n) E (n.putStyles style).run := by
  induction style with
  | nil => exact keeps_epure _
  | cons s rest ih =>
    exact Keeps.ebind (R := Dresses n) keeps_get.lift fun _ =>
      (dresses_putStyle ..).pageStep.ebind fun _ => ih

theorem Reads.dresses {x : Run α} (h : Reads x) (hE : ∀ {e}, Stop.calm e → E e) :
    Keeps (Dresses n) E x :=
  h.mono (fun h => h.dresses) hE

theorem dresses_putAttribute (hE : ∀ {e}, Stop.calm e → E e) (n : PageNode) (name : String)
    (v : Value) : Keeps (Dresses n) E (n.putAttribute name v).run := by
  unfold PageNode.putAttribute
  split
  · exact (dresses_removeAttribute ..).pageStep
  · exact dresses_putStyles ..
  · refine keeps_get.lift.ebind fun w => ?_
    split
    · exact (dresses_setAttribute ..).pageStep
    · exact ((reads_warn _).dresses hE).lift.ebind fun _ =>
        (dresses_removeAttribute ..).pageStep

theorem dresses_putProperty (n : PageNode) (property : String) (v : Value) :
    Keeps (Dresses n) E (n.putProperty property v).run :=
  keeps_get.lift.ebind fun _ => (dresses_putStyle ..).pageStep

end

end LivePage
