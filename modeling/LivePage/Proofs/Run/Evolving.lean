import LivePage.Proofs.Run.Reading

/-!
# What no emission changes

Emissions, realizations and teardowns change what observables hold, who is subscribed to them, what
stands on pages and which records there are. They do not change what there is to begin with:
observables keep their flavours, names keep what they stand for, places on pages keep their source
and their target, and subscriptions are only removed, or added under new keys for what is put on a
page. `Evolves` says so, for worlds whose callbacks only read and log.
-/

namespace LivePage

open LivePage.Script

variable {α ε : Type} {w w' w'' : World}

/-! ## Reactions that touch a page -/

/-- The reaction does something to a page. -/
def Reaction.onPage : Reaction → Prop
  | .rebuild _ | .attribute .. | .styleProperty .. => True
  | _ => False

/-- A site without what it is busy with. -/
def Site.still (s : Site) : Site := { s with busy := false, queued := none }

section

variable {s s' : Site} (h : s'.still = s.still)
include h

theorem Site.surface_of_still : s'.surface = s.surface :=
  show s'.still.surface = s.still.surface by rw [h]

theorem Site.source_of_still : s'.source = s.source :=
  show s'.still.source = s.still.source by rw [h]

theorem Site.records_of_still : s'.records = s.records :=
  show s'.still.records = s.still.records by rw [h]

theorem Site.target_of_still : s'.target = s.target :=
  show s'.still.target = s.still.target by rw [h]

end

/-- The comments of a region. -/
def Region.anchors (r : Region) : PageNode × PageNode := (r.start, r.finish)

theorem Region.start_of_anchors {r r' : Region} (h : r'.anchors = r.anchors) : r'.start = r.start :=
  congrArg Prod.fst h

theorem Region.finish_of_anchors {r r' : Region} (h : r'.anchors = r.anchors) :
    r'.finish = r.finish :=
  congrArg Prod.snd h

namespace World

/-- What a reaction does to a page follows the observable `c`. -/
def Follows (w : World) (c : CellId) : Reaction → Prop
  | .rebuild s => ∃ site, w.sites[s.index]? = some site ∧ site.source = c
  | .attribute _ _ source | .styleProperty _ _ source => source = c
  | _ => True

/-- The keys of subscriptions are different for each observable, and have been given out. -/
def Keyed (w : World) : Prop :=
  ∀ c, (w.cell c).keys.Nodup ∧ ∀ k ∈ (w.cell c).keys, k < w.nextKey

end World

/-- The steps only read and log. -/
def ReadsOnly (acts : List Step) : Prop := ∀ d, Reads (performAll (respond d) acts)

/-- All callbacks only read and log. -/
def World.Reading (w : World) : Prop := ∀ acts ∈ w.callbacks.map (·.acts), ReadsOnly acts

/-- What stays as it is while observables are emitted. -/
structure Evolves (w w' : World) : Prop where
  names : w'.names = w.names
  components : w'.components = w.components
  entered : w'.entered = w.entered
  pins : w'.pins = w.pins
  acts : w'.callbacks.map (·.acts) = w.callbacks.map (·.acts)
  pages : w'.pages.size = w.pages.size
  displays : w'.boundaries.map (·.display) = w.boundaries.map (·.display)
  cells : w'.cells.size = w.cells.size
  flavour (c : CellId) : (w'.cell c).flavour = (w.cell c).flavour
  nextKey : w.nextKey ≤ w'.nextKey
  registry (c : CellId) : ∀ s ∈ (w'.cell c).registry, s ∈ (w.cell c).registry ∨
    w.nextKey ≤ s.1 ∧ s.2.onPage ∧ w'.Follows c s.2
  keyed : w.Keyed → w'.Keyed
  sites (s : Nat) : ∀ site, w.sites[s]? = some site →
    ∃ site', w'.sites[s]? = some site' ∧ site'.still = site.still
  regions (r : Nat) : ∀ region, w.regions[r]? = some region →
    ∃ region', w'.regions[r]? = some region' ∧ region'.anchors = region.anchors
  records : w.records.size ≤ w'.records.size

namespace Evolves

theorem refl (w : World) : Evolves w w where
  names := rfl
  components := rfl
  entered := rfl
  pins := rfl
  acts := rfl
  pages := rfl
  displays := rfl
  cells := rfl
  flavour _ := rfl
  nextKey := Nat.le_refl _
  registry _ _ h := .inl h
  keyed h := h
  sites _ site h := ⟨site, h, rfl⟩
  regions _ region h := ⟨region, h, rfl⟩
  records := Nat.le_refl _

theorem follows (h : Evolves w w') {c : CellId} {r : Reaction} (hr : w.Follows c r) :
    w'.Follows c r := by
  cases r with
  | rebuild s =>
    obtain ⟨site, hs, rfl⟩ := hr
    obtain ⟨site', hs', he⟩ := h.sites _ _ hs
    exact ⟨site', hs', Site.source_of_still he⟩
  | _ => exact hr

theorem trans (h : Evolves w w') (h' : Evolves w' w'') : Evolves w w'' where
  names := h'.names.trans h.names
  components := h'.components.trans h.components
  entered := h'.entered.trans h.entered
  pins := h'.pins.trans h.pins
  acts := h'.acts.trans h.acts
  pages := h'.pages.trans h.pages
  displays := h'.displays.trans h.displays
  cells := h'.cells.trans h.cells
  flavour c := (h'.flavour c).trans (h.flavour c)
  nextKey := Nat.le_trans h.nextKey h'.nextKey
  registry c s hs := by
    rcases h'.registry c s hs with hs | ⟨hk, hp, hf⟩
    · rcases h.registry c s hs with hs | ⟨hk, hp, hf⟩
      · exact .inl hs
      · exact .inr ⟨hk, hp, h'.follows hf⟩
    · exact .inr ⟨Nat.le_trans h.nextKey hk, hp, hf⟩
  keyed hk := h'.keyed (h.keyed hk)
  sites s site hs := by
    obtain ⟨site', hs, he⟩ := h.sites s site hs
    obtain ⟨site'', hs, he'⟩ := h'.sites s site' hs
    exact ⟨site'', hs, he'.trans he⟩
  regions r region hr := by
    obtain ⟨region', hr, he⟩ := h.regions r region hr
    obtain ⟨region'', hr, he'⟩ := h'.regions r region' hr
    exact ⟨region'', hr, he'.trans he⟩
  records := Nat.le_trans h.records h'.records

theorem reading (h : Evolves w w') (hr : w.Reading) : w'.Reading := by
  intro acts ha
  rw [h.acts] at ha
  exact hr acts ha

theorem unpinned {held : List Entity} (h : Evolves (w.pinned held) w') :
    Evolves w w'.unpinned :=
  { h with pins := by simp [World.unpinned, h.pins, World.pinned] }

end Evolves

theorem Quiet.evolves (h : Quiet w w') : Evolves w w' := by
  have hcell : ∀ c, w'.cell c = w.cell c := fun c => by simp [World.cell, h.cells]
  exact {
    names := h.names
    components := h.components
    entered := h.entered
    pins := h.pins
    acts := h.acts
    pages := by rw [h.pages]
    displays := by rw [h.boundaries]
    cells := by rw [h.cells]
    flavour := fun c => by rw [hcell]
    nextKey := Nat.le_of_eq h.nextKey.symm
    registry := fun c s hs => .inl (by rwa [hcell] at hs)
    keyed := fun hk c => by rw [hcell, h.nextKey]; exact hk c
    sites := fun s site hs => ⟨site, by rwa [h.sites], rfl⟩
    regions := fun r region hr => ⟨region, by rwa [h.regions], rfl⟩
    records := Nat.le_of_eq (by rw [h.records]) }

/-- The run changes nothing that emissions do not change, given that callbacks only read. -/
abbrev Lives (x : Run α) : Prop := Keeps (fun w w' => w.Reading → Evolves w w') (fun _ => True) x

instance : IsPreorder World fun w w' => w.Reading → Evolves w w' where
  refl w _ := .refl w
  trans _ _ _ h h' hr := (h hr).trans (h' ((h hr).reading hr))

theorem Reads.lives {x : Run α} (h : Reads x) : Lives x := 
  h.mono (fun h _ => h.evolves) fun _ => trivial

theorem lives_modify {f : World → World} (h : ∀ w, Evolves w (f w)) : Lives (modify f) :=
  keeps_modify fun w _ => h w

theorem lives_holding {x : Run α} {held : List Entity} (h : Lives x) : Lives (holding held x) :=
  h.holding fun h hr => (h hr).unpinned

theorem lives_realizingWith {x : Realizing α} {held : List Entity} (h : Lives x.run) :
    Lives (realizingWith held x).run := by
  rw [realizingWith, ExceptT.run_mk]
  exact lives_holding h

end LivePage
