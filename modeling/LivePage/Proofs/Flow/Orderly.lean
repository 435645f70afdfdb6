import LivePage.Proofs.Flow.History
import LivePage.Proofs.Run.Murmur

/-!
# Scripts that wait for values

The steps of scripts that make values which come later and boundaries, await, resolve and reject
them, and subscribe further such steps to them. A world is `Orderly` if its callbacks run such steps
only and its subscriptions can be told apart. Then values are emitted only when they are resolved,
and nobody but a boundary changes its display. All single changes that these steps make keep the
world orderly.
-/

namespace LivePage

open LivePage.Script

variable {w w' w'' : World} {c d : CellId} {b : BoundaryId} {L : String → Prop}

/-! ## Steps -/

/-- The steps of scripts that wait for values. What they call a value that comes later is a name in
`L`; everything that only reads is allowed. -/
inductive Script.Step.Awaits (L : String → Prop) : Step → Prop where
  | reads {step : Step} (h : ∀ d, Reads (stepAnswer (respond d) step).run) : Awaits L step
  | new {as : String} {kind : NewKind} {type : ValueType} {value : Expr} {checkers : List Checker}
      (h : kind = .later ∨ ¬ L as) : Awaits L (.new as kind type value checkers)
  | later {as task : String} {polls : Nat} {outcome : Outcome} :
      Awaits L (.later as task polls outcome)
  | suspense {as : String} {fallback : Template} : Awaits L (.suspense as fallback)
  | pending {suspense c as : String} (h : L c) : Awaits L (.pending suspense c as)
  | finish {suspense as : String} {template : Template} : Awaits L (.finish suspense template as)
  | resolve {c : String} {value : Expr} (h : L c) : Awaits L (.resolve c value)
  | reject {c message : String} : Awaits L (.reject c message)
  | poll {task : String} : Awaits L (.poll task)
  | subscribe {c handler : String} {acts : List Step} {times : Nat} (h : ∀ s ∈ acts, Awaits L s) :
      Awaits L (.subscribe c handler acts times)
  | watch {c as : String} {acts : List Step} {times : Nat} (h : ∀ s ∈ acts, Awaits L s) :
      Awaits L (.watch c as acts times)
  | onCatch {c handler : String} {acts : List Step} {times : Nat} (h : ∀ s ∈ acts, Awaits L s) :
      Awaits L (.onCatch c handler acts times)
  | onFinally {c handler : String} {acts : List Step} {times : Nat} (h : ∀ s ∈ acts, Awaits L s) :
      Awaits L (.onFinally c handler acts times)

/-- Asking what a boundary waits for only reads. -/
theorem Script.Step.Awaits.boundary (suspense : String) : Step.Awaits L (.boundary suspense) := by
  refine .reads fun d => ?_
  have hlookup : Reads (stepBoundaryId suspense).run := (reads_lookup suspense).lift
  refine hlookup.ebind fun b => keeps_get.lift.ebind fun w => ?_
  split <;> exact keeps_epure _

/-! ## Orderly worlds -/

/-- A flavour without what happens to an observable of it. -/
def Flavour.still : Flavour → Flavour
  | .later _ => .later {}
  | flavour => flavour

/-- The observable waits for a result. -/
def Cell.Waits (cell : Cell) : Prop := cell.flavour.still = .later {}

/-- The reaction runs a program. -/
def Reaction.calls : Reaction → Prop
  | .subscriber .. => True
  | _ => False

/-- The reaction can be registered with `c`: derived observables are computed, and a boundary waits
for a result. Nothing is done to a page. -/
def World.Admits (w : World) (c : CellId) : Reaction → Prop
  | .subscriber .. | .watch .. => True
  | .derive target _ | .combineFirst target _ _ | .combineSecond target _ _
  | .combineAll target _ _ | .recompute target _ => (w.cell target).flavour = .derived
  | .awaited b => (w.cell c).Waits ∧ b.index < w.boundaries.size
  | .rebuild _ | .attribute .. | .styleProperty .. => False

/-- Everything is as scripts leave it that wait for values and call them by names in `L`. -/
structure World.Orderly (L : String → Prop) (w : World) : Prop where
  keyed : w.Keyed
  acts : ∀ acts ∈ w.callbacks.map (·.acts), ∀ s ∈ acts, s.Awaits L
  /-- Names of values that come later stand for such values. -/
  named {name : String} {c : CellId} : L name → Entries.get? name w.names.observables = some c →
    (w.cell c).Waits
  tasks {name : String} {t : Task} : Entries.get? name w.names.tasks = some t →
    (w.cell t.later).Waits
  subscribers {name : String} {key : Nat} {r : Reaction} :
    Entries.get? name w.names.subscribers = some (key, r) → key < w.nextKey ∧ r.calls
  known {name : String} {b : BoundaryId} : Entries.get? name w.names.boundaries = some b →
    b.index < w.boundaries.size
  admits {c : CellId} {s : Nat × Reaction} : s ∈ (w.cell c).registry → w.Admits c s.2
  /-- A registration that waits for a value waits for one only. -/
  single {c d : CellId} {key : Nat} {b b' : BoundaryId} :
    (key, .awaited b) ∈ (w.cell c).registry → (key, .awaited b') ∈ (w.cell d).registry → c = d
  settled {c : CellId} : (w.cell c).settlement.ok = true → (w.cell c).settlement.settled = true
  /-- Displays accept every update. -/
  display {b : BoundaryId} : b.index < w.boundaries.size →
    (w.cell (w.boundary b).display).flavour = .state []
  /-- Each boundary has a display of its own. -/
  own {b b' : BoundaryId} : b.index < w.boundaries.size → b'.index < w.boundaries.size →
    (w.boundary b).display = (w.boundary b').display → b = b'

theorem World.orderly_empty : ({} : World).Orderly L where
  keyed _ := ⟨.nil, fun _ h => nomatch h⟩
  acts _ h := by simp at h
  named _ h := nomatch h
  tasks h := nomatch h
  subscribers h := nomatch h
  known h := nomatch h
  admits h := nomatch h
  single h := nomatch h
  settled h := nomatch h
  display h := nomatch h
  own h := nomatch h

/-! ## What stays -/

@[simp] theorem Flavour.still_eq_derived {f : Flavour} : f.still = .derived ↔ f = .derived := by
  cases f <;> simp [Flavour.still]

@[simp] theorem Flavour.still_eq_state {f : Flavour} {checkers : List Checker} :
    f.still = .state checkers ↔ f = .state checkers := by
  cases f <;> simp [Flavour.still]

theorem Cell.Waits.flavour {x : Cell} (h : x.Waits) : ∃ s, x.flavour = .later s := by
  unfold Cell.Waits Flavour.still at h
  split at h
  · next s hs => exact ⟨s, hs⟩
  · next hne => exact absurd h (hne _)

/-- What can be registered depends only on the sorts of observables and on the boundaries that
there are. -/
theorem World.Admits.mono {r : Reaction} (h : w.Admits c r)
    (hstill : ∀ d f, (w.cell d).flavour.still = f → f ≠ .plain → (w'.cell d).flavour.still = f)
    (hboundaries : w.boundaries.size ≤ w'.boundaries.size) : w'.Admits c r := by
  cases r with
  | subscriber | watch => trivial
  | derive | combineFirst | combineSecond | combineAll | recompute =>
    exact Flavour.still_eq_derived.1 (hstill _ _ (Flavour.still_eq_derived.2 h) nofun)
  | awaited b => exact ⟨hstill _ _ h.1 nofun, Nat.lt_of_lt_of_le h.2 hboundaries⟩
  | rebuild | «attribute» | styleProperty => exact h.elim

theorem World.lt_of_waits (hc : (w.cell c).Waits) : c.index < w.cells.size :=
  Nat.lt_of_not_le fun h => by
    rw [World.cell_of_size_le h] at hc
    cases hc

@[simp] theorem Cell.registry_modifySettlement (f : Settlement → Settlement) (x : Cell) :
    (x.modifySettlement f).registry = x.registry := by
  unfold Cell.modifySettlement
  split <;> rfl

@[simp] theorem Cell.held_modifySettlement (f : Settlement → Settlement) (x : Cell) :
    (x.modifySettlement f).held = x.held := by
  unfold Cell.modifySettlement
  split <;> rfl

@[simp] theorem Cell.still_modifySettlement (f : Settlement → Settlement) (x : Cell) :
    (x.modifySettlement f).flavour.still = x.flavour.still := by
  unfold Cell.modifySettlement
  split
  · next s hs => rw [hs]; rfl
  · rfl

/-- Only observables that wait for a result have something to settle. -/
theorem Cell.settlement_modifySettlement (f : Settlement → Settlement) (x : Cell) :
    (x.modifySettlement f).settlement = f x.settlement ∨
      (x.modifySettlement f).settlement = x.settlement := by
  unfold Cell.modifySettlement
  split
  · next s hs => exact .inl (by simp [Cell.settlement, hs])
  · exact .inr rfl

theorem Cell.Waits.settlement_modifySettlement {x : Cell} (h : x.Waits)
    (f : Settlement → Settlement) : (x.modifySettlement f).settlement = f x.settlement := by
  obtain ⟨s, hs⟩ := h.flavour
  simp [Cell.modifySettlement, Cell.settlement, hs]

theorem World.lt_of_ok (h : (w.cell c).settlement.ok = true) : c.index < w.cells.size := by
  refine Nat.lt_of_not_le fun hc => ?_
  rw [World.cell_of_size_le hc] at h
  cases h

/-- A subscription takes nothing out of a registry, and nothing else into it. -/
theorem World.mem_registry_subscribe {key : Nat} {r : Reaction} {s : Nat × Reaction}
    (h : s ∈ ((w.withCell c (·.subscribe key r)).cell d).registry) :
    s ∈ (w.cell d).registry ∨ d = c ∧ s = (key, r) := by
  rw [World.cell_withCell] at h
  split at h
  · next hd => exact (Cell.mem_subscribe h).imp_right fun hs => ⟨hd.1, hs⟩
  · exact .inl h

/-- What stays as it is while scripts wait for values: observables keep their sort, subscriptions
stay, and values that have come do not go. -/
structure Endures (w w' : World) : Prop where
  cells : w.cells.size ≤ w'.cells.size
  boundaries : w.boundaries.size ≤ w'.boundaries.size
  still {c : CellId} : c.index < w.cells.size → (w'.cell c).flavour.still = (w.cell c).flavour.still
  registry {c : CellId} {s : Nat × Reaction} : s ∈ (w.cell c).registry → s ∈ (w'.cell c).registry
  ok {c : CellId} : (w.cell c).settlement.ok = true → (w'.cell c).settlement.ok = true

namespace Endures

theorem refl (w : World) : Endures w w := ⟨Nat.le_refl _, Nat.le_refl _, fun _ => rfl, id, id⟩

theorem trans (h : Endures w w') (h' : Endures w' w'') : Endures w w'' where
  cells := Nat.le_trans h.cells h'.cells
  boundaries := Nat.le_trans h.boundaries h'.boundaries
  still hc := (h'.still (Nat.lt_of_lt_of_le hc h.cells)).trans (h.still hc)
  registry hs := h'.registry (h.registry hs)
  ok hc := h'.ok (h.ok hc)

/-- An observable that is not plain is there, and keeps its sort. -/
theorem flavour (h : Endures w w') {f : Flavour} (hf : (w.cell c).flavour.still = f)
    (hne : f ≠ .plain) : (w'.cell c).flavour.still = f := by
  rw [h.still, hf]
  refine Nat.lt_of_not_le fun hc => hne ?_
  rw [World.cell_of_size_le hc] at hf
  exact hf.symm

theorem waits (h : Endures w w') (hc : (w.cell c).Waits) : (w'.cell c).Waits :=
  h.flavour hc nofun

theorem derived (h : Endures w w') (hc : (w.cell c).flavour = .derived) :
    (w'.cell c).flavour = .derived :=
  Flavour.still_eq_derived.1 (h.flavour (Flavour.still_eq_derived.2 hc) nofun)

theorem state (h : Endures w w') (hc : (w.cell c).flavour = .state []) :
    (w'.cell c).flavour = .state [] :=
  Flavour.still_eq_state.1 (h.flavour (Flavour.still_eq_state.2 hc) nofun)

theorem admits (h : Endures w w') {r : Reaction} (hr : w.Admits c r) : w'.Admits c r :=
  hr.mono (fun _ _ hf => h.flavour hf) h.boundaries

/-- Nothing has changed about observables and boundaries. -/
theorem of_eq (hc : w'.cells = w.cells) (hb : w'.boundaries = w.boundaries) : Endures w w' := by
  have hcell : ∀ c, w'.cell c = w.cell c := fun c => by simp [World.cell, hc]
  refine ⟨by rw [hc], by rw [hb], fun {c} _ => by rw [hcell], fun {c} _ => ?_, fun {c} => ?_⟩
  · rw [hcell]
    exact id
  · rw [hcell]
    exact id

theorem withCell {f : Cell → Cell} (hregistry : ∀ x s, s ∈ x.registry → s ∈ (f x).registry)
    (hstill : ∀ x, (f x).flavour.still = x.flavour.still)
    (hok : ∀ x, x.settlement.ok = true → (f x).settlement.ok = true) :
    Endures w (w.withCell c f) := by
  refine ⟨by simp [World.withCell], Nat.le_refl _, fun {d} _ => ?_, fun {d} s => ?_, fun {d} => ?_⟩
  all_goals rw [World.cell_withCell]
  all_goals split
  · exact hstill _
  · rfl
  · exact hregistry _ _
  · exact id
  · exact hok _
  · exact id

theorem subscribe (w : World) (c : CellId) (key : Nat) (r : Reaction) :
    Endures w (w.withCell c (·.subscribe key r)) := by
  refine withCell (fun x s hs => ?_) (fun x => by rw [Cell.flavour_subscribe]) fun x => ?_
  · unfold Cell.subscribe
    split
    · exact hs
    · exact List.mem_append_left _ hs
  · simp [Cell.settlement]

theorem grown (w : World) (x : Cell) : Endures w (w.grown x) := by
  have hcell : ∀ {c : CellId}, c.index < w.cells.size → (w.grown x).cell c = w.cell c :=
    World.cell_grown_of_lt
  refine ⟨by simp [World.grown], Nat.le_refl _, fun hc => by rw [hcell hc], fun hs => ?_,
    fun {c} hc => ?_⟩
  · rwa [hcell (World.lt_of_registry hs)]
  · rwa [hcell (World.lt_of_ok hc)]

end Endures

/-! ## Single changes keep worlds orderly -/

namespace World

theorem boundary_withBoundary (w : World) (b d : BoundaryId) (f : Boundary → Boundary) :
    (w.withBoundary b f).boundary d =
      if d = b ∧ d.index < w.boundaries.size then f (w.boundary d) else w.boundary d := by
  simp only [boundary, withBoundary, Array.getD_eq_getD_getElem?, Array.getElem?_modify]
  by_cases hd : d = b
  · subst hd
    by_cases hlt : d.index < w.boundaries.size <;> simp [hlt]
  · have hne : b.index ≠ d.index := fun h => hd (by cases b; cases d; cases h; rfl)
    simp [hd, hne]

theorem size_withBoundary (w : World) (b : BoundaryId) (f : Boundary → Boundary) :
    (w.withBoundary b f).boundaries.size = w.boundaries.size := Array.size_modify ..

theorem display_withBoundary (w : World) (b d : BoundaryId) {f : Boundary → Boundary}
    (hf : ∀ x, (f x).display = x.display) :
    ((w.withBoundary b f).boundary d).display = (w.boundary d).display := by
  rw [boundary_withBoundary]
  split
  · exact hf _
  · rfl

namespace Orderly

variable (hw : w.Orderly L)
include hw

/-- The display of a boundary is there. -/
theorem lt_display (hb : b.index < w.boundaries.size) :
    (w.boundary b).display.index < w.cells.size := by
  refine Nat.lt_of_not_le fun h => ?_
  have := hw.display hb
  rw [cell_of_size_le h] at this
  cases this

/-- A change that leaves sorts, subscriptions, displays and names as they are. -/
theorem congr (hregistry : ∀ c, (w'.cell c).registry = (w.cell c).registry)
    (hstill : ∀ c, (w'.cell c).flavour.still = (w.cell c).flavour.still)
    (hsettled : ∀ c, (w'.cell c).settlement.ok = true → (w'.cell c).settlement.settled = true)
    (hsize : w'.boundaries.size = w.boundaries.size)
    (hdisplay : ∀ b, (w'.boundary b).display = (w.boundary b).display)
    (hnames : w'.names = w.names) (hnextKey : w'.nextKey = w.nextKey)
    (hacts : w'.callbacks.map (·.acts) = w.callbacks.map (·.acts)) : w'.Orderly L where
  keyed c := by
    rw [Cell.keys, hregistry, hnextKey]
    exact hw.keyed c
  acts := by
    rw [hacts]
    exact hw.acts
  named hl hn := by
    rw [hnames] at hn
    exact (hstill _).trans (hw.named hl hn)
  tasks hn := by
    rw [hnames] at hn
    exact (hstill _).trans (hw.tasks hn)
  subscribers hn := by
    rw [hnames] at hn
    rw [hnextKey]
    exact hw.subscribers hn
  known hn := by
    rw [hnames] at hn
    rw [hsize]
    exact hw.known hn
  admits {c s} hs := by
    rw [hregistry] at hs
    exact (hw.admits hs).mono (fun d _ hf _ => (hstill d).trans hf) hsize.ge
  single h h' := by
    rw [hregistry] at h h'
    exact hw.single h h'
  settled := hsettled _
  display {b} hb := by
    rw [hsize] at hb
    rw [hdisplay]
    exact Flavour.still_eq_state.1 ((hstill _).trans (Flavour.still_eq_state.2 (hw.display hb)))
  own hb hb' h := by
    rw [hsize] at hb hb'
    rw [hdisplay, hdisplay] at h
    exact hw.own hb hb' h

theorem quiet (h : Quiet w w') : w'.Orderly L := by
  have hcell : ∀ c, w'.cell c = w.cell c := h.cell
  have hboundary : ∀ b, w'.boundary b = w.boundary b := fun b => by
    simp [World.boundary, h.boundaries]
  refine hw.congr (fun c => by rw [hcell]) (fun c => by rw [hcell]) (fun c => ?_)
    (by rw [h.boundaries]) (fun b => by rw [hboundary]) h.names h.nextKey h.acts
  rw [hcell]
  exact hw.settled

theorem repin (pins : List (List Entity)) : ({ w with pins := pins } : World).Orderly L :=
  hw.congr (fun _ => rfl) (fun _ => rfl) (fun _ => hw.settled) rfl (fun _ => rfl) rfl rfl rfl

theorem pinned (pins : List Entity) : (w.pinned pins).Orderly L := hw.repin _

/-- An observable changes, but neither its sort nor its subscriptions. -/
theorem withCell {f : Cell → Cell} (hregistry : ∀ x, (f x).registry = x.registry)
    (hstill : ∀ x, (f x).flavour.still = x.flavour.still)
    (hsettled : (f (w.cell c)).settlement.ok = true → (f (w.cell c)).settlement.settled = true) :
    (w.withCell c f).Orderly L := by
  refine hw.congr (fun d => ?_) (fun d => ?_) (fun d => ?_) rfl (fun _ => rfl) rfl rfl rfl
  all_goals rw [cell_withCell]
  all_goals split
  · exact hregistry _
  · rfl
  · exact hstill _
  · rfl
  · next h =>
    rw [h.1]
    exact hsettled
  · exact hw.settled

theorem withBoundary {f : Boundary → Boundary} (hf : ∀ x, (f x).display = x.display) :
    (w.withBoundary b f).Orderly L :=
  hw.congr (fun _ => rfl) (fun _ => rfl) (fun _ => hw.settled) (size_withBoundary ..)
    (fun _ => display_withBoundary _ _ _ hf) rfl rfl rfl

theorem withNames {n : Names}
    (named : ∀ {name c}, L name → Entries.get? name n.observables = some c → (w.cell c).Waits)
    (tasks : ∀ {name t}, Entries.get? name n.tasks = some t → (w.cell t.later).Waits)
    (subscribers : ∀ {name key r}, Entries.get? name n.subscribers = some (key, r) →
      key < w.nextKey ∧ r.calls)
    (known : ∀ {name b}, Entries.get? name n.boundaries = some b → b.index < w.boundaries.size) :
    ({ w with names := n } : World).Orderly L :=
  { hw with named, tasks, subscribers, known }

/-- A program is registered that runs such steps only. -/
theorem called {acts : List Step} (times : Nat) (h : ∀ s ∈ acts, s.Awaits L) :
    ({ w with callbacks := w.callbacks.push ⟨acts, times⟩ } : World).Orderly L :=
  { hw with
    acts := fun as ha => by
      rw [Array.map_push, Array.mem_push] at ha
      rcases ha with ha | rfl
      · exact hw.acts as ha
      · exact h }

/-- A subscription of a known key. One that waits for a value has a key of its own. -/
theorem subscribe {key : Nat} {r : Reaction} (hkey : key < w.nextKey) (hf : w.Admits c r)
    (hnew : ∀ b, r = .awaited b → ∀ d, key ∉ (w.cell d).keys) :
    (w.withCell c (·.subscribe key r)).Orderly L := by
  have hendures := Endures.subscribe w c key r
  have hmem : ∀ {d s}, s ∈ ((w.withCell c (·.subscribe key r)).cell d).registry →
      s ∈ (w.cell d).registry ∨ d = c ∧ s = (key, r) := mem_registry_subscribe
  have hold : ∀ {d b}, (key, .awaited b) ∈ (w.cell d).registry → ∀ b', r ≠ .awaited b' :=
    fun hs b' hr => hnew b' hr _ (List.mem_map.2 ⟨_, hs, rfl⟩)
  exact { hw with
    keyed := fun d => by
      obtain ⟨hn, hlt⟩ := hw.keyed d
      rw [cell_withCell]
      split
      · rw [Cell.keys_subscribe]
        split
        · exact ⟨hn, hlt⟩
        · next hnot =>
          refine ⟨by simpa [List.nodup_append] using ⟨hn, fun k hk h => hnot (h ▸ hk)⟩, ?_⟩
          simpa [or_imp, forall_and] using ⟨hlt, hkey⟩
      · exact ⟨hn, hlt⟩
    named := fun hl hn => hendures.waits (hw.named hl hn)
    tasks := fun hn => hendures.waits (hw.tasks hn)
    admits := fun hs => by
      rcases hmem hs with hs | ⟨rfl, rfl⟩
      · exact hendures.admits (hw.admits hs)
      · exact hendures.admits hf
    single := fun h h' => by
      rcases hmem h with hs | ⟨rfl, he⟩ <;> rcases hmem h' with hs' | ⟨rfl, he'⟩
      · exact hw.single hs hs'
      · cases he'
        exact absurd rfl (hold hs _)
      · cases he
        exact absurd rfl (hold hs' _)
      · rfl
    settled := fun {d} => by
      rw [cell_withCell]
      split
      · simpa [Cell.settlement] using hw.settled (c := d)
      · exact hw.settled
    display := fun hb => hendures.state (hw.display hb) }

theorem subscribed {r : Reaction} (hf : w.Admits c r) : (w.subscribed c r).Orderly L := by
  have hnext : ({ w with nextKey := w.nextKey + 1 } : World).Orderly L :=
    { hw with
      keyed := fun d => ⟨(hw.keyed d).1, fun k hk => Nat.lt_succ_of_lt ((hw.keyed d).2 k hk)⟩
      subscribers := fun h => (hw.subscribers h).imp_left Nat.lt_succ_of_lt }
  exact hnext.subscribe (Nat.lt_succ_self _) (hf.mono (fun _ _ h _ => h) (Nat.le_refl _))
    fun _ _ d hd => Nat.lt_irrefl _ ((hw.keyed d).2 _ hd)

/-- A new observable, to which nothing is subscribed and that has not come. -/
theorem grown {x : Cell} (hregistry : x.registry = []) (hok : x.settlement.ok = false) :
    (w.grown x).Orderly L := by
  have hendures := Endures.grown w x
  have hmem : ∀ {d s}, s ∈ ((w.grown x).cell d).registry → s ∈ (w.cell d).registry := by
    intro d s hs
    rw [cell_grown] at hs
    split at hs
    · rw [hregistry] at hs
      cases hs
    · exact hs
  exact {
    keyed := hw.keyed.grown hregistry
    acts := hw.acts
    named := fun hl hn => hendures.waits (hw.named hl hn)
    tasks := fun hn => hendures.waits (hw.tasks hn)
    subscribers := hw.subscribers
    known := hw.known
    admits := fun hs => hendures.admits (hw.admits (hmem hs))
    single := fun h h' => hw.single (hmem h) (hmem h')
    settled := fun {d} => by
      rw [cell_grown]
      split
      · simp [hok]
      · exact hw.settled
    display := fun hb => hendures.state (hw.display hb)
    own := hw.own }

end Orderly

/-! ## New boundaries -/

/-- The display of a new boundary. -/
def newDisplay (fallback : Node) : Cell :=
  { flavour := .state [], type := .node, held := .value (.node fallback) }

/-- The world with one boundary more, and its display. -/
def bounded (w : World) (fallback : Node) : World :=
  { w.grown (newDisplay fallback) with
    boundaries := w.boundaries.push { display := ⟨w.cells.size⟩ } }

theorem boundary_bounded (w : World) (fallback : Node) (b : BoundaryId) :
    (w.bounded fallback).boundary b =
      if b.index = w.boundaries.size then { display := ⟨w.cells.size⟩ } else w.boundary b := by
  simp only [boundary, bounded, Array.getD_eq_getD_getElem?, Array.getElem?_push]
  split <;> simp

theorem size_bounded (w : World) (fallback : Node) :
    (w.bounded fallback).boundaries.size = w.boundaries.size + 1 := Array.size_push ..

end World

theorem run_newBoundary (fallback : Node) (w : World) :
    (newBoundary fallback).run w = .ok ⟨w.boundaries.size⟩ (w.bounded fallback) := rfl

theorem Endures.bounded (w : World) (fallback : Node) : Endures w (w.bounded fallback) :=
  { Endures.grown w _ with boundaries := by simp [World.size_bounded] }

namespace World

theorem Orderly.bounded (hw : w.Orderly L) (fallback : Node) : (w.bounded fallback).Orderly L := by
  have hgrown := hw.grown (x := newDisplay fallback) rfl rfl
  have hold : ∀ {b : BoundaryId}, b.index < (w.bounded fallback).boundaries.size →
      b.index ≠ w.boundaries.size → b.index < w.boundaries.size := fun hb hne => by
    rw [size_bounded] at hb
    omega
  have happart : ∀ {b : BoundaryId}, b.index < w.boundaries.size →
      (w.boundary b).display ≠ ⟨w.cells.size⟩ := fun hb h => by
    have := hw.lt_display hb
    rw [h] at this
    exact Nat.lt_irrefl _ this
  exact { hgrown with
    known := fun hn => Nat.lt_of_lt_of_le (hw.known hn) (by simp [size_bounded])
    admits := fun {c s} hs => by
      have hsize : (w.grown (newDisplay fallback)).boundaries.size ≤
          (w.bounded fallback).boundaries.size := by
        simp [size_bounded, World.grown]
      exact (hgrown.admits hs).mono (fun _ _ hf _ => hf) hsize
    display := fun {b} hb => by
      rw [boundary_bounded]
      split
      · change ((w.grown _).cell _).flavour = _
        rw [cell_grown, if_pos rfl]
        rfl
      · next hne => exact hgrown.display (hold hb hne)
    own := fun {b b'} hb hb' h => by
      rw [boundary_bounded, boundary_bounded] at h
      split at h <;> split at h
      · next he he' =>
        cases b
        cases b'
        exact congrArg _ (he.trans he'.symm)
      · next _ hne => exact absurd h.symm (happart (hold hb' hne))
      · next hne _ => exact absurd h (happart (hold hb hne))
      · next hne hne' => exact hw.own (hold hb hne) (hold hb' hne') h }

/-- A boundary that is made is fresh. -/
theorem Orderly.fresh_bounded (hw : w.Orderly L) (fallback : Node) :
    (w.bounded fallback).Fresh ⟨w.boundaries.size⟩ (.value (.node fallback)) where
  known := by simp [size_bounded]
  state := by rw [boundary_bounded, if_pos rfl]
  content := by rw [boundary_bounded, if_pos rfl]
  display := by
    rw [boundary_bounded, if_pos rfl]
    change ((w.grown _).cell _).held = _
    rw [cell_grown, if_pos rfl]
    rfl
  unawaited c key hc := by
    change _ ∈ ((w.grown _).cell c).registry at hc
    rw [cell_grown] at hc
    split at hc
    · cases hc
    · exact Nat.lt_irrefl _ (hw.admits hc).2

end World

end LivePage
