import LivePage.Proofs.Calls.Record

/-!
# Scripts that are recorded

The steps of programs that set, emit, update, settle and subscribe to observables, and the worlds in
which all programs consist of such steps. What is called like a state stands for a state, and what
is called like a result that comes later for such a result; whoever is told of an emission runs a
program or computes a derived observable. All single changes that these steps make keep worlds so.
-/

namespace LivePage

open LivePage.Script

variable {w w' : World} {c d : CellId} {f : Cell → Cell} {key : Nat} {r : Reaction}

/-- What is called like a state, and what is called like a result that comes later. -/
structure Naming where
  state : String → Prop
  later : String → Prop

variable {N : Naming}

/-! ## Steps -/

/-- The steps that are recorded in full. -/
inductive Script.Step.Traced (N : Naming) : Step → Prop where
  /-- A step that only reads, of which nothing is recorded. -/
  | reads {step : Step} (h : ∀ d, Reads (stepAnswer (respond d) step).run)
      (hn : ∀ call recorder, Recorder.step call recorder step = Record.nothing) : Traced N step
  | set {c : String} {change : Change} : Traced N (.set c change)
  | setValue {c : String} {value : Expr} : Traced N (.setValue c value)
  | emit {c : String} : Traced N (.emit c)
  | unsubscribe {c handler : String} : Traced N (.unsubscribe c handler)
  | unsubscribeAll {c : String} : Traced N (.unsubscribeAll c)
  | cancel {watch : String} : Traced N (.cancel watch)
  | poll {task : String} : Traced N (.poll task)
  | update {c : String} {change : Change} (h : N.state c) : Traced N (.update c change)
  | flip {c : String} (h : N.state c) : Traced N (.flip c)
  | push {c slice : String} (h : N.state c) : Traced N (.push c slice)
  | addChecker {c : String} {checker : Checker} (h : N.state c) : Traced N (.addChecker c checker)
  | subscribe {c handler : String} {acts : List Step} {times : Nat} (h : ∀ s ∈ acts, Traced N s) :
      Traced N (.subscribe c handler acts times)
  | watch {c as : String} {acts : List Step} {times : Nat} (h : ∀ s ∈ acts, Traced N s) :
      Traced N (.watch c as acts times)
  | resolve {c : String} {value : Expr} (h : N.later c) : Traced N (.resolve c value)
  | reject {c message : String} (h : N.later c) : Traced N (.reject c message)
  | onCatch {c handler : String} {acts : List Step} {times : Nat} (hc : N.later c)
      (h : ∀ s ∈ acts, Traced N s) : Traced N (.onCatch c handler acts times)
  | onFinally {c handler : String} {acts : List Step} {times : Nat} (hc : N.later c)
      (h : ∀ s ∈ acts, Traced N s) : Traced N (.onFinally c handler acts times)

/-! ## Worlds -/

/-- What is told of an emission runs a program or computes a derived observable. -/
def World.Calls (w : World) : Reaction → Prop
  | .subscriber .. | .watch .. => True
  | .derive target _ | .combineFirst target _ _ | .combineSecond target _ _
  | .combineAll target _ _ | .recompute target _ => (w.cell target).flavour = .derived
  | .awaited _ | .rebuild _ | .attribute .. | .styleProperty .. => False

/-- Programs consist of steps that are recorded, and names stand for what they say. -/
structure World.Traced (N : Naming) (w : World) : Prop where
  keyed : w.Keyed
  acts : ∀ acts ∈ w.callbacks.map (·.acts), ∀ s ∈ acts, s.Traced N
  subscribers {name : String} {key : Nat} {r : Reaction} :
    Entries.get? name w.names.subscribers = some (key, r) → key < w.nextKey ∧ r.calls
  tells {c : CellId} {s : Nat × Reaction} : s ∈ (w.cell c).registry → w.Calls s.2
  states {name : String} {c : CellId} : N.state name →
    Entries.get? name w.names.observables = some c → (w.cell c).IsState
  laters {name : String} {c : CellId} : N.later name →
    Entries.get? name w.names.observables = some c → (w.cell c).Waits
  tasks {name : String} {t : Task} : Entries.get? name w.names.tasks = some t →
    (w.cell t.later).Waits

/-! ## Single changes -/

/-- What can be told depends only on the sorts of observables. -/
theorem World.Calls.mono (h : w.Calls r)
    (hbare : ∀ d, (w'.cell d).flavour.bare = (w.cell d).flavour.bare) : w'.Calls r := by
  cases r with
  | subscriber | watch => trivial
  | derive | combineFirst | combineSecond | combineAll | recompute =>
    exact Flavour.bare_eq_derived.1 ((hbare _).trans (Flavour.bare_eq_derived.2 h))
  | awaited | rebuild | «attribute» | styleProperty => exact h.elim

/-- What scripts subscribe by a name runs a program. -/
theorem Reaction.calls.tells (h : r.calls) : w.Calls r := by
  cases r with
  | subscriber => trivial
  | _ => exact h.elim

theorem World.traced_empty : ({} : World).Traced N where
  keyed _ := ⟨.nil, fun _ h => nomatch h⟩
  acts _ h := by simp at h
  subscribers h := nomatch h
  tells h := nomatch h
  states _ h := nomatch h
  laters _ h := nomatch h
  tasks h := nomatch h

namespace World.Traced

variable (hw : w.Traced N)
include hw

/-- A change that leaves sorts and names as they are. -/
theorem congr (hkeyed : w'.Keyed)
    (hbare : ∀ d, (w'.cell d).flavour.bare = (w.cell d).flavour.bare)
    (htells : ∀ {d s}, s ∈ (w'.cell d).registry → s ∈ (w.cell d).registry ∨ w.Calls s.2)
    (hnames : w'.names = w.names) (hnextKey : w.nextKey ≤ w'.nextKey)
    (hacts : w'.callbacks.map (·.acts) = w.callbacks.map (·.acts)) : w'.Traced N where
  keyed := hkeyed
  acts := by
    rw [hacts]
    exact hw.acts
  subscribers hn := by
    rw [hnames] at hn
    exact (hw.subscribers hn).imp_left fun h => Nat.lt_of_lt_of_le h hnextKey
  tells hs := ((htells hs).elim hw.tells id).mono hbare
  states hl hn := by
    rw [hnames] at hn
    exact (hbare _).trans (hw.states hl hn)
  laters hl hn := by
    rw [hnames] at hn
    exact Cell.waits_iff_bare.2 ((hbare _).trans (Cell.waits_iff_bare.1 (hw.laters hl hn)))
  tasks hn := by
    rw [hnames] at hn
    exact Cell.waits_iff_bare.2 ((hbare _).trans (Cell.waits_iff_bare.1 (hw.tasks hn)))

theorem of_cells (hcells : w'.cells = w.cells) (hnames : w'.names = w.names)
    (hnextKey : w'.nextKey = w.nextKey)
    (hacts : w'.callbacks.map (·.acts) = w.callbacks.map (·.acts)) : w'.Traced N := by
  have hcell := World.cell_congr hcells
  refine hw.congr (fun d => ?_) (fun d => by rw [hcell]) (fun {d s} hs => ?_) hnames hnextKey.ge
    hacts
  · rw [hcell, hnextKey]
    exact hw.keyed d
  · rw [hcell] at hs
    exact .inl hs

theorem quiet (h : Quiet w w') : w'.Traced N := hw.of_cells h.cells h.names h.nextKey h.acts

theorem repin (pins : List (List Entity)) : ({ w with pins := pins } : World).Traced N :=
  hw.of_cells rfl rfl rfl rfl

theorem pinned (held : List Entity) : (w.pinned held).Traced N := hw.repin _

theorem unpinned : w.unpinned.Traced N := hw.repin _

/-- An observable changes, but not its sort, and nothing is subscribed to it. -/
theorem withCell (hb : (f (w.cell c)).flavour.bare = (w.cell c).flavour.bare)
    (hs : (f (w.cell c)).registry.Sublist (w.cell c).registry) : (w.withCell c f).Traced N := by
  refine hw.congr (fun d => ?_) (Flavour.bare_modified rfl hb) (fun {d s} hd => .inl ?_) rfl
    (Nat.le_refl _) rfl
  · rw [World.cell_withCell]
    split
    · next h =>
      rw [h.1]
      have hkeys : (f (w.cell c)).keys.Sublist (w.cell c).keys := hs.map _
      exact ⟨(hw.keyed c).1.sublist hkeys, fun k hk => (hw.keyed c).2 k (hkeys.subset hk)⟩
    · exact hw.keyed d
  · rw [World.cell_withCell] at hd
    split at hd
    · next h =>
      rw [h.1] at hd ⊢
      exact hs.subset hd
    · exact hd

/-- A subscription of a known key. -/
theorem subscribe (hk : key < w.nextKey) (hr : w.Calls r) :
    (w.withCell c (·.subscribe key r)).Traced N := by
  refine hw.congr (fun d => ?_) (Flavour.bare_modified rfl (by simp)) (fun {d s} hd => ?_) rfl
    (Nat.le_refl _) rfl
  · obtain ⟨hn, hlt⟩ := hw.keyed d
    rw [World.cell_withCell]
    split
    · rw [Cell.keys_subscribe]
      split
      · exact ⟨hn, hlt⟩
      · next hnot =>
        refine ⟨by simpa [List.nodup_append] using ⟨hn, fun k hk h => hnot (h ▸ hk)⟩, ?_⟩
        simpa [or_imp, forall_and] using ⟨hlt, hk⟩
    · exact ⟨hn, hlt⟩
  · obtain h | ⟨-, rfl⟩ := World.mem_registry_subscribe hd
    · exact .inl h
    · exact .inr hr

/-- A subscription of a new key. -/
theorem subscribed (hr : w.Calls r) : (w.subscribed c r).Traced N := by
  have hnext : ({ w with nextKey := w.nextKey + 1 } : World).Traced N :=
    hw.congr (fun d => ⟨(hw.keyed d).1, fun k hk => Nat.lt_succ_of_lt ((hw.keyed d).2 k hk)⟩)
      (fun _ => rfl) .inl rfl (Nat.le_succ _) rfl
  exact hnext.subscribe (Nat.lt_succ_self _) (hr.mono fun _ => rfl)

/-- A program is registered that consists of steps that are recorded. -/
theorem called {acts : List Step} (times : Nat) (h : ∀ s ∈ acts, s.Traced N) :
    ({ w with callbacks := w.callbacks.push ⟨acts, times⟩ } : World).Traced N :=
  { hw with
    acts := fun as ha => by
      rw [Array.map_push, Array.mem_push] at ha
      rcases ha with ha | rfl
      · exact hw.acts as ha
      · exact h }

theorem withNames {n : Names} (hobservables : n.observables = w.names.observables)
    (hsubscribers : ∀ {name key r}, Entries.get? name n.subscribers = some (key, r) →
      key < w.nextKey ∧ r.calls)
    (htasks : ∀ {name t}, Entries.get? name n.tasks = some t → (w.cell t.later).Waits) :
    ({ w with names := n } : World).Traced N :=
  { hw with
    subscribers := hsubscribers
    states := fun hl hn => hw.states hl (hobservables ▸ hn)
    laters := fun hl hn => hw.laters hl (hobservables ▸ hn)
    tasks := htasks }

/-- A new observable, to which nothing is subscribed. -/
theorem grown {x : Cell} (hx : x.registry = []) : (w.grown x).Traced N := by
  have hcell : ∀ {d : CellId}, (w.cell d).flavour ≠ .plain → (w.grown x).cell d = w.cell d :=
    fun hd => World.cell_grown_of_lt (World.lt_of_flavour hd)
  exact { hw with
    keyed := hw.keyed.grown hx
    tells := fun {d s} hs => by
      rw [World.cell_grown] at hs
      split at hs
      · rw [hx] at hs
        cases hs
      · have hcalls := hw.tells hs
        obtain ⟨key, r⟩ := s
        cases r with
        | subscriber | watch => trivial
        | derive | combineFirst | combineSecond | combineAll | recompute =>
          exact (congrArg Cell.flavour (hcell (by rw [hcalls]; nofun))).trans hcalls
        | awaited | rebuild | «attribute» | styleProperty => exact hcalls.elim
    states := fun hl hn => by
      have hstate := hw.states hl hn
      rwa [hcell fun h => by rw [Cell.IsState, h] at hstate; cases hstate]
    laters := fun hl hn => by
      have hwaits := hw.laters hl hn
      rwa [hcell fun h => by rw [Cell.Waits, h] at hwaits; cases hwaits]
    tasks := fun hn => by
      have hwaits := hw.tasks hn
      rwa [hcell fun h => by rw [Cell.Waits, h] at hwaits; cases hwaits] }

/-- An observable gets a name that says what it is. -/
theorem calling {as : String} (hs : N.state as → (w.cell c).IsState)
    (hl : N.later as → (w.cell c).Waits) : (w.calling as c).Traced N :=
  { hw with
    states := fun hn h => by
      rw [World.calling, Entries.get?_set] at h
      split at h
      · next he =>
        cases h
        exact hs (he ▸ hn)
      · exact hw.states hn h
    laters := fun hn h => by
      rw [World.calling, Entries.get?_set] at h
      split at h
      · next he =>
        cases h
        exact hl (he ▸ hn)
      · exact hw.laters hn h }

end World.Traced

end LivePage
