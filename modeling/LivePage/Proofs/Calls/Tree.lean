import LivePage.Proofs.Flow.Orderly

/-!
# Call trees

What a run does with observables, as a tree. A deed is something that is done to an observable, with
the world in which it begins, the deeds that happen during it, and the world in which it ends. So a
program emits an observable, the emission tells its subscriptions one after the other, and the
programs that are told do deeds of their own.

`Leads` says that a list of deeds leads from one world to another: each deed is what its name says,
and nothing happens to observables between them. The moments of such a list are the worlds in which
its deeds begin and end, in the order of time; `Path` follows the observables through them.
-/

namespace LivePage

open LivePage.Script

/-! ## Deeds -/

/-- The outcomes that something can be registered for. -/
inductive Hook where
  | failure
  | either
deriving DecidableEq

/-- What is registered for an outcome. -/
def Settlement.hook (s : Settlement) : Hook → Option (String × CallbackId)
  | .failure => s.onFailure
  | .either => s.onEither

/-- Registers something for an outcome. -/
def Settlement.withHook (s : Settlement) (called : String × CallbackId) : Hook → Settlement
  | .failure => { s with onFailure := some called }
  | .either => { s with onEither := some called }

/-- The observable has got the result that it waited for. -/
def Cell.fulfil (v : Value) (cell : Cell) : Cell :=
  { cell.modifySettlement (fun s => { s with settled := true, ok := true }) with held := .value v }

/-- The observable will not get the result that it waits for. -/
def Cell.fail (cell : Cell) : Cell := cell.modifySettlement fun s => { s with settled := true }

/-- What is done to observables. The first ten are what programs ask for, the others are what these
consist of. -/
inductive Act where
  | set (c : CellId) (held : Held)
  | subscribe (c : CellId) (key : Nat) (r : Reaction)
  | unsubscribe (c : CellId) (key : Nat)
  | unsubscribeAll (c : CellId)
  | addChecker (c : CellId) (checker : Checker)
  | register (c : CellId) (hook : Hook) (called : String × CallbackId)
  | emit (c : CellId)
  | update (c : CellId) (candidate : Held) (accepted : Bool)
  | resolve (c : CellId) (v : Value)
  | reject (c : CellId) (message : String)
  /-- An observable is assigned before it is emitted. -/
  | assign (c : CellId) (held : Held)
  /-- An observable hands what it holds to its subscriptions. -/
  | emission (c : CellId)
  /-- A subscription is called. -/
  | tell (c : CellId) (key : Nat) (r : Reaction) (held : Held)
  /-- A checker is called. -/
  | ask (checker : Checker) (current next : Value) (accepts : Bool)
  | fulfil (c : CellId) (v : Value)
  | fail (c : CellId)
  /-- What is registered for an outcome is called. -/
  | callBack (c : CellId) (hook : Hook) (name : String)

/-- What a single change that a program asks for does to an observable. -/
def Act.change? : Act → Option (CellId × (Cell → Cell))
  | .set c held => some (c, fun cell => { cell with held })
  | .subscribe c key r => some (c, (·.subscribe key r))
  | .unsubscribe c key => some (c, (·.unsubscribe key))
  | .unsubscribeAll c => some (c, Cell.unsubscribeAll)
  | .addChecker c checker => some (c, (·.addChecker checker))
  | .register c hook called => some (c, (·.modifySettlement (·.withHook called hook)))
  | _ => none

/-- A subscription is called, which nobody asks for by itself. -/
def Act.Telling : Act → Prop
  | .tell .. => True
  | _ => False

/-- Something that is done, the worlds in which it begins and ends, and what happens meanwhile. -/
structure Deed where
  act : Act
  start : World
  inner : List Deed
  finish : World

mutual

/-- A deed and all that happen during it, in the order in which they begin. -/
def Deed.all : Deed → List Deed
  | ⟨act, start, inner, finish⟩ => ⟨act, start, inner, finish⟩ :: Deed.allOf inner

/-- Deeds and all that happen during them, in the order in which they begin. -/
def Deed.allOf : List Deed → List Deed
  | [] => []
  | d :: ds => d.all ++ Deed.allOf ds

end

mutual

/-- The worlds in which a deed and those during it begin and end, in the order of time. -/
def Deed.moments : Deed → List World
  | ⟨_, start, inner, finish⟩ => start :: (Deed.momentsOf inner ++ [finish])

/-- The worlds in which deeds and those during them begin and end, in the order of time. -/
def Deed.momentsOf : List Deed → List World
  | [] => []
  | d :: ds => d.moments ++ Deed.momentsOf ds

end

namespace Deed

variable {act : Act} {start finish : World} {d : Deed} {inner ds ds' : List Deed}

@[simp] theorem all_mk :
    all ⟨act, start, inner, finish⟩ = ⟨act, start, inner, finish⟩ :: allOf inner := rfl

@[simp] theorem allOf_nil : allOf [] = [] := rfl

@[simp] theorem allOf_cons : allOf (d :: ds) = d.all ++ allOf ds := rfl

@[simp] theorem allOf_append : allOf (ds ++ ds') = allOf ds ++ allOf ds' := by
  induction ds with
  | nil => rfl
  | cons d ds ih => simp [ih]

theorem forall_mem_allOf_cons {P : Deed → Prop} :
    (∀ d ∈ allOf (⟨act, start, inner, finish⟩ :: ds), P d) ↔
      P ⟨act, start, inner, finish⟩ ∧ (∀ d ∈ allOf inner, P d) ∧ ∀ d ∈ allOf ds, P d := by
  simp only [allOf_cons, all_mk, List.cons_append, List.mem_cons, List.mem_append, or_imp,
    forall_and, forall_eq]

theorem forall_mem_allOf_append {P : Deed → Prop} :
    (∀ d ∈ allOf (ds ++ ds'), P d) ↔ (∀ d ∈ allOf ds, P d) ∧ ∀ d ∈ allOf ds', P d := by
  simp only [allOf_append, List.mem_append, or_imp, forall_and]

theorem forall_mem_allOf_nil {P : Deed → Prop} : ∀ d ∈ allOf [], P d := fun _ h => nomatch h

@[simp] theorem moments_mk :
    moments ⟨act, start, inner, finish⟩ = start :: (momentsOf inner ++ [finish]) := rfl

@[simp] theorem momentsOf_nil : momentsOf [] = [] := rfl

@[simp] theorem momentsOf_cons : momentsOf (d :: ds) = d.moments ++ momentsOf ds := rfl

@[simp] theorem momentsOf_append : momentsOf (ds ++ ds') = momentsOf ds ++ momentsOf ds' := by
  induction ds with
  | nil => rfl
  | cons d ds ih => simp [ih]

mutual

/-- What happens during a deed begins and ends while the deed lasts. -/
theorem moments_subset_of_mem_all : ∀ (d : Deed) {e : Deed}, e ∈ d.all → e.moments ⊆ d.moments
  | ⟨_, _, inner, _⟩, _, he => by
    rw [all_mk, List.mem_cons] at he
    obtain rfl | he := he
    · exact List.Subset.refl _
    · intro u hu
      simp [moments_subset_of_mem_allOf inner he hu]

theorem moments_subset_of_mem_allOf :
    ∀ (ds : List Deed) {e : Deed}, e ∈ allOf ds → e.moments ⊆ momentsOf ds
  | [], _, he => nomatch he
  | d :: ds, _, he => by
    rw [allOf_cons, List.mem_append] at he
    obtain he | he := he
    · exact fun u hu => List.mem_append_left _ (moments_subset_of_mem_all d he hu)
    · exact fun u hu => List.mem_append_right _ (moments_subset_of_mem_allOf ds he hu)

end

theorem start_mem_moments : ∀ d : Deed, d.start ∈ d.moments
  | ⟨_, _, _, _⟩ => List.mem_cons_self

end Deed

/-- None of the deeds tells anybody by itself; what happens during them may. -/
def Untold (ds : List Deed) : Prop := ∀ d ∈ ds, ¬ d.act.Telling

theorem untold_nil : Untold [] := fun _ h => nomatch h

theorem untold_append {ds ds' : List Deed} (h : Untold ds) (h' : Untold ds') : Untold (ds ++ ds') :=
  fun d hd => (List.mem_append.1 hd).elim (h d) (h' d)

theorem untold_cons {act : Act} {start finish : World} {inner ds : List Deed}
    (h : ¬ act.Telling) (hds : Untold ds) : Untold (⟨act, start, inner, finish⟩ :: ds) :=
  List.forall_mem_cons.2 ⟨h, hds⟩

theorem untold_singleton {act : Act} {start finish : World} {inner : List Deed}
    (h : ¬ act.Telling) : Untold [⟨act, start, inner, finish⟩] :=
  untold_cons h untold_nil

/-- What an outcome calls, if something is registered for it. -/
def hookDeeds (c : CellId) (hook : Hook) (called : Option (String × CallbackId)) (start : World)
    (inner : List Deed) (finish : World) : List Deed :=
  called.toList.map fun called => ⟨.callBack c hook called.1, start, inner, finish⟩

theorem mem_allOf_hookDeeds {c : CellId} {hook : Hook} {called : Option (String × CallbackId)}
    {start finish : World} {inner : List Deed} {d : Deed} (hn : called = none → inner = [])
    (hd : d ∈ Deed.allOf inner) :
    d ∈ Deed.allOf (hookDeeds c hook called start inner finish) := by
  cases called with
  | none =>
    rw [hn rfl] at hd
    cases hd
  | some called => simp [hookDeeds, hd]

theorem mem_momentsOf_hookDeeds {c : CellId} {hook : Hook} {called : Option (String × CallbackId)}
    {start finish u : World} {inner : List Deed} (hn : called = none → inner = [])
    (hu : u ∈ Deed.momentsOf inner) :
    u ∈ Deed.momentsOf (hookDeeds c hook called start inner finish) := by
  cases called with
  | none =>
    rw [hn rfl] at hu
    cases hu
  | some called => simp [hookDeeds, hu]

theorem untold_hookDeeds {c : CellId} {hook : Hook} {called : Option (String × CallbackId)}
    {start finish : World} {inner : List Deed} :
    Untold (hookDeeds c hook called start inner finish) := by
  cases called with
  | none => exact untold_nil
  | some called => exact untold_singleton id

/-! ## What deeds lead to -/

/-- A flavour without what can change about it. -/
def Flavour.bare : Flavour → Flavour
  | .state _ => .state []
  | flavour => flavour.still

/-- The observable is a state. -/
def Cell.IsState (cell : Cell) : Prop := cell.flavour.bare = .state []

/-- From `w` on, those of a list of subscriptions are told what `c` held that are registered when
their turn comes, each once and in order. -/
inductive Delivers (c : CellId) (held : Held) :
    List (Nat × Reaction) → List Deed → World → Prop where
  | done {w : World} : Delivers c held [] [] w
  | told {w w₁ start finish : World} {key : Nat} {r : Reaction} {rest : List (Nat × Reaction)}
      {inner ds : List Deed} (hs : start.cells = w.cells) (hk : key ∈ (w.cell c).keys)
      (hf : w₁.cells = finish.cells) (h : Delivers c held rest ds w₁) :
      Delivers c held ((key, r) :: rest) (⟨.tell c key r held, start, inner, finish⟩ :: ds) w
  | gone {w : World} {key : Nat} {r : Reaction} {rest : List (Nat × Reaction)} {ds : List Deed}
      (hk : key ∉ (w.cell c).keys) (h : Delivers c held rest ds w) :
      Delivers c held ((key, r) :: rest) ds w

/-- Checkers are asked in order whether `next` may follow `current`, up to the first that refuses.
The flag says that all accept. -/
inductive Vets (current next : Value) :
    List Checker → List Deed → Bool → World → World → Prop where
  | passed {w : World} : Vets current next [] [] true w w
  | refused {w w' : World} {checker : Checker} {rest : List Checker} {n : Nat}
      (h : (checker.accepts (respond n) current next).run w = .ok false w') :
      Vets current next (checker :: rest) [⟨.ask checker current next false, w, [], w'⟩] false w w'
  | accepted {w w₁ w' : World} {checker : Checker} {rest : List Checker} {n : Nat}
      {ds : List Deed} {b : Bool}
      (h : (checker.accepts (respond n) current next).run w = .ok true w₁)
      (hv : Vets current next rest ds b w₁ w') :
      Vets current next (checker :: rest) (⟨.ask checker current next true, w, [], w₁⟩ :: ds) b w w'

/-- The deeds lead from one world to the other. -/
inductive Leads : List Deed → World → World → Prop where
  | still {w w' : World} (h : w'.cells = w.cells) : Leads [] w w'
  | seq {ds ds' : List Deed} {w w₁ w' : World} (h : Leads ds w w₁) (h' : Leads ds' w₁ w') :
      Leads (ds ++ ds') w w'
  /-- A single change that a program asks for. -/
  | changed {act : Act} {c : CellId} {f : Cell → Cell} {w w' : World}
      (ha : act.change? = some (c, f))
      (hb : (f (w.cell c)).flavour.bare = (w.cell c).flavour.bare)
      (h : w'.cells = w.cells.modify c.index f) : Leads [⟨act, w, [], w'⟩] w w'
  | emitted {c : CellId} {told : List Deed} {w w' : World}
      (hd : Delivers c (w.cell c).held (w.cell c).registry told w) (h : Leads told w w') :
      Leads [⟨.emit c, w, [⟨.emission c, w, told, w'⟩], w'⟩] w w'
  | told {c : CellId} {key : Nat} {r : Reaction} {held : Held} {inner : List Deed} {w w' : World}
      (h : Leads inner w w') (hu : Untold inner) : Leads [⟨.tell c key r held, w, inner, w'⟩] w w'
  /-- An update that is refused. -/
  | refused {c : CellId} {candidate : Held} {asks : List Deed} {w w' : World}
      (hv : Vets (w.shown (w.cell c).held) (w.shown candidate) (w.cell c).checkers asks false
        w w') :
      Leads [⟨.update c candidate false, w, asks, w'⟩] w w'
  /-- An update that is accepted. -/
  | updated {c : CellId} {candidate : Held} {asks told : List Deed} {w w₁ w₂ w' : World}
      (hc : (w.cell c).IsState)
      (hv : Vets (w.shown (w.cell c).held) (w.shown candidate) (w.cell c).checkers asks true w w₁)
      (hf : w₂.cells = w₁.cells.modify c.index fun cell => { cell with held := candidate })
      (hd : Delivers c (w₂.cell c).held (w₂.cell c).registry told w₂) (h : Leads told w₂ w') :
      Leads [⟨.update c candidate true, w,
        asks ++ [⟨.assign c candidate, w₁, [], w₂⟩, ⟨.emission c, w₂, told, w'⟩], w'⟩] w w'
  /-- A derived observable gets a new value. -/
  | derived {c : CellId} {held : Held} {told : List Deed} {w w₁ w' : World}
      (hc : (w.cell c).flavour = .derived)
      (hf : w₁.cells = w.cells.modify c.index fun cell => { cell with held })
      (hd : Delivers c (w₁.cell c).held (w₁.cell c).registry told w₁) (h : Leads told w₁ w') :
      Leads [⟨.assign c held, w, [], w₁⟩, ⟨.emission c, w₁, told, w'⟩] w w'
  /-- What has settled is not settled again. -/
  | late {act : Act} {c : CellId} {w w' : World}
      (ha : (∃ v, act = .resolve c v) ∨ ∃ message, act = .reject c message)
      (hs : (w.cell c).settlement.settled = true) (h : w'.cells = w.cells) :
      Leads [⟨act, w, [], w'⟩] w w'
  | resolved {c : CellId} {v : Value} {told last : List Deed} {w w₁ w₂ w' : World}
      (hc : (w.cell c).Waits) (hs : (w.cell c).settlement.settled = false)
      (hf : w₁.cells = w.cells.modify c.index (Cell.fulfil v))
      (hd : Delivers c (w₁.cell c).held (w₁.cell c).registry told w₁) (ht : Leads told w₁ w₂)
      (hn : (w₂.cell c).settlement.hook .either = none → last = []) (hl : Leads last w₂ w')
      (hu : Untold last) :
      Leads [⟨.resolve c v, w, ⟨.fulfil c v, w, [], w₁⟩ :: ⟨.emission c, w₁, told, w₂⟩ ::
        hookDeeds c .either ((w₂.cell c).settlement.hook .either) w₂ last w', w'⟩] w w'
  | rejected {c : CellId} {message : String} {failed last : List Deed} {w w₁ w₂ w' : World}
      (hc : (w.cell c).Waits) (hs : (w.cell c).settlement.settled = false)
      (hf : w₁.cells = w.cells.modify c.index Cell.fail)
      (hm : (w₁.cell c).settlement.hook .failure = none → failed = []) (ht : Leads failed w₁ w₂)
      (hu : Untold failed) (hn : (w₂.cell c).settlement.hook .either = none → last = [])
      (hl : Leads last w₂ w') (hu' : Untold last) :
      Leads [⟨.reject c message, w, ⟨.fail c, w, [], w₁⟩ ::
        (hookDeeds c .failure ((w₁.cell c).settlement.hook .failure) w₁ failed w₂ ++
          hookDeeds c .either ((w₂.cell c).settlement.hook .either) w₂ last w'), w'⟩] w w'

/-! ## What stays -/

variable {w w' w₁ : World} {c d : CellId} {f : Cell → Cell} {ds : List Deed}

theorem World.cell_congr (h : w'.cells = w.cells) (c : CellId) : w'.cell c = w.cell c := by
  rw [World.cell, World.cell, h]

theorem World.cell_modified (h : w'.cells = w.cells.modify c.index f) (d : CellId) :
    w'.cell d = if d = c ∧ d.index < w.cells.size then f (w.cell d) else w.cell d := by
  rw [← World.cell_withCell]
  exact World.cell_congr h d

theorem World.cell_modified_self (h : w'.cells = w.cells.modify c.index f)
    (hc : c.index < w.cells.size) : w'.cell c = f (w.cell c) := by
  rw [World.cell_modified h, if_pos ⟨rfl, hc⟩]

theorem World.cell_modified_of_ne (h : w'.cells = w.cells.modify c.index f) (hd : d ≠ c) :
    w'.cell d = w.cell d := by
  rw [World.cell_modified h, if_neg fun hd' => hd hd'.1]

theorem quiet_ask {n : Nat} {checker : Checker} {current next : Value} {accepts : Bool}
    (h : (checker.accepts (respond n) current next).run w = .ok accepts w') : Quiet w w' :=
  (reads_accepts (respond_reads n) checker current next).ok h

/-- Asking checkers leaves observables alone. -/
theorem Vets.cells {current next : Value} {checkers : List Checker} {asks : List Deed} {b : Bool}
    (h : Vets current next checkers asks b w w') : w'.cells = w.cells := by
  induction h with
  | passed => rfl
  | refused h => exact (quiet_ask h).cells
  | accepted h _ ih => exact ih.trans (quiet_ask h).cells

theorem Flavour.bare_modified (h : w'.cells = w.cells.modify c.index f)
    (hf : (f (w.cell c)).flavour.bare = (w.cell c).flavour.bare) (d : CellId) :
    (w'.cell d).flavour.bare = (w.cell d).flavour.bare := by
  rw [World.cell_modified h]
  split
  · next hd => rw [hd.1, hf]
  · rfl

theorem Flavour.bare_eq_derived {f : Flavour} : f.bare = .derived ↔ f = .derived := by
  cases f <;> simp [Flavour.bare, Flavour.still]

theorem Cell.waits_iff_bare {x : Cell} : x.Waits ↔ x.flavour.bare = .later {} := by
  unfold Cell.Waits
  cases x.flavour <;> simp [Flavour.bare, Flavour.still]

@[simp] theorem Cell.bare_modifySettlement (f : Settlement → Settlement) (x : Cell) :
    (x.modifySettlement f).flavour.bare = x.flavour.bare := by
  unfold Cell.modifySettlement
  split
  · next s hs => rw [hs]; rfl
  · rfl

/-! ## Paths -/

/-- From the first world to the last, the observable changes by `R` from each moment to the next. -/
inductive Path (c : CellId) (R : Cell → Cell → Prop) : World → List World → World → Prop where
  | done {w w' : World} (h : w'.cell c = w.cell c) : Path c R w [] w'
  | next {w u w' : World} {us : List World} (h : R (w.cell c) (u.cell c)) (h' : Path c R u us w') :
      Path c R w (u :: us) w'

namespace Path

variable {R : Cell → Cell → Prop} {us vs : List World}

theorem of_start (h : w₁.cell c = w.cell c) (h' : Path c R w us w') : Path c R w₁ us w' := by
  cases h' with
  | done hd => exact .done (hd.trans h.symm)
  | next hn h' => exact .next (by rwa [h]) h'

theorem append (h : Path c R w us w₁) (h' : Path c R w₁ vs w') : Path c R w (us ++ vs) w' := by
  induction h with
  | done hd => exact h'.of_start hd.symm
  | next hn _ ih => exact .next hn (ih h')

/-- A deed begins and ends where the deeds during it do. -/
theorem enclose (hR : ∀ x, R x x) (h : Path c R w us w') : Path c R w (w :: (us ++ [w'])) w' :=
  .next (hR _) (h.append (.next (hR _) (.done rfl)))

theorem change (hR : ∀ x, R x x) (h : R (w.cell c) (w'.cell c)) : Path c R w [w, w'] w' :=
  .next (hR _) (.next h (.done rfl))

end Path

/-- By which changes an observable moves where all acts are in `A`. -/
structure Moves (A : Act → Prop) (c : CellId) (R : Cell → Cell → Prop) : Prop where
  refl (x : Cell) : R x x
  changed {act : Act} {f : Cell → Cell} {x : Cell} (ha : A act) (hf : act.change? = some (c, f))
    (hb : (f x).flavour.bare = x.flavour.bare) : R x (f x)
  updated {candidate : Held} {asks : List Deed} {w w₁ : World} (ha : A (.update c candidate true))
    (hc : (w.cell c).IsState)
    (hv : Vets (w.shown (w.cell c).held) (w.shown candidate) (w.cell c).checkers asks true w w₁) :
    R (w.cell c) { w.cell c with held := candidate }
  derived {x : Cell} (hx : x.flavour = .derived) (held : Held) : R x { x with held }
  fulfilled {x : Cell} {v : Value} (ha : A (.resolve c v)) (hx : x.Waits)
    (hs : x.settlement.settled = false) : R x (x.fulfil v)
  failed {x : Cell} {message : String} (ha : A (.reject c message)) (hx : x.Waits)
    (hs : x.settlement.settled = false) : R x x.fail

namespace Moves

variable {A : Act → Prop} {R : Cell → Cell → Prop} (hR : Moves A c R)
include hR

theorem modified (h : w'.cells = w.cells.modify d.index f)
    (hf : d = c → R (w.cell c) (f (w.cell c))) : R (w.cell c) (w'.cell c) := by
  rw [World.cell_modified h]
  split
  · next hd => exact hf hd.1.symm
  · exact hR.refl _

theorem vets {current next : Value} {checkers : List Checker} {asks : List Deed} {b : Bool}
    (h : Vets current next checkers asks b w w') : Path c R w (Deed.momentsOf asks) w' := by
  have hask : ∀ {n w w₁ b} {checker : Checker},
      (checker.accepts (respond n) current next).run w = .ok b w₁ → Path c R w [w, w₁] w₁ := by
    intro n w w₁ b checker h
    have hcells := (quiet_ask h).cells
    refine Path.change hR.refl ?_
    rw [World.cell_congr hcells]
    exact hR.refl _
  induction h with
  | passed => exact .done rfl
  | refused h => exact hask h
  | accepted h _ ih => exact (hask h).append ih

theorem hookDeeds {hook : Hook} {called : Option (String × CallbackId)} {inner : List Deed}
    (hn : called = none → inner = []) (h : Path c R w (Deed.momentsOf inner) w') :
    Path c R w (Deed.momentsOf (hookDeeds d hook called w inner w')) w' := by
  cases called with
  | none =>
    rw [hn rfl] at h
    exact h
  | some called => simpa [LivePage.hookDeeds] using Path.enclose hR.refl h

/-- Along a list of deeds the observable moves by such changes only. -/
theorem path (h : Leads ds w w') (hA : ∀ d ∈ Deed.allOf ds, A d.act) :
    Path c R w (Deed.momentsOf ds) w' := by
  induction h with
  | still h => exact .done (World.cell_congr h c)
  | seq _ _ ih ih' =>
    rw [Deed.momentsOf_append]
    exact (ih fun d hd => hA d (by simp [hd])).append (ih' fun d hd => hA d (by simp [hd]))
  | changed ha hb h =>
    refine Path.change hR.refl (hR.modified h fun hd => ?_)
    subst hd
    exact hR.changed (hA _ List.mem_cons_self) ha hb
  | emitted hd _ ih =>
    have hin := ih fun d hd => hA d (by simp [hd])
    simpa using Path.enclose hR.refl (Path.enclose hR.refl hin)
  | told _ _ ih => simpa using Path.enclose hR.refl (ih fun d hd => hA d (by simp [hd]))
  | refused hv => simpa using Path.enclose hR.refl (hR.vets hv)
  | @updated d candidate asks told w w₁ w₂ w' hd hv hf _ _ ih =>
    have hin := ih fun d hd => hA d (by simp [hd])
    have hassign : Path c R w₁ [w₁, w₂] w₂ := by
      refine Path.change hR.refl (hR.modified hf fun he => ?_)
      subst he
      rw [World.cell_congr hv.cells]
      exact hR.updated (hA _ List.mem_cons_self) hd hv
    simpa using Path.enclose hR.refl
      ((hR.vets hv).append (hassign.append (Path.enclose hR.refl hin)))
  | @derived d held told w w₁ w' hd hf _ _ ih =>
    have hin := ih fun d hd => hA d (by simp [hd])
    have hassign : Path c R w [w, w₁] w₁ := by
      refine Path.change hR.refl (hR.modified hf fun he => ?_)
      subst he
      exact hR.derived hd _
    simpa using hassign.append (Path.enclose hR.refl hin)
  | late _ _ h =>
    refine Path.change hR.refl ?_
    rw [World.cell_congr h]
    exact hR.refl _
  | @resolved d v told last w w₁ w₂ w' hc hs hf _ _ hn _ _ ih ih' =>
    have hin := ih fun d hd => hA d (by simp [hd])
    have hlast := ih' fun d hd => hA d (by simp [mem_allOf_hookDeeds hn hd])
    have hchange : Path c R w [w, w₁] w₁ := by
      refine Path.change hR.refl (hR.modified hf fun he => ?_)
      subst he
      exact hR.fulfilled (hA _ List.mem_cons_self) hc hs
    simpa using Path.enclose hR.refl (hchange.append
      ((Path.enclose hR.refl hin).append (hR.hookDeeds hn hlast)))
  | @rejected d message failed last w w₁ w₂ w' hc hs hf hm _ _ hn _ _ ih ih' =>
    have hin := ih fun d hd => hA d (by simp [mem_allOf_hookDeeds hm hd])
    have hlast := ih' fun d hd => hA d (by simp [mem_allOf_hookDeeds hn hd])
    have hchange : Path c R w [w, w₁] w₁ := by
      refine Path.change hR.refl (hR.modified hf fun he => ?_)
      subst he
      exact hR.failed (hA _ List.mem_cons_self) hc hs
    simpa using Path.enclose hR.refl (hchange.append
      ((hR.hookDeeds hm hin).append (hR.hookDeeds hn hlast)))

end Moves

end LivePage
