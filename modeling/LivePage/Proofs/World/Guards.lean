import LivePage.World.Basic

/-!
# Guards of entered pages

Entering a page gives a guard, and the page is left when the guard is dropped. The world keeps a
stack of the entered pages, and a guard does not know its place in it: dropping any guard takes the
top off. So no page is active exactly if no guard is alive (`GuardedWorld.active_eq_none_iff`), and
the active page is the one that would be active if the newest guard had been dropped each time
(`GuardedWorld.active_run`). That is the page of the newest living guard as long as guards are
dropped newest first (`GuardedWorld.active_of_nested`). When an older guard is dropped before it,
the page of the dropped guard stays active (`GuardedWorld.not_active_of_outer_dropped`).
-/

namespace LivePage

/-- What is done with guards: a page is entered, or a guard is dropped, which is given by the number
of living guards that are newer; the oldest, if there are not so many. -/
inductive GuardStep where
  | enter (p : PageId)
  | drop (newer : Nat)

/-- The step that drops the newest guard where any guard is dropped. -/
def GuardStep.newest : GuardStep → GuardStep
  | .enter p => .enter p
  | .drop _ => .drop 0

/-- A world together with the pages of the living guards, the newest first. -/
structure GuardedWorld where
  world : World
  alive : List PageId := []

namespace GuardedWorld

variable {g g' : GuardedWorld} {steps : List GuardStep}

/-- A page is entered or a guard is dropped. -/
def step (g : GuardedWorld) : GuardStep → GuardedWorld
  | .enter p => ⟨g.world.enterPage p, p :: g.alive⟩
  | .drop newer => ⟨g.world.dropGuard, g.alive.eraseIdx (min newer (g.alive.length - 1))⟩

/-- One step after the other. -/
def run (g : GuardedWorld) (steps : List GuardStep) : GuardedWorld := steps.foldl step g

/-! ## How many guards are alive -/

theorem length_step (h : g.world.entered.length = g.alive.length) (s : GuardStep) :
    (g.step s).world.entered.length = (g.step s).alive.length := by
  cases s with
  | enter p => simp [step, World.enterPage, h]
  | drop newer =>
    simp only [step, World.dropGuard, List.length_tail, h, List.length_eraseIdx]
    split <;> omega

/-- As many pages are entered as guards are alive, in whatever order guards are dropped. -/
theorem length_run (h : g.world.entered.length = g.alive.length) :
    (g.run steps).world.entered.length = (g.run steps).alive.length := by
  induction steps generalizing g with
  | nil => exact h
  | cons s steps ih => exact ih (length_step h s)

/-- No page is active exactly if no guard is alive. -/
theorem active_eq_none_iff (h : g.world.entered.length = g.alive.length) :
    (g.run steps).world.activePage = none ↔ (g.run steps).alive = [] := by
  have hlength : (g.run steps).world.entered.length = (g.run steps).alive.length := length_run h
  rw [World.activePage, List.head?_eq_none_iff, ← List.length_eq_zero_iff, hlength,
    List.length_eq_zero_iff]

/-! ## Guards that are dropped newest first -/

/-- The newest guard is dropped first. -/
def Nested (steps : List GuardStep) : Prop := ∀ newer, .drop newer ∈ steps → newer = 0

theorem entered_step (h : g.world.entered = g.alive) {s : GuardStep}
    (hs : ∀ newer, s = .drop newer → newer = 0) :
    (g.step s).world.entered = (g.step s).alive := by
  cases s with
  | enter p => simp [step, World.enterPage, h]
  | drop newer =>
    obtain rfl := hs newer rfl
    simp [step, World.dropGuard, h]

theorem entered_run (h : g.world.entered = g.alive) (hnested : Nested steps) :
    (g.run steps).world.entered = (g.run steps).alive := by
  induction steps generalizing g with
  | nil => exact h
  | cons s steps ih =>
    refine ih (entered_step h fun newer hs => hnested newer ?_) fun newer hmem =>
      hnested newer (List.mem_cons_of_mem _ hmem)
    exact hs ▸ List.mem_cons_self

/-- While guards are dropped newest first, the active page is that of the newest living guard. -/
theorem active_of_nested (h : g.world.entered = g.alive) (hnested : Nested steps) :
    (g.run steps).world.activePage = (g.run steps).alive.head? := by
  rw [World.activePage, entered_run h hnested]

/-! ## Guards that are dropped in any order -/

theorem nested_newest (steps : List GuardStep) : Nested (steps.map GuardStep.newest) := by
  intro newer hmem
  obtain ⟨s, -, hs⟩ := List.mem_map.1 hmem
  cases s with
  | enter p => cases hs
  | drop other =>
    cases hs
    rfl

/-- Which guard is dropped makes no difference to the world. -/
theorem world_run (h : g.world = g'.world) :
    (g.run steps).world = (g'.run (steps.map GuardStep.newest)).world := by
  induction steps generalizing g g' with
  | nil => exact h
  | cons s steps ih =>
    refine ih ?_
    cases s <;> simp [GuardStep.newest, step, h]

/-- The active page is that of the newest guard that would be alive if the newest guard had been
dropped each time. -/
theorem active_run (h : g.world.entered = g.alive) :
    (g.run steps).world.activePage =
      (g.run (steps.map GuardStep.newest)).alive.head? := by
  rw [world_run rfl, active_of_nested h (nested_newest steps)]

/-- When the outer of two guards is dropped first, its page stays active, and not that of the guard
which is still alive. -/
theorem not_active_of_outer_dropped :
    let g := run ⟨{}, []⟩ [.enter ⟨0⟩, .enter ⟨1⟩, .drop 1]
    g.alive = [⟨1⟩] ∧ g.world.activePage = some ⟨0⟩ := by
  decide

end GuardedWorld

end LivePage
