import LivePage.Proofs.Run.Change

/-!
# Histories of a boundary

A boundary is told three things: that a value is awaited, that an awaited value has come, and what
its content is. What it was told, the last notice first, is its history, and everything about the
boundary can be read off from it: what is outstanding, whether the boundary has settled, and what
its display has been updated with. `Course` follows a boundary from one world to another through all
single changes, and demands at each moment that the boundary is as its history says.
-/

namespace LivePage

/-! ## Histories -/

/-- What a boundary is told. A registration is known by the key of its subscription. -/
inductive Notice where
  /-- A value is awaited that had not come. -/
  | counted (key : Nat)
  /-- The value of a registration has come. -/
  | came (key : Nat)
  /-- The content is known. -/
  | finished (content : Node)

/-- What a boundary was told, the last notice first. -/
abbrev History := List Notice

namespace History

/-- The registrations that were counted and whose values have not come since. -/
def outstanding : History → List Nat
  | [] => []
  | .counted key :: es => key :: outstanding es
  | .came key :: es => (outstanding es).erase key
  | .finished _ :: es => outstanding es

/-- The content, once it is known. -/
def content : History → Option Node
  | [] => none
  | .counted _ :: es | .came _ :: es => content es
  | .finished n :: _ => some n

/-- After `es`, is the value of `key` the last one that the known content waits for? -/
def completes (key : Nat) (es : History) : Bool :=
  es.content.isSome && (es.outstanding.erase key).isEmpty

/-- Has the boundary settled? That happens when the content becomes known with nothing outstanding,
or else with the first value after it that leaves nothing outstanding. -/
def settled : History → Bool
  | [] => false
  | .counted _ :: es => settled es
  | .came key :: es => settled es || completes key es
  | .finished _ :: es => settled es || (outstanding es).isEmpty

/-- What the display was updated with, the last update first: only a value that settles the boundary
updates it, with the content. -/
def updates : History → List Node
  | [] => []
  | .counted _ :: es | .finished _ :: es => updates es
  | .came key :: es =>
    if !settled es && completes key es then (content es).toList ++ updates es else updates es

variable {es : History}

/-- A boundary stays settled. -/
theorem settled_append (earlier : History) (h : settled earlier = true) :
    ∀ later : History, settled (later ++ earlier) = true
  | [] => h
  | e :: later => by
    have ih := settled_append earlier h later
    cases e <;> simp [settled, ih]

theorem updates_of_unsettled (h : settled es = false) : updates es = [] := by
  induction es with
  | nil => rfl
  | cons e es ih =>
    cases e with
    | counted key => exact ih h
    | finished n =>
      simp only [settled, Bool.or_eq_false_iff] at h
      exact ih h.1
    | came key =>
      simp only [settled, Bool.or_eq_false_iff] at h
      simp [updates, h.2, ih h.1]

/-- The display is updated at most once. -/
theorem length_updates_le (es : History) : (updates es).length ≤ 1 := by
  induction es with
  | nil => exact Nat.zero_le _
  | cons e es ih =>
    cases e with
    | counted key | finished n => exact ih
    | came key =>
      rw [updates]
      split
      · next h =>
        simp only [Bool.and_eq_true, Bool.not_eq_true'] at h
        rw [updates_of_unsettled h.1, List.append_nil]
        cases content es <;> simp
      · exact ih

end History

/-! ## Boundaries and their histories -/

/-- What the display of a boundary holds, where it began with `fallback`. -/
def History.display (fallback : Held) (es : History) : Held :=
  match es.updates with
  | [] => fallback
  | n :: _ => .value (.node n)

/-- The boundary is as its history says. -/
structure Describes (b : BoundaryId) (fallback : Held) (es : History) (w : World) : Prop where
  state : (w.boundary b).state =
    if es.settled then .settled else .pending es.outstanding.length
  content : es.settled = false → (w.boundary b).content = es.content
  display : (w.cell (w.boundary b).display).held = es.display fallback

/-- A boundary that was just made: it waits for nothing, its content is not known, and nothing is
registered with it. -/
structure World.Fresh (w : World) (b : BoundaryId) (fallback : Held) : Prop where
  known : b.index < w.boundaries.size
  state : (w.boundary b).state = .pending 0
  content : (w.boundary b).content = none
  display : (w.cell (w.boundary b).display).held = fallback
  unawaited (c : CellId) (key : Nat) : (key, .awaited b) ∉ (w.cell c).registry

/-- A boundary that was just made has no history. -/
theorem World.Fresh.describes {w : World} {b : BoundaryId} {fallback : Held}
    (h : w.Fresh b fallback) : Describes b fallback [] w :=
  ⟨h.state, fun _ => h.content, h.display⟩

/-! ## What happens to a boundary -/

/-- The world with a boundary changed. -/
def World.withBoundary (w : World) (b : BoundaryId) (f : Boundary → Boundary) : World :=
  { w with boundaries := w.boundaries.modify b.index f }

/-- The content is shown. -/
def Boundary.settle (boundary : Boundary) : Boundary :=
  { boundary with state := .settled, content := none }

/-- So many values are outstanding. -/
def Boundary.waitFor (left : Nat) (boundary : Boundary) : Boundary :=
  { boundary with state := .pending left }

/-- The world after a boundary has settled by showing its content. -/
def World.showing (w : World) (b : BoundaryId) (content : Node) : World :=
  (w.withBoundary b Boundary.settle).withCell (w.boundary b).display
    fun cell => { cell with held := .value (.node content) }

/-- The world after a boundary was told that a value has come, before anybody else is told. -/
def World.arrived (w : World) (b : BoundaryId) : World :=
  match (w.boundary b).state with
  | .settled => w
  | .pending k =>
    match k - 1, (w.boundary b).content with
    | 0, some content => w.showing b content
    | left, _ => w.withBoundary b (Boundary.waitFor left)

/-- A change that the boundary does not take part in: it stays as it is, nothing is registered with
it, and values that have come do not go. -/
structure Aside (b : BoundaryId) (w w' : World) : Prop where
  boundary : w'.boundary b = w.boundary b
  display : (w'.cell (w.boundary b).display).held = (w.cell (w.boundary b).display).held
  awaiting (c : CellId) (key : Nat) :
    (key, .awaited b) ∈ (w'.cell c).registry ↔ (key, .awaited b) ∈ (w.cell c).registry
  ok (c : CellId) : (w.cell c).settlement.ok = true → (w'.cell c).settlement.ok = true

/-- The change by which a boundary is told something: a call registers an awaited value that has not
come, a registration is told that its value has, or a call gives the content. -/
inductive Notices (b : BoundaryId) (w : World) : Notice → World → Prop where
  | counted {c : CellId} {n : Node} {w' : World} (waiting : (w.cell c).settlement.ok = false)
      (run : (awaitIn b c).run w = .ok n w') : Notices b w (.counted w.nextKey) w'
  | came {c : CellId} {key : Nat} (registered : (key, .awaited b) ∈ (w.cell c).registry)
      (resolved : (w.cell c).settlement.ok = true) : Notices b w (.came key) (w.arrived b)
  | finished {content n : Node} {w' : World} (run : (finishBoundary b content).run w = .ok n w') :
      Notices b w (.finished content) w'

/-- A value comes only for a registration that is outstanding. -/
def Notice.Due : Notice → History → Prop
  | .came key, es => key ∈ es.outstanding
  | .counted _, _ | .finished _, _ => True

/-- Unless it has settled, the boundary changes with whatever it is told, where the content is given
only once. So no history leaves out what the boundary was told before it settled. -/
def World.Heeds (w : World) (b : BoundaryId) (es : History) : Prop :=
  es.settled = false → ∀ {e : Notice} {w' : World}, Notices b w e w' → e.Due es →
    (∀ n, e = .finished n → es.content = none) → w'.boundary b ≠ w.boundary b

/-- The course of a boundary from the world `w₀` on, change by change. At each moment the boundary
is as its history says. -/
inductive Course (b : BoundaryId) (fallback : Held) (w₀ : World) : History → World → Prop where
  | start (describes : Describes b fallback [] w₀) : Course b fallback w₀ [] w₀
  | aside {es : History} {w w' : World} (before : Course b fallback w₀ es w)
      (change : Aside b w w') (describes : Describes b fallback es w') : Course b fallback w₀ es w'
  | noticed {es : History} {e : Notice} {w w' : World} (before : Course b fallback w₀ es w)
      (change : Notices b w e w') (due : e.Due es) (describes : Describes b fallback (e :: es) w') :
      Course b fallback w₀ (e :: es) w'

theorem Course.describes {b : BoundaryId} {fallback : Held} {w₀ w : World} {es : History}
    (h : Course b fallback w₀ es w) : Describes b fallback es w := by
  cases h with
  | start h | aside _ _ h | noticed _ _ _ h => exact h

end LivePage
