import LivePage.Observable.Registry

/-!
# Emissions

An emission hands what the observable holds at its start to the subscriptions that are registered
at its start, in their order. What they do can change the registry: a subscription that is gone
when its turn comes is passed over, and one that is new is not told. The value stays the one from
the start, and an emission that begins meanwhile is carried out on the spot.

The subscriptions whose turn is still to come stay alive until they have had it, with everything
they hold.
-/

namespace LivePage

/-- Hands `held` to those of the `snapshot` that are still registered when their turn comes. -/
def notify (call : Respond) (c : CellId) (held : Held) : (snapshot : List (Nat × Reaction)) →
    Run Unit
  | [] => pure ()
  | (key, r) :: rest => do
    let w ← get
    if (w.cell c).isSubscribed key then
      holding (((key, r) :: rest).flatMap fun s => w.reactionHolds s.2) (call (.react r held))
    notify call c held rest

/-- Tells the subscriptions of an observable what it holds. -/
def emit (call : Respond) (c : CellId) : Run Unit := do
  let cell := (← get).cell c
  holding (.cell c :: cell.held.holds) (notify call c cell.held cell.registry)

/-- Assigns and emits. -/
def holdAndEmit (call : Respond) (c : CellId) (held : Held) : Run Unit := do
  hold c held
  emit call c

end LivePage
