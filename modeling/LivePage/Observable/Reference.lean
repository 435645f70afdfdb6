import LivePage.Observable.Emission
import LivePage.World.Lookup

/-!
# References to elements

A reference holds the element that it is attached to, if any. Attaching it and clearing it are
emitted; a reference that is killed loses its subscriptions after they have seen it cleared.
Only references can be attached and killed: anything else in their place stops the run.
-/

namespace LivePage

/-- Does something with a reference. -/
def withRef (c : CellId) (act : Run Unit) : Run Unit := do
  match ((← get).cell c).flavour with
  | .ref => act
  | flavour => unknown flavour.name

/-- Attaches a reference to an element. -/
def attach (call : Respond) (c : CellId) (element : PageNode) : Run Unit :=
  withRef c (holdAndEmit call c (.element element))

/-- Clears a reference, then removes all its subscriptions. -/
def killRef (call : Respond) (c : CellId) : Run Unit :=
  withRef c do
    holdAndEmit call c .absent
    modifyCell c Cell.unsubscribeAll

end LivePage
