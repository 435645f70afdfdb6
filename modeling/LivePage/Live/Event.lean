import LivePage.Observable.Registry
import LivePage.World.Pages
import LivePage.Page.Print

/-!
# Events

An event is handed to the handlers of the node that it is dispatched on, in the order of their
registration, then to those of its ancestors, until a handler stops it. The handlers of a node are
looked up when the event arrives there; what they do to the tree decides where it goes next.
-/

namespace LivePage

/-- A short description of a page node. -/
def World.describe (w : World) (n : PageNode) : String := (w.page n.page).describe n.slot

/-- Hands an event to one handler, which may mark it. -/
def HandlerId.handle (call : Respond) (h : HandlerId) (e : Event) : Run Event := do
  let w ← get
  match w.handlers[h.index]? with
  | some (.program name stop prevent program) => do
    logEntry (.object [("on", .text name), ("type", .text e.type),
      ("target", .text (w.describe e.target)), ("prevented", .bool e.prevented)])
    program.run call
    return { e with prevented := e.prevented || prevent, stopped := e.stopped || stop }
  | some (.render r) => do
    let _ ← call (.render r)
    return e
  | none => return e

/-- Hands an event to handlers in order. -/
def handleAll (call : Respond) (e : Event) : List HandlerId → Run Event
  | [] => return e
  | h :: rest => do
    let e ← holding ((h :: rest).map .handler) (h.handle call e)
    handleAll call e rest

/-- Hands an event to the handlers of a node, and then to those above it unless it is stopped. -/
def Event.bubble (call : Respond) (e : Event) (n : PageNode) : Run Event := do
  let handlers := ((← get).page n.page).handlers n.slot e.type
  let e ← holding [.slot n] (handleAll call e handlers)
  if e.stopped then return e
  else
    match n.parent? (← get) with
    | some parent => call (.bubble e parent)
    | none => return e

/-- Dispatches an event at a node. -/
def dispatch (call : Respond) (type : String) (target : PageNode) : Run Event :=
  holding [.slot target] (Event.bubble call { type, target } target)

end LivePage
