import LivePage.Flow.Branches
import LivePage.Observable.Settling
import LivePage.Observable.Checking

/-!
# Suspense boundaries

A boundary counts the awaited values that were registered with it. While some are outstanding it
shows its fallback; when the last of them has come it shows its content, once. A value that had
come before it was registered is not counted, and one that is rejected never comes.
-/

namespace LivePage

/-- Makes a boundary that shows `fallback` while anything is outstanding. -/
def newBoundary (fallback : Node) : Run BoundaryId := do
  let display ← newCell (.state []) .node (.value (.node fallback))
  let w ← get
  set { w with boundaries := w.boundaries.push { display } }
  return ⟨w.boundaries.size⟩

/-- A boundary of the world. -/
def World.boundary (w : World) (b : BoundaryId) : Boundary := w.boundaries.getD b.index default

/-- Changes a boundary. -/
def modifyBoundary (b : BoundaryId) (f : Boundary → Boundary) : Run Unit :=
  modify fun w => { w with boundaries := w.boundaries.modify b.index f }

/-- One more value is outstanding. -/
def Boundary.register (b : Boundary) : Boundary :=
  match b.state with
  | .pending k => { b with state := .pending (k + 1) }
  | .settled => b

/-- Registers an awaited observable and gives a node that shows its value. -/
def awaitIn (b : BoundaryId) (c : CellId) : Run Node := do
  if !((← get).cell c).settlement.ok then
    modifyBoundary b Boundary.register
    let _ ← subscribe c (.awaited b)
  return .deferred (.pending c)

/-- An awaited value has come. With the last one the content is shown, if it is known already. -/
def BoundaryId.arrive (call : Respond) (b : BoundaryId) : Run Unit := do
  let boundary := (← get).boundary b
  match boundary.state with
  | .settled => pure ()
  | .pending k =>
    match k - 1, boundary.content with
    | 0, some content => do
      modifyBoundary b fun boundary => { boundary with state := .settled, content := none }
      let _ ← updateState call boundary.display (.value (.node content))
    | left, _ => modifyBoundary b fun boundary => { boundary with state := .pending left }

/-- The subscription of a boundary to a value that it waits for. -/
def BoundaryId.onAwaited (call : Respond) (b : BoundaryId) (held : Held) : Run Unit :=
  if held.isPresent then b.arrive call else pure ()

/-- Gives a boundary its content. With nothing outstanding that is what is shown; else the result
shows the fallback until the last value has come. -/
def finishBoundary (b : BoundaryId) (content : Node) : Run Node := do
  let boundary := (← get).boundary b
  match boundary.state with
  | .settled | .pending 0 => do
    modifyBoundary b fun boundary => { boundary with state := .settled }
    return content
  | .pending _ => do
    modifyBoundary b fun boundary => { boundary with content := some content }
    followNode boundary.display

end LivePage
