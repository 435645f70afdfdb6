import LivePage.Observable.Emission
import LivePage.Script.Eval

/-!
# Derived observables

A derived observable is computed from others. Whenever one of its sources is emitted, its
generator runs again, and the result is assigned and emitted; between emissions the result is kept.
A source knows what is derived from it without holding it, and a subscription whose target is gone
does nothing.

Generators that take the values of several sources take the emitted one as it was emitted and
read the others; those that take a whole list read all of them.
-/

namespace LivePage

open LivePage.Script

/-! ## Generators -/

/-- The variables `v0`, `v1` and so on for the values of sources. -/
def sourceContext (w : World) (sources : List Held) : Context :=
  sources.mapIdx fun i held => ("v" ++ toString i, w.shown held)

/-- Segments with the texts of the inserted values between them. Values beyond the last segment
are left out. -/
def interleave (call : Respond) : (segments : List String) → (arguments : List Value) → Run String
  | [], _ => return ""
  | [s], _ => return s
  | s :: rest, [] => do return s ++ (← interleave call rest [])
  | s :: rest, v :: arguments => do
    let inserted ← call (.insertedText v)
    let tail ← interleave call rest arguments
    return s ++ inserted ++ tail

/-- The text of a value inside a text template: an observable counts as what it holds, a render
function as what it gives, and a node as its markup. -/
def Value.insertedText (call : Respond) : Value → Run String
  | .observable c => do call (.insertedText ((← get).current c))
  | .render r => do
    let v ← call (.render r)
    call (.insertedText v)
  | .node n => call (.html n)
  | v => return (← get).textOf v

/-- A node for each item of a list. -/
def eachItem (call : Respond) (render : Template) (label : Option String) :
    List String → Run (List Node)
  | [] => return []
  | item :: rest => do
    logLabel "item" label
    let n ← calledTemplate call [("v", .str item)] render
    return n :: (← eachItem call render label rest)

/-- The node for a value that is there, or the one for its absence. -/
def branchNode (call : Respond) (render fallback : Template) (label : Option String) :
    Held → Run Node
  | .absent => do
    logLabel "fallback" label
    calledTemplate call [] fallback
  | held => do
    logLabel "show" label
    calledTemplate call [("v", (← get).shown held)] render

/-- The node of the branch of a conditional. -/
def gatedBranch (call : Respond) (render : Template) (label : Option String) : Run Node := do
  logLabel "branch" label
  calledTemplate call [] render

/-- The node that a conditional shows for a condition. The branch is rendered when the condition
has become true, and kept as long as it stays so. -/
def gatedNode (call : Respond) (render : Template) (label : Option String) (memo : MemoId)
    (now : Bool) : Run Node := do
  let w ← get
  let last := w.memos.getD memo.index ⟨none, false⟩
  set { w with memos := w.memos.setIfInBounds memo.index { last with shown := now } }
  match now, last with
  | false, _ => return .empty
  | true, ⟨some n, true⟩ => return n
  | true, _ => do
    let n ← gatedBranch call render label
    modify fun w =>
      { w with memos := w.memos.modify memo.index fun m => { m with branch := some n } }
    return n

/-- The first of the values of sources. -/
def firstHeld (sources : List Held) : Held := sources.headD .absent

/-- What a generator gives for the values of its sources. -/
def Generator.run (call : Respond) (sources : List Held) : Generator → Run Held
  | .program body label type => do
    logLabel "gen" label
    let v ← calledExpr call (sourceContext (← get) sources) body
    return type.conform (← get) v
  | .template segments arguments => do
    return .value (.str (← interleave call segments arguments))
  | .branch render fallback label => do
    return .value (.node (← branchNode call render fallback label (firstHeld sources)))
  | .each render label => do
    let items := match firstHeld sources with
      | .value v => v.items
      | _ => []
    return .value (.node (.wrap (← eachItem call render label items) none))
  | .gated render label memo => do
    let now := match firstHeld sources with
      | .value v => v.isTrue
      | _ => false
    return .value (.node (← gatedNode call render label memo now))

/-! ## What a source does to its targets -/

/-- Runs the generator of a target, assigns the result and emits it. -/
def regenerate (call : Respond) (target : CellId) (g : Generator) (sources : List Held) :
    Run Unit := do
  let held ← g.run call sources
  holdAndEmit call target held

/-- Runs `act` if all these observables are alive, and keeps them so. -/
def whileAlive (cells : List CellId) (act : Run Unit) : Run Unit := do
  let w ← get
  if cells.all fun c => w.isAlive (.cell c) then holding (cells.map .cell) act else pure ()

/-- The subscription of a derived observable to its only source. -/
def onSource (call : Respond) (target : CellId) (g : Generator) (held : Held) : Run Unit :=
  whileAlive [target] (regenerate call target g [held])

/-- The subscription to the first of two sources. -/
def onFirst (call : Respond) (target second : CellId) (g : Generator) (held : Held) :
    Run Unit :=
  whileAlive [target, second] do
    let other := ((← get).cell second).held
    regenerate call target g [held, other]

/-- The subscription to the second of two sources. -/
def onSecond (call : Respond) (target first : CellId) (g : Generator) (held : Held) :
    Run Unit :=
  whileAlive [target, first] do
    let other := ((← get).cell first).held
    regenerate call target g [other, held]

/-- The subscription to one of a list of sources. -/
def onAll (call : Respond) (target : CellId) (sources : List CellId) (g : Generator) :
    Run Unit :=
  whileAlive (target :: sources) do
    let w ← get
    regenerate call target g (sources.map fun c => (w.cell c).held)

/-- The subscription to a source whose value the generator reads by itself. -/
def onAny (call : Respond) (target : CellId) (g : Generator) : Run Unit :=
  whileAlive [target] (regenerate call target g [])

/-! ## Deriving -/

/-- Makes a derived observable that holds `held`. -/
def newDerived (type : ValueType) (held : Held) : Run CellId := newCell .derived type held

/-- Derives from one source; the generator first runs at the source's next emission. -/
def deriveWithInitial (type : ValueType) (source : CellId) (g : Generator) (initial : Held) :
    Run CellId := do
  let target ← newDerived type initial
  let _ ← subscribe source (.derive target g)
  return target

/-- Derives from one source. -/
def deriveFrom (call : Respond) (type : ValueType) (source : CellId) (g : Generator) :
    Run CellId := do
  let initial ← g.run call [((← get).cell source).held]
  deriveWithInitial type source g initial

/-- Derives from two sources. -/
def deriveFromTwo (call : Respond) (type : ValueType) (first second : CellId) (g : Generator) :
    Run CellId := do
  let w ← get
  let initial ← g.run call [(w.cell first).held, (w.cell second).held]
  let target ← newDerived type initial
  let _ ← subscribe first (.combineFirst target second g)
  let _ ← subscribe second (.combineSecond target first g)
  return target

/-- Subscribes the same reaction to each of several observables, under different keys. -/
def subscribeToAll (r : Reaction) : List CellId → Run Unit
  | [] => pure ()
  | c :: rest => do
    let _ ← subscribe c r
    subscribeToAll r rest

/-- Derives from a list of sources. -/
def deriveFromAll (call : Respond) (type : ValueType) (sources : List CellId) (g : Generator) :
    Run CellId := do
  let w ← get
  let initial ← g.run call (sources.map fun c => (w.cell c).held)
  let target ← newDerived type initial
  subscribeToAll (.combineAll target sources g) sources
  return target

/-- Derives from whatever the generator reads, to be told of the emissions of `sources`. -/
def deriveFromAny (call : Respond) (type : ValueType) (sources : List CellId) (g : Generator) :
    Run CellId := do
  let initial ← g.run call []
  let target ← newDerived type initial
  subscribeToAll (.recompute target g) sources
  return target

/-- The text of a template, which follows the observables inserted into it. -/
def deriveText (call : Respond) (segments : List String) (arguments : List Value) :
    Run CellId :=
  let sources := arguments.filterMap fun v =>
    match v with
    | .observable c => some c
    | _ => none
  deriveFromAny call .str sources (.template segments arguments)

end LivePage
