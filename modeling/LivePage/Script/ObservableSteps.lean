import LivePage.Flow.Awaiting
import LivePage.Observable.Fields
import LivePage.Script.Answer

/-!
# Steps on observables
-/

namespace LivePage

open LivePage.Script

/-! ## Making observables -/

/-- Makes an observable of a kind. -/
def stepNew (call : Respond) (as : String) (kind : NewKind) (type : ValueType) (value : Expr)
    (checkers : List Checker) : Answering Report := do
  let v ← stepValue call value
  let held := type.conform (← get) v
  let c ← match kind with
    | .observable => newCell .plain type held
    | .state => newCell (.state checkers) type held
    | .store => newCell (.store {}) type held
    | .later => newCell (.later {}) .opt .absent
    | .ref => newCell .ref .opt .absent
  silently (nameCell as c)

/-- The observables of names. -/
def stepCells : List String → Answering (List CellId)
  | [] => return []
  | name :: rest => do
    let c ← stepCell name
    return c :: (← stepCells rest)

/-- Derives an observable from others. -/
def stepDerive (call : Respond) (as : String) (type : ValueType) (sources : List String)
    (mode : DeriveMode) (body : Expr) (label : Option String) (initial : Expr) :
    Answering Report := do
  let cells ← stepCells sources
  let generator := Generator.program body label type
  let c ← match mode, cells with
    | .fromOne, [source] => deriveFrom call type source generator
    | .withInitial, [source] => do
      let v ← stepValue call initial
      let held := type.conform (← get) v
      deriveWithInitial type source generator held
    | .fromTwo, [first, second] => deriveFromTwo call type first second generator
    | .fromAll, sources => deriveFromAll call type sources generator
    | .fromAny, sources => deriveFromAny call type sources generator
    | _, _ => do
      let c ← (unknown as : Run CellId)
      pure c
  silently (nameCell as c)

/-- Makes a text template. -/
def stepText (call : Respond) (as : String) (segments : List String) (arguments : List Expr) :
    Answering Report := do
  let values ← stepArguments call arguments
  let c ← deriveText call segments values
  silently (nameCell as c)

/-- Makes a result that comes later, and the task that brings it. -/
def stepLater (call : Respond) (as task : String) (polls : Nat) (outcome : Outcome) :
    Answering Report := do
  let outcome ← match outcome with
    | .ok e => do
      let v ← stepValue call e
      pure (Except.ok v)
    | .failed message => pure (Except.error message)
  let later ← newCell (.later {}) .opt .absent
  nameCell as later
  silently (modifyTasks (Entries.set task ⟨later, polls, outcome⟩))

/-- Drives a task once. -/
def stepPoll (call : Respond) (task : String) : Answering Report := do
  let t ← (lookup Names.tasks task : Run Task)
  let ready ← t.poll call task
  return .text (if ready then "ready" else "pending")

/-! ## Values -/

/-- What an observable holds. -/
def stepHeld (c : CellId) : Answering Report := do
  let w ← get
  return w.report (w.shownCurrent c)

/-- The value that a change asks for, brought to the type of an observable. -/
def stepChange (call : Respond) (c : CellId) (change : Change) : Answering Held := do
  let v ← answering parseFault (change.eval call ((← get).shownCurrent c))
  let w ← get
  return (w.cell c).type.conform w v

/-- Updates an observable in the way of its flavour. -/
def stepUpdate (call : Respond) (change : Change) (c : CellId) : Answering Report := do
  let held ← stepChange call c change
  match ((← get).cell c).flavour with
  | .state _ => return .bool (← updateState call c held)
  | .store _ => silently (updateStore call c held)
  | .field store part => silently (updateField call c store part held)
  | flavour => (unknown flavour.name : Run Report)

/-- Sets an observable without telling anybody. -/
def stepSet (call : Respond) (change : Change) (c : CellId) : Answering Report := do
  let held ← stepChange call c change
  silently (hold c held)

/-- Updates a state of a truth value to the other one. -/
def stepFlip (call : Respond) (c : CellId) : Answering Report := do
  let flipped := !((← get).shownCurrent c).isTrue
  return .bool (← updateState call c (.value (.bool flipped)))

/-- Updates a state of a text by appending to it. -/
def stepPush (call : Respond) (slice : String) (c : CellId) : Answering Report := do
  let w ← get
  let text := w.textOf (w.shownCurrent c) ++ slice
  return .bool (← updateState call c (.value (.str text)))

/-- Appends a checker to a state and counts them. -/
def stepAddChecker (checker : Checker) (c : CellId) : Answering Report := do
  modifyCell c (·.addChecker checker)
  return .count ((← get).cell c).checkers.length

/-- The field of a store. -/
def stepField (field as : String) (type : ValueType) (c : CellId) : Answering Report := do
  let made ← storeField c field (.named field) type
  silently (nameCell as made)

/-! ## Subscriptions -/

/-- Subscribes the subscriber of a name, which is made at its first use. -/
def stepSubscribe (handler : String) (acts : List Step) (times : Nat) (c : CellId) :
    Answering Report := do
  match Entries.get? handler (← get).names.subscribers with
  | some (key, r) => modifyCell c (·.subscribe key r)
  | none => do
    let program ← newCallback acts times
    let r := Reaction.subscriber handler program
    let key ← subscribe c r
    modifyNames fun n => { n with subscribers := Entries.set handler (key, r) n.subscribers }
  return .count (← subscriberCount c)

/-- The key of a subscriber. -/
def subscriberKey (handler : String) : Answering Nat := do
  let (key, _) ← (lookup Names.subscribers handler : Run (Nat × Reaction))
  return key

/-- Removes the subscription of a subscriber. -/
def stepUnsubscribe (handler : String) (c : CellId) : Answering Report := do
  let key ← subscriberKey handler
  modifyCell c (·.unsubscribe key)
  return .count (← subscriberCount c)

/-- Is a subscriber subscribed? -/
def stepIsSubscribed (handler : String) (c : CellId) : Answering Report := do
  let key ← subscriberKey handler
  return .bool (((← get).cell c).isSubscribed key)

/-- The number of subscriptions, by the observable and by what is known of it without its type. -/
def stepCount (c : CellId) : Answering Report := do
  let n ← subscriberCount c
  return .list [.count n, .count n]

/-- Watches an observable without regard to its type. -/
def stepWatch (as : String) (acts : List Step) (times : Nat) (c : CellId) :
    Answering Report := do
  let program ← newCallback acts times
  let key ← subscribe c (.watch as program)
  silently (modifyNames fun n => { n with watches := Entries.set as (c, key) n.watches })

/-- Ends a watch and forgets it. -/
def stepCancel (watch : String) : Answering Report := do
  let (c, key) ← (lookup Names.watches watch : Run (CellId × Nat))
  modifyCell c (·.unsubscribe key)
  silently (modifyNames fun n => { n with watches := Entries.erase watch n.watches })

/-! ## Results that come later, and references -/

/-- Settles with a value. -/
def stepResolve (call : Respond) (value : Expr) (c : CellId) : Answering Report := do
  let v ← stepValue call value
  silently (resolve call c v)

/-- Registers what runs after a failure. -/
def stepOnFailure (handler : String) (acts : List Step) (times : Nat) (c : CellId) :
    Answering Report := do
  let program ← newCallback acts times
  silently (modifyCell c (·.modifySettlement fun s =>
    { s with onFailure := some (handler, program) }))

/-- Registers what runs after either outcome. -/
def stepOnEither (handler : String) (acts : List Step) (times : Nat) (c : CellId) :
    Answering Report := do
  let program ← newCallback acts times
  silently (modifyCell c (·.modifySettlement fun s =>
    { s with onEither := some (handler, program) }))

/-- Where a result stands that comes later. -/
def stepSettled (c : CellId) : Answering Report := do
  let s := ((← get).cell c).settlement
  return .object [("ok", .bool s.ok), ("settled", .bool s.settled)]

/-- Is a reference attached? -/
def stepAttached (c : CellId) : Answering Report := return .bool ((← get).isAttached c)

/-- Attaches a reference to a page node. -/
def stepAttach (call : Respond) (node : NodePath) (c : CellId) : Answering Report := do
  let n ← lookupPageNode node
  attach call c n
  stepAttached c

/-- Kills a reference. -/
def stepKillRef (call : Respond) (c : CellId) : Answering Report := do
  killRef call c
  stepAttached c

/-- Are two observables the same one? -/
def stepSame (a b : String) : Answering Report := do
  let same := (← stepCell a) = (← stepCell b)
  return .list [.bool same, .bool same, .bool same]

/-! ## Names -/

/-- Forgets everything that a script knows under a name, apart from pages, boundaries and weak
handles. -/
def Names.forget (name : String) (n : Names) : Names :=
  { n with
    observables := Entries.erase name n.observables
    subscribers := Entries.erase name n.subscribers
    watches := Entries.erase name n.watches
    tasks := Entries.erase name n.tasks
    nodes := Entries.erase name n.nodes
    handlers := Entries.erase name n.handlers
    components := Entries.erase name n.components
    pageNodes := Entries.erase name n.pageNodes
    teardowns := Entries.erase name n.teardowns
    regions := Entries.erase name n.regions }

end LivePage
