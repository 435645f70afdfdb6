import LivePage.Proofs.Calls.Tree

/-!
# Records of runs

The call tree of a run of a program. A record is computed along the run itself: each part of an
operation is run, what is to be recorded of it is put down together with the worlds in which it
began and ended, and the rest is recorded from the world that it left. `recorded` ties the knot at
every depth, as `respond` does for the operations.

Recorded is what scripts do with observables that they set, emit, update, settle and subscribe to,
and what follows from it. Of the steps that do something else nothing is recorded.
-/

namespace LivePage

open LivePage.Script

variable {α : Type}

/-- What is recorded of a run that begins in a world. -/
abbrev Record := World → List Deed

/-- What is recorded while requests are answered. -/
abbrev Recorder := Request → Record

namespace Record

/-- Nothing. -/
def nothing : Record := fun _ => []

/-- What is recorded after `x`, of which nothing is recorded. -/
def after (x : Run α) (next : α → Record) : Record := fun w =>
  match x.run w with
  | .ok a w₁ => next a w₁
  | .error .. => []

/-- What is recorded of a step after `x`, of which nothing is recorded. -/
def afterStep (x : Answering α) (next : α → Record) : Record :=
  after x.run fun
    | .ok a => next a
    | .error _ => nothing

/-- Records `x` as a deed during which `inner` happens, and then what follows. -/
def deed (act : α → Act) (x : Run α) (inner : Record) (next : α → Record) : Record := fun w =>
  match x.run w with
  | .ok a w₁ => ⟨act a, w, inner w, w₁⟩ :: next a w₁
  | .error .. => []

/-- Records a single change of an observable. -/
def change (act : Act) (c : CellId) (f : Cell → Cell) : Record :=
  deed (fun _ => act) (modifyCell c f) nothing fun _ => nothing

/-- What is recorded while entities are held. -/
def pinning (held : List Entity) (inner : Record) : Record := fun w => inner (w.pinned held)

/-- What is recorded of a step with the observable of a name. -/
def onCell (name : String) (inner : CellId → Record) : Record :=
  afterStep (stepCell name) fun c => pinning [.cell c] (inner c)

end Record

namespace Recorder

open Record

variable (call : Respond) (recorder : Recorder)

/-! ## Emissions -/

/-- Those of the snapshot that are still registered are told. -/
def turns (c : CellId) (held : Held) : List (Nat × Reaction) → Record
  | [] => nothing
  | (key, r) :: rest => fun w =>
    if (w.cell c).isSubscribed key then
      let held' := ((key, r) :: rest).flatMap fun s => w.reactionHolds s.2
      deed (fun _ => .tell c key r held) (holding held' (call (.react r held)))
        (pinning held' (recorder (.react r held))) (fun _ => turns c held rest) w
    else turns c held rest w

/-- What happens during an emission. -/
def emission (c : CellId) : Record := fun w =>
  let cell := w.cell c
  pinning (.cell c :: cell.held.holds) (turns call recorder c cell.held cell.registry) w

/-- An observable is assigned and emitted. -/
def assignment (c : CellId) (held : Held) : Record :=
  deed (fun _ => .assign c held) (hold c held) nothing fun _ =>
    deed (fun _ => .emission c) (emit call c) (emission call recorder c) fun _ => nothing

/-- Somebody emits an observable. -/
def emit (c : CellId) : Record :=
  deed (fun _ => .emit c) (LivePage.emit call c)
    (deed (fun _ => .emission c) (LivePage.emit call c) (emission call recorder c) fun _ => nothing)
    fun _ => nothing

/-! ## States -/

/-- Checkers are asked up to the first that refuses; if there is none, `next` is recorded. -/
def asks (current candidate : Value) (next : Record) : List Checker → Record
  | [] => next
  | checker :: rest =>
    deed (.ask checker current candidate) (checker.accepts call current candidate) nothing
      fun accepts => if accepts then asks current candidate next rest else nothing

/-- A state is updated, and answers whether it is. -/
def update (c : CellId) (candidate : Held) : Record :=
  deed (.update c candidate) (updateState call c candidate)
    (fun w => asks call (w.shown (w.cell c).held) (w.shown candidate)
      (assignment call recorder c candidate) (w.cell c).checkers w)
    fun _ => nothing

/-! ## Programs that are called back -/

/-- A program runs its steps, if it has a call left. -/
def program (p : CallbackId) : Record := fun w =>
  match w.callbacks[p.index]? with
  | some ⟨acts, remaining + 1⟩ =>
    recorder (.perform acts)
      { w with callbacks := w.callbacks.setIfInBounds p.index ⟨acts, remaining⟩ }
  | _ => []

/-- `x` calls what is registered for an outcome, after it has logged an entry. -/
def outcome (c : CellId) (hook : Hook) (x : Run Unit) (entry : String → Report) (next : Record) :
    Record := fun w =>
  match (w.cell c).settlement.hook hook with
  | some (name, p) =>
    deed (fun _ => .callBack c hook name) x
      (after (logEntry (entry name)) fun _ => program recorder p) (fun _ => next) w
  | none => after x (fun _ => next) w

/-! ## Results that come later -/

/-- What is registered for either outcome is called. -/
def either (c : CellId) : Record :=
  outcome recorder c .either (runOnEither call c) (fun name => .object [("finally", .text name)])
    nothing

/-- An observable gets the result that it waits for, before anybody is told. -/
def fulfilling (c : CellId) (v : Value) : Run Unit := do
  modifyCell c (·.modifySettlement fun s => { s with settled := true, ok := true })
  hold c (.value v)

/-- Somebody settles an observable with a value. -/
def resolve (c : CellId) (v : Value) : Record :=
  deed (fun _ => .resolve c v) (LivePage.resolve call c v)
    (fun w =>
      if (w.cell c).settlement.settled then []
      else
        deed (fun _ => .fulfil c v) (fulfilling c v) nothing
          (fun _ => deed (fun _ => .emission c) (LivePage.emit call c) (emission call recorder c)
            fun _ => either call recorder c)
          w)
    fun _ => nothing

/-- Somebody settles an observable with a failure. -/
def reject (c : CellId) (message : String) : Record :=
  deed (fun _ => .reject c message) (LivePage.reject call c message)
    (fun w =>
      if (w.cell c).settlement.settled then []
      else
        deed (fun _ => .fail c) (modifyCell c Cell.fail) nothing
          (fun _ => outcome recorder c .failure (runOnFailure call c message)
            (fun name => .object [("catch", .text name), ("message", .text message)])
            (either call recorder c))
          w)
    fun _ => nothing

/-- A task is driven, which settles its observable in the end. -/
def poll (name : String) (t : Task) : Record :=
  match t.polls, t.outcome with
  | _ + 1, _ => nothing
  | 0, .ok v =>
    after (modifyTasks (Entries.erase name)) fun _ =>
      pinning (.cell t.later :: v.holds) (resolve call recorder t.later v)
  | 0, .error message =>
    after (modifyTasks (Entries.erase name)) fun _ =>
      pinning [.cell t.later] (reject call recorder t.later message)

/-! ## Subscriptions that are told -/

/-- A derived observable is computed anew if these observables are alive. -/
def regeneration (cells : List CellId) (target : CellId) (g : Generator)
    (sources : World → List Held) : Record := fun w =>
  if cells.all fun c => w.isAlive (.cell c) then
    pinning (cells.map .cell) (fun w =>
      after (g.run call (sources w)) (fun held => assignment call recorder target held) w) w
  else []

/-- What a subscription does that is told. -/
def reaction (held : Held) : Reaction → Record
  | .subscriber name p => fun w =>
    after (logEntry (.object [("sub", .text name), ("v", w.report (w.shown held))]))
      (fun _ => program recorder p) w
  | .watch name p => fun w =>
    after (logEntry (.object [("watch", .text name), ("v", w.report (w.heldArgument held))]))
      (fun _ => program recorder p) w
  | .derive target g => regeneration call recorder [target] target g fun _ => [held]
  | .combineFirst target second g =>
    regeneration call recorder [target, second] target g fun w => [held, (w.cell second).held]
  | .combineSecond target first g =>
    regeneration call recorder [target, first] target g fun w => [(w.cell first).held, held]
  | .combineAll target sources g =>
    regeneration call recorder (target :: sources) target g fun w =>
      sources.map fun c => (w.cell c).held
  | .recompute target g => regeneration call recorder [target] target g fun _ => []
  | .rebuild _ | .attribute .. | .styleProperty .. | .awaited _ => nothing

/-! ## Steps -/

/-- What a step does. -/
def step : Step → Record
  | .update c change => onCell c fun c => afterStep (stepChange call c change) fun held w =>
    match (w.cell c).flavour with
    | .state _ => update call recorder c held w
    | _ => []
  | .set c change => onCell c fun c => afterStep (stepChange call c change) fun held =>
    Record.change (.set c held) c fun cell => { cell with held }
  | .setValue c value => onCell c fun c => afterStep (stepChange call c (.value value)) fun held =>
    Record.change (.set c held) c fun cell => { cell with held }
  | .emit c => onCell c fun c => emit call recorder c
  | .flip c => onCell c fun c w =>
    update call recorder c (.value (.bool !(w.shownCurrent c).isTrue)) w
  | .push c slice => onCell c fun c w =>
    update call recorder c (.value (.str (w.textOf (w.shownCurrent c) ++ slice))) w
  | .addChecker c checker => onCell c fun c =>
    Record.change (.addChecker c checker) c (·.addChecker checker)
  | .subscribe c handler acts times => onCell c fun c w =>
    match Entries.get? handler w.names.subscribers with
    | some (key, r) => Record.change (.subscribe c key r) c (·.subscribe key r) w
    | none =>
      after (newCallback acts times) (fun p =>
        let r := Reaction.subscriber handler p
        deed (.subscribe c · r) (subscribe c r) nothing fun _ => nothing) w
  | .unsubscribe c handler => onCell c fun c => afterStep (subscriberKey handler) fun key =>
    Record.change (.unsubscribe c key) c (·.unsubscribe key)
  | .unsubscribeAll c => onCell c fun c =>
    Record.change (.unsubscribeAll c) c Cell.unsubscribeAll
  | .watch c as acts times => onCell c fun c => after (newCallback acts times) fun p =>
    let r := Reaction.watch as p
    deed (.subscribe c · r) (subscribe c r) nothing fun _ => nothing
  | .cancel watch => after (lookup Names.watches watch) fun (c, key) =>
    Record.change (.unsubscribe c key) c (·.unsubscribe key)
  | .poll task => after (lookup Names.tasks task) fun t => poll call recorder task t
  | .resolve c value => onCell c fun c => afterStep (stepValue call value) fun v =>
    resolve call recorder c v
  | .reject c message => onCell c fun c => reject call recorder c message
  | .onCatch c handler acts times => onCell c fun c => after (newCallback acts times) fun p =>
    Record.change (.register c .failure (handler, p)) c
      (·.modifySettlement (·.withHook (handler, p) .failure))
  | .onFinally c handler acts times => onCell c fun c => after (newCallback acts times) fun p =>
    Record.change (.register c .either (handler, p)) c
      (·.modifySettlement (·.withHook (handler, p) .either))
  | _ => nothing

/-- What the steps of a program do. -/
def perform : List Step → Record
  | [] => nothing
  | s :: rest => fun w => step call recorder s w ++
    after (reported (stepAnswer call s)) (fun r => after (logEntry (.object [("r", r)])) fun _ =>
      perform rest) w

end Recorder

/-- What is recorded while requests are answered that nest at most `depth` deep. -/
def recorded : (depth : Nat) → Recorder
  | 0 => fun _ => Record.nothing
  | depth + 1 => fun
    | .react r held => Recorder.reaction (respond depth) (recorded depth) held r
    | .perform acts => Recorder.perform (respond depth) (recorded depth) acts
    | _ => Record.nothing

end LivePage
