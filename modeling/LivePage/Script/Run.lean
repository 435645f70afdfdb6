import LivePage.Script.NodeSteps
import LivePage.Script.ObservableSteps
import LivePage.Script.PageSteps

/-!
# Running scripts

Here the operations of the library are tied together: every request is answered by the operation
that it asks for, which may make requests of its own, down to a bounded depth. A script runs its
steps one after the other, each with a log of its own. It ends early when an emission could not be
carried out, at the step during which that happened.
-/

namespace LivePage

open LivePage.Script

/-! ## Steps -/

/-- The answer of a step, or the fault in place of one. -/
def stepAnswer (call : Respond) : Step → Answering Report
  | .new as kind type value checkers => stepNew call as kind type value checkers
  | .derive as type sources mode body label initial =>
    stepDerive call as type sources mode body label initial
  | .text as segments arguments => stepText call as segments arguments
  | .field c field as type => withCell c (stepField field as type)
  | .fieldCount c => withCell c fun c => return .count ((← get).cell c).fields.named.length
  | .alias c as => withCell c fun c => silently (nameCell as c)
  | .drop name => silently (modifyNames (·.forget name))
  | .value c => withCell c stepHeld
  | .update c change => withCell c (stepUpdate call change)
  | .set c change => withCell c (stepSet call change)
  | .setValue c value => withCell c (stepSet call (.value value))
  | .emit c => withCell c fun c => silently (emit call c)
  | .flip c => withCell c (stepFlip call)
  | .push c slice => withCell c (stepPush call slice)
  | .addChecker c checker => withCell c (stepAddChecker checker)
  | .subscribe c handler acts times => withCell c (stepSubscribe handler acts times)
  | .unsubscribe c handler => withCell c (stepUnsubscribe handler)
  | .isSubscribed c handler => withCell c (stepIsSubscribed handler)
  | .unsubscribeAll c => withCell c fun c => silently (unsubscribeAll c)
  | .count c => withCell c stepCount
  | .watch c as acts times => withCell c (stepWatch as acts times)
  | .cancel watch => stepCancel watch
  | .weak c as => withCell c fun c =>
    silently (modifyNames fun n => { n with weaks := Entries.set as c n.weaks })
  | .alive weak => do
    let c ← (lookup Names.weaks weak : Run CellId)
    return .bool ((← get).isAlive (.cell c))
  | .same a b => stepSame a b
  | .identify c => do return .text ("obs-" ++ toString (← stepCell c).number)
  | .later as task polls outcome => stepLater call as task polls outcome
  | .poll task => stepPoll call task
  | .resolve c value => withCell c (stepResolve call value)
  | .reject c message => withCell c fun c => silently (reject call c message)
  | .onCatch c handler acts times => withCell c (stepOnFailure handler acts times)
  | .onFinally c handler acts times => withCell c (stepOnEither handler acts times)
  | .settled c => withCell c stepSettled
  | .attach c node => withCell c (stepAttach call node)
  | .killRef c => withCell c (stepKillRef call)
  | .attached c => withCell c stepAttached
  | .node template as => do
    let n ← stepNode call template
    storeNode as n
  | .parse segments arguments as => stepParse call segments arguments as
  | .html template => stepHtml call template
  | .classify value => do
    let v ← stepValue call value
    classify call v
  | .eval value => stepEval call value
  | .shape template name => stepShape call template name
  | .component as template => stepComponent as template
  | .call component form props children as => stepCall call component form props children as
  | .handler as stop prevent acts times => stepHandler as stop prevent acts times
  | .sameHandler a b => stepSameHandler a b
  | .showWhen c as render fallback label => withCell c fun c =>
    stepFollow as (showWhen call c render fallback label)
  | .forEach c as render label => withCell c fun c => stepFollow as (forEach call c render label)
  | .conditional c as render label => withCell c fun c =>
    stepFollow as (conditional call c render label)
  | .showStatic value render fallback => stepShowFixed call value render fallback
  | .forEachStatic items render => stepForEachFixed call items render
  | .conditionalStatic value render => stepConditionalFixed call value render
  | .suspense as fallback => stepSuspense call as fallback
  | .pending suspense c as => withCell c (stepPending suspense as)
  | .finish suspense template as => stepFinish call suspense template as
  | .boundary suspense => stepBoundary suspense
  | .document as => stepDocument as
  | .enter document => stepEnter document
  | .leave => stepLeave
  | .active => stepActive
  | .nodeCount document => do
    let p ← stepPage document
    return .count (← countNodes p)
  | .createElement document tag as => stepCreate document (.element { tag }) as
  | .createText document data as => stepCreate document (.text data) as
  | .createComment document data as => stepCreate document (.comment data) as
  | .createFragment document as => stepCreate document .fragment as
  | .append node child => withTwo node child PageNode.append
  | .removeChild node child => withTwo node child PageNode.removeChild
  | .replaceChildren node child => withTwo node child PageNode.replaceChildren
  | .insert node child before => stepInsert node child before
  | .remove node => do
    let n ← stepPageNode node
    silently n.remove
  | .setAttribute node name value => stepEdit node fun n => n.setAttribute name value
  | .removeAttribute node name => stepEdit node fun n => n.removeAttribute name
  | .getAttribute node name => stepRead node fun p i => p.getAttribute i name
  | .setStyle node name value => stepEdit node fun n => n.setStyle name value
  | .removeStyle node name => stepEdit node fun n => n.removeStyle name
  | .getStyle node name => stepRead node fun p i => p.getStyle i name
  | .listen node type handler => stepListen node type handler
  | .unlisten node type handler => stepUnlisten node type handler
  | .dispatch node type inspect => stepDispatch call node type inspect
  | .outer node => stepPrint node Page.outerHtml
  | .inner node => stepPrint node Page.innerHtml
  | .info node => stepInfo node
  | .grab node as => stepGrab node as fun _ i => some i
  | .parent node as => stepGrab node as fun p i => (p.slot i).parent
  | .next node as => stepGrab node as Page.nextSibling
  | .sameNode a b => stepSameNode a b
  | .realize template as fragment labelled => stepRealize call template as fragment labelled
  | .render root template as labelled => stepRender call root template as labelled
  | .teardownSize name => stepTeardown name
  | .kill name => stepKill call name
  | .region parent label as => stepRegion parent label as
  | .splice region node => stepSplice region node
  | .contents region => stepContents region
  | .grabAnchor region atStart as => stepGrabAnchor region atStart as
  | .inspect of name => stepInspect of name
  | .inspectValue value => stepInspectValue call value

/-- What a step or a fault in it reports. -/
def reported (act : Answering Report) : Run Report := do
  match ← act.run with
  | .ok r | .error r => return r

/-! ## Answering requests -/

/-- Does what a subscription asks for. -/
def Reaction.run (call : Respond) (held : Held) : Reaction → Run Unit
  | .subscriber name program => do
    let w ← get
    logEntry (.object [("sub", .text name), ("v", w.report (w.shown held))])
    program.run call
  | .watch name program => do
    let w ← get
    logEntry (.object [("watch", .text name), ("v", w.report (w.heldArgument held))])
    program.run call
  | .derive target g => onSource call target g held
  | .combineFirst target second g => onFirst call target second g held
  | .combineSecond target first g => onSecond call target first g held
  | .combineAll target sources g => onAll call target sources g
  | .recompute target g => onAny call target g
  | .rebuild s => do s.onEmission call ((← get).heldArgument held)
  | .attribute element name _ => do
    duringEmission (element.putAttribute name ((← get).heldArgument held))
  | .styleProperty element property _ => do
    duringEmission (element.putProperty property ((← get).heldArgument held))
  | .awaited b => b.onAwaited call held

/-- Runs the steps of a program that was called back, and logs what each answers. -/
def performAll (call : Respond) : List Step → Run Unit
  | [] => pure ()
  | step :: rest => do
    let r ← reported (stepAnswer call step)
    logEntry (.object [("r", r)])
    performAll call rest

/-- Answers a request by means of an answer to others. -/
def answer (call : Respond) : Respond
  | .react r held => r.run call held
  | .render r => r.run call
  | .invoke c props children => c.invoke call props children
  | .perform acts => performAll call acts
  | .html n => n.html call
  | .insertedText v => v.insertedText call
  | .realize r n parent => (n.realize call r parent).run
  | .rebuild s v => s.rebuild call v
  | .kill m => m.kill call
  | .bubble e n => e.bubble call n

/-- Answers requests that nest at most `depth` deep. -/
def respond : (depth : Nat) → Respond
  | 0 => fun _ => throw .tooDeep
  | depth + 1 => answer (respond depth)

/-- How deep the requests of a script may nest. -/
def maxDepth : Nat := 20000

/-! ## Scripts -/

/-- What a step answered and what was logged meanwhile. -/
structure Answer where
  result : Report
  log : List Report

/-- The report of a run that stopped before its end. -/
def Stop.report : Stop → Report
  | panic message => .fault "panic" message
  | unknown what => .fault "unknown" what
  | tooDeep => .fault "depth" "the requests nest too deeply"

/-- Runs something that answers with a report, and takes the log. The world is missing if the run
stopped. -/
def runOnce (act : Answering Report) (w : World) : Answer × Option World :=
  match (reported act).run { w with log := [], pins := [] } with
  | .ok r w => (⟨r, w.log.reverse⟩, some w)
  | .error stop w => (⟨stop.report, w.log.reverse⟩, none)

/-- Runs the steps of a script up to one that stops the run. -/
def runSteps (w : World) : List Step → List Answer
  | [] => []
  | step :: rest =>
    match runOnce (stepAnswer (respond maxDepth) step) w with
    | (a, some w) => a :: runSteps w rest
    | (a, none) => [a]

/-- Runs a script in an empty world. -/
def runScript (steps : List Step) : List Answer := runSteps {} steps

/-- Reads a template in an empty world. -/
def readMarkup (full : Bool) (segments : List String) (arguments : List Expr) : Answer :=
  (runOnce (stepMarkup (respond maxDepth) full segments arguments) {}).1

/-- Classifies a value in an empty world. -/
def classifyAlone (v : Value) : Answer := (runOnce (classify (respond maxDepth) v) {}).1

end LivePage
