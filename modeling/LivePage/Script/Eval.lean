import LivePage.Node.OfMarkup
import LivePage.Page.Print
import LivePage.World.Lookup

/-!
# Evaluating expressions and templates

An expression is evaluated in a context of variables, and names in it are looked up when it is
evaluated. What can go wrong is that a template is no markup; a program that is called back has
nobody to tell, so it logs the fault and goes on with nothing.
-/

namespace LivePage

open LivePage.Script

/-- An evaluation, which fails where a template cannot be read. -/
abbrev Eval := ExceptT Markup.ParseError Run

/-- What an observable holds, as a script sees it: an element counts as its markup. -/
def World.shown (w : World) : Held → Value
  | .value v => v
  | .element n => .str ((w.page n.page).outerHtml n.slot)
  | .absent => .empty

/-- What an observable holds now, as a script sees it. -/
def World.shownCurrent (w : World) (c : CellId) : Value := w.shown (w.cell c).held

namespace Value

/-- The sum of two numbers of one sort; whole numbers wrap around. -/
def add : Value → Value → Value
  | .scalar (.int a), .scalar (.int b) => .scalar (.int (a + b))
  | .scalar (.float a), .scalar (.float b) => .scalar (.float (a + b))
  | _, _ => .empty

/-- The product of two numbers of one sort; whole numbers wrap around. -/
def mul : Value → Value → Value
  | .scalar (.int a), .scalar (.int b) => .scalar (.int (a * b))
  | .scalar (.float a), .scalar (.float b) => .scalar (.float (a * b))
  | _, _ => .empty

/-- Are these the same scalar, or nothing both? -/
def same : Value → Value → Bool
  | .scalar a, .scalar b => a.same b
  | .empty, .empty => true
  | _, _ => false

/-- Is the first scalar less than the second? -/
def less : Value → Value → Bool
  | .scalar a, .scalar b => a.less b
  | _, _ => false

/-- The texts of a list; anything else counts as the empty list. -/
def items : Value → List String
  | .list items => items
  | _ => []

/-- The field of a record, or nothing. -/
def field (name : String) : Value → Value
  | .record fields => (Entries.get? name fields).getD .empty
  | _ => .empty

/-- The record with a field set; other values stay as they are. -/
def withField (record : Value) (name : String) (v : Value) : Value :=
  match record with
  | .record fields => .record (Entries.set name v fields)
  | other => other

/-- The value as an attribute of a node. What has no use as one counts as its text. -/
def asAttribute (w : World) (v : Value) : AttributeValue :=
  match w.insertable v with
  | .observable c => .observable c
  | .ref c => .ref c
  | .list items => .list items
  | .style s => .style s
  | v => .text (w.textOf v)

end Value

/-- A style whose observables are looked up. -/
def evalStyle : List (String × StyleSource) → Run Style
  | [] => return []
  | (key, source) :: rest => do
    let value ← match source with
      | .text s => pure (StyleValue.text s)
      | .observable name => do pure (StyleValue.observable (← lookupCell name))
    return (key, value) :: (← evalStyle rest)

/-- The observable that drives a node, looked up. -/
def evalDriving : Option String → Run (Option CellId)
  | none => return none
  | some name => return some (← lookupCell name)

/-- The listeners of an element, their handlers looked up. -/
def evalListeners : List (String × String) → Run (List Listener)
  | [] => return []
  | (event, name) :: rest => do
    let handler ← lookupHandler name
    return ⟨event, handler⟩ :: (← evalListeners rest)

mutual

/-- The value of an expression. -/
def evalExpr (call : Respond) (ctx : Context) : Expr → Eval Value
  | .empty => return .empty
  | .scalar s => return .scalar s
  | .list items => return .list items
  | .style properties => return .style (Entries.ofList (← evalStyle properties))
  | .observable name => return .observable (← lookupCell name)
  | .elementRef name => return .ref (← lookupCell name)
  | .handler name => return .handler (← lookupHandler name)
  | .component name none => return .component (← lookupComponent name) true .empty
  | .component name (some props) => do
    let c ← lookupComponent name
    return .component c false (← evalExpr call ctx props)
  | .render body label => return .render (.program body label ctx)
  | .node t => return .node (← evalTemplate call ctx t)
  | .nodes ts => return .node (.wrap (← evalTemplates call ctx ts) none)
  | .record fields => return .record (← evalFields call ctx fields)
  | .var name => return (Entries.get? name ctx).getD .empty
  | .current name => do
    let w ← get
    return ((w.cellNamed? name).map w.shownCurrent).getD .empty
  | .concat parts => do
    let values ← evalAll call ctx parts
    let w ← get
    return .str (String.join (values.map w.textOf))
  | .add a b => return (← evalExpr call ctx a).add (← evalExpr call ctx b)
  | .mul a b => return (← evalExpr call ctx a).mul (← evalExpr call ctx b)
  | .equal a b => return .bool ((← evalExpr call ctx a).same (← evalExpr call ctx b))
  | .less a b => return .bool ((← evalExpr call ctx a).less (← evalExpr call ctx b))
  | .not e => return .bool (!(← evalExpr call ctx e).isTrue)
  | .cond c a b => do
    if (← evalExpr call ctx c).isTrue then evalExpr call ctx a else evalExpr call ctx b
  | .push list e => do
    let items := (← evalExpr call ctx list).items
    let v ← evalExpr call ctx e
    return .list (items ++ [(← get).textOf v])
  | .field record name => return (← evalExpr call ctx record).field name
  | .setField record name e => do
    let r ← evalExpr call ctx record
    return r.withField name (← evalExpr call ctx e)

/-- The values of expressions in order. -/
def evalAll (call : Respond) (ctx : Context) : List Expr → Eval (List Value)
  | [] => return []
  | e :: rest => do
    let v ← evalExpr call ctx e
    return v :: (← evalAll call ctx rest)

/-- The values of named expressions in order. -/
def evalFields (call : Respond) (ctx : Context) : List (String × Expr) → Eval Context
  | [] => return []
  | (name, e) :: rest => do
    let v ← evalExpr call ctx e
    return (name, v) :: (← evalFields call ctx rest)

/-- The attributes of an element. -/
def evalAttributes (call : Respond) (ctx : Context) :
    List (String × Expr) → Eval (List (String × AttributeValue))
  | [] => return []
  | (name, e) :: rest => do
    let v ← evalExpr call ctx e
    let value := v.asAttribute (← get)
    return (name, value) :: (← evalAttributes call ctx rest)

/-- The node of a template. -/
def evalTemplate (call : Respond) (ctx : Context) : Template → Eval Node
  | .empty => return .empty
  | .text data => return .text data none
  | .textOf e driven => do
    let v ← evalExpr call ctx e
    return .text ((← get).textOf v) (← evalDriving driven)
  | .element tag attributes listeners children driven => do
    let attributes ← evalAttributes call ctx attributes
    let listeners ← evalListeners listeners
    let children ← evalTemplates call ctx children
    return .element tag (Entries.ofList attributes) listeners children (← evalDriving driven)
  | .fragment nodes driven => do
    let nodes ← evalTemplates call ctx nodes
    return .wrap nodes (← evalDriving driven)
  | .deferred body label => return .deferred (.program body label ctx)
  | .markup segments arguments => do
    let values ← evalAll call ctx arguments
    let w ← get
    ExceptT.mk (Node.parse call segments (values.map w.insertable))
  | .named name => lookupNode name
  | .value e => do
    let v ← evalExpr call ctx e
    childNode v

/-- The nodes of templates in order. -/
def evalTemplates (call : Respond) (ctx : Context) : List Template → Eval (List Node)
  | [] => return []
  | t :: rest => do
    let n ← evalTemplate call ctx t
    return n :: (← evalTemplates call ctx rest)

end

/-- A fault of reading a template as a report. -/
def parseFault (e : Markup.ParseError) : Report := .fault e.kind e.message

/-- The result of an evaluation; a fault is logged, and `otherwise` stands for the result. -/
def orLog {α : Type} (otherwise : α) (e : Eval α) : Run α := do
  match ← e.run with
  | .ok a => return a
  | .error fault => do
    logEntry (parseFault fault)
    return otherwise

/-- The value of an expression in a program that is called back. -/
def calledExpr (call : Respond) (ctx : Context) (e : Expr) : Run Value :=
  orLog .empty (evalExpr call ctx e)

/-- The node of a template in a program that is called back. -/
def calledTemplate (call : Respond) (ctx : Context) (t : Template) : Run Node :=
  orLog .empty (evalTemplate call ctx t)

/-- What a render function gives. -/
def Render.run (call : Respond) : Render → Run Value
  | .program body label ctx => do
    logLabel "call" label
    let v ← calledExpr call ctx body
    return (← get).insertable v
  | .handler h => return .handler h
  | .component c props => return .node (← call (.invoke c props none))
  | .pending c => return .observable c

/-- What a component renders. -/
def ComponentId.invoke (call : Respond) (c : ComponentId) (props : Value)
    (children : Option Node) : Run Node := do
  match (← get).components[c.index]? with
  | none => return .empty
  | some component => do
    let tag := children.map fun n => n.tag.name
    logEntry (.object [("comp", .text component.name), ("children", Report.ofText? tag)])
    let children := (children.map Value.node).getD .empty
    calledTemplate call [("props", props), ("children", children)] component.template

end LivePage
