import LivePage.Value.Scalar

/-!
# Page scripts

A script builds observables, nodes and pages and works with them step by step. The programs that
it hands over to be called back later are parts of the script too: expressions that compute a
value, templates that build a node, and lists of steps that act. Things are known by names, one
table of names for each sort of thing.
-/

namespace LivePage.Script

/-- The sorts of values that an observable can be made for. -/
inductive ValueType where
  /-- Any value. -/
  | any
  /-- A truth value; anything else than true counts as false. -/
  | bool
  /-- A text; a value counts as its text. -/
  | str
  /-- A list of texts; anything else counts as the empty list. -/
  | list
  /-- An optional value. -/
  | opt
  /-- A node. -/
  | node
deriving DecidableEq, Repr, Inhabited

/-- A style property of an expression. -/
inductive StyleSource where
  | text (s : String)
  | observable (name : String)
deriving DecidableEq, Repr, Inhabited

mutual

/-- An expression that computes a value. -/
inductive Expr where
  | empty
  | scalar (s : Scalar)
  | list (items : List String)
  | style (properties : List (String × StyleSource))
  | observable (name : String)
  | elementRef (name : String)
  | handler (name : String)
  | component (name : String) (props : Option Expr)
  | render (body : Expr) (label : Option String)
  | node (t : Template)
  | nodes (ts : List Template)
  | record (fields : List (String × Expr))
  | var (name : String)
  | current (name : String)
  | concat (parts : List Expr)
  | add (a b : Expr)
  | mul (a b : Expr)
  | equal (a b : Expr)
  | less (a b : Expr)
  | not (e : Expr)
  | cond (c a b : Expr)
  | push (list e : Expr)
  | field (record : Expr) (name : String)
  | setField (record : Expr) (name : String) (e : Expr)

/-- A template that builds a node. -/
inductive Template where
  | empty
  | text (data : String)
  | textOf (e : Expr) (driven : Option String)
  | element (tag : String) (attributes : List (String × Expr)) (listeners : List (String × String))
      (children : List Template) (driven : Option String)
  | fragment (nodes : List Template) (driven : Option String)
  | deferred (body : Expr) (label : Option String)
  | markup (segments : List String) (arguments : List Expr)
  | named (name : String)
  | value (e : Expr)

end

instance : Inhabited Expr := ⟨.empty⟩
instance : Inhabited Template := ⟨.empty⟩

/-- A checker of a state: a condition on `cur` and `next`. -/
structure Checker where
  condition : Expr
  label : Option String
deriving Inhabited

/-- The observables that a script makes directly. -/
inductive NewKind where
  | observable
  | state
  | store
  | later
  | ref
deriving DecidableEq, Repr

/-- How an observable is derived from others. -/
inductive DeriveMode where
  | fromOne
  | withInitial
  | fromTwo
  | fromAll
  | fromAny
deriving DecidableEq, Repr

/-- A new value: given, or computed from the variable `v`. -/
inductive Change where
  | value (e : Expr)
  | compute (e : Expr)

/-- How a task ends. -/
inductive Outcome where
  | ok (e : Expr)
  | failed (message : String)

/-- A page node as a step names it. -/
inductive NodePath where
  | named (name : String)
  | inside (name : String) (path : List Nat)
  | ofRef (name : String)
deriving Repr

/-- The things that can be inspected. -/
inductive Inspected where
  | observable
  | dynamic
  | node
  | pageNode
  | page
  | component
  | teardown
  | region
  | watch
deriving DecidableEq, Repr

/-- The ways to call a component. -/
inductive CallForm where
  | direct
  | instanceOf
  | pointer
deriving DecidableEq, Repr

/-- A step of a script. Steps that hand over a program to be called back have `acts`, the steps
that it runs, and `times`, the number of calls on which it does. -/
inductive Step where
  | new (as : String) (kind : NewKind) (type : ValueType) (value : Expr) (checkers : List Checker)
  | derive (as : String) (type : ValueType) (sources : List String) (mode : DeriveMode)
      (body : Expr) (label : Option String) (initial : Expr)
  | text (as : String) (segments : List String) (arguments : List Expr)
  | field (observable field as : String) (type : ValueType)
  | fieldCount (observable : String)
  | alias (observable as : String)
  | drop (name : String)
  | value (observable : String)
  | update (observable : String) (change : Change)
  | set (observable : String) (change : Change)
  | setValue (observable : String) (value : Expr)
  | emit (observable : String)
  | flip (observable : String)
  | push (observable slice : String)
  | addChecker (observable : String) (checker : Checker)
  | subscribe (observable handler : String) (acts : List Step) (times : Nat)
  | unsubscribe (observable handler : String)
  | isSubscribed (observable handler : String)
  | unsubscribeAll (observable : String)
  | count (observable : String)
  | watch (observable as : String) (acts : List Step) (times : Nat)
  | cancel (watch : String)
  | weak (observable as : String)
  | alive (weak : String)
  | same (a b : String)
  | identify (observable : String)
  | later (as task : String) (polls : Nat) (outcome : Outcome)
  | poll (task : String)
  | resolve (observable : String) (value : Expr)
  | reject (observable message : String)
  | onCatch (observable handler : String) (acts : List Step) (times : Nat)
  | onFinally (observable handler : String) (acts : List Step) (times : Nat)
  | settled (observable : String)
  | attach (observable : String) (node : NodePath)
  | killRef (observable : String)
  | attached (observable : String)
  | node (template : Template) (as : Option String)
  | parse (segments : List String) (arguments : List Expr) (as : Option String)
  | html (template : Template)
  | classify (value : Expr)
  | eval (value : Expr)
  | shape (template : Template) (name : String)
  | component (as : String) (template : Template)
  | call (component : String) (form : CallForm) (props : Expr) (children : Option Template)
      (as : Option String)
  | handler (as : String) (stop prevent : Bool) (acts : List Step) (times : Nat)
  | sameHandler (a b : String)
  | showWhen (source as : String) (render fallback : Template) (label : Option String)
  | forEach (source as : String) (render : Template) (label : Option String)
  | conditional (source as : String) (render : Template) (label : Option String)
  | showStatic (value : Expr) (render fallback : Template)
  | forEachStatic (items : List Expr) (render : Template)
  | conditionalStatic (value : Expr) (render : Template)
  | suspense (as : String) (fallback : Template)
  | pending (suspense observable as : String)
  | finish (suspense : String) (template : Template) (as : String)
  | boundary (suspense : String)
  | document (as : String)
  | enter (document : String)
  | leave
  | active
  | nodeCount (document : String)
  | createElement (document tag as : String)
  | createText (document data as : String)
  | createComment (document data as : String)
  | createFragment (document as : String)
  | append (node child : NodePath)
  | removeChild (node child : NodePath)
  | replaceChildren (node child : NodePath)
  | insert (node child : NodePath) (before : Option NodePath)
  | remove (node : NodePath)
  | setAttribute (node : NodePath) (name value : String)
  | removeAttribute (node : NodePath) (name : String)
  | getAttribute (node : NodePath) (name : String)
  | setStyle (node : NodePath) (name value : String)
  | removeStyle (node : NodePath) (name : String)
  | getStyle (node : NodePath) (name : String)
  | listen (node : NodePath) (type handler : String)
  | unlisten (node : NodePath) (type handler : String)
  | dispatch (node : NodePath) (type : String) (inspect : Bool)
  | outer (node : NodePath)
  | inner (node : NodePath)
  | info (node : NodePath)
  | grab (node : NodePath) (as : Option String)
  | parent (node : NodePath) (as : Option String)
  | next (node : NodePath) (as : Option String)
  | sameNode (a b : NodePath)
  | realize (template : Template) (as fragment : String) (labelled : Bool)
  | render (root : NodePath) (template : Template) (as : String) (labelled : Bool)
  | teardownSize (teardown : String)
  | kill (teardown : String)
  | region (parent : NodePath) (label : Option String) (as : String)
  | splice (region : String) (node : NodePath)
  | contents (region : String)
  | grabAnchor (region : String) (atStart : Bool) (as : String)
  | inspect (of : Inspected) (name : String)
  | inspectValue (value : Expr)

instance : Inhabited Step := ⟨.leave⟩

end LivePage.Script
