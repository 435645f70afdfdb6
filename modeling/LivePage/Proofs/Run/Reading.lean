import LivePage.Proofs.Run.Basic
import LivePage.Observable.Checking
import LivePage.Flow.Awaiting
import LivePage.Node.Html
import LivePage.Script.Run

/-!
# Evaluation only reads and logs

Whatever a template, a render function, a component or a generator evaluates, it leaves the world as
it is up to the log, the handlers it makes, the branches that conditionals remember and the counts
of callbacks: that is `Quiet`. Nor does it ever stop the run with a panic.
-/

set_option linter.unusedSectionVars false

namespace LivePage

open LivePage.Script

variable {α ε : Type} {w w' w'' : World}

/-! ## Quiet changes -/

/-- Nothing has changed that others can see. -/
structure Quiet (w w' : World) : Prop where
  cells : w'.cells = w.cells
  pages : w'.pages = w.pages
  entered : w'.entered = w.entered
  records : w'.records = w.records
  regions : w'.regions = w.regions
  sites : w'.sites = w.sites
  boundaries : w'.boundaries = w.boundaries
  components : w'.components = w.components
  nextKey : w'.nextKey = w.nextKey
  names : w'.names = w.names
  pins : w'.pins = w.pins
  acts : w'.callbacks.map (·.acts) = w.callbacks.map (·.acts)

theorem Quiet.refl (w : World) : Quiet w w := by constructor <;> rfl

theorem Quiet.trans (h : Quiet w w') (h' : Quiet w' w'') : Quiet w w'' where
  cells := h'.cells.trans h.cells
  pages := h'.pages.trans h.pages
  entered := h'.entered.trans h.entered
  records := h'.records.trans h.records
  regions := h'.regions.trans h.regions
  sites := h'.sites.trans h.sites
  boundaries := h'.boundaries.trans h.boundaries
  components := h'.components.trans h.components
  nextKey := h'.nextKey.trans h.nextKey
  names := h'.names.trans h.names
  pins := h'.pins.trans h.pins
  acts := h'.acts.trans h.acts

instance : IsPreorder World Quiet where
  refl := .refl
  trans _ _ _ := .trans

theorem Quiet.unpinned {held : List Entity} (h : Quiet (w.pinned held) w') :
    Quiet w w'.unpinned where
  cells := h.cells
  pages := h.pages
  entered := h.entered
  records := h.records
  regions := h.regions
  sites := h.sites
  boundaries := h.boundaries
  components := h.components
  nextKey := h.nextKey
  names := h.names
  pins := by simp [World.unpinned, h.pins, World.pinned]
  acts := h.acts

/-- The stop is no panic. -/
def Stop.calm : Stop → Prop
  | .panic _ => False
  | .unknown _ | .tooDeep => True

/-- The run only reads and logs. -/
abbrev Reads (x : Run α) : Prop := Keeps Quiet Stop.calm x

theorem reads_log (r : Report) : Reads (logEntry r) :=
  keeps_modify fun _ => by constructor <;> rfl

theorem reads_warn (text : String) : Reads (warn text) := reads_log _

theorem reads_logLabel (what : String) (label : Option String) : Reads (logLabel what label) := by
  cases label with
  | none => exact keeps_pure _
  | some label => exact reads_log _

theorem reads_unknown (what : String) : Reads (unknown what : Run α) := keeps_throw trivial

theorem reads_lookup {table : Names → Entries α} (name : String) : Reads (lookup table name) := by
  refine keeps_get.bind fun w => ?_
  split
  · exact keeps_pure _
  · exact reads_unknown _

theorem reads_lookupPageNode (path : NodePath) : Reads (lookupPageNode path) := by
  cases path with
  | named name => exact reads_lookup name
  | inside name path =>
    refine (reads_lookup name).bind fun start => keeps_get.bind fun w => ?_
    dsimp only
    split
    · exact keeps_pure _
    · exact reads_unknown _
  | ofRef name =>
    refine (reads_lookup name).bind fun c => keeps_get.bind fun w => ?_
    split
    · exact keeps_pure _
    · exact reads_unknown _

theorem reads_newHandler (body : HandlerBody) : Reads (newHandler body) := by
  refine keeps_of_ok fun w => ⟨_, _, rfl, ?_⟩
  constructor <;> rfl

theorem reads_childNode (v : Value) : Reads (childNode v) := by
  refine keeps_get.bind fun w => ?_
  split
  · exact (reads_warn _).bind fun _ => keeps_pure _
  · exact keeps_pure _

theorem reads_answering {fault : ε → Report} {act : Run (Except ε α)} (h : Reads act) :
    Reads (answering fault act).run := by
  refine h.bind fun a => ?_
  split
  · exact keeps_pure _
  · exact keeps_pure _

/-! ## Requests that only read -/

/-- The requests that ask for something to be evaluated. -/
def Request.reading : Request → Prop
  | .render _ | .invoke .. | .html _ | .insertedText _ => True
  | .react .. | .perform _ | .realize .. | .rebuild .. | .kill _ | .bubble .. => False

/-- Evaluations that are asked for only read and log. -/
def Respond.Reads (call : Respond) : Prop := ∀ q : Request, q.reading → LivePage.Reads (call q)

section

variable {call : Respond} (hc : call.Reads)
include hc

/-! ## Templates that are read -/

omit hc in
theorem reads_listen (parts : ElementParts) (name : String) (h : HandlerId) :
    Reads (parts.listen name h) := by
  unfold ElementParts.listen
  split
  · exact keeps_pure _
  · exact (reads_warn _).bind fun _ => keeps_pure _

omit hc in
theorem reads_insert (parts : ElementParts) (name : String) (v : Value) :
    Reads (parts.insert name v) := by
  refine keeps_get.bind fun w => ?_
  split
  case h_8 => exact (reads_newHandler _).bind fun h => reads_listen parts name h
  case h_7 => exact reads_listen parts name _
  case h_9 => exact (reads_warn _).bind fun _ => keeps_pure _
  all_goals exact keeps_pure _

omit hc in
theorem reads_addAll (arguments : List Value) (parts : ElementParts)
    (attributes : List Markup.Attribute) :
    Reads (ElementParts.addAll arguments parts attributes) := by
  induction attributes generalizing parts with
  | nil => exact keeps_pure _
  | cons a rest ih =>
    cases a with
    | quoted name pieces => exact keeps_get.bind fun w => ih _
    | inserted name k => exact (reads_insert _ _ _).bind fun _ => ih _

mutual

theorem reads_ofMarkup (arguments : List Value) :
    ∀ m : Markup.Markup, Reads (Node.ofMarkup call arguments m)
  | .text _ => by
    rw [Node.ofMarkup]
    exact keeps_pure _
  | .inserted _ => by
    rw [Node.ofMarkup]
    exact (reads_childNode _).bind fun _ => keeps_pure _
  | .element _ attributes children => by
    rw [Node.ofMarkup]
    exact (reads_addAll _ _ attributes).bind fun _ =>
      (reads_ofMarkups arguments children).bind fun _ => keeps_pure _
  | .component k none => by
    rw [Node.ofMarkup]
    split
    · exact (hc (.invoke ..) trivial).bind fun _ => keeps_pure _
    · exact keeps_pure _
  | .component k (some children) => by
    rw [Node.ofMarkup]
    refine (reads_ofMarkups arguments children).bind fun _ => ?_
    split
    · exact (hc (.invoke ..) trivial).bind fun _ => keeps_pure _
    · exact keeps_pure _

theorem reads_ofMarkups (arguments : List Value) :
    ∀ ms : List Markup.Markup, Reads (Node.ofMarkups call arguments ms)
  | [] => by
    rw [Node.ofMarkups]
    exact keeps_pure _
  | m :: rest => by
    rw [Node.ofMarkups]
    exact (reads_ofMarkup arguments m).bind fun _ =>
      (reads_ofMarkups arguments rest).bind fun _ => keeps_pure _

end

theorem reads_parse (segments : List String) (arguments : List Value) :
    Reads (Node.parse call segments arguments) := by
  refine keeps_get.bind fun w => ?_
  split
  · exact (reads_ofMarkups hc arguments _).bind fun _ => keeps_pure _
  · refine (reads_ofMarkups hc arguments _).bind fun nodes => ?_
    split
    · exact keeps_pure _
    · exact keeps_pure _

/-! ## Expressions and templates -/

omit hc in
theorem reads_evalStyle : ∀ properties : List (String × StyleSource), Reads (evalStyle properties)
  | [] => keeps_pure _
  | (_, .text _) :: rest => (keeps_pure _).bind fun _ => (reads_evalStyle rest).bind fun _ =>
      keeps_pure _
  | (_, .observable name) :: rest =>
    (reads_lookup name).bind fun _ => (keeps_pure _).bind fun _ =>
      (reads_evalStyle rest).bind fun _ => keeps_pure _

omit hc in
theorem reads_evalDriving : ∀ driving : Option String, Reads (evalDriving driving)
  | none => keeps_pure _
  | some name => (reads_lookup name).bind fun _ => keeps_pure _

omit hc in
theorem reads_evalListeners : ∀ l : List (String × String), Reads (evalListeners l)
  | [] => keeps_pure _
  | (_, name) :: rest => (reads_lookup name).bind fun _ => (reads_evalListeners rest).bind fun _ =>
      keeps_pure _

omit hc in
theorem reads_eget : Reads (get : Eval World).run := keeps_get.lift

mutual

theorem reads_evalExpr (ctx : Context) : ∀ e : Expr, Reads (evalExpr call ctx e).run
  | .empty | .scalar _ | .list _ | .var _ | .render .. => by
    rw [evalExpr]
    exact keeps_epure _
  | .component _ none => by
    rw [evalExpr]
    exact (reads_lookup _).lift.ebind fun _ => keeps_epure _
  | .style properties => by
    rw [evalExpr]
    exact (reads_evalStyle properties).lift.ebind fun _ => keeps_epure _
  | .observable _ | .elementRef _ | .handler _ => by
    rw [evalExpr]
    exact (reads_lookup _).lift.ebind fun _ => keeps_epure _
  | .component _ (some props) => by
    rw [evalExpr]
    exact (reads_lookup _).lift.ebind fun _ => (reads_evalExpr ctx props).ebind fun _ =>
      keeps_epure _
  | .node t => by
    rw [evalExpr]
    exact (reads_evalTemplate ctx t).ebind fun _ => keeps_epure _
  | .nodes ts => by
    rw [evalExpr]
    exact (reads_evalTemplates ctx ts).ebind fun _ => keeps_epure _
  | .record fields => by
    rw [evalExpr]
    exact (reads_evalFields ctx fields).ebind fun _ => keeps_epure _
  | .current _ => by
    rw [evalExpr]
    exact reads_eget.ebind fun _ => keeps_epure _
  | .concat parts => by
    rw [evalExpr]
    exact (reads_evalAll ctx parts).ebind fun _ => reads_eget.ebind fun _ => keeps_epure _
  | .add a b | .mul a b | .equal a b | .less a b => by
    rw [evalExpr]
    exact (reads_evalExpr ctx a).ebind fun _ => (reads_evalExpr ctx b).ebind fun _ =>
      keeps_epure _
  | .not e => by
    rw [evalExpr]
    exact (reads_evalExpr ctx e).ebind fun _ => keeps_epure _
  | .cond c a b => by
    rw [evalExpr]
    refine (reads_evalExpr ctx c).ebind fun _ => ?_
    split
    · exact reads_evalExpr ctx a
    · exact reads_evalExpr ctx b
  | .push list e => by
    rw [evalExpr]
    exact (reads_evalExpr ctx list).ebind fun _ => (reads_evalExpr ctx e).ebind fun _ =>
      reads_eget.ebind fun _ => keeps_epure _
  | .field record _ => by
    rw [evalExpr]
    exact (reads_evalExpr ctx record).ebind fun _ => keeps_epure _
  | .setField record _ e => by
    rw [evalExpr]
    exact (reads_evalExpr ctx record).ebind fun _ => (reads_evalExpr ctx e).ebind fun _ =>
      keeps_epure _

theorem reads_evalAll (ctx : Context) : ∀ es : List Expr, Reads (evalAll call ctx es).run
  | [] => by
    rw [evalAll]
    exact keeps_epure _
  | e :: rest => by
    rw [evalAll]
    exact (reads_evalExpr ctx e).ebind fun _ => (reads_evalAll ctx rest).ebind fun _ =>
      keeps_epure _

theorem reads_evalFields (ctx : Context) :
    ∀ fields : List (String × Expr), Reads (evalFields call ctx fields).run
  | [] => by
    rw [evalFields]
    exact keeps_epure _
  | (_, e) :: rest => by
    rw [evalFields]
    exact (reads_evalExpr ctx e).ebind fun _ => (reads_evalFields ctx rest).ebind fun _ =>
      keeps_epure _

theorem reads_evalAttributes (ctx : Context) :
    ∀ attributes : List (String × Expr), Reads (evalAttributes call ctx attributes).run
  | [] => by
    rw [evalAttributes]
    exact keeps_epure _
  | (_, e) :: rest => by
    rw [evalAttributes]
    exact (reads_evalExpr ctx e).ebind fun _ => reads_eget.ebind fun _ =>
      (reads_evalAttributes ctx rest).ebind fun _ => keeps_epure _

theorem reads_evalTemplate (ctx : Context) : ∀ t : Template, Reads (evalTemplate call ctx t).run
  | .empty | .text _ | .deferred .. => by
    rw [evalTemplate]
    exact keeps_epure _
  | .textOf e driven => by
    rw [evalTemplate]
    exact (reads_evalExpr ctx e).ebind fun _ => reads_eget.ebind fun _ =>
      (reads_evalDriving driven).lift.ebind fun _ => keeps_epure _
  | .element _ attributes listeners children driven => by
    rw [evalTemplate]
    exact (reads_evalAttributes ctx attributes).ebind fun _ =>
      (reads_evalListeners listeners).lift.ebind fun _ =>
      (reads_evalTemplates ctx children).ebind fun _ =>
      (reads_evalDriving driven).lift.ebind fun _ => keeps_epure _
  | .fragment nodes driven => by
    rw [evalTemplate]
    exact (reads_evalTemplates ctx nodes).ebind fun _ =>
      (reads_evalDriving driven).lift.ebind fun _ => keeps_epure _
  | .markup segments arguments => by
    rw [evalTemplate]
    refine (reads_evalAll ctx arguments).ebind fun _ => reads_eget.ebind fun _ => ?_
    rw [ExceptT.run_mk]
    exact reads_parse hc segments _
  | .named _ => by
    rw [evalTemplate]
    exact (reads_lookup _).lift
  | .value e => by
    rw [evalTemplate]
    exact (reads_evalExpr ctx e).ebind fun _ => (reads_childNode _).lift

theorem reads_evalTemplates (ctx : Context) :
    ∀ ts : List Template, Reads (evalTemplates call ctx ts).run
  | [] => by
    rw [evalTemplates]
    exact keeps_epure _
  | t :: rest => by
    rw [evalTemplates]
    exact (reads_evalTemplate ctx t).ebind fun _ => (reads_evalTemplates ctx rest).ebind fun _ =>
      keeps_epure _

end

omit hc in
theorem reads_orLog {otherwise : α} {e : Eval α} (he : Reads e.run) : Reads (orLog otherwise e) := by
  refine he.bind fun r => ?_
  split
  · exact keeps_pure _
  · exact (reads_log _).bind fun _ => keeps_pure _

theorem reads_calledExpr (ctx : Context) (e : Expr) : Reads (calledExpr call ctx e) :=
  reads_orLog (reads_evalExpr hc ctx e)

theorem reads_calledTemplate (ctx : Context) (t : Template) : Reads (calledTemplate call ctx t) :=
  reads_orLog (reads_evalTemplate hc ctx t)

/-! ## Render functions, components and markup -/

theorem reads_render (r : Render) : Reads (r.run call) := by
  cases r with
  | program body label ctx =>
    exact (reads_logLabel _ _).bind fun _ => (reads_calledExpr hc _ _).bind fun _ =>
      keeps_get.bind fun _ => keeps_pure _
  | handler h => exact keeps_pure _
  | component c props => exact (hc (.invoke ..) trivial).bind fun _ => keeps_pure _
  | pending c => exact keeps_pure _

theorem reads_invoke (c : ComponentId) (props : Value) (children : Option Node) :
    Reads (c.invoke call props children) := by
  refine keeps_get.bind fun w => ?_
  split
  · exact keeps_pure _
  · exact (reads_log _).bind fun _ => reads_calledTemplate hc _ _

theorem reads_currentHtml (c : CellId) : Reads (currentHtml call c) :=
  keeps_get.bind fun _ => (reads_childNode _).bind fun _ => hc (.html _) trivial

mutual

theorem reads_html : ∀ n : Node, Reads (n.html call)
  | .empty | .text _ none => by
    rw [Node.html]
    exact keeps_pure _
  | .text _ (some c) => by
    rw [Node.html]
    exact reads_currentHtml hc c
  | .element _ _ _ children none => by
    rw [Node.html]
    refine keeps_get.bind fun _ => ?_
    dsimp only
    split
    · exact keeps_pure _
    · exact (reads_htmlAll children).bind fun _ => keeps_pure _
  | .element _ _ _ _ (some c) => by
    rw [Node.html]
    exact keeps_get.bind fun _ => (reads_currentHtml hc c).bind fun _ => keeps_pure _
  | .fragment children none => by
    rw [Node.html]
    exact reads_htmlAll children
  | .fragment _ (some c) => by
    rw [Node.html]
    exact reads_currentHtml hc c
  | .deferred r => by
    rw [Node.html]
    refine (hc (.render r) trivial).bind fun v => ?_
    split
    · exact keeps_pure _
    · exact (reads_childNode _).bind fun _ => hc (.html _) trivial

theorem reads_htmlAll : ∀ ns : List Node, Reads (Node.htmlAll call ns)
  | [] => by
    rw [Node.htmlAll]
    exact keeps_pure _
  | n :: rest => by
    rw [Node.htmlAll]
    exact (reads_html n).bind fun _ => (reads_htmlAll rest).bind fun _ => keeps_pure _

end

theorem reads_insertedText (v : Value) : Reads (v.insertedText call) := by
  unfold Value.insertedText
  split
  · exact keeps_get.bind fun _ => hc (.insertedText _) trivial
  · exact (hc (.render _) trivial).bind fun _ => hc (.insertedText _) trivial
  · exact hc (.html _) trivial
  · exact keeps_get.bind fun _ => keeps_pure _

/-! ## Generators and checkers -/

theorem reads_interleave (segments : List String) (arguments : List Value) :
    Reads (interleave call segments arguments) := by
  induction segments, arguments using interleave.induct with
  | case1 arguments => exact keeps_pure _
  | case2 s arguments => cases arguments <;> exact keeps_pure _
  | case3 s rest _ ih =>
    rw [interleave]
    · exact ih.bind fun _ => keeps_pure _
    · assumption
  | case4 s rest v arguments _ ih =>
    rw [interleave]
    · exact (hc (.insertedText v) trivial).bind fun _ => ih.bind fun _ => keeps_pure _
    · assumption

theorem reads_eachItem (render : Template) (label : Option String) (items : List String) :
    Reads (eachItem call render label items) := by
  induction items with
  | nil => exact keeps_pure _
  | cons item rest ih =>
    exact (reads_logLabel _ _).bind fun _ => (reads_calledTemplate hc _ _).bind fun _ =>
      ih.bind fun _ => keeps_pure _

theorem reads_branchNode (render fallback : Template) (label : Option String) (held : Held) :
    Reads (branchNode call render fallback label held) := by
  unfold branchNode
  split
  · exact (reads_logLabel _ _).bind fun _ => reads_calledTemplate hc _ _
  · exact (reads_logLabel _ _).bind fun _ => keeps_get.bind fun _ => reads_calledTemplate hc _ _

theorem reads_gatedNode (render : Template) (label : Option String) (memo : MemoId) (now : Bool) :
    Reads (gatedNode call render label memo now) := by
  refine keeps_update (fun _ => by constructor <;> rfl) fun w => ?_
  split
  · exact keeps_pure _
  · exact keeps_pure _
  · exact Keeps.bind ((reads_logLabel _ _).bind fun _ => reads_calledTemplate hc _ _) fun _ =>
      (keeps_modify fun _ => by constructor <;> rfl).bind fun _ => keeps_pure _

theorem reads_generator (g : Generator) (sources : List Held) : Reads (g.run call sources) := by
  cases g with
  | program body label type =>
    exact (reads_logLabel _ _).bind fun _ => keeps_get.bind fun _ =>
      (reads_calledExpr hc _ _).bind fun _ => keeps_get.bind fun _ => keeps_pure _
  | template segments arguments =>
    exact (reads_interleave hc _ _).bind fun _ => keeps_pure _
  | branch render fallback label =>
    exact (reads_branchNode hc _ _ _ _).bind fun _ => keeps_pure _
  | each render label => exact (reads_eachItem hc _ _ _).bind fun _ => keeps_pure _
  | gated render label memo => exact (reads_gatedNode hc _ _ _ _).bind fun _ => keeps_pure _

theorem reads_accepts (checker : Checker) (current next : Value) :
    Reads (checker.accepts call current next) := by
  refine (reads_calledExpr hc _ _).bind fun v => ?_
  split
  · exact (reads_log _).bind fun _ => keeps_pure _
  · exact (keeps_pure _).bind fun _ => keeps_pure _

theorem reads_allAccept (current next : Value) (checkers : List Checker) :
    Reads (allAccept call current next checkers) := by
  induction checkers with
  | nil => exact keeps_pure _
  | cons checker rest ih =>
    refine (reads_accepts hc _ _ _).bind fun b => ?_
    split
    · exact ih
    · exact keeps_pure _

end

/-! ## At every depth -/

theorem respond_reads (d : Nat) : (respond d).Reads := by
  induction d with
  | zero => exact fun _ _ => keeps_throw trivial
  | succ d ih =>
    intro q hq
    cases q with
    | render r => exact reads_render ih r
    | invoke c props children => exact reads_invoke ih c props children
    | html n => exact reads_html ih n
    | insertedText v => exact reads_insertedText ih v
    | _ => exact hq.elim

end LivePage
