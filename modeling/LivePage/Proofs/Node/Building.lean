import LivePage.Proofs.Node.Parts
import LivePage.Proofs.Run.Basic
import LivePage.Script.Run

/-!
# What evaluation builds its nodes from

The nodes of a template are texts, elements and deferred render functions, the nodes that the world
and the variables have, and fragments wrapped around such nodes. So a property of nodes that is
closed under building (`Building`) holds of everything that an evaluation gives, and of everything
inside of it, if it holds of what the world and the variables have at the start: `Gives` says so of
one run, and there is a lemma for each operation. `respond_builds` is the same of the components
that are called on the way, however deep the calls nest.
-/

set_option linter.unusedSectionVars false

namespace LivePage

open LivePage.Script

variable {α β ε : Type} {I : World → Prop} {P : Node → Prop} {Q : α → Prop} {R : β → Prop}
  {w w' : World}

/-! ## Runs and what they give -/

/-- A run that starts in a world with `I` and ends well leaves a world with `I`, and its result
has `Q`. -/
def Gives (I : World → Prop) (Q : α → Prop) (x : Run α) : Prop :=
  ∀ w, I w → ∀ a w', x.run w = .ok a w' → Q a ∧ I w'

/-- The same of an evaluation, for the results that are no faults. -/
def Evaluates (I : World → Prop) (Q : α → Prop) (x : ExceptT ε Run α) : Prop :=
  Gives I (fun r => ∀ a, r = .ok a → Q a) x.run

theorem gives_pure {a : α} (h : Q a) : Gives I Q (pure a) := by
  rintro w hw b w' hrun
  obtain ⟨rfl, rfl⟩ := ok_pure.1 hrun
  exact ⟨h, hw⟩

theorem gives_throw (e : Stop) : Gives I Q (throw e) := fun _ _ _ _ hrun =>
  absurd hrun not_ok_throw

theorem gives_get : Gives I I (get : Run World) := by
  rintro w hw a w' hrun
  obtain ⟨rfl, rfl⟩ := ok_get.1 hrun
  exact ⟨hw, hw⟩

theorem gives_modify {f : World → World} (h : ∀ w, I w → I (f w)) :
    Gives I (fun _ => True) (modify f) := by
  rintro w hw a w' hrun
  obtain rfl := ok_modify.1 hrun
  exact ⟨trivial, h w hw⟩

theorem Gives.bind {x : Run α} {f : α → Run β} (hx : Gives I Q x)
    (hf : ∀ a, Q a → Gives I R (f a)) : Gives I R (x >>= f) := by
  rintro w hw b w' hrun
  obtain ⟨a, w₁, ha, hb⟩ := ok_bind.1 hrun
  obtain ⟨hQ, hw₁⟩ := hx w hw a w₁ ha
  exact hf a hQ w₁ hw₁ b w' hb

theorem Gives.mono {Q' : α → Prop} {x : Run α} (hx : Gives I Q x) (h : ∀ a, Q a → Q' a) :
    Gives I Q' x := fun w hw a w' hrun => (hx w hw a w' hrun).imp_left (h a)

/-- A change of the world that is computed from it, and what follows. -/
theorem gives_update {f : World → World} {g : World → Run α} (hf : ∀ w, I w → I (f w))
    (hg : ∀ w, I w → Gives I Q (g w)) :
    Gives I Q (get >>= fun w => set (f w) >>= fun _ => g w) := by
  rintro w hw a w' hrun
  rw [ok_get_bind, ok_set_bind] at hrun
  exact hg w hw (f w) (hf w hw) a w' hrun

theorem evaluates_pure {a : α} (h : Q a) : Evaluates I Q (pure a : ExceptT ε Run α) := by
  unfold Evaluates
  rw [ExceptT.run_pure]
  exact gives_pure (by rintro _ ⟨⟩; exact h)

theorem Gives.lift {x : Run α} (hx : Gives I Q x) :
    Evaluates I Q (liftM x : ExceptT ε Run α) := by
  unfold Evaluates
  rw [ExceptT.run_liftM, map_eq_pure_bind]
  exact hx.bind fun a ha => gives_pure (by rintro _ ⟨⟩; exact ha)

theorem Evaluates.bind {x : ExceptT ε Run α} {f : α → ExceptT ε Run β} (hx : Evaluates I Q x)
    (hf : ∀ a, Q a → Evaluates I R (f a)) : Evaluates I R (x >>= f) := by
  unfold Evaluates
  rw [ExceptT.run_bind]
  refine Gives.bind hx fun r hr => ?_
  cases r with
  | error e => exact gives_pure (by rintro _ ⟨⟩)
  | ok a => exact hf a (hr a rfl)

/-! ## Properties that building keeps -/

/-- The nodes that a world has ready for evaluation: those that its observables hold, those that
have names, and the branches that conditionals remember. -/
inductive World.Has (w : World) : Node → Prop where
  | held {c : CellId} {v : Value} {n : Node} (h : (w.cell c).held = .value v) (hn : n ∈ v.parts) :
    Has w n
  | named {name : String} {m n : Node} (h : Entries.get? name w.names.nodes = some m)
    (hn : n ∈ m.parts) : Has w n
  | remembered {k : Nat} {memo : Memo} {m n : Node} (h : w.memos[k]? = some memo)
    (hm : memo.branch = some m) (hn : n ∈ m.parts) : Has w n

/-- The nodes that a world with `I` has ready have `P`, and building keeps `P`. Of a world `I`
regards the observables, the names and what conditionals remember. -/
structure Building (I : World → Prop) (P : Node → Prop) : Prop where
  stable {w w' : World} (hw : I w) (hcells : w'.cells = w.cells) (hnames : w'.names = w.names)
    (hmemos : w'.memos = w.memos) : I w'
  has {w : World} {n : Node} (hw : I w) (hn : w.Has n) : P n
  empty : P .empty
  text (data : String) (driving : Option CellId) : P (.text data driving)
  element (tag : String) (attributes : List (String × AttributeValue)) (listeners : List Listener)
    {children : List Node} (driving : Option CellId) (h : ∀ n ∈ children, P n) :
    P (.element tag attributes listeners children driving)
  deferred (r : Render) : P (.deferred r)
  wrap {children : List Node} (driving : Option CellId) (h : ∀ n ∈ children, P n) :
    P (.wrap children driving)

theorem Value.all_empty : Value.empty.All P := by simp [All, parts]

theorem Value.all_scalar (s : Scalar) : (Value.scalar s).All P := by simp [All, parts]

theorem Value.all_str (s : String) : (Value.str s).All P := all_scalar _

theorem Value.all_bool (b : Bool) : (Value.bool b).All P := all_scalar _

theorem Value.all_list (items : List String) : (Value.list items).All P := by simp [All, parts]

theorem Value.all_insertable {v : Value} (h : v.All P) (w : World) : (w.insertable v).All P := by
  unfold World.insertable Value.insertableWith
  split
  · exact all_list _
  · exact h

theorem Context.all_get? {ctx : Context} (h : ctx.All P) (name : String) :
    ((Entries.get? name ctx).getD .empty).All P := by
  cases hget : Entries.get? name ctx with
  | none => exact Value.all_empty
  | some v => exact h _ (Entries.mem_of_get? hget)

theorem Value.all_field {v : Value} (h : v.All P) (name : String) : (v.field name).All P := by
  unfold field
  split
  · exact Context.all_get? (all_record.1 h) name
  · exact all_empty

theorem Value.all_withField {v new : Value} (h : v.All P) (hnew : new.All P) (name : String) :
    (v.withField name new).All P := by
  unfold withField
  split
  · refine all_record.2 fun e he => ?_
    obtain he | rfl := Entries.of_mem_set he
    · exact all_record.1 h e he
    · exact hnew
  · exact h

theorem Value.all_add (a b : Value) : (a.add b).All P := by
  unfold add
  split
  · exact all_scalar _
  · exact all_scalar _
  · exact all_empty

theorem Value.all_mul (a b : Value) : (a.mul b).All P := by
  unfold mul
  split
  · exact all_scalar _
  · exact all_scalar _
  · exact all_empty

namespace Building

variable (B : Building I P)
include B

theorem all_element (tag : String) (attributes : List (String × AttributeValue))
    (listeners : List Listener) {children : List Node} (driving : Option CellId)
    (h : ∀ n ∈ children, n.All P) :
    (Node.element tag attributes listeners children driving).All P :=
  Node.all_element (B.element tag attributes listeners driving fun n hn => (h n hn).self) h

theorem all_wrap {children : List Node} (driving : Option CellId)
    (h : ∀ n ∈ children, n.All P) : (Node.wrap children driving).All P :=
  Node.all_wrap (B.wrap driving fun n hn => (h n hn).self) h

theorem all_content (hw : I w) (c : CellId) : (w.content c).All P := by
  unfold World.content
  split
  · next v hv => exact fun m hm => B.has hw (.held hv hm)
  · exact Value.all_empty
  · exact Value.all_empty

theorem all_shown (hw : I w) (c : CellId) : (w.shownCurrent c).All P := by
  unfold World.shownCurrent World.shown
  split
  · next v hv => exact fun m hm => B.has hw (.held hv hm)
  · exact Value.all_str _
  · exact Value.all_empty

/-! ## The node of a value -/

theorem all_nodeWith {ofCell : CellId → Node} (hcell : ∀ c, (ofCell c).All P) {v : Value}
    (hv : v.All P) (w : World) : (w.nodeWith ofCell v).All P := by
  have hins := Value.all_insertable hv w
  unfold World.nodeWith
  generalize w.insertable v = v' at hins
  cases v' with
  | empty | style _ | record _ => exact Node.all_empty B.empty
  | scalar s => exact Node.all_text (B.text _ _)
  | observable c => exact hcell c
  | ref c => exact hcell c
  | node n => exact Value.all_node.1 hins
  | handler h => exact Node.all_deferred (B.deferred _) (by simp [Render.All, Render.parts])
  | render r => exact Node.all_deferred (B.deferred _) (Value.all_render.1 hins)
  | component c pointer props =>
    exact Node.all_deferred (B.deferred _) (Render.all_component.2 (Value.all_component.1 hins))
  | list items =>
    refine B.all_wrap _ fun n hn => ?_
    obtain ⟨s, -, rfl⟩ := List.mem_map.1 hn
    exact Node.all_text (B.text _ _)

theorem all_cellNode (hw : I w) (k : Nat) (c : CellId) : (w.cellNode k c).All P := by
  induction k generalizing c with
  | zero => exact Node.all_text (B.text _ _)
  | succ k ih =>
    rw [World.cellNode]
    split
    · exact Node.all_text (B.text _ _)
    · exact Node.all_text (B.text _ _)
    · refine B.all_wrap _ fun n hn => ?_
      rw [List.mem_singleton] at hn
      exact hn ▸ B.all_nodeWith ih (Value.all_insertable (B.all_content hw c) w) w

/-- The node of a value, however long the chain of observables that it leads through. -/
theorem all_nodeOf (hw : I w) {v : Value} (hv : v.All P) : (w.nodeOf v).All P :=
  B.all_nodeWith (B.all_cellNode hw _) hv w

theorem gives_childNode {v : Value} (hv : v.All P) : Gives I (·.All P) (childNode v) := by
  refine gives_get.bind fun w hw => ?_
  split
  · refine Gives.bind (Q := fun _ => True)
      (gives_modify fun w hw => B.stable hw rfl rfl rfl) fun _ _ => ?_
    exact gives_pure (B.all_nodeOf hw hv)
  · exact gives_pure (B.all_nodeOf hw hv)

/-! ## The log and the tables -/

theorem gives_log (r : Report) : Gives I (fun _ => True) (logEntry r) :=
  gives_modify fun _ hw => B.stable hw rfl rfl rfl

theorem gives_logLabel (what : String) (label : Option String) :
    Gives I (fun _ => True) (logLabel what label) := by
  cases label with
  | none => exact gives_pure trivial
  | some label => exact B.gives_log _

omit B in
theorem gives_lookup (table : Names → Entries α) (name : String) :
    Gives I (fun a => ∃ w, I w ∧ Entries.get? name (table w.names) = some a)
      (lookup table name) := by
  refine gives_get.bind fun w hw => ?_
  split
  · next a ha => exact gives_pure ⟨w, hw, ha⟩
  · exact gives_throw _

theorem gives_lookupNode (name : String) : Gives I (·.All P) (lookupNode name) :=
  (gives_lookup Names.nodes name).mono fun _ ⟨_, hw, hget⟩ _ hm => B.has hw (.named hget hm)

theorem gives_newHandler (body : HandlerBody) : Gives I (fun _ => True) (newHandler body) :=
  gives_update (fun _ hw => B.stable hw rfl rfl rfl) fun _ _ => gives_pure trivial

/-! ## Templates that are read -/

theorem gives_listen (parts : ElementParts) (name : String) (h : HandlerId) :
    Gives I (fun _ => True) (parts.listen name h) := by
  unfold ElementParts.listen
  split
  · exact gives_pure trivial
  · exact (B.gives_log _).bind fun _ _ => gives_pure trivial

theorem gives_insert (parts : ElementParts) (name : String) (v : Value) :
    Gives I (fun _ => True) (parts.insert name v) := by
  refine gives_get.bind fun w _ => ?_
  split
  case h_8 => exact (B.gives_newHandler _).bind fun h _ => B.gives_listen parts name h
  case h_7 => exact B.gives_listen parts name _
  case h_9 => exact (B.gives_log _).bind fun _ _ => gives_pure trivial
  all_goals exact gives_pure trivial

theorem gives_addAll (arguments : List Value) (parts : ElementParts)
    (attributes : List Markup.Attribute) :
    Gives I (fun _ => True) (ElementParts.addAll arguments parts attributes) := by
  induction attributes generalizing parts with
  | nil => exact gives_pure trivial
  | cons a rest ih =>
    cases a with
    | quoted name pieces => exact gives_get.bind fun w _ => ih _
    | inserted name k => exact (B.gives_insert _ _ _).bind fun _ _ => ih _

end Building

/-- The components that are called give nodes with `P`, if their props and children have it. -/
def Respond.Builds (I : World → Prop) (P : Node → Prop) (call : Respond) : Prop :=
  ∀ c props children, props.All P → (∀ n, children = some n → n.All P) →
    Gives I (·.All P) (call (.invoke c props children))

theorem insertedValue_all {arguments : List Value} (h : ∀ v ∈ arguments, v.All P) (k : Nat) :
    (insertedValue arguments k).All P := by
  unfold insertedValue
  rw [List.getD_eq_getElem?_getD]
  cases hget : arguments[k]? with
  | none => exact Value.all_empty
  | some v => exact h v (List.mem_of_getElem? hget)

namespace Building

section

variable {call : Respond} (B : Building I P) (hc : call.Builds I P)
include B hc

mutual

theorem gives_ofMarkup {arguments : List Value} (h : ∀ v ∈ arguments, v.All P) :
    ∀ m : Markup.Markup,
      Gives I (fun ns => ∀ n ∈ ns, n.All P) (Node.ofMarkup call arguments m)
  | .text _ => by
    rw [Node.ofMarkup]
    exact gives_pure (by simpa using Node.all_text (B.text _ _))
  | .inserted k => by
    rw [Node.ofMarkup]
    refine (B.gives_childNode (insertedValue_all h k)).bind fun n hn => gives_pure ?_
    split
    · simp
    · simpa using hn
  | .element _ attributes children => by
    rw [Node.ofMarkup]
    refine (B.gives_addAll _ _ attributes).bind fun _ _ =>
      (gives_ofMarkups h children).bind fun ns hns => gives_pure ?_
    simpa using B.all_element _ _ _ none hns
  | .component k none => by
    rw [Node.ofMarkup]
    have hk := insertedValue_all h k
    split
    · next c _ props heq =>
      rw [heq] at hk
      exact (hc c props none (Value.all_component.1 hk) (by simp)).bind fun n hn =>
        gives_pure (by simpa using hn)
    · exact gives_pure (by simp)
  | .component k (some children) => by
    rw [Node.ofMarkup]
    have hk := insertedValue_all h k
    refine (gives_ofMarkups h children).bind fun ns hns => ?_
    split
    · next c _ props heq =>
      rw [heq] at hk
      refine (hc c props _ (Value.all_component.1 hk) ?_).bind fun n hn =>
        gives_pure (by simpa using hn)
      rintro _ ⟨⟩
      exact B.all_wrap none hns
    · exact gives_pure (by simp)

theorem gives_ofMarkups {arguments : List Value} (h : ∀ v ∈ arguments, v.All P) :
    ∀ ms : List Markup.Markup,
      Gives I (fun ns => ∀ n ∈ ns, n.All P) (Node.ofMarkups call arguments ms)
  | [] => by
    rw [Node.ofMarkups]
    exact gives_pure (by simp)
  | m :: rest => by
    rw [Node.ofMarkups]
    refine (gives_ofMarkup h m).bind fun ns hns =>
      (gives_ofMarkups h rest).bind fun ns' hns' => gives_pure fun n hn => ?_
    exact (List.mem_append.1 hn).elim (hns n) (hns' n)

end

/-- A template is read into a node built from the inserted values. -/
theorem gives_parse (segments : List String) {arguments : List Value}
    (h : ∀ v ∈ arguments, v.All P) :
    Gives I (fun r => ∀ n, r = .ok n → n.All P) (Node.parse call segments arguments) := by
  refine gives_get.bind fun w _ => ?_
  split
  · exact (B.gives_ofMarkups hc h _).bind fun _ _ => gives_pure (by simp)
  · refine (B.gives_ofMarkups hc h _).bind fun ns hns => ?_
    split
    · refine gives_pure ?_
      rintro _ ⟨⟩
      exact hns _ (by simp)
    · refine gives_pure ?_
      rintro _ ⟨⟩
      exact B.all_wrap none hns

/-! ## Expressions and templates -/

omit B hc in
theorem gives_evalStyle : ∀ properties : List (String × StyleSource),
    Gives I (fun _ => True) (evalStyle properties)
  | [] => gives_pure trivial
  | (_, .text _) :: rest =>
    Gives.bind (Q := fun _ => True) (gives_pure trivial) fun _ _ =>
      (gives_evalStyle rest).bind fun _ _ => gives_pure trivial
  | (_, .observable name) :: rest =>
    (gives_lookup _ name).bind fun _ _ =>
      Gives.bind (Q := fun _ => True) (gives_pure trivial) fun _ _ =>
        (gives_evalStyle rest).bind fun _ _ => gives_pure trivial

omit B hc in
theorem gives_evalDriving : ∀ driving : Option String,
    Gives I (fun _ => True) (evalDriving driving)
  | none => gives_pure trivial
  | some name => (gives_lookup _ name).bind fun _ _ => gives_pure trivial

omit B hc in
theorem gives_evalListeners : ∀ l : List (String × String),
    Gives I (fun _ => True) (evalListeners l)
  | [] => gives_pure trivial
  | (_, name) :: rest => (gives_lookup _ name).bind fun _ _ =>
      (gives_evalListeners rest).bind fun _ _ => gives_pure trivial

omit B hc in
theorem evaluates_get : Evaluates I I (get : Eval World) := gives_get.lift

-- The induction is on the expression. The components that a template calls are not part of it:
-- what they give is assumed of `call`.
mutual

theorem evaluates_expr {ctx : Context} (h : ctx.All P) :
    ∀ e : Expr, Evaluates I (·.All P) (evalExpr call ctx e)
  | .empty => by
    rw [evalExpr]
    exact evaluates_pure Value.all_empty
  | .scalar s => by
    rw [evalExpr]
    exact evaluates_pure (Value.all_scalar s)
  | .list items => by
    rw [evalExpr]
    exact evaluates_pure (Value.all_list items)
  | .style properties => by
    rw [evalExpr]
    exact (gives_evalStyle properties).lift.bind fun _ _ =>
      evaluates_pure (by simp [Value.All, Value.parts])
  | .observable name | .elementRef name | .handler name | .component name none => by
    rw [evalExpr]
    exact (gives_lookup _ name).lift.bind fun _ _ =>
      evaluates_pure (by simp [Value.All, Value.parts])
  | .component name (some props) => by
    rw [evalExpr]
    exact (gives_lookup _ name).lift.bind fun _ _ =>
      (evaluates_expr h props).bind fun _ hv => evaluates_pure (Value.all_component.2 hv)
  | .render body label => by
    rw [evalExpr]
    exact evaluates_pure (Value.all_render.2 (Render.all_program.2 h))
  | .node t => by
    rw [evalExpr]
    exact (evaluates_template h t).bind fun _ hn => evaluates_pure (Value.all_node.2 hn)
  | .nodes ts => by
    rw [evalExpr]
    exact (evaluates_templates h ts).bind fun _ hns =>
      evaluates_pure (Value.all_node.2 (B.all_wrap none hns))
  | .record fields => by
    rw [evalExpr]
    exact (evaluates_fields h fields).bind fun _ hfields =>
      evaluates_pure (Value.all_record.2 hfields)
  | .var name => by
    rw [evalExpr]
    exact evaluates_pure (Context.all_get? h name)
  | .current name => by
    rw [evalExpr]
    refine evaluates_get.bind fun w hw => evaluates_pure ?_
    cases w.cellNamed? name with
    | none => exact Value.all_empty
    | some c => exact B.all_shown hw c
  | .concat parts => by
    rw [evalExpr]
    exact (evaluates_all h parts).bind fun _ _ => evaluates_get.bind fun _ _ =>
      evaluates_pure (Value.all_str _)
  | .add a b => by
    rw [evalExpr]
    exact (evaluates_expr h a).bind fun _ _ => (evaluates_expr h b).bind fun _ _ =>
      evaluates_pure (Value.all_add _ _)
  | .mul a b => by
    rw [evalExpr]
    exact (evaluates_expr h a).bind fun _ _ => (evaluates_expr h b).bind fun _ _ =>
      evaluates_pure (Value.all_mul _ _)
  | .equal a b | .less a b => by
    rw [evalExpr]
    exact (evaluates_expr h a).bind fun _ _ => (evaluates_expr h b).bind fun _ _ =>
      evaluates_pure (Value.all_bool _)
  | .not e => by
    rw [evalExpr]
    exact (evaluates_expr h e).bind fun _ _ => evaluates_pure (Value.all_bool _)
  | .cond c a b => by
    rw [evalExpr]
    refine (evaluates_expr h c).bind fun _ _ => ?_
    split
    · exact evaluates_expr h a
    · exact evaluates_expr h b
  | .push list e => by
    rw [evalExpr]
    exact (evaluates_expr h list).bind fun _ _ => (evaluates_expr h e).bind fun _ _ =>
      evaluates_get.bind fun _ _ => evaluates_pure (Value.all_list _)
  | .field record name => by
    rw [evalExpr]
    exact (evaluates_expr h record).bind fun _ hr => evaluates_pure (Value.all_field hr name)
  | .setField record name e => by
    rw [evalExpr]
    exact (evaluates_expr h record).bind fun _ hr => (evaluates_expr h e).bind fun _ hv =>
      evaluates_pure (Value.all_withField hr hv name)

theorem evaluates_all {ctx : Context} (h : ctx.All P) :
    ∀ es : List Expr, Evaluates I (fun vs => ∀ v ∈ vs, v.All P) (evalAll call ctx es)
  | [] => by
    rw [evalAll]
    exact evaluates_pure (by simp)
  | e :: rest => by
    rw [evalAll]
    refine (evaluates_expr h e).bind fun v hv => (evaluates_all h rest).bind fun vs hvs =>
      evaluates_pure ?_
    rintro v' (_ | ⟨_, hv'⟩)
    · exact hv
    · exact hvs v' hv'

theorem evaluates_fields {ctx : Context} (h : ctx.All P) :
    ∀ fields : List (String × Expr), Evaluates I (Context.All P) (evalFields call ctx fields)
  | [] => by
    rw [evalFields]
    exact evaluates_pure (by simp [Context.All])
  | (name, e) :: rest => by
    rw [evalFields]
    refine (evaluates_expr h e).bind fun v hv => (evaluates_fields h rest).bind fun vs hvs =>
      evaluates_pure ?_
    rintro e' (_ | ⟨_, he'⟩)
    · exact hv
    · exact hvs e' he'

theorem evaluates_attributes {ctx : Context} (h : ctx.All P) :
    ∀ attributes : List (String × Expr),
      Evaluates I (fun _ => True) (evalAttributes call ctx attributes)
  | [] => by
    rw [evalAttributes]
    exact evaluates_pure trivial
  | (_, e) :: rest => by
    rw [evalAttributes]
    exact (evaluates_expr h e).bind fun _ _ => evaluates_get.bind fun _ _ =>
      (evaluates_attributes h rest).bind fun _ _ => evaluates_pure trivial

theorem evaluates_template {ctx : Context} (h : ctx.All P) :
    ∀ t : Template, Evaluates I (·.All P) (evalTemplate call ctx t)
  | .empty => by
    rw [evalTemplate]
    exact evaluates_pure (Node.all_empty B.empty)
  | .text data => by
    rw [evalTemplate]
    exact evaluates_pure (Node.all_text (B.text _ _))
  | .deferred body label => by
    rw [evalTemplate]
    exact evaluates_pure (Node.all_deferred (B.deferred _) (Render.all_program.2 h))
  | .textOf e driven => by
    rw [evalTemplate]
    exact (evaluates_expr h e).bind fun _ _ => evaluates_get.bind fun _ _ =>
      (gives_evalDriving driven).lift.bind fun _ _ =>
        evaluates_pure (Node.all_text (B.text _ _))
  | .element _ attributes listeners children driven => by
    rw [evalTemplate]
    exact (evaluates_attributes h attributes).bind fun _ _ =>
      (gives_evalListeners listeners).lift.bind fun _ _ =>
      (evaluates_templates h children).bind fun _ hns =>
      (gives_evalDriving driven).lift.bind fun _ _ => evaluates_pure (B.all_element _ _ _ _ hns)
  | .fragment nodes driven => by
    rw [evalTemplate]
    exact (evaluates_templates h nodes).bind fun _ hns =>
      (gives_evalDriving driven).lift.bind fun _ _ => evaluates_pure (B.all_wrap _ hns)
  | .markup segments arguments => by
    rw [evalTemplate]
    refine (evaluates_all h arguments).bind fun vs hvs => evaluates_get.bind fun w _ => ?_
    refine B.gives_parse hc segments fun v hv => ?_
    obtain ⟨v', hv', rfl⟩ := List.mem_map.1 hv
    exact Value.all_insertable (hvs v' hv') w
  | .named name => by
    rw [evalTemplate]
    exact (B.gives_lookupNode name).lift
  | .value e => by
    rw [evalTemplate]
    exact (evaluates_expr h e).bind fun _ hv => (B.gives_childNode hv).lift

theorem evaluates_templates {ctx : Context} (h : ctx.All P) :
    ∀ ts : List Template, Evaluates I (fun ns => ∀ n ∈ ns, n.All P) (evalTemplates call ctx ts)
  | [] => by
    rw [evalTemplates]
    exact evaluates_pure (by simp)
  | t :: rest => by
    rw [evalTemplates]
    refine (evaluates_template h t).bind fun n hn => (evaluates_templates h rest).bind
      fun ns hns => evaluates_pure ?_
    rintro n' (_ | ⟨_, hn'⟩)
    · exact hn
    · exact hns n' hn'

end

omit hc in
theorem gives_orLog {otherwise : α} {e : Eval α} (he : Evaluates I Q e) (ho : Q otherwise) :
    Gives I Q (orLog otherwise e) := by
  refine Gives.bind he fun r hr => ?_
  split
  · next a => exact gives_pure (hr a rfl)
  · exact (B.gives_log _).bind fun _ _ => gives_pure ho

theorem gives_calledTemplate {ctx : Context} (h : ctx.All P) (t : Template) :
    Gives I (·.All P) (calledTemplate call ctx t) :=
  B.gives_orLog (B.evaluates_template hc h t) (Node.all_empty B.empty)

theorem gives_invoke (c : ComponentId) {props : Value} {children : Option Node}
    (hprops : props.All P) (hchildren : ∀ n, children = some n → n.All P) :
    Gives I (·.All P) (c.invoke call props children) := by
  refine gives_get.bind fun w _ => ?_
  split
  · exact gives_pure (Node.all_empty B.empty)
  · refine (B.gives_log _).bind fun _ _ => B.gives_calledTemplate hc ?_ _
    rintro e (_ | ⟨_, _ | ⟨_, he⟩⟩)
    · exact hprops
    · cases children with
      | none => exact Value.all_empty
      | some n => exact Value.all_node.2 (hchildren n rfl)
    · exact absurd he List.not_mem_nil

end

/-- Components give nodes built from their props and children, however deep the calls nest. -/
theorem respond_builds (B : Building I P) (d : Nat) : (respond d).Builds I P := by
  induction d with
  | zero => exact fun _ _ _ _ _ => gives_throw _
  | succ d ih => exact fun c props children hprops hchildren =>
      B.gives_invoke ih c hprops hchildren

end Building

end LivePage
