import LivePage.Proofs.Chronicle.Mounting

/-!
# Chronicles of scripts

Every step of every program has a chronicle if the answers to the requests that it makes do, and so
the answers to requests have chronicles at every depth (`respond_chronicled`).
-/

namespace LivePage

open LivePage.Script

variable {α β ε : Type} {w w' : World} {c : CellId} {d : Nat}

/-! ## Lookups and answers -/

/-- What is done with the thing of a name. -/
theorem keeps_lookup {R : World → World → Prop} [IsPreorder World R] {table : Names → Entries β}
    {name : String} {f : β → Answering α}
    (hf : ∀ w b, (name, b) ∈ table w.names → KeepsAt R (fun _ => True) w (f b).run) :
    Keeps R (fun _ => True) ((liftM (lookup table name) : Answering β) >>= f).run := by
  have hlift : ((liftM (lookup table name) : Answering β) >>= f).run =
      (lookup table name >>= fun b => (f b).run) := by
    simp only [ExceptT.run_bind, ExceptT.run_liftM, map_eq_pure_bind, bind_assoc, pure_bind]
  rw [hlift, lookup, bind_assoc]
  refine keeps_get_bind fun w => ?_
  split
  · next b hget => exact hf w b (Entries.mem_of_get? hget)
  · exact (keeps_throw trivial).start w

/-- What is decided by the world that the run starts in. -/
theorem keeps_eget_bind {R : World → World → Prop} {f : World → Answering α}
    (h : ∀ w, KeepsAt R (fun _ => True) w (f w).run) :
    Keeps R (fun _ => True) ((liftM (get : Run World) : Answering World) >>= f).run :=
  ⟨fun w => h w⟩

theorem chronicled_answering {fault : ε → Report} {act : Run (Except ε α)} (h : Chronicled act) :
    Chronicled (answering fault act).run := by
  refine h.bind fun a => ?_
  split <;> exact keeps_pure _

theorem chronicled_silently {act : Run Unit} (h : Chronicled act) :
    Chronicled (silently act).run := h.lift.ebind fun _ => keeps_epure _

theorem chronicled_edited {act : Run Edited} (h : Chronicled act) : Chronicled (edited act).run :=
  (chronicled_answering h).ebind fun _ => keeps_epure _

theorem chronicled_naming {f : Names → Names} (hs : ∀ n, (f n).subscribers = n.subscribers)
    (hw : ∀ n, (f n).watches = n.watches) : Chronicled (silently (modifyNames f)).run :=
  chronicled_silently (sparing_naming hs hw).chronicled

theorem chronicled_stepPageNode (path : NodePath) : Chronicled (stepPageNode path).run :=
  (reads_lookupPageNode path).chronicled.lift

theorem chronicled_lookup {table : Names → Entries β} (name : String) :
    Chronicled (liftM (lookup table name) : Answering β).run :=
  (reads_lookup name).chronicled.lift

theorem chronicled_get : Chronicled (liftM (get : Run World) : Answering World).run :=
  keeps_get.lift

theorem chronicled_withCell {name : String} {act : CellId → Answering Report}
    (h : ∀ c, Chronicled (act c).run) : Chronicled (withCell name act).run :=
  (chronicled_lookup name).ebind fun c => by
    rw [ExceptT.run_mk]
    exact goes_holding (h c)

theorem chronicled_storeNode (as : Option String) (n : Node) :
    Chronicled (storeNode as n).run := by
  unfold storeNode
  split
  · exact Keeps.ebind (Keeps.lift (Sparing.chronicled (sparing_naming (fun _ => rfl) fun _ => rfl)))
      fun _ => chronicled_get.ebind fun _ => keeps_epure _
  · exact chronicled_get.ebind fun _ => keeps_epure _

theorem chronicled_stepCells (names : List String) : Chronicled (stepCells names).run := by
  induction names with
  | nil => exact keeps_epure _
  | cons name rest ih =>
    exact (chronicled_lookup name).ebind fun _ => ih.ebind fun _ => keeps_epure _

/-! ## Subscriptions of programs -/

theorem chronicled_subscriberCount (c : CellId) : Chronicled (subscriberCount c) :=
  keeps_get.bind fun _ => keeps_pure _

theorem chronicled_count (c : CellId) :
    Chronicled (do return .count (← subscriberCount c) : Answering Report).run :=
  (chronicled_subscriberCount c).lift.ebind fun _ => keeps_epure _

/-- A program subscribes, and its key is noted before anything else happens. -/
theorem chronicled_enrolled {r : Reaction} {f : Nat → Names → Names} {g : Answering α}
    (hr : ¬ r.onPage) (hf : ∀ (n : Names) key, n.Enrols (f key n) key r) (hg : Chronicled g.run) :
    Chronicled (do
      let key ← liftM (subscribe c r)
      liftM (modifyNames (f key))
      g : Answering α).run := by
  refine ⟨fun w => ?_⟩
  have hsubscribed : (Move.subscribed c w.nextKey r).Changes w
      { w.subscribed c r with names := f w.nextKey w.names } :=
    ⟨rfl, fun h => absurd h hr, _, rfl, hf ..⟩
  have hvia : KeepsAt (Via Move.Clean) (fun _ => True) w
      (set ({ w.subscribed c r with names := f w.nextKey w.names } : World)) :=
    keepsAt_set (.single (by exact hr) hsubscribed)
  exact hvia.bind fun _ => hg

theorem chronicled_stepSubscribe (handler : String) (acts : List Step) (times : Nat) (c : CellId) :
    Chronicled (stepSubscribe handler acts times c).run := by
  refine keeps_eget_bind fun w => ?_
  split
  · next key r hget =>
    refine KeepsAt.bind (x := set (w.withCell c (·.subscribe key r))) (keepsAt_set ?_) fun _ =>
      chronicled_count c
    have hchange : (Move.resubscribed c key r).Changes w (w.withCell c (·.subscribe key r)) :=
      ⟨⟨_, Entries.mem_of_get? hget⟩, rfl⟩
    exact .single (by trivial) hchange
  · refine Keeps.start (Keeps.ebind (sparing_newCallback acts times).chronicled.lift
      fun program => ?_) w
    refine chronicled_enrolled (r := .subscriber handler program) id (fun n key => ?_)
      (chronicled_count c)
    refine ⟨fun e he => ?_, fun _ => .inl⟩
    rcases Entries.of_mem_set he with he | rfl
    · exact .inl he
    · exact .inr ⟨rfl, id⟩

theorem chronicled_stepWatch (as : String) (acts : List Step) (times : Nat) (c : CellId) :
    Chronicled (stepWatch as acts times c).run := by
  refine (sparing_newCallback acts times).chronicled.lift.ebind fun program => ?_
  refine chronicled_enrolled (r := .watch as program) id (fun n key => ?_) (keeps_epure _)
  refine ⟨fun _ => .inl, fun e he => ?_⟩
  rcases Entries.of_mem_set he with he | rfl
  · exact .inl he
  · exact .inr ⟨rfl, id⟩

theorem goes_unsubscribe {key : Nat} (h : w.names.Knows key) (c : CellId) :
    KeepsAt (Via Move.Clean) (fun _ => True) w (modifyCell c (·.unsubscribe key)) := by
  have hchange : (Move.unsubscribed c key).Changes w (w.withCell c (·.unsubscribe key)) := ⟨h, rfl⟩
  exact Via.single (by trivial) hchange

theorem chronicled_stepUnsubscribe (handler : String) (c : CellId) :
    Chronicled (stepUnsubscribe handler c).run := by
  rw [stepUnsubscribe, subscriberKey, bind_assoc]
  refine keeps_lookup fun w (key, r) hb => ?_
  have hkey : w.names.Knows key := .inl ⟨_, hb, rfl⟩
  exact (goes_unsubscribe hkey c).bind fun _ => chronicled_count c

theorem chronicled_stepCancel (watch : String) : Chronicled (stepCancel watch).run := by
  have hforget : Sparing (modifyNames fun n =>
      { n with watches := Entries.erase watch n.watches }) :=
    sparing_modifyNames (fun _ _ he => he) fun _ _ he => (List.mem_filter.1 he).1
  refine keeps_lookup fun w (c, key) hb => ?_
  have hkey : w.names.Knows key := .inr ⟨_, hb, rfl⟩
  exact (goes_unsubscribe hkey c).bind fun _ => chronicled_silently hforget.chronicled

/-! ## Steps that make nothing but reads and small changes -/

theorem chronicled_stepOnFailure (handler : String) (acts : List Step) (times : Nat) (c : CellId) :
    Chronicled (stepOnFailure handler acts times c).run :=
  (sparing_newCallback ..).chronicled.lift.ebind fun _ =>
    chronicled_silently (sparing_modifySettlement ..).chronicled

theorem chronicled_stepOnEither (handler : String) (acts : List Step) (times : Nat) (c : CellId) :
    Chronicled (stepOnEither handler acts times c).run :=
  (sparing_newCallback ..).chronicled.lift.ebind fun _ =>
    chronicled_silently (sparing_modifySettlement ..).chronicled

theorem chronicled_stepAddChecker (checker : Checker) (c : CellId) :
    Chronicled (stepAddChecker checker c).run := by
  have hadd : Sparing (modifyCell c (·.addChecker checker)) := by
    refine sparing_modifyCell ?_ ?_ c <;> exact fun _ => rfl
  exact hadd.chronicled.lift.ebind fun _ => chronicled_get.ebind fun _ => keeps_epure _

theorem chronicled_stepField (field as : String) (type : ValueType) (c : CellId) :
    Chronicled (stepField field as type c).run :=
  (sparing_storeField ..).chronicled.lift.ebind fun _ =>
    chronicled_silently (sparing_nameCell ..).chronicled

theorem chronicled_stepComponent (as : String) (template : Template) :
    Chronicled (stepComponent as template).run := by
  refine ⟨fun w => ?_⟩
  have hpush : Spares w { w with components := w.components.push ⟨as, template⟩ } :=
    spares_of_same rfl rfl rfl rfl
  have hname : Sparing (modifyNames fun n =>
      { n with components := Entries.set as ⟨w.components.size⟩ n.components }) :=
    sparing_naming (fun _ => rfl) fun _ => rfl
  have hrest : Chronicled (do
      modifyNames fun n => { n with components := Entries.set as ⟨w.components.size⟩ n.components }
      return .text (⟨w.components.size⟩ : ComponentId).name : Answering Report).run :=
    hname.chronicled.lift.ebind fun _ => keeps_epure _
  exact (keepsAt_set (hpush.via trivial)).bind fun _ => hrest

theorem chronicled_stepHandler (as : String) (stop prevent : Bool) (acts : List Step)
    (times : Nat) : Chronicled (stepHandler as stop prevent acts times).run :=
  (sparing_newCallback ..).chronicled.lift.ebind fun _ => (reads_newHandler _).chronicled.lift.ebind
    fun _ => chronicled_naming (fun _ => rfl) fun _ => rfl

theorem chronicled_describeAndStore (as : Option String) (n : Option PageNode) :
    Chronicled (describeAndStore as n).run := by
  cases n with
  | none => exact keeps_epure _
  | some n =>
    cases as with
    | none => exact chronicled_get.ebind fun _ => keeps_epure _
    | some name =>
      have hname : Sparing (namePageNode name n) := sparing_naming (fun _ => rfl) fun _ => rfl
      exact hname.chronicled.lift.ebind fun _ => chronicled_get.ebind fun _ => keeps_epure _

theorem chronicled_stepEdit {node : NodePath} {act : PageNode → Run Edited}
    (h : ∀ n, Chronicled (act n)) : Chronicled (stepEdit node act).run :=
  (chronicled_stepPageNode node).ebind fun n => chronicled_edited (h n)

theorem chronicled_withTwo {node child : NodePath} {act : PageNode → PageNode → Run Edited}
    (h : ∀ n c, Chronicled (act n c)) : Chronicled (withTwo node child act).run :=
  (chronicled_stepPageNode node).ebind fun n => (chronicled_stepPageNode child).ebind fun c =>
    chronicled_edited (h n c)

theorem chronicled_stepInsert (node child : NodePath) (before : Option NodePath) :
    Chronicled (stepInsert node child before).run := by
  refine (chronicled_stepPageNode node).ebind fun n => (chronicled_stepPageNode child).ebind
    fun c => ?_
  cases before with
  | none => exact chronicled_edited (sparing_insertBefore ..).chronicled
  | some path =>
    exact (chronicled_stepPageNode path).ebind fun _ =>
      chronicled_edited (sparing_insertBefore ..).chronicled

theorem chronicled_stepRead (node : NodePath) (read : Page → Nat → Option String) :
    Chronicled (stepRead node read).run :=
  (chronicled_stepPageNode node).ebind fun _ => chronicled_get.ebind fun _ => keeps_epure _

theorem chronicled_stepPrint (node : NodePath) (print : Page → Nat → String) :
    Chronicled (stepPrint node print).run :=
  (chronicled_stepPageNode node).ebind fun _ => chronicled_get.ebind fun _ => keeps_epure _

theorem chronicled_stepGrab (node : NodePath) (as : Option String)
    (follow : Page → Nat → Option Nat) : Chronicled (stepGrab node as follow).run :=
  (chronicled_stepPageNode node).ebind fun _ => chronicled_get.ebind fun _ =>
    chronicled_describeAndStore ..

theorem chronicled_stepUnlisten (node : NodePath) (type handler : String) :
    Chronicled (stepUnlisten node type handler).run :=
  (chronicled_stepPageNode node).ebind fun _ => (chronicled_lookup handler).ebind fun _ =>
    (sparing_unlisten ..).chronicled.lift.ebind fun _ => chronicled_get.ebind fun _ => keeps_epure _

theorem chronicled_storeTeardown (as : String) (m : Teardown) :
    Chronicled (storeTeardown as m).run :=
  Keeps.ebind (Keeps.lift (Sparing.chronicled (sparing_naming (fun _ => rfl) fun _ => rfl)))
    fun _ => chronicled_get.ebind fun _ => keeps_epure _

theorem chronicled_stepInspect (of : Inspected) (name : String) :
    Chronicled (stepInspect of name).run := by
  refine Keeps.ebind (Keeps.lift ?_) fun _ => keeps_epure _
  have hlookup {β : Type} {table : Names → Entries β} : Chronicled (lookup table name) :=
    (reads_lookup name).chronicled
  cases of with
  | component | watch => exact hlookup.bind fun _ => keeps_pure _
  | node => exact hlookup.bind fun _ => keeps_get.bind fun _ => keeps_pure _
  | _ => exact keeps_get.bind fun _ => hlookup.bind fun _ => keeps_pure _

theorem chronicled_stepRegion (parent : NodePath) (label : Option String) (as : String) :
    Chronicled (stepRegion parent label as).run :=
  (chronicled_stepPageNode parent).ebind fun _ =>
    (chronicled_answering (sparing_openRegion ..).chronicled).ebind fun _ =>
      chronicled_naming (fun _ => rfl) fun _ => rfl

/-! ## Steps that make requests -/

section

variable (hd : (respond d).Chronicled)
include hd

theorem chronicled_stepValue (e : Expr) : Chronicled (stepValue (respond d) e).run :=
  (reads_answering (reads_evalExpr hd.reads [] e)).chronicled

theorem chronicled_stepNode (t : Template) : Chronicled (stepNode (respond d) t).run :=
  (reads_answering (reads_evalTemplate hd.reads [] t)).chronicled

theorem chronicled_stepArguments (es : List Expr) :
    Chronicled (stepArguments (respond d) es).run :=
  (reads_answering (reads_evalAll hd.reads [] es)).chronicled.ebind fun _ =>
    chronicled_get.ebind fun _ => keeps_epure _

theorem chronicled_stepChange (c : CellId) (change : Change) :
    Chronicled (stepChange (respond d) c change).run := by
  have heval : ∀ current, Reads (change.eval (respond d) current).run := fun current => by
    cases change with
    | value e => exact reads_evalExpr hd.reads _ e
    | compute e => exact (reads_calledExpr hd.reads _ e).lift
  exact chronicled_get.ebind fun _ => (reads_answering (heval _)).chronicled.ebind fun _ =>
    chronicled_get.ebind fun _ => keeps_epure _

theorem chronicled_stepSet (change : Change) (c : CellId) :
    Chronicled (stepSet (respond d) change c).run :=
  (chronicled_stepChange hd c change).ebind fun _ =>
    chronicled_silently (goes_hold (fun _ => trivial) _)

theorem chronicled_stepUpdate (change : Change) (c : CellId) :
    Chronicled (stepUpdate (respond d) change c).run := by
  refine (chronicled_stepChange hd c change).ebind fun held => chronicled_get.ebind fun w => ?_
  split
  · exact (chronicled_updateState hd c held).lift.ebind fun _ => keeps_epure _
  · exact chronicled_silently (chronicled_updateStore hd c held)
  · exact chronicled_silently (chronicled_updateField hd c _ _ held)
  · exact (reads_unknown _).chronicled.lift

theorem chronicled_stepFlip (c : CellId) : Chronicled (stepFlip (respond d) c).run :=
  chronicled_get.ebind fun _ => (chronicled_updateState hd c _).lift.ebind fun _ => keeps_epure _

theorem chronicled_stepPush (slice : String) (c : CellId) :
    Chronicled (stepPush (respond d) slice c).run :=
  chronicled_get.ebind fun _ => (chronicled_updateState hd c _).lift.ebind fun _ => keeps_epure _

theorem chronicled_stepNew (as : String) (kind : NewKind) (type : ValueType) (value : Expr)
    (checkers : List Checker) :
    Chronicled (stepNew (respond d) as kind type value checkers).run := by
  refine (chronicled_stepValue hd value).ebind fun v => chronicled_get.ebind fun w => ?_
  cases kind <;>
    exact (sparing_newCell ..).chronicled.lift.ebind fun c =>
      chronicled_silently (sparing_nameCell as c).chronicled

theorem chronicled_stepDerive (as : String) (type : ValueType) (sources : List String)
    (mode : DeriveMode) (body : Expr) (label : Option String) (initial : Expr) :
    Chronicled (stepDerive (respond d) as type sources mode body label initial).run := by
  have hname (c : CellId) : Chronicled (silently (nameCell as c)).run :=
    chronicled_silently (sparing_nameCell as c).chronicled
  refine (chronicled_stepCells sources).ebind fun cells => ?_
  dsimp only
  split
  · exact (chronicled_deriveFrom hd ..).lift.ebind hname
  · exact (chronicled_stepValue hd initial).ebind fun _ => chronicled_get.ebind fun _ =>
      (chronicled_deriveWithInitial ..).lift.ebind hname
  · exact (chronicled_deriveFromTwo hd ..).lift.ebind hname
  · exact (chronicled_deriveFromAll hd ..).lift.ebind hname
  · exact (chronicled_deriveFromAny hd ..).lift.ebind hname
  · exact (reads_unknown _).chronicled.lift.ebind hname

theorem chronicled_stepText (as : String) (segments : List String) (arguments : List Expr) :
    Chronicled (stepText (respond d) as segments arguments).run :=
  (chronicled_stepArguments hd arguments).ebind fun _ =>
    (chronicled_deriveFromAny hd ..).lift.ebind fun c =>
      chronicled_silently (sparing_nameCell as c).chronicled

theorem chronicled_stepLater (as task : String) (polls : Nat) (outcome : Outcome) :
    Chronicled (stepLater (respond d) as task polls outcome).run := by
  have hrest (outcome : Except String Value) : Chronicled (do
      let later ← newCell (.later {}) .opt .absent
      nameCell as later
      silently (modifyTasks (Entries.set task ⟨later, polls, outcome⟩)) : Answering Report).run :=
    (sparing_newCell ..).chronicled.lift.ebind fun c =>
      (sparing_nameCell as c).chronicled.lift.ebind fun _ =>
        chronicled_silently (sparing_modifyTasks _).chronicled
  cases outcome with
  | ok e => exact (chronicled_stepValue hd e).ebind fun _ => hrest _
  | failed message => exact hrest _

theorem chronicled_stepPoll (task : String) : Chronicled (stepPoll (respond d) task).run :=
  (chronicled_lookup task).ebind fun t => (chronicled_poll hd t task).lift.ebind fun _ =>
    keeps_epure _

theorem chronicled_stepAttach (node : NodePath) (c : CellId) :
    Chronicled (stepAttach (respond d) node c).run :=
  (chronicled_stepPageNode node).ebind fun n => (chronicled_attach hd c n).lift.ebind fun _ =>
    chronicled_get.ebind fun _ => keeps_epure _

theorem chronicled_stepKillRef (c : CellId) : Chronicled (stepKillRef (respond d) c).run :=
  (chronicled_killRef hd c).lift.ebind fun _ => chronicled_get.ebind fun _ => keeps_epure _

theorem chronicled_callParse (segments : List String) (values : List Value) :
    Chronicled (answering parseFault (Node.parse (respond d) segments values)).run :=
  (reads_answering (reads_parse hd.reads segments values)).chronicled

theorem chronicled_html (n : Node) : Chronicled (n.html (respond d)) :=
  (reads_html hd.reads n).chronicled

theorem chronicled_classify (v : Value) : Chronicled (classify (respond d) v).run :=
  chronicled_get.ebind fun _ => (reads_childNode _).chronicled.lift.ebind fun n =>
    (chronicled_html hd n).lift.ebind fun _ => keeps_epure _

theorem chronicled_stepCall (component : String) (form : CallForm) (props : Expr)
    (children : Option Template) (as : Option String) :
    Chronicled (stepCall (respond d) component form props children as).run := by
  have hrest (c : ComponentId) (props : Value) (children : Option Node) : Chronicled (do
      let n ← c.invoke (respond d) props children
      storeNode as n : Answering Report).run :=
    (reads_invoke hd.reads c props children).chronicled.lift.ebind fun n =>
      chronicled_storeNode as n
  refine (chronicled_lookup component).ebind fun c => (chronicled_stepValue hd props).ebind
    fun v => ?_
  cases children with
  | some t => exact (chronicled_stepNode hd t).ebind fun n => hrest c _ _
  | none => exact hrest c _ _

omit hd in
theorem chronicled_stepFollow (as : String) {make : Run Node} (h : Chronicled make) :
    Chronicled (stepFollow as make).run :=
  h.lift.ebind fun n => chronicled_storeNode _ n

omit hd in
theorem chronicled_stepFixed {make : Run Node} (h : Reads make) : Chronicled (stepFixed make).run :=
  h.chronicled.lift.ebind fun _ => chronicled_get.ebind fun _ => keeps_epure _

theorem chronicled_stepDispatch (node : NodePath) (type : String) (inspect : Bool) :
    Chronicled (stepDispatch (respond d) node type inspect).run :=
  (chronicled_stepPageNode node).ebind fun _ => (chronicled_dispatch hd ..).lift.ebind fun _ =>
    chronicled_get.ebind fun _ => keeps_epure _

theorem chronicled_stepRealize (template : Template) (as fragment : String) (labelled : Bool) :
    Chronicled (stepRealize (respond d) template as fragment labelled).run := by
  have hname (n : PageNode) : Sparing (namePageNode fragment n) :=
    sparing_naming (fun _ => rfl) fun _ => rfl
  exact (chronicled_stepNode hd template).ebind fun _ =>
    (chronicled_answering (chronicled_realize hd ..)).ebind fun realized =>
      (hname realized.fragment).chronicled.lift.ebind fun _ => chronicled_storeTeardown ..

theorem chronicled_stepRender (root : NodePath) (template : Template) (as : String)
    (labelled : Bool) : Chronicled (stepRender (respond d) root template as labelled).run :=
  (chronicled_stepPageNode root).ebind fun _ => (chronicled_stepNode hd template).ebind fun _ =>
    (chronicled_answering (goes_holding (chronicled_renderInto hd ..))).ebind fun _ =>
      chronicled_storeTeardown ..

theorem chronicled_stepKill (name : String) : Chronicled (stepKill (respond d) name).run := by
  have hforget : Sparing (modifyNames fun n =>
      { n with teardowns := Entries.erase name n.teardowns }) :=
    sparing_naming (fun _ => rfl) fun _ => rfl
  refine (chronicled_lookup name).ebind fun m => hforget.chronicled.lift.ebind fun _ =>
    chronicled_silently (goes_holding ((hd.kill m).mono ?_))
  rintro _ rfl
  trivial

omit hd in
/-- A step that answers with what it finds in the world. -/
theorem chronicled_asking {f : World → Report} :
    Chronicled (do return f (← get) : Answering Report).run :=
  chronicled_get.ebind fun _ => keeps_epure _

/-- Every step has a chronicle. -/
theorem chronicled_step (step : Step) : Chronicled (stepAnswer (respond d) step).run := by
  cases step with
  | new => exact chronicled_stepNew hd ..
  | derive => exact chronicled_stepDerive hd ..
  | text => exact chronicled_stepText hd ..
  | field => exact chronicled_withCell fun c => chronicled_stepField ..
  | fieldCount | value | settled | attached => exact chronicled_withCell fun c => chronicled_asking
  | «alias» =>
    exact chronicled_withCell fun c => chronicled_silently (sparing_nameCell ..).chronicled
  | drop name =>
    refine chronicled_silently (Sparing.chronicled (sparing_modifyNames ?_ ?_))
    all_goals exact fun _ _ he => (List.mem_filter.1 he).1
  | update c change => exact chronicled_withCell (chronicled_stepUpdate hd change)
  | set c change => exact chronicled_withCell (chronicled_stepSet hd change)
  | setValue c value => exact chronicled_withCell (chronicled_stepSet hd _)
  | emit => exact chronicled_withCell fun c => chronicled_silently (chronicled_emit hd c)
  | flip => exact chronicled_withCell (chronicled_stepFlip hd)
  | push c slice => exact chronicled_withCell (chronicled_stepPush hd slice)
  | addChecker => exact chronicled_withCell (chronicled_stepAddChecker _)
  | subscribe => exact chronicled_withCell fun _ => chronicled_stepSubscribe ..
  | unsubscribe => exact chronicled_withCell (chronicled_stepUnsubscribe _)
  | isSubscribed c handler =>
    exact chronicled_withCell fun c => Keeps.ebind
      ((chronicled_lookup handler).ebind fun _ => keeps_epure _) fun _ => chronicled_asking
  | unsubscribeAll =>
    exact chronicled_withCell fun c => chronicled_silently (goes_unsubscribeAll trivial)
  | count =>
    exact chronicled_withCell fun c => (chronicled_subscriberCount c).lift.ebind fun _ =>
      keeps_epure _
  | watch => exact chronicled_withCell fun _ => chronicled_stepWatch ..
  | cancel => exact chronicled_stepCancel _
  | weak => exact chronicled_withCell fun c => chronicled_naming (fun _ => rfl) fun _ => rfl
  | alive weak => exact (chronicled_lookup weak).ebind fun c => chronicled_asking
  | same a b | sameHandler a b =>
    exact (chronicled_lookup a).ebind fun _ => (chronicled_lookup b).ebind fun _ => keeps_epure _
  | identify c => exact (chronicled_lookup c).ebind fun _ => keeps_epure _
  | later => exact chronicled_stepLater hd ..
  | poll => exact chronicled_stepPoll hd _
  | resolve c value =>
    exact chronicled_withCell fun c => (chronicled_stepValue hd value).ebind fun v =>
      chronicled_silently (chronicled_resolve hd c v)
  | reject => exact chronicled_withCell fun c => chronicled_silently (chronicled_reject hd c _)
  | onCatch => exact chronicled_withCell fun _ => chronicled_stepOnFailure ..
  | onFinally => exact chronicled_withCell fun _ => chronicled_stepOnEither ..
  | attach c node => exact chronicled_withCell (chronicled_stepAttach hd node)
  | killRef => exact chronicled_withCell (chronicled_stepKillRef hd)
  | node t as => exact (chronicled_stepNode hd t).ebind fun n => chronicled_storeNode as n
  | parse segments arguments as =>
    exact (chronicled_stepArguments hd arguments).ebind fun values =>
      (chronicled_callParse hd segments values).ebind fun n => chronicled_storeNode as n
  | html t =>
    exact (chronicled_stepNode hd t).ebind fun n => (chronicled_html hd n).lift.ebind fun _ =>
      keeps_epure _
  | classify value =>
    exact (chronicled_stepValue hd value).ebind fun v => chronicled_classify hd v
  | eval value | inspectValue value =>
    exact (chronicled_stepValue hd value).ebind fun _ => chronicled_asking
  | shape t => exact (chronicled_stepNode hd t).ebind fun _ => chronicled_asking
  | component => exact chronicled_stepComponent ..
  | call => exact chronicled_stepCall hd ..
  | handler => exact chronicled_stepHandler ..
  | showWhen =>
    exact chronicled_withCell fun c => chronicled_stepFollow _ (chronicled_showWhen hd ..)
  | forEach =>
    exact chronicled_withCell fun c => chronicled_stepFollow _ (chronicled_forEach hd ..)
  | conditional =>
    exact chronicled_withCell fun c => chronicled_stepFollow _ (chronicled_conditional hd ..)
  | showStatic value =>
    exact (chronicled_stepValue hd value).ebind fun _ => chronicled_get.ebind fun _ =>
      chronicled_stepFixed (reads_showFixed hd ..)
  | forEachStatic items =>
    exact (reads_answering (reads_evalAll hd.reads [] items)).chronicled.ebind fun _ =>
      chronicled_stepFixed ((reads_forEachFixed hd ..).bind fun _ => keeps_pure _)
  | conditionalStatic value =>
    exact (chronicled_stepValue hd value).ebind fun _ =>
      chronicled_stepFixed (reads_conditionalFixed hd ..)
  | suspense as fallback =>
    exact (chronicled_stepNode hd fallback).ebind fun n =>
      (sparing_newBoundary n).chronicled.lift.ebind fun b =>
        chronicled_naming (fun _ => rfl) fun _ => rfl
  | pending suspense c as =>
    exact chronicled_withCell fun c => (chronicled_lookup suspense).ebind fun b =>
      (chronicled_awaitIn b c).lift.ebind fun n => chronicled_storeNode _ n
  | finish suspense t as =>
    exact (chronicled_lookup suspense).ebind fun b => (chronicled_stepNode hd t).ebind fun n =>
      (sparing_finishBoundary b n).chronicled.lift.ebind fun n => chronicled_storeNode _ n
  | boundary suspense =>
    refine (chronicled_lookup suspense).ebind fun b => chronicled_get.ebind fun w => ?_
    split <;> exact keeps_epure _
  | document =>
    exact sparing_newPage.chronicled.lift.ebind fun p =>
      chronicled_naming (fun _ => rfl) fun _ => rfl
  | enter document =>
    exact (chronicled_lookup document).ebind fun p => chronicled_silently (Sparing.chronicled
      (keeps_modify fun _ => spares_of_same rfl rfl rfl rfl))
  | leave =>
    exact chronicled_silently (Sparing.chronicled
      (keeps_modify fun _ => spares_of_same rfl rfl rfl rfl))
  | active => exact chronicled_asking
  | nodeCount document =>
    exact (chronicled_lookup document).ebind fun p => (sparing_countNodes p).chronicled.lift.ebind
      fun _ => keeps_epure _
  | createElement document | createText document | createComment document
  | createFragment document =>
    exact (chronicled_lookup document).ebind fun p =>
      (sparing_createNode ..).chronicled.lift.ebind fun n => chronicled_describeAndStore ..
  | append => exact chronicled_withTwo fun _ _ => (sparing_insertBefore ..).chronicled
  | removeChild => exact chronicled_withTwo fun _ _ => (sparing_removeChild ..).chronicled
  | replaceChildren => exact chronicled_withTwo fun _ _ => (sparing_replaceChildren ..).chronicled
  | insert => exact chronicled_stepInsert ..
  | remove node =>
    exact (chronicled_stepPageNode node).ebind fun n =>
      chronicled_silently (sparing_remove n).chronicled
  | setAttribute | removeAttribute | setStyle | removeStyle =>
    exact chronicled_stepEdit fun n => (sparing_editPage ..).chronicled
  | getAttribute node name => exact chronicled_stepRead node fun p i => p.getAttribute i name
  | getStyle node name => exact chronicled_stepRead node fun p i => p.getStyle i name
  | listen node type handler =>
    exact (chronicled_lookup handler).ebind fun h =>
      chronicled_stepEdit fun n => (sparing_editPage ..).chronicled
  | unlisten => exact chronicled_stepUnlisten ..
  | dispatch => exact chronicled_stepDispatch hd ..
  | outer | inner => exact chronicled_stepPrint ..
  | info node => exact (chronicled_stepPageNode node).ebind fun _ => chronicled_asking
  | grab node as => exact chronicled_stepGrab node as fun _ i => some i
  | parent node as => exact chronicled_stepGrab node as fun p i => (p.slot i).parent
  | next node as => exact chronicled_stepGrab node as Page.nextSibling
  | sameNode a b =>
    exact (chronicled_stepPageNode a).ebind fun _ => (chronicled_stepPageNode b).ebind fun _ =>
      keeps_epure _
  | realize => exact chronicled_stepRealize hd ..
  | render => exact chronicled_stepRender hd ..
  | teardownSize name => exact (chronicled_lookup name).ebind fun _ => chronicled_asking
  | kill => exact chronicled_stepKill hd _
  | region => exact chronicled_stepRegion ..
  | splice region node =>
    exact (chronicled_lookup region).ebind fun r => (chronicled_stepPageNode node).ebind fun n =>
      chronicled_edited (sparing_splice r n).chronicled
  | contents region => exact (chronicled_lookup region).ebind fun _ => chronicled_asking
  | grabAnchor region =>
    exact (chronicled_lookup region).ebind fun _ => chronicled_get.ebind fun _ =>
      chronicled_describeAndStore ..
  | inspect => exact chronicled_stepInspect ..

/-- The steps of a program that is called back have a chronicle. -/
theorem chronicled_performAll (acts : List Step) : Chronicled (performAll (respond d) acts) := by
  induction acts with
  | nil => exact keeps_pure _
  | cons step rest ih =>
    have hreport : Chronicled (reported (stepAnswer (respond d) step)) := by
      refine (chronicled_step hd step).bind fun r => ?_
      split <;> exact keeps_pure _
    exact hreport.bind fun _ => (reads_log _).chronicled.bind fun _ => ih

end

/-! ## At every depth -/

theorem respond_chronicled (d : Nat) : (respond d).Chronicled := by
  induction d with
  | zero =>
    exact {
      reads := respond_reads 0
      react := fun _ _ => keeps_throw trivial
      perform := fun _ => keeps_throw trivial
      realize := fun _ _ _ => keeps_throw trivial
      rebuild := fun _ _ => keeps_throw trivial
      kill := fun _ => keeps_throw trivial
      bubble := fun _ _ => keeps_throw trivial }
  | succ d ih =>
    exact {
      reads := respond_reads _
      react := chronicled_react ih
      perform := chronicled_performAll ih
      realize := fun r n parent => chronicled_realizeNode ih r parent n
      rebuild := chronicled_rebuild ih
      kill := goes_kill ih
      bubble := chronicled_bubble ih }

end LivePage
