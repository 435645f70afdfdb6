import LivePage.Proofs.Node.Building
import LivePage.Proofs.Run.Change

/-!
# Fragments are kept in collapsed form

Wrapping looks at one level only: at a lone fragment among the children, and not at what that one
was built from. One level is enough, since everything that builds a node keeps all nodes in
collapsed form (`World.Collapsed`): templates that are read, the nodes of values, components, and
the branches and lists that follow an observable, when they are made and whenever they are made
again.
-/

namespace LivePage

open LivePage.Script

variable {α : Type} {w w' : World}

/-! ## Collapsed worlds -/

/-- All nodes that the world has ready are collapsed. -/
def World.Collapsed (w : World) : Prop := ∀ n, w.Has n → n.Collapsed

theorem World.Has.of_eq {n : Node} (h : w'.Has n) (hcells : w'.cells = w.cells)
    (hnames : w'.names = w.names) (hmemos : w'.memos = w.memos) : w.Has n := by
  cases h with
  | held h hn =>
    rw [World.cell, hcells] at h
    exact .held h hn
  | named h hn => exact .named (hnames ▸ h) hn
  | remembered h hm hn => exact .remembered (hmemos ▸ h) hm hn

/-- Building keeps nodes collapsed. -/
theorem building_collapsed : Building World.Collapsed Node.Collapsed where
  stable hw hcells hnames hmemos n hn := hw n (hn.of_eq hcells hnames hmemos)
  has hw hn := hw _ hn
  empty := by simp [Node.Collapsed]
  text _ _ := by simp [Node.Collapsed]
  element _ _ _ _ _ := by simp [Node.Collapsed]
  deferred _ := by simp [Node.Collapsed]
  wrap _ h := Node.collapsed_wrap h

/-- What is held is collapsed. -/
abbrev Held.Collapsed (held : Held) : Prop := held.All Node.Collapsed

theorem World.Collapsed.held (h : w.Collapsed) (c : CellId) : (w.cell c).held.Collapsed :=
  fun _ hv m hm => h m (.held hv hm)

theorem World.Collapsed.heldNode (h : w.Collapsed) (c : CellId) :
    (w.heldNode c).All Node.Collapsed := by
  unfold World.heldNode
  split
  · next n hn => exact Value.all_node.1 (h.held c _ hn)
  · exact Node.all_empty building_collapsed.empty

/-! ## Remembered branches -/

theorem World.Collapsed.remember (h : w.Collapsed) {memos : Array Memo}
    (hmemos : ∀ (k : Nat) (memo : Memo), memos[k]? = some memo → ∀ n, memo.branch = some n →
      n.All Node.Collapsed) : ({ w with memos } : World).Collapsed := by
  intro n hn
  cases hn with
  | held hv hn => exact h n (.held hv hn)
  | named hname hn => exact h n (.named hname hn)
  | remembered hk hm hn => exact hmemos _ _ hk _ hm n hn

theorem World.Collapsed.remembered (h : w.Collapsed) {k : Nat} {memo : Memo}
    (hk : w.memos[k]? = some memo) {n : Node} (hn : memo.branch = some n) :
    n.All Node.Collapsed := fun m hm => h m (.remembered hk hn hm)

theorem World.Collapsed.lastBranch (h : w.Collapsed) (memo : MemoId) {n : Node}
    (hn : (w.memos.getD memo.index ⟨none, false⟩).branch = some n) : n.All Node.Collapsed := by
  rw [Array.getD_eq_getD_getElem?] at hn
  cases hk : w.memos[memo.index]? with
  | none =>
    rw [hk] at hn
    cases hn
  | some m =>
    rw [hk] at hn
    exact h.remembered hk hn

theorem eq_or_of_setIfInBounds {xs : Array α} {i k : Nat} {a b : α}
    (h : (xs.setIfInBounds i a)[k]? = some b) : b = a ∨ xs[k]? = some b := by
  rw [Array.getElem?_setIfInBounds] at h
  split at h
  · split at h
    · exact .inl (Option.some.inj h).symm
    · cases h
  · exact .inr h

section

variable {call : Respond} (hc : call.Builds World.Collapsed Node.Collapsed)
include hc

/-! ## Branches and lists -/

theorem gives_template (t : Template) {ctx : Context} (h : ctx.All Node.Collapsed) :
    Gives World.Collapsed (·.All Node.Collapsed) (calledTemplate call ctx t) :=
  building_collapsed.gives_calledTemplate hc h t

theorem gives_branchNode {held : Held} (h : held.Collapsed) (render fallback : Template)
    (label : Option String) :
    Gives World.Collapsed (·.All Node.Collapsed) (branchNode call render fallback label held) := by
  have hlog (what : String) := building_collapsed.gives_logLabel what label
  cases held with
  | absent => exact (hlog _).bind fun _ _ => gives_template hc fallback Context.all_nil
  | element e =>
    exact (hlog _).bind fun _ _ => gives_get.bind fun w _ =>
      gives_template hc render (Context.all_single (Value.all_str _))
  | value v =>
    exact (hlog _).bind fun _ _ => gives_get.bind fun w _ =>
      gives_template hc render (Context.all_single (h v rfl))

theorem gives_eachItem (render : Template) (label : Option String) (items : List String) :
    Gives World.Collapsed (fun ns => ∀ n ∈ ns, n.All Node.Collapsed)
      (eachItem call render label items) := by
  induction items with
  | nil => exact gives_pure (by simp)
  | cons item rest ih =>
    refine (building_collapsed.gives_logLabel _ label).bind fun _ _ =>
      (gives_template hc render (Context.all_single (Value.all_str item))).bind fun n hn =>
        ih.bind fun ns hns => gives_pure ?_
    simpa using ⟨hn, hns⟩

theorem gives_gatedBranch (render : Template) (label : Option String) :
    Gives World.Collapsed (·.All Node.Collapsed) (gatedBranch call render label) :=
  (building_collapsed.gives_logLabel _ label).bind fun _ _ =>
    gives_template hc render Context.all_nil

theorem gives_gatedNode (render : Template) (label : Option String) (memo : MemoId) (now : Bool) :
    Gives World.Collapsed (·.All Node.Collapsed) (gatedNode call render label memo now) := by
  refine gives_update (fun w hw => hw.remember fun k m hk n hn => ?_) fun w hw => ?_
  · obtain rfl | hk := eq_or_of_setIfInBounds hk
    · exact hw.lastBranch memo hn
    · exact hw.remembered hk hn
  · split
    · exact gives_pure (Node.all_empty building_collapsed.empty)
    · next n hlast => exact gives_pure (hw.lastBranch memo (by rw [hlast]))
    · refine (gives_gatedBranch hc render label).bind fun n hn =>
        (gives_modify fun w hw => ?_).bind fun _ _ => gives_pure hn
      refine hw.remember fun k m hk n' hn' => ?_
      rw [Array.getElem?_modify] at hk
      split at hk
      · obtain ⟨m', -, rfl⟩ := Option.map_eq_some_iff.1 hk
        cases hn'
        exact hn
      · exact hw.remembered hk hn'

/-- The generators of nodes that follow an observable. -/
def Generator.Follows : Generator → Prop
  | .branch .. | .each .. | .gated .. => True
  | .program .. | .template .. => False

theorem gives_generator {g : Generator} (hg : g.Follows) {sources : List Held}
    (h : ∀ held ∈ sources, held.Collapsed) :
    Gives World.Collapsed Held.Collapsed (g.run call sources) := by
  cases g with
  | program | template => exact hg.elim
  | branch render fallback label =>
    have hfirst : (firstHeld sources).Collapsed := by
      cases sources with
      | nil => rintro _ ⟨⟩
      | cons held rest => exact h held (by simp)
    exact (gives_branchNode hc hfirst render fallback label).bind fun _ hn =>
      gives_pure (Held.all_node hn)
  | each render label =>
    exact (gives_eachItem hc render label _).bind fun _ hns =>
      gives_pure (Held.all_node (building_collapsed.all_wrap none hns))
  | gated render label memo =>
    exact (gives_gatedNode hc render label memo _).bind fun _ hn => gives_pure (Held.all_node hn)

/-! ## Nodes that follow an observable -/

omit hc in
theorem gives_newCell (flavour : Flavour) (type : ValueType) {held : Held} (h : held.Collapsed) :
    Gives World.Collapsed (fun _ => True) (newCell flavour type held) := by
  refine gives_update (f := fun w => w.grown ⟨flavour, type, held, []⟩) (fun w hw n hn => ?_)
    fun _ _ => gives_pure trivial
  cases hn with
  | held hv hn =>
    rw [World.cell_grown] at hv
    split at hv
    · exact h _ hv n hn
    · exact hw n (.held hv hn)
  | named hname hn => exact hw n (.named hname hn)
  | remembered hk hm hn => exact hw n (.remembered hk hm hn)

omit hc in
theorem gives_subscribe (c : CellId) (r : Reaction) :
    Gives World.Collapsed (fun _ => True) (subscribe c r) := by
  rintro w hw a w' hrun
  rw [run_subscribe] at hrun
  cases hrun
  refine ⟨trivial, fun n hn => ?_⟩
  cases hn with
  | held hv hn => exact hw n (.held (World.held_subscribed w c _ r ▸ hv) hn)
  | named hname hn => exact hw n (.named hname hn)
  | remembered hk hm hn => exact hw n (.remembered hk hm hn)

omit hc in
theorem gives_deriveWithInitial (type : ValueType) (source : CellId) (g : Generator) {held : Held}
    (h : held.Collapsed) :
    Gives World.Collapsed (fun _ => True) (deriveWithInitial type source g held) :=
  (gives_newCell _ type h).bind fun _ _ => (gives_subscribe source _).bind fun _ _ =>
    gives_pure trivial

omit hc in
theorem gives_followNode (c : CellId) :
    Gives World.Collapsed (·.All Node.Collapsed) (followNode c) :=
  gives_get.bind fun w hw => gives_pure (building_collapsed.all_wrap _ (by
    simpa using hw.heldNode c))

theorem gives_following {g : Generator} (hg : g.Follows) (type : ValueType) (source : CellId) :
    Gives World.Collapsed (·.All Node.Collapsed)
      (deriveFrom call type source g >>= fun c => followNode c) := by
  refine Gives.bind (Q := fun _ => True) (gives_get.bind fun w hw => ?_)
    fun c _ => gives_followNode c
  refine (gives_generator hc hg ?_).bind fun held h => gives_deriveWithInitial type source g h
  simpa using hw.held source

theorem gives_conditional (source : CellId) (render : Template) (label : Option String) :
    Gives World.Collapsed (·.All Node.Collapsed) (conditional call source render label) := by
  -- What follows on the first branch, whether it was rendered or not.
  have hrest (memo : Memo) (n : Node) (hn : n.All Node.Collapsed)
      (hmemo : ∀ m, memo.branch = some m → m.All Node.Collapsed) :
      Gives World.Collapsed (·.All Node.Collapsed) (get >>= fun w =>
        set { w with memos := w.memos.push memo } >>= fun _ => do
          let c ← deriveWithInitial .node source (.gated render label ⟨w.memos.size⟩)
            (.value (.node n))
          return fragmentOf n (some c)) := by
    refine gives_update (fun w hw => hw.remember fun k m hk n' hn' => ?_) fun w hw =>
      (gives_deriveWithInitial _ source _ (Held.all_node hn)).bind fun c _ =>
        gives_pure (building_collapsed.all_wrap _ (by simpa using hn))
    rw [Array.getElem?_push] at hk
    split at hk
    · cases hk
      exact hmemo n' hn'
    · exact hw.remembered hk hn'
  refine gives_get.bind fun w _ => ?_
  dsimp only
  split
  · refine (gives_gatedBranch hc render label).bind fun n hn => hrest _ n hn ?_
    rintro _ ⟨⟩
    exact hn
  · refine Gives.bind (gives_pure (Node.all_empty building_collapsed.empty)) fun n hn =>
      hrest _ n hn ?_
    rintro _ ⟨⟩

/-! ## Branches and lists of fixed values -/

theorem gives_showFixed {held : Held} (h : held.Collapsed) (render fallback : Template) :
    Gives World.Collapsed (·.All Node.Collapsed) (showFixed call held render fallback) :=
  (gives_branchNode hc h render fallback none).bind fun _ hn =>
    gives_pure (building_collapsed.all_wrap none (by simpa using hn))

theorem gives_forEachFixed (render : Template) {values : List Value}
    (h : ∀ v ∈ values, v.All Node.Collapsed) :
    Gives World.Collapsed (fun ns => ∀ n ∈ ns, n.All Node.Collapsed)
      (forEachFixed call render values) := by
  induction values with
  | nil => exact gives_pure (by simp)
  | cons v rest ih =>
    have hv : Context.All Node.Collapsed [("v", v)] := Context.all_single (h v (by simp))
    refine (gives_template hc render hv).bind fun n hn =>
      (ih fun v' hmem => h v' (by simp [hmem])).bind fun ns hns => gives_pure ?_
    simpa using ⟨hn, hns⟩

theorem gives_conditionalFixed (shown : Bool) (render : Template) :
    Gives World.Collapsed (·.All Node.Collapsed) (conditionalFixed call shown render) := by
  have hrest (n : Node) (hn : n.All Node.Collapsed) :
      Gives World.Collapsed (·.All Node.Collapsed) (pure (fragmentOf n none)) :=
    gives_pure (building_collapsed.all_wrap none (by simpa using hn))
  unfold conditionalFixed
  dsimp only
  split
  · exact (gives_gatedBranch hc render none).bind hrest
  · exact Gives.bind (gives_pure (Node.all_empty building_collapsed.empty)) hrest

end

/-! ## Built nodes -/

/-- The nodes that are built from parts that are built the same way: by wrapping, from a value, from
a template and the components in it, by what shows a branch or a list, for an observable or for a
fixed value, and by the generators that make the branch or the list again when the observable is
emitted. What the world has ready counts among the parts. -/
inductive Node.Built : Node → Prop where
  | empty : Built .empty
  | text (data : String) (driving : Option CellId) : Built (.text data driving)
  | element {tag : String} {attributes : List (String × AttributeValue)}
    {listeners : List Listener} {children : List Node} {driving : Option CellId}
    (hchildren : ∀ n ∈ children, Built n) :
    Built (.element tag attributes listeners children driving)
  | deferred {r : Render} (hr : ∀ n ∈ r.parts, Built n) : Built (.deferred r)
  | wrap {children : List Node} {driving : Option CellId} (hchildren : ∀ n ∈ children, Built n) :
    Built (.wrap children driving)
  | ofValue {w : World} {v : Value} (hw : ∀ n, w.Has n → Built n) (hv : ∀ n ∈ v.parts, Built n) :
    Built (w.nodeOf v)
  | parse {w w' : World} {d : Nat} {segments : List String} {arguments : List Value} {n : Node}
    (hw : ∀ n, w.Has n → Built n) (hv : ∀ v ∈ arguments, ∀ n ∈ v.parts, Built n)
    (h : (Node.parse (respond d) segments arguments).run w = .ok (.ok n) w') : Built n
  | showWhen {w w' : World} {d : Nat} {source : CellId} {render fallback : Template}
    {label : Option String} {n : Node} (hw : ∀ n, w.Has n → Built n)
    (h : (showWhen (respond d) source render fallback label).run w = .ok n w') : Built n
  | forEach {w w' : World} {d : Nat} {source : CellId} {render : Template}
    {label : Option String} {n : Node} (hw : ∀ n, w.Has n → Built n)
    (h : (forEach (respond d) source render label).run w = .ok n w') : Built n
  | conditional {w w' : World} {d : Nat} {source : CellId} {render : Template}
    {label : Option String} {n : Node} (hw : ∀ n, w.Has n → Built n)
    (h : (conditional (respond d) source render label).run w = .ok n w') : Built n
  | showFixed {w w' : World} {d : Nat} {held : Held} {render fallback : Template} {n : Node}
    (hw : ∀ n, w.Has n → Built n) (hheld : ∀ v, held = .value v → ∀ n ∈ v.parts, Built n)
    (h : (showFixed (respond d) held render fallback).run w = .ok n w') : Built n
  | forEachFixed {w w' : World} {d : Nat} {render : Template} {values : List Value}
    {ns : List Node} (hw : ∀ n, w.Has n → Built n)
    (hvalues : ∀ v ∈ values, ∀ n ∈ v.parts, Built n)
    (h : (forEachFixed (respond d) render values).run w = .ok ns w') : Built (.wrap ns none)
  | conditionalFixed {w w' : World} {d : Nat} {shown : Bool} {render : Template} {n : Node}
    (hw : ∀ n, w.Has n → Built n)
    (h : (conditionalFixed (respond d) shown render).run w = .ok n w') : Built n
  | again {w w' : World} {d : Nat} {g : Generator} {sources : List Held} {n : Node}
    (hg : g.Follows) (hw : ∀ n, w.Has n → Built n)
    (hsources : ∀ held ∈ sources, ∀ v, held = .value v → ∀ n ∈ v.parts, Built n)
    (h : (g.run (respond d) sources).run w = .ok (.value (.node n)) w') : Built n
  | part {m n : Node} (hn : Built n) (hm : m ∈ n.parts) : Built m

theorem Node.Built.all_collapsed {n : Node} (h : n.Built) : n.All Node.Collapsed := by
  have B := building_collapsed
  have hcall (d : Nat) := building_collapsed.respond_builds d
  induction h with
  | empty => exact Node.all_empty B.empty
  | text data driving => exact Node.all_text (B.text _ _)
  | element _ ih => exact B.all_element _ _ _ _ ih
  | deferred _ ih => exact Node.all_deferred (B.deferred _) fun n hn => (ih n hn).self
  | wrap _ ih => exact B.all_wrap _ ih
  | ofValue _ _ hw hv => exact B.all_nodeOf (fun n hn => (hw n hn).self) fun n hn => (hv n hn).self
  | @parse w w' d _ arguments n _ _ h hw hv =>
    have hargs : ∀ v ∈ arguments, v.All Node.Collapsed := fun v hmem n hn => (hv v hmem n hn).self
    exact (B.gives_parse (hcall d) _ hargs w (fun n hn => (hw n hn).self) _ w' h).1 n rfl
  | @showWhen w w' d source render fallback label n _ h hw =>
    have hg : (Generator.branch render fallback label).Follows := trivial
    exact (gives_following (hcall d) hg .node source w (fun n hn => (hw n hn).self) n w' h).1
  | @forEach w w' d source render label n _ h hw =>
    have hg : (Generator.each render label).Follows := trivial
    exact (gives_following (hcall d) hg .node source w (fun n hn => (hw n hn).self) n w' h).1
  | @conditional w w' d source _ _ n _ h hw =>
    exact (gives_conditional (hcall d) source _ _ w (fun n hn => (hw n hn).self) n w' h).1
  | @showFixed w w' d held render fallback n _ _ h hw hheld =>
    have hcollapsed : held.Collapsed := fun v hv n hn => (hheld v hv n hn).self
    exact (gives_showFixed (hcall d) hcollapsed _ _ w (fun n hn => (hw n hn).self) n w' h).1
  | @forEachFixed w w' d render values ns _ _ h hw hvalues =>
    have hall : ∀ v ∈ values, v.All Node.Collapsed := fun v hmem n hn =>
      (hvalues v hmem n hn).self
    exact B.all_wrap none
      (gives_forEachFixed (hcall d) render hall w (fun n hn => (hw n hn).self) ns w' h).1
  | @conditionalFixed w w' d shown render n _ h hw =>
    exact (gives_conditionalFixed (hcall d) shown _ w (fun n hn => (hw n hn).self) n w' h).1
  | @again w w' d g sources n hg _ _ h hw hsources =>
    have hheld : ∀ held ∈ sources, held.Collapsed := fun held hmem v hv n hn =>
      (hsources held hmem v hv n hn).self
    exact Value.all_node.1
      ((gives_generator (hcall d) hg hheld w (fun n hn => (hw n hn).self) _ w' h).1 _ rfl)
  | part _ hm ih => exact fun p hp => ih p (Node.parts_of_part hp _ hm)

/-- In a built node every fragment around a lone fragment is driven, and so is the one inside; and
wrapping changes neither the markup of a fragment nor the observables that drive something in it. -/
theorem Node.built_collapsed :
    (∀ n : Node, n.Built → ∀ inner inside outside,
      .fragment [.fragment inner inside] outside ∈ n.parts →
        outside.isSome ∧ inside.isSome) ∧
    (∀ call children driving,
      (wrap children driving).html call = (fragment children driving).html call) ∧
    (∀ children driving,
      (wrap children driving).drivings = driving.toList ++ children.flatMap drivings) :=
  ⟨fun _ h inner inside outside hmem => h.all_collapsed _ hmem inner inside outside rfl,
    html_wrap, drivings_wrap⟩

end LivePage
