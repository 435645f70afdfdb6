import LivePage.Node.Html

/-!
# The nodes inside of a node

`Node.parts` lists a node with everything inside of it: the children of elements and fragments, and
the nodes that a deferred render function has in its variables or its props. `wrap_cases` says what
wrapping gives: the fragment around a lone fragment goes, unless both are driven. So wrapping
collapsed nodes gives a collapsed node (`collapsed_wrap`), whatever the lone fragment was built
from; and neither the markup nor the observables that drive something change by it.
-/

set_option linter.unusedSectionVars false

namespace LivePage

/-! ## Parts -/

mutual

/-- The nodes inside of a value. -/
def Value.parts : Value → List Node
  | .node n => n.parts
  | .render r => r.parts
  | .component _ _ props => props.parts
  | .record fields => Value.fieldParts fields
  | .empty | .scalar _ | .observable _ | .ref _ | .handler _ | .list _ | .style _ => []

/-- The nodes inside of named values. -/
def Value.fieldParts : List (String × Value) → List Node
  | [] => []
  | (_, v) :: rest => v.parts ++ Value.fieldParts rest

/-- A node and the nodes inside of it. -/
def Node.parts : Node → List Node
  | .empty => [.empty]
  | .text data driving => [.text data driving]
  | .element tag attributes listeners children driving =>
    .element tag attributes listeners children driving :: Node.allParts children
  | .fragment children driving => .fragment children driving :: Node.allParts children
  | .deferred r => .deferred r :: r.parts

/-- Nodes and the nodes inside of them. -/
def Node.allParts : List Node → List Node
  | [] => []
  | n :: rest => n.parts ++ Node.allParts rest

/-- The nodes that a render function can show. -/
def Render.parts : Render → List Node
  | .program _ _ context => Value.fieldParts context
  | .component _ props => props.parts
  | .handler _ | .pending _ => []

end

/-- The observables that drive a node or something inside of it. -/
def Node.drivings (n : Node) : List CellId := n.parts.filterMap Node.driving

variable {P : Node → Prop} {n m : Node} {children : List Node} {driving : Option CellId}

@[simp] theorem Node.mem_allParts : m ∈ Node.allParts children ↔ ∃ n ∈ children, m ∈ n.parts := by
  induction children with
  | nil => simp [allParts]
  | cons n children ih => simp [allParts, ih]

@[simp] theorem Value.mem_fieldParts {fields : List (String × Value)} :
    m ∈ Value.fieldParts fields ↔ ∃ e ∈ fields, m ∈ e.2.parts := by
  induction fields with
  | nil => simp [fieldParts]
  | cons e fields ih => simp [fieldParts, ih]

theorem Node.mem_parts_self (n : Node) : n ∈ n.parts := by
  cases n <;> simp [parts]

section

variable {p : Node} (hp : p ∈ m.parts)
include hp

mutual

theorem Value.parts_of_part : ∀ v : Value, m ∈ v.parts → p ∈ v.parts
  | .node n, h => by
    rw [Value.parts] at h ⊢
    exact Node.parts_of_part n h
  | .render r, h => by
    rw [Value.parts] at h ⊢
    exact Render.parts_of_part r h
  | .component _ _ props, h => by
    rw [Value.parts] at h ⊢
    exact Value.parts_of_part props h
  | .record fields, h => by
    rw [Value.parts] at h ⊢
    exact Value.fieldParts_of_part fields h
  | .empty, h | .scalar _, h | .observable _, h | .ref _, h | .handler _, h | .list _, h
  | .style _, h => by simp [Value.parts] at h

theorem Value.fieldParts_of_part : ∀ fields : List (String × Value),
    m ∈ Value.fieldParts fields → p ∈ Value.fieldParts fields
  | [], h => by simp [Value.fieldParts] at h
  | (_, v) :: rest, h => by
    rw [Value.fieldParts, List.mem_append] at h ⊢
    exact h.imp (Value.parts_of_part v) (Value.fieldParts_of_part rest)

/-- What is inside of a part is inside of the whole. -/
theorem Node.parts_of_part : ∀ n : Node, m ∈ n.parts → p ∈ n.parts
  | .empty, h | .text .., h => by
    rw [Node.parts, List.mem_singleton] at h
    subst h
    exact hp
  | .element _ _ _ children _, h | .fragment children _, h => by
    rw [Node.parts, List.mem_cons] at h
    obtain rfl | h := h
    · exact hp
    · rw [Node.parts]
      exact List.mem_cons_of_mem _ (Node.allParts_of_part children h)
  | .deferred r, h => by
    rw [Node.parts, List.mem_cons] at h
    obtain rfl | h := h
    · exact hp
    · rw [Node.parts]
      exact List.mem_cons_of_mem _ (Render.parts_of_part r h)

theorem Node.allParts_of_part : ∀ ns : List Node, m ∈ Node.allParts ns → p ∈ Node.allParts ns
  | [], h => by simp [Node.allParts] at h
  | n :: rest, h => by
    rw [Node.allParts, List.mem_append] at h ⊢
    exact h.imp (Node.parts_of_part n) (Node.allParts_of_part rest)

theorem Render.parts_of_part : ∀ r : Render, m ∈ r.parts → p ∈ r.parts
  | .program _ _ context, h => by
    rw [Render.parts] at h ⊢
    exact Value.fieldParts_of_part context h
  | .component _ props, h => by
    rw [Render.parts] at h ⊢
    exact Value.parts_of_part props h
  | .handler _, h | .pending _, h => by simp [Render.parts] at h

end

end

theorem Node.drivings_fragment (children : List Node) (driving : Option CellId) :
    (fragment children driving).drivings = driving.toList ++ children.flatMap drivings := by
  have hall : (allParts children).filterMap Node.driving = children.flatMap drivings := by
    induction children with
    | nil => rfl
    | cons n children ih => simp [allParts, ih, drivings]
  unfold drivings
  rw [parts, List.filterMap_cons, hall]
  cases driving <;> rfl

/-! ## Properties of all parts -/

/-- A node and everything inside of it has a property. -/
def Node.All (P : Node → Prop) (n : Node) : Prop := ∀ m ∈ n.parts, P m

/-- Every node inside of a value has a property. -/
def Value.All (P : Node → Prop) (v : Value) : Prop := ∀ m ∈ v.parts, P m

/-- Every node that a render function can show has a property. -/
def Render.All (P : Node → Prop) (r : Render) : Prop := ∀ m ∈ r.parts, P m

/-- Every node inside of the values of variables has a property. -/
def Context.All (P : Node → Prop) (ctx : Context) : Prop := ∀ e ∈ ctx, e.2.All P

/-- Every node inside of what an observable holds has a property. -/
def Held.All (P : Node → Prop) (held : Held) : Prop := ∀ v, held = .value v → v.All P

theorem Node.All.self (h : n.All P) : P n := h n n.mem_parts_self

theorem Node.all_empty (h : P .empty) : Node.empty.All P := by simpa [All, parts] using h

theorem Node.all_text {data : String} (h : P (.text data driving)) :
    (Node.text data driving).All P := by
  simpa [All, parts] using h

theorem Node.all_element {tag : String} {attributes : List (String × AttributeValue)}
    {listeners : List Listener} (h : P (.element tag attributes listeners children driving))
    (hchildren : ∀ n ∈ children, n.All P) :
    (Node.element tag attributes listeners children driving).All P := by
  intro m hm
  rw [parts, List.mem_cons, mem_allParts] at hm
  obtain rfl | ⟨n, hn, hm⟩ := hm
  · exact h
  · exact hchildren n hn m hm

theorem Node.all_fragment (h : P (.fragment children driving))
    (hchildren : ∀ n ∈ children, n.All P) : (Node.fragment children driving).All P := by
  intro m hm
  rw [parts, List.mem_cons, mem_allParts] at hm
  obtain rfl | ⟨n, hn, hm⟩ := hm
  · exact h
  · exact hchildren n hn m hm

theorem Node.all_deferred {r : Render} (h : P (.deferred r)) (hr : r.All P) :
    (Node.deferred r).All P := by
  intro m hm
  rw [parts, List.mem_cons] at hm
  obtain rfl | hm := hm
  · exact h
  · exact hr m hm

theorem Node.All.child (h : (Node.fragment children driving).All P) (hn : n ∈ children) :
    n.All P := fun m hm => h m (by
  rw [parts, List.mem_cons, mem_allParts]
  exact .inr ⟨n, hn, hm⟩)

@[simp] theorem Value.all_node : (Value.node n).All P ↔ n.All P := by
  rw [All, parts, Node.All]

theorem Held.all_node (h : n.All P) : (Held.value (.node n)).All P := by
  rintro _ ⟨⟩
  exact Value.all_node.2 h

@[simp] theorem Value.all_render {r : Render} : (Value.render r).All P ↔ r.All P := by
  rw [All, parts, Render.All]

@[simp] theorem Value.all_component {c : ComponentId} {pointer : Bool} {props : Value} :
    (Value.component c pointer props).All P ↔ props.All P := by
  rw [All, parts, All]

@[simp] theorem Render.all_component {c : ComponentId} {props : Value} :
    (Render.component c props).All P ↔ props.All P := by
  rw [All, parts, Value.All]

theorem Context.all_nil : Context.All P [] := by simp [All]

theorem Context.all_single {name : String} {v : Value} (h : v.All P) :
    Context.All P [(name, v)] := by
  rintro e (_ | ⟨_, he⟩)
  · exact h
  · exact absurd he List.not_mem_nil

theorem Value.all_record {fields : List (String × Value)} :
    (Value.record fields).All P ↔ Context.All P fields := by
  simp only [All, parts, mem_fieldParts, Context.All]
  exact ⟨fun h e he m hm => h m ⟨e, he, hm⟩, fun h m ⟨e, he, hm⟩ => h e he m hm⟩

theorem Render.all_program {body : Script.Expr} {label : Option String} {ctx : Context} :
    (Render.program body label ctx).All P ↔ ctx.All P := by
  simp only [All, parts, Value.mem_fieldParts, Context.All]
  exact ⟨fun h e he m hm => h m ⟨e, he, hm⟩, fun h m ⟨e, he, hm⟩ => h e he m hm⟩

/-! ## Wrapping -/

/-- A fragment around a lone fragment is driven, and so is the one inside. -/
def Node.Collapsed (n : Node) : Prop :=
  ∀ inner inside outside, n = .fragment [.fragment inner inside] outside →
    outside.isSome ∧ inside.isSome

/-- What wrapping gives: a lone fragment that nothing drives hands over its children, one that is
driven is itself the result if nothing else drives it, and otherwise the fragment stays. -/
theorem Node.wrap_cases (children : List Node) (driving : Option CellId) :
    (∃ inner, children = [.fragment inner none] ∧
      wrap children driving = .fragment inner driving) ∨
    (∃ inner c, children = [.fragment inner (some c)] ∧ driving = none ∧
      wrap children driving = .fragment inner (some c)) ∨
    (wrap children driving = .fragment children driving ∧
      ∀ inner inside, children = [.fragment inner inside] → driving.isSome ∧ inside.isSome) := by
  unfold wrap
  split
  · next inner => exact .inl ⟨inner, rfl, rfl⟩
  · next inner c =>
    cases driving with
    | none => exact .inr (.inl ⟨inner, c, rfl, rfl, rfl⟩)
    | some o =>
      refine .inr (.inr ⟨rfl, ?_⟩)
      rintro _ _ ⟨⟩
      exact ⟨rfl, rfl⟩
  · next hundriven hdriven =>
    refine .inr (.inr ⟨rfl, ?_⟩)
    rintro inner (_ | c) rfl
    · exact absurd rfl (hundriven inner)
    · exact absurd rfl (hdriven inner c)

example : Node.wrap [.fragment [.text "a" none, .empty] none] (some ⟨0⟩) =
    .fragment [.text "a" none, .empty] (some ⟨0⟩) := rfl

/-- Wrapping collapsed nodes gives a collapsed node, whatever they were built from: a lone fragment
that hands over its children was not itself around a lone fragment. -/
theorem Node.collapsed_wrap (h : ∀ n ∈ children, n.Collapsed) :
    (wrap children driving).Collapsed := by
  intro deep inside outside heq
  obtain ⟨inner, rfl, hwrap⟩ | ⟨inner, c, rfl, -, hwrap⟩ | ⟨hwrap, hlone⟩ :=
    wrap_cases children driving
  · cases hwrap.symm.trans heq
    have := h (.fragment [.fragment deep inside] none) (by simp) deep inside none rfl
    exact absurd this.1 (by simp)
  · cases hwrap.symm.trans heq
    exact h (.fragment [.fragment deep inside] (some c)) (by simp) deep inside (some c) rfl
  · cases hwrap.symm.trans heq
    exact hlone deep inside rfl

/-- What is inside of the result of wrapping is the result itself or was there before. -/
theorem Node.all_wrap (h : P (wrap children driving)) (hchildren : ∀ n ∈ children, n.All P) :
    (wrap children driving).All P := by
  obtain ⟨inner, rfl, hwrap⟩ | ⟨inner, c, rfl, -, hwrap⟩ | ⟨hwrap, -⟩ :=
    wrap_cases children driving
  · rw [hwrap] at h ⊢
    exact all_fragment h fun n hn => (hchildren (.fragment inner none) (by simp)).child hn
  · rw [hwrap]
    exact hchildren _ (by simp)
  · rw [hwrap] at h ⊢
    exact all_fragment h hchildren

theorem Node.drivings_wrap (children : List Node) (driving : Option CellId) :
    (wrap children driving).drivings = driving.toList ++ children.flatMap drivings := by
  obtain ⟨inner, rfl, hwrap⟩ | ⟨inner, c, rfl, rfl, hwrap⟩ | ⟨hwrap, -⟩ :=
    wrap_cases children driving
  · simp [hwrap, drivings_fragment]
  · simp [hwrap, drivings_fragment]
  · rw [hwrap, drivings_fragment]

theorem Node.htmlAll_lone (call : Respond) (n : Node) : htmlAll call [n] = n.html call := by
  rw [htmlAll]
  simp [htmlAll]

/-- A fragment that is not driven, around a lone node, has the markup of that node. -/
theorem Node.html_lone (call : Respond) (n : Node) :
    (fragment [n] none).html call = n.html call := by
  rw [html, htmlAll_lone]

theorem Node.html_wrap (call : Respond) (children : List Node) (driving : Option CellId) :
    (wrap children driving).html call = (fragment children driving).html call := by
  obtain ⟨inner, rfl, hwrap⟩ | ⟨inner, c, rfl, rfl, hwrap⟩ | ⟨hwrap, -⟩ :=
    wrap_cases children driving
  · rw [hwrap]
    cases driving with
    | none => rw [html_lone]
    | some o => rw [html, html]
  · rw [hwrap, html_lone]
  · rw [hwrap]

end LivePage
