import LivePage.Proofs.Mount.Failing

/-!
# The walk of a realization

A realization goes through its tree from left to right: it comes to a node, enters it, comes to the
children one after the other, and goes on in the node that a render function gives. `Node.Visits` says
to which nodes it comes, and in which world it comes there; what comes before has been realized by
then. A node that it comes to and cannot realize makes the whole realization fail
(`Node.Visits.failed`), so it fails at the first render function on its way that gives a function
(`Node.Meets.failed`).
-/

namespace LivePage

variable {α β ε : Type} {w w' w₁ w₂ u : World} {D : CellId → Prop} {c : CellId} {d d' : Nat}
  {call : Respond} {r : Surface} {p q e : PageNode} {l : RecordsId} {n n' : Node}
  {ns rest : List Node} {variant : String} {P : Nat → Node → World → Prop}

/-! ## From node to node -/

/-- The realization of an element that has begun in the world `w` has created the element, and is
about to bind its attributes in the world `w'`. -/
inductive Node.Creates (r : Surface) (w : World) : Node → PageNode → World → Prop where
  | element {tag : String} {attributes : List (String × AttributeValue)} {listeners : List Listener}
      {children : List Node} {driving : Option CellId} {e : PageNode} {w₁ : World} :
      (createNode r.page (.element { tag })).run (w.pinned (attributes.flatMap (·.2.holds) ++
        nodesHold children ++ drivingHolds driving)) = .ok e w₁ →
      Creates r w (.element tag attributes listeners children driving) e
        ((w₁.unpinned.pinned (.slot e :: drivingHolds driving)).pinned
          (listeners.map (Entity.handler ·.handler) ++ nodesHold children))

/-- The realization of a node that has begun in the world `w` comes to its children in the world `w'`:
it is going to realize them below `p` and to add their records to `l`. -/
inductive Node.Enters (call : Respond) (r : Surface) (q : PageNode) (w : World) :
    Node → PageNode → RecordsId → World → Prop where
  | element {tag : String} {attributes : List (String × AttributeValue)} {listeners : List Listener}
      {children : List Node} {driving : Option CellId} {e : PageNode} {bound : Bindings}
      {w₁ w₂ w₃ : World} :
      Node.Creates r w (.element tag attributes listeners children driving) e w₁ →
      (bindAttributes call e {} attributes).run.run w₁ = .ok (.ok bound) w₂ →
      (addListeners e listeners).run.run w₂.unpinned = .ok (.ok ⟨⟩) w₃ →
      Enters call r q w (.element tag attributes listeners children driving) e ⟨w₃.records.size⟩
        (w₃.withList.pinned (bound.holds ++ listeners.map (Entity.handler ·.handler) ++
          [.records ⟨w₃.records.size⟩]))
  | fragment {children : List Node} : Enters call r q w (.fragment children none) q
      ⟨w.records.size⟩ (w.withList.pinned [.records ⟨w.records.size⟩])
  | region {children : List Node} {c : CellId} {label : Option String} {region : RegionId}
      {content : PageNode} {w₁ w₂ : World} : r.label.run w = .ok label w →
      (openRegion q label).run (w.pinned (.cell c :: nodesHold children)) = .ok (.ok region) w₁ →
      (createNode r.page .fragment).run ((w₁.unpinned.pinned [.region region, .cell c]).withList.pinned
        (nodesHold children)) = .ok content w₂ →
      Enters call r q w (.fragment children (some c)) content ⟨w₁.records.size⟩
        (w₂.unpinned.pinned [.slot content, .records ⟨w₁.records.size⟩])

/-- The nodes before `rest` have been realized, one after the other. -/
inductive Passed (call : Respond) (r : Surface) (q : PageNode) (l : RecordsId) :
    List Node → World → List Node → World → Prop where
  | none {ns : List Node} {w : World} : Passed call r q l ns w ns w
  | next {n : Node} {ns rest : List Node} {m : Teardown} {w w₁ w' : World} :
      (n.realize call r q).run.run (w.pinned (.slot q :: nodesHold ns)) = .ok (.ok m) w₁ →
      Passed call r q l ns (w₁.unpinned.pushed l m) rest w' → Passed call r q l (n :: ns) w rest w'

/-- On its way through a node that it begins with in the world `w`, the realization comes to the node
`n'` in the world `u`, with the depth `d'` left. -/
inductive Node.Visits (r : Surface) :
    Nat → PageNode → Node → World → Nat → Node → World → Prop where
  | here {d : Nat} {q : PageNode} {n : Node} {w : World} : Visits r d q n w d n w
  | inside {d d' : Nat} {p q : PageNode} {l : RecordsId} {n n₁ n' : Node} {rest : List Node}
      {w w₁ w₂ u : World} : n.Enters (respond d) r q w p l w₁ →
      Passed (respond d) r p l n.children w₁ (n₁ :: rest) w₂ →
      Visits r d p n₁ (w₂.pinned (.slot p :: nodesHold rest)) d' n' u → Visits r d q n w d' n' u
  | expanded {d d' : Nat} {q : PageNode} {f : Render} {v : Value} {n₁ n' : Node} {w w₁ w₂ u : World} :
      (respond (d + 1) (.render f)).run (w.pinned f.holds) = .ok v w₁ → v.kind ≠ .function →
      (childNode v).run w₁.unpinned = .ok n₁ w₂ → Visits r d q n₁ (w₂.pinned f.holds) d' n' u →
      Visits r (d + 1) q (.deferred f) w d' n' u

/-- On its way the realization comes to a node of which `P` holds, in the world and with the depth
left there. -/
def Node.Comes (P : Nat → Node → World → Prop) (r : Surface) (d : Nat) (q : PageNode) (n : Node)
    (w : World) : Prop :=
  ∃ d' n' u, n.Visits r d q w d' n' u ∧ P d' n' u

/-- The realization of nodes comes to one of which `P` holds. -/
def ComesAmong (P : Nat → Node → World → Prop) (r : Surface) (d : Nat) (q : PageNode)
    (l : RecordsId) (ns : List Node) (w : World) : Prop :=
  ∃ n rest w', Passed (respond d) r q l ns w (n :: rest) w' ∧
    n.Comes P r d q (w'.pinned (.slot q :: nodesHold rest))

namespace Node.Comes

theorem here (h : P d n w) : n.Comes P r d q w := ⟨d, n, w, .here, h⟩

theorem inside (he : n.Enters (respond d) r q w p l w₁)
    (h : ComesAmong P r d p l n.children w₁) : n.Comes P r d q w := by
  obtain ⟨n₁, rest, w₂, hp, d', n', u, hv, h⟩ := h
  exact ⟨d', n', u, .inside he hp hv, h⟩

theorem expanded {f : Render} {v : Value}
    (hrender : (respond (d + 1) (.render f)).run (w.pinned f.holds) = .ok v w₁)
    (hkind : v.kind ≠ .function) (hchild : (childNode v).run w₁.unpinned = .ok n w₂)
    (h : n.Comes P r d q (w₂.pinned f.holds)) :
    (Node.deferred f).Comes P r (d + 1) q w := by
  obtain ⟨d', n', u, hv, h⟩ := h
  exact ⟨d', n', u, .expanded hrender hkind hchild hv, h⟩

end Node.Comes

namespace ComesAmong

theorem first (h : n.Comes P r d q (w.pinned (.slot q :: nodesHold ns))) :
    ComesAmong P r d q l (n :: ns) w :=
  ⟨n, ns, w, .none, h⟩

theorem later {m : Teardown}
    (hm : (n.realize (respond d) r q).run.run (w.pinned (.slot q :: nodesHold ns)) = .ok (.ok m) w₁)
    (h : ComesAmong P r d q l ns (w₁.unpinned.pushed l m)) : ComesAmong P r d q l (n :: ns) w := by
  obtain ⟨n', rest, w', hp, h⟩ := h
  exact ⟨n', rest, w', .next hm hp, h⟩

end ComesAmong

/-! ## What a realization can come to -/

/-- The observables that the node itself follows. -/
def Node.sources : Node → List CellId
  | .element _ attributes _ _ driving => attributes.flatMap (·.2.sources) ++ driving.toList
  | .text _ driving | .fragment _ driving => driving.toList
  | .empty | .deferred _ => []

/-- The node follows an observable in `D`. -/
def Node.Follows (D : CellId → Prop) (_ : Nat) (n : Node) (_ : World) : Prop := ∃ c ∈ n.sources, D c

/-- The node is a render function that gives a function, called `variant`. -/
inductive Node.Unresolvable (variant : String) : Nat → Node → World → Prop where
  | render {d : Nat} {f : Render} {v : Value} {w w₁ : World} :
      (respond d (.render f)).run (w.pinned f.holds) = .ok v w₁ → v.kind = .function →
      v.variant = variant → Unresolvable variant d (.deferred f) w

/-- What has to be evaluated for the node stops the run: a render function, or what is told of the
references that are attached to an element. -/
inductive Node.Halts (r : Surface) : Nat → Node → World → Prop where
  | render {d : Nat} {f : Render} {e : Stop} {w w₁ : World} :
      (respond d (.render f)).run (w.pinned f.holds) = .error e w₁ → Halts r d (.deferred f) w
  | attributes {d : Nat} {tag : String} {attributes : List (String × AttributeValue)}
      {listeners : List Listener} {children : List Node} {driving : Option CellId} {e : PageNode}
      {stop : Stop} {w w₁ w₂ : World} :
      Node.Creates r w (.element tag attributes listeners children driving) e w₁ →
      (bindAttributes (respond d) e {} attributes).run.run w₁ = .error stop w₂ →
      Halts r d (.element tag attributes listeners children driving) w

/-- On its way the realization comes to a render function that gives a function, called `variant`. -/
abbrev Node.Meets (r : Surface) (d : Nat) (q : PageNode) (n : Node) (w : World) (variant : String) :
    Prop :=
  n.Comes (Node.Unresolvable variant) r d q w

/-- On its way the realization comes to an evaluation that stops the run. -/
abbrev Node.Stalls (r : Surface) (d : Nat) (q : PageNode) (n : Node) (w : World) : Prop :=
  n.Comes (Node.Halts r) r d q w

/-! ## Failing on the way -/

theorem failed_ebind {x : ExceptT ε Run α} {f : α → ExceptT ε Run β} {e : ε}
    (h : x.run.run w = .ok (.error e) w') : (x >>= f).run.run w = .ok (.error e) w' := by
  rw [ExceptT.run_bind, ok_bind]
  exact ⟨_, w', h, rfl⟩

/-- What follows a step that succeeds decides. -/
theorem run_after {x : ExceptT ε Run α} {f : α → ExceptT ε Run β} {a : α}
    (hx : x.run.run w = .ok (.ok a) w₁) : (x >>= f).run.run w = (f a).run.run w₁ := by
  rw [ExceptT.run_bind, EStateM.run_bind, hx]

variable {fault : RealizationError}

/-- A realization that fails while something is pinned. -/
theorem failed_realizingWith {held : List Entity} {x : Realizing α}
    (h : x.run.run (w.pinned held) = .ok (.error fault) w') :
    (realizingWith held x).run.run w = .ok (.error fault) w'.unpinned :=
  ok_realizingWith.2 ⟨w', h, rfl⟩

/-- Nodes fail with the node at which they do. -/
theorem Passed.failed (h : Passed call r q l ns w (n :: rest) w₁)
    (hn : (n.realize call r q).run.run (w₁.pinned (.slot q :: nodesHold rest)) =
      .ok (.error fault) w₂) :
    ∃ w', (realizeAll call r q l ns).run.run w = .ok (.error fault) w' := by
  generalize hns : n :: rest = left at h
  induction h with
  | none =>
    subst hns
    rw [realizeAll]
    exact ⟨_, failed_ebind (failed_realizingWith hn)⟩
  | next hm _ ih =>
    obtain ⟨w', h⟩ := ih hn hns
    rw [realizeAll, run_after (ok_realizingWith.2 ⟨_, hm, rfl⟩),
      run_after (ok_lift.2 (run_pushRecord ..))]
    exact ⟨w', h⟩

/-- A node fails with its children. -/
theorem Node.Enters.failed (h : n.Enters call r q w p l w₁)
    (hn : (realizeAll call r p l n.children).run.run w₁ = .ok (.error fault) w₂) :
    ∃ w', (n.realize call r q).run.run w = .ok (.error fault) w' := by
  cases h with
  | element hcreate hbind hlisten =>
    cases hcreate with
    | element hcreate =>
      rw [Node.realize, run_after (ok_realizingWith.2 ⟨_, ok_lift.2 hcreate, rfl⟩)]
      refine ⟨w₂.unpinned.unpinned, failed_realizingWith ?_⟩
      rw [run_after (ok_realizingWith.2 ⟨_, hbind, rfl⟩), run_after hlisten,
        run_after (ok_lift.2 (run_newRecords _))]
      exact failed_ebind (failed_realizingWith hn)
  | fragment =>
    rw [Node.realize, run_after (ok_lift.2 (run_newRecords _))]
    exact ⟨_, failed_ebind (failed_realizingWith hn)⟩
  | region hlabel hopen hcreate =>
    rw [Node.realize, run_after (ok_lift.2 hlabel),
      run_after (ok_realizingWith.2 ⟨_, ok_pageStep.2 hopen, rfl⟩)]
    refine ⟨w₂.unpinned.unpinned, failed_realizingWith ?_⟩
    rw [run_after (ok_lift.2 (run_newRecords _)),
      run_after (ok_realizingWith.2 ⟨_, ok_lift.2 hcreate, rfl⟩)]
    exact failed_ebind (failed_realizingWith (failed_ebind hn))

/-- A realization fails with the node that it comes to. -/
theorem Node.Visits.failed (h : n.Visits r d q w d' n' u)
    (hn : ∀ p, ∃ u', (n'.realize (respond d') r p).run.run u = .ok (.error fault) u') :
    ∃ w', (n.realize (respond d) r q).run.run w = .ok (.error fault) w' := by
  induction h with
  | here => exact hn _
  | inside he hp _ ih =>
    obtain ⟨u', h⟩ := ih hn
    obtain ⟨w', h⟩ := hp.failed h
    exact he.failed h
  | expanded hrender hkind hchild _ ih =>
    obtain ⟨u', h⟩ := ih hn
    rw [Node.realize, run_after (ok_realizingWith.2 ⟨_, ok_lift.2 hrender, rfl⟩), if_neg hkind,
      run_after (ok_lift.2 hchild)]
    exact ⟨_, ok_holding.2 ⟨u', h, rfl⟩⟩

/-- A realization fails at a render function that gives a function. -/
theorem Node.Meets.failed (h : n.Meets r d q w variant) :
    ∃ w', (n.realize (respond d) r q).run.run w = .ok (.error (.unresolvableRender variant)) w' := by
  obtain ⟨d', n', u, hv, ⟨hrender, hkind, hvariant⟩⟩ := h
  refine hv.failed fun p => ?_
  rw [Node.realize, run_after (ok_realizingWith.2 ⟨_, ok_lift.2 hrender, rfl⟩), if_pos hkind,
    hvariant]
  exact ⟨_, ok_pure.2 ⟨rfl, rfl⟩⟩

end LivePage
