import LivePage.Proofs.Mount.Laying

/-!
# Static trees on a page

A tree that follows no observable has two written forms: the markup of the node, and what is printed
of the page nodes that realizing it makes. They are the same (`World.Static.realized_html`). Each form
of node is laid below a page node as its markup says; the proof is by induction on the tree, whose
render functions count as the trees that they give.
-/

namespace LivePage

open LivePage.Text

variable {w w' w₀ b : World} {q e : PageNode} {r : Surface} {l : RecordsId} {s s' : String} {d : Nat}
  {n : Node} {ns : List Node} {el : Element} {call : Respond} {bound : Bindings}
  {attributes : List (String × AttributeValue)}

/-! ## Dressing a new element -/

/-- The attribute is a text or a list of texts. -/
def AttributeValue.Fixed : AttributeValue → Prop
  | .text _ | .list _ => True
  | .observable _ | .ref _ | .style _ => False

/-- Fixed attributes of different names come behind those that are there. -/
theorem run_bindAttributes (ho : w.Occupied e) (hel : (w.slot e).content = .element el)
    (hfixed : ∀ a ∈ attributes, a.2.Fixed)
    (hnodup : (el.attributes.map Prod.fst ++ attributes.map Prod.fst).Nodup) :
    (bindAttributes call e bound attributes).run.run w = .ok (.ok bound) (w.withContent e
      (.element { el with attributes := el.attributes ++ Node.fixedAttributes attributes })) := by
  induction attributes generalizing w el with
  | nil =>
    refine ok_epure.2 ⟨rfl, ?_⟩
    simp [Node.fixedAttributes, World.withContent_self ho hel]
  | cons a rest ih =>
    obtain ⟨name, value⟩ := a
    rw [List.forall_mem_cons] at hfixed
    have hname : name ∉ el.attributes.map Prod.fst := by
      intro h
      exact (List.disjoint_of_nodup_append hnodup) h List.mem_cons_self
    have hset : ∀ s held, (pageStep (e.setAttribute name s)).run.run (w.pinned held) =
        .ok (.ok ⟨⟩) ((w.withContent e (.element
          { el with attributes := el.attributes ++ [(name, s)] })).pinned held) := by
      intro s held
      rw [ok_pageStep, ← Entries.set_of_notMem hname]
      exact run_updateElement (w := w.pinned held) hel
    have hrest : ∀ s, (bindAttributes call e bound rest).run.run (w.withContent e (.element
        { el with attributes := el.attributes ++ [(name, s)] })) =
        .ok (.ok bound) (w.withContent e (.element
          { el with attributes := el.attributes ++ (name, s) :: Node.fixedAttributes rest })) := by
      intro s
      have ht : (Content.element { el with attributes := el.attributes ++ [(name, s)] }).type =
          (w.slot e).content.type := by
        rw [hel]
        rfl
      have := ih (w := w.withContent e (.element
          { el with attributes := el.attributes ++ [(name, s)] }))
        ((World.shaped_withContent ht e.page).occupied.2 ho)
        (by rw [World.slot_withContent ho, if_pos rfl]) hfixed.2
        (by simpa [List.append_assoc] using hnodup)
      rw [this, World.withContent_withContent ho]
      simp
    rw [bindAttributes, ok_ebind]
    cases value with
    | text s =>
      exact ⟨bound, _, ok_holding.2 ⟨_, ok_ebind.2 ⟨_, _, hset s _, ok_epure.2 ⟨rfl, rfl⟩⟩, rfl⟩,
        hrest s⟩
    | list items =>
      exact ⟨bound, _, ok_holding.2 ⟨_, ok_ebind.2 ⟨_, _, hset _ _, ok_epure.2 ⟨rfl, rfl⟩⟩, rfl⟩,
        hrest _⟩
    | «observable» c => exact hfixed.1.elim
    | ref c => exact hfixed.1.elim
    | style style => exact hfixed.1.elim

/-! ## What one part lays -/

/-- Nodes can be laid below `q`, in a world that is steady since `w₀`. -/
structure World.Hosts (w₀ : World) (r : Surface) (q : PageNode) (w : World) : Prop where
  steady : Steady w₀ w
  sound : w.Sound
  safe : w.Safe q
  container : (w.slot q).content.type.isContainer
  page : r.page = q.page

namespace World.Hosts

variable (h : World.Hosts w₀ r q w)
include h

theorem pinned (held : List Entity) : World.Hosts w₀ r q (w.pinned held) :=
  ⟨h.steady.repin _, h.sound.pinned held, h.safe.pinned h.sound held, h.container, h.page⟩

theorem laid (hl : World.Laid q w w' s) : World.Hosts w₀ r q w' :=
  ⟨h.steady.trans hl.steady, hl.built.sound, hl.built.safe h.safe,
    by rw [hl.content_eq]; exact h.container, h.page⟩

theorem lt : q.page.index < w.pages.size := World.lt_of_occupied (h.safe.occupied h.sound)

end World.Hosts

/-- A new container that is held hosts nodes. -/
theorem World.Adds.hosts {p : PageId} {content : Content} (ha : b.Adds w p e content)
    (hb : Steady w₀ b) (hheld : .slot e ∈ w.pins.flatten) (hcon : content.type.isContainer)
    (hpage : r.page = p) : w₀.Hosts r e w :=
  ⟨hb.trans ha.steady, ha.built.sound, World.Guards.safe (.pinned hheld) ha.occupied,
    by rw [ha.slot]; exact hcon, hpage.trans ha.page.symm⟩

/-- Realizing the node lays what is printed as `s`. -/
def Node.Lays (w₀ : World) (d : Nat) (n : Node) (s : String) : Prop :=
  ∀ {r : Surface} {q : PageNode} {b : World}, w₀.Hosts r q b →
    ∃ m w, (n.realize (respond d) r q).run.run b = .ok (.ok m) w ∧ w.pins = b.pins ∧
      World.Laid q b w s

/-- Realizing the nodes lays what is printed as `s`, behind what has been laid. -/
def LaysAll (w₀ : World) (d : Nat) (ns : List Node) (s : String) : Prop :=
  ∀ {r : Surface} {q : PageNode} {b w : World} {l : RecordsId} {s₀ : String}, w₀.Hosts r q b →
    World.Laying q b w l s₀ →
    ∃ w', (realizeAll (respond d) r q l ns).run.run w = .ok (.ok ⟨⟩) w' ∧ w'.pins = w.pins ∧
      World.Laying q b w' l (s₀ ++ s)

theorem lays_empty : Node.empty.Lays w₀ d "" := by
  intro r q b hr
  rw [Node.realize]
  exact ⟨_, _, ok_lift.2 rfl, rfl, (World.Laid.refl hr.sound).withList⟩

theorem lays_text (data : String) : (Node.text data none).Lays w₀ d (escape data) := by
  intro r q b hr
  obtain ⟨n, u, hcreate, hpins, ha⟩ := adds_createNode hr.sound hr.lt (.text data)
  obtain ⟨w, happend, hw, hlaid⟩ := World.Laid.put (ha.built.elsewhere ha.fresh q)
    ha.steady hr.safe (ha.built.slot_eq hr.safe fun h => ha.fresh (h ▸ hr.safe)) hr.container
    ha.fresh (by rw [ha.slot]) ha.page (by rw [ha.slot]; exact NodeType.noConfusion)
  have hprint : (u.page q.page).outerHtml n.slot = escape data := by
    have hslot : (u.page q.page).slot n.slot = { content := .text data } := by
      rw [← ha.page]
      exact ha.slot
    rw [(ha.built.sound.forest _).outerHtml_eq, hslot]
    rfl
  rw [hprint] at hlaid
  rw [Node.realize, hr.page]
  exact ⟨_, _, ok_ebind.2 ⟨n, u, ok_lift.2 hcreate, ok_ebind.2 ⟨⟨⟩, w, ok_pageStep.2 happend,
    ok_lift.2 rfl⟩⟩, hw.trans hpins, hlaid.withList⟩

theorem laysAll_nil : LaysAll w₀ d [] "" := by
  intro r q b w l s₀ _ hl
  rw [realizeAll, String.append_empty]
  exact ⟨w, ok_epure.2 ⟨rfl, rfl⟩, rfl, hl⟩

theorem laysAll_cons (hn : n.Lays w₀ d s) (hns : LaysAll w₀ d ns s') :
    LaysAll w₀ d (n :: ns) (s ++ s') := by
  intro r q b w l s₀ hr hl
  have hrw := hr.laid hl.laid
  obtain ⟨m, w₁, h₁, hp₁, hl₁⟩ := hn (hrw.pinned (.slot q :: nodesHold ns))
  have hpush := hl.push hrw.safe (hl₁.of_pinned hrw.sound) m
  obtain ⟨w₂, h₂, hp₂, hl₂⟩ := hns hr hpush
  rw [realizeAll]
  refine ⟨w₂, ok_ebind.2 ⟨m, _, ok_realizingWith.2 ⟨w₁, h₁, rfl⟩, ok_ebind.2 ⟨⟨⟩, _,
    ok_lift.2 (run_pushRecord l m _), h₂⟩⟩, ?_, ?_⟩
  · exact hp₂.trans (congrArg List.tail hp₁)
  · rwa [String.append_assoc] at hl₂

/-- Nodes are laid in a new list of records. -/
theorem LaysAll.fresh (hns : LaysAll w₀ d ns s) (hr : w₀.Hosts r q b) (held : List Entity) :
    ∃ w, (realizingWith held (realizeAll (respond d) r q ⟨b.records.size⟩ ns)).run.run b.withList =
      .ok (.ok ⟨⟩) w ∧ w.pins = b.pins ∧ World.Laid q b w s := by
  have hpins : b.pins <:+ (b.withList.pinned held).pins := List.suffix_cons _ _
  obtain ⟨w, h, hp, hl⟩ := hns hr ((World.Laying.start hr.sound).repin hpins)
  rw [String.empty_append] at hl
  have hw : w.unpinned.pins = b.pins := congrArg List.tail hp
  exact ⟨_, ok_realizingWith.2 ⟨w, h, rfl⟩, hw,
    hl.laid.repin (hw ▸ List.suffix_refl _)⟩

theorem lays_fragment (hns : LaysAll w₀ d ns s) : (Node.fragment ns none).Lays w₀ d s := by
  intro r q b hr
  obtain ⟨w, h, hp, hl⟩ := hns.fresh hr [.records ⟨b.records.size⟩]
  rw [Node.realize]
  exact ⟨_, w, ok_ebind.2 ⟨_, _, ok_lift.2 (run_newRecords b),
    ok_ebind.2 ⟨⟨⟩, w, h, ok_epure.2 ⟨rfl, rfl⟩⟩⟩, hp, hl⟩

/-! ## Elements -/

/-- The markup of an element with fixed attributes, given that of its children. -/
def elementHtml (tag : String) (attributes : List (String × String)) (inner : String) : String :=
  let opening := "<" ++ tag ++ String.join (attributes.map fun a => Page.writtenAttribute a.1 a.2)
  if isVoidTag tag then opening ++ " />" else opening ++ ">" ++ inner ++ "</" ++ tag ++ ">"

theorem printed_element {slot : Slot} (hel : slot.content = .element el) (hstyle : el.style = [])
    (hvoid : isVoidTag el.tag → slot.children = []) (inner : String) :
    Page.printed slot inner = elementHtml el.tag el.attributes inner := by
  unfold Page.printed elementHtml
  by_cases hv : isVoidTag el.tag
  · simp [hel, hv, hvoid hv, Page.writtenAttributes, hstyle]
  · simp [hel, hv, Page.writtenAttributes, hstyle]

/-- A new element gets its attributes and listeners. -/
theorem World.Adds.dressed {u : World} {p : PageId} {tag : String}
    (ha : b.Adds u p e (.element { tag })) (call : Respond) (hfixed : ∀ a ∈ attributes, a.2.Fixed)
    (hnodup : (attributes.map Prod.fst).Nodup) (held : List Entity) (listeners : List Listener) :
    ∃ u' v, (realizingWith held (bindAttributes call e {} attributes)).run.run u = .ok (.ok {}) u' ∧
      (addListeners e listeners).run.run u' = .ok (.ok ⟨⟩) v ∧ v.pins = u.pins ∧
      b.Adds v p e (.element { tag, attributes := Node.fixedAttributes attributes,
                               listeners := listeners.map fun l => (l.event, l.handler) }) := by
  have hbind : (bindAttributes call e {} attributes).run.run (u.pinned held) = .ok (.ok {})
      ((u.pinned held).withContent e
        (.element { tag, attributes := Node.fixedAttributes attributes })) :=
    run_bindAttributes (w := u.pinned held) ha.occupied (congrArg Slot.content ha.slot) hfixed (by simpa)
  have hbound : b.Adds
      (u.withContent e (.element { tag, attributes := Node.fixedAttributes attributes })) p e
      (.element { tag, attributes := Node.fixedAttributes attributes }) := ha.withContent rfl
  have hlisten := run_addListeners hbound.occupied (congrArg Slot.content hbound.slot) listeners
  exact ⟨_, _, ok_realizingWith.2 ⟨_, hbind, rfl⟩, hlisten, rfl, hbound.withContent rfl⟩

/-- A new element is printed with what has been laid below it. -/
theorem World.Adds.outerHtml_eq {v : World} {p : PageId} (ha : b.Adds v p e (.element el))
    (hl : World.Laid e v w s) (hstyle : el.style = [])
    (hvoid : isVoidTag el.tag → (w.slot e).children = []) :
    (w.page e.page).outerHtml e.slot = elementHtml el.tag el.attributes s := by
  have hcontent : ((w.page e.page).slot e.slot).content = .element el :=
    hl.content_eq.trans (congrArg Slot.content ha.slot)
  rw [(hl.built.sound.forest e.page).outerHtml_eq, printed_element hcontent hstyle hvoid,
    hl.innerHtml_eq (congrArg Slot.children ha.slot)]

theorem lays_element (hns : LaysAll w₀ d ns s) {tag : String} (hfixed : ∀ a ∈ attributes, a.2.Fixed)
    (hnodup : (attributes.map Prod.fst).Nodup) (hvoid : isVoidTag tag → ns = [])
    (listeners : List Listener) :
    (Node.element tag attributes listeners ns none).Lays w₀ d
      (elementHtml tag (Node.fixedAttributes attributes) s) := by
  intro r q b hr
  obtain ⟨e, u, hcreate, hpins, hnew⟩ := adds_realizingWith hr.sound hr.lt (.element { tag })
    (attributes.flatMap (·.2.holds) ++ nodesHold ns ++ drivingHolds none)
  obtain ⟨u', v, hbind, hlisten, hv, ha⟩ := (hnew.pinned [.slot e]).dressed (respond d) hfixed hnodup
    (listeners.map (Entity.handler ·.handler) ++ nodesHold ns) listeners
  have hve : v.pins = [.slot e] :: b.pins := hv.trans (congrArg _ hpins)
  -- its children
  have hre := ha.hosts hr.steady (by rw [hve]; simp) rfl hr.page
  obtain ⟨x, hall, hx, hl⟩ := hns.fresh hre (([] : List Entity) ++
    listeners.map (Entity.handler ·.handler) ++ [.records ⟨v.records.size⟩])
  have hchildren : isVoidTag tag → (x.slot e).children = [] := by
    intro ht
    obtain rfl := hvoid ht
    obtain ⟨x', hx', rfl⟩ := ok_realizingWith.1 hall
    rw [realizeAll] at hx'
    obtain ⟨-, rfl⟩ := ok_epure.1 hx'
    exact congrArg Slot.children ha.slot
  have hprint := ha.outerHtml_eq hl rfl hchildren
  -- its place
  have hqe : q ≠ e := fun h => ha.fresh (h ▸ hr.safe)
  have hb := ha.built.trans hl.built (.inl rfl)
  obtain ⟨w, happend, hw, hlaid⟩ := World.Laid.put (hb.elsewhere ha.fresh q)
    (ha.steady.trans hl.steady) hr.safe (hb.slot_eq hr.safe hqe) hr.container ha.fresh
    (hl.parent_eq.trans (congrArg Slot.parent ha.slot)) ha.page
    (by rw [hl.content_eq, ha.slot]; exact NodeType.noConfusion)
  rw [← ha.page, hprint] at hlaid
  have hpins' : w.unpinned.pins = b.pins :=
    congrArg List.tail (hw.trans (hx.trans hve))
  rw [Node.realize, hr.page]
  exact ⟨_, _, ok_ebind.2 ⟨e, u, hcreate,
    ok_realizingWith.2 ⟨w, ok_ebind.2 ⟨_, u', hbind, ok_ebind.2 ⟨_, v, hlisten,
      ok_ebind.2 ⟨_, _, ok_lift.2 (run_newRecords v), ok_ebind.2 ⟨_, x, hall,
        ok_ebind.2 ⟨_, w, ok_pageStep.2 happend, ok_epure.2 ⟨rfl, rfl⟩⟩⟩⟩⟩⟩, rfl⟩⟩, hpins',
    hlaid.repin (hpins' ▸ List.suffix_refl _)⟩

/-! ## Render functions -/

/-- Whenever the render function is called from `w₀` on, deep enough, it gives the same value, which is
no function and stands for the node. -/
def Render.Yields (f : Render) (w₀ : World) (n : Node) : Prop :=
  ∃ v : Value, v.kind ≠ .function ∧ w₀.nodeOf v = n ∧
    ∃ d₀, ∀ d ≥ d₀, ∀ w, Steady w₀ w → ∃ w', (respond d (.render f)).run w = .ok v w'

theorem run_childNode (v : Value) (w : World) :
    ∃ w', (childNode v).run w = .ok (w.nodeOf v) w' := by
  simp only [childNode, ok_get_bind]
  split
  · exact ⟨_, ok_bind.2 ⟨_, _, EStateM.run_modify .., ok_pure.2 ⟨rfl, rfl⟩⟩⟩
  · exact ⟨_, ok_pure.2 ⟨rfl, rfl⟩⟩

section

variable {f : Render} {v : Value} (hkind : v.kind ≠ .function)
  (hrender : ∀ w, Steady w₀ w → ∃ w', (respond (d + 1) (.render f)).run w = .ok v w')
include hkind hrender

theorem lays_deferred (hn : (w₀.nodeOf v).Lays w₀ d s) : (Node.deferred f).Lays w₀ (d + 1) s := by
  intro r q b hr
  obtain ⟨w₁, h₁⟩ := hrender _ (hr.pinned f.holds).steady
  have hq₁ : Quiet b w₁.unpinned := ((respond_reads (d + 1) (.render f) trivial).ok h₁).unpinned
  obtain ⟨w₂, h₂⟩ := run_childNode v w₁.unpinned
  have hq₂ : Quiet b w₂ := hq₁.trans ((reads_childNode v).ok h₂)
  rw [(hr.steady.trans hq₁.steady).nodeOf] at h₂
  have hl := (World.Laid.refl (q := q) hr.sound).quiet hq₂
  have hr₂ := hr.laid hl
  obtain ⟨m, w₃, h₃, hp₃, hl₃⟩ := hn (hr₂.pinned f.holds)
  have hlaid := hl.append hr₂.safe (hl₃.of_pinned hr₂.sound)
  rw [String.empty_append] at hlaid
  rw [Node.realize]
  refine ⟨m, w₃.unpinned, ok_ebind.2 ⟨v, _, ok_realizingWith.2 ⟨w₁, ok_lift.2 h₁, rfl⟩, ?_⟩, ?_, hlaid⟩
  · rw [if_neg hkind]
    exact ok_ebind.2 ⟨_, w₂, ok_lift.2 h₂, ok_holding.2 ⟨w₃, h₃, rfl⟩⟩
  · exact (congrArg List.tail hp₃).trans hq₂.pins

end

/-! ## The markup of a node -/

/-- The markup of the node is `s`, in every world that is steady since `w₀`. -/
def Node.Writes (w₀ : World) (d : Nat) (n : Node) (s : String) : Prop :=
  ∀ {w : World}, Steady w₀ w → ∃ w', (n.html (respond d)).run w = .ok s w'

/-- The markup of the nodes is `s`, in every world that is steady since `w₀`. -/
def WritesAll (w₀ : World) (d : Nat) (ns : List Node) (s : String) : Prop :=
  ∀ {w : World}, Steady w₀ w → ∃ w', (Node.htmlAll (respond d) ns).run w = .ok s w'

theorem writesAll_nil : WritesAll w₀ d [] "" := fun _ => ⟨_, rfl⟩

theorem writesAll_cons (hn : n.Writes w₀ d s) (hns : WritesAll w₀ d ns s') :
    WritesAll w₀ d (n :: ns) (s ++ s') := by
  intro w hw
  obtain ⟨w₁, h₁⟩ := hn hw
  have hquiet : Quiet w w₁ := (reads_html (respond_reads d) n).ok h₁
  obtain ⟨w₂, h₂⟩ := hns (hw.trans hquiet.steady)
  exact ⟨w₂, ok_bind.2 ⟨s, w₁, h₁, ok_bind.2 ⟨s', w₂, h₂, ok_pure.2 ⟨rfl, rfl⟩⟩⟩⟩

theorem openingTag_of_fixed (hfixed : ∀ a ∈ attributes, a.2.Fixed) (tag : String) :
    w.openingTag tag attributes = "<" ++ tag ++
      String.join ((Node.fixedAttributes attributes).map fun a => Page.writtenAttribute a.1 a.2) := by
  rw [World.openingTag]
  congr 1
  induction attributes with
  | nil => rfl
  | cons a rest ih =>
    obtain ⟨name, value⟩ := a
    rw [List.forall_mem_cons] at hfixed
    cases value with
    | text s =>
      rw [List.map_cons, String.join_cons, ih hfixed.2]
      exact String.join_cons.symm
    | list items =>
      rw [List.map_cons, String.join_cons, ih hfixed.2]
      exact String.join_cons.symm
    | «observable» c => exact hfixed.1.elim
    | ref c => exact hfixed.1.elim
    | style style => exact hfixed.1.elim

theorem writes_element (hns : WritesAll w₀ d ns s) {tag : String} (hfixed : ∀ a ∈ attributes, a.2.Fixed)
    (hvoid : isVoidTag tag → ns = []) (listeners : List Listener) :
    (Node.element tag attributes listeners ns none).Writes w₀ d
      (elementHtml tag (Node.fixedAttributes attributes) s) := by
  intro w hw
  rw [Node.html, elementHtml, ← openingTag_of_fixed (w := w) hfixed]
  by_cases hv : isVoidTag tag
  · simp only [hv, hvoid hv]
    exact ⟨w, rfl⟩
  · obtain ⟨w', h⟩ := hns hw
    simp only [hv, Bool.false_and]
    exact ⟨w', ok_get_bind.2 (ok_bind.2 ⟨s, w', h, ok_pure.2 ⟨rfl, rfl⟩⟩)⟩

theorem writes_deferred {f : Render} {v : Value} (hkind : v.kind ≠ .function)
    (hrender : ∀ w, Steady w₀ w → ∃ w', (respond (d + 1) (.render f)).run w = .ok v w')
    (hn : (w₀.nodeOf v).Writes w₀ d s) : (Node.deferred f).Writes w₀ (d + 1) s := by
  intro w hw
  obtain ⟨w₁, h₁⟩ := hrender w hw
  have hq₁ : Quiet w w₁ := (respond_reads (d + 1) (.render f) trivial).ok h₁
  obtain ⟨w₂, h₂⟩ := run_childNode v w₁
  have hq₂ : Quiet w w₂ := hq₁.trans ((reads_childNode v).ok h₂)
  rw [(hw.trans hq₁.steady).nodeOf] at h₂
  obtain ⟨w₃, h₃⟩ := hn (hw.trans hq₂.steady)
  refine ⟨w₃, ok_bind.2 ⟨v, w₁, h₁, ?_⟩⟩
  rw [if_neg hkind]
  exact ok_bind.2 ⟨_, w₂, h₂, h₃⟩

/-! ## Static trees -/

/-- The node follows no observable, its attributes are fixed and have different names, no element
without a closing tag has children, and its render functions always give the same, which is such a
node again. -/
inductive World.Static (w₀ : World) : Node → Prop where
  | empty : w₀.Static .empty
  | text (data : String) : w₀.Static (.text data none)
  | element {tag : String} {attributes : List (String × AttributeValue)} (listeners : List Listener)
      {children : List Node} : (∀ a ∈ attributes, a.2.Fixed) → (attributes.map Prod.fst).Nodup →
      (isVoidTag tag → children = []) → (∀ n ∈ children, w₀.Static n) →
      w₀.Static (.element tag attributes listeners children none)
  | fragment {children : List Node} : (∀ n ∈ children, w₀.Static n) →
      w₀.Static (.fragment children none)
  | deferred {f : Render} {n : Node} : f.Yields w₀ n → w₀.Static n → w₀.Static (.deferred f)

/-- From some depth on, what the node lays is printed as its markup. -/
def Node.Agrees (w₀ : World) (n : Node) : Prop :=
  ∃ s d₀, ∀ d ≥ d₀, n.Writes w₀ d s ∧ n.Lays w₀ d s

/-- From some depth on, what the nodes lay is printed as their markup. -/
def AgreesAll (w₀ : World) (ns : List Node) : Prop :=
  ∃ s d₀, ∀ d ≥ d₀, WritesAll w₀ d ns s ∧ LaysAll w₀ d ns s

theorem agreesAll (h : ∀ n ∈ ns, n.Agrees w₀) : AgreesAll w₀ ns := by
  induction ns with
  | nil => exact ⟨"", 0, fun _ _ => ⟨writesAll_nil, laysAll_nil⟩⟩
  | cons n rest ih =>
    rw [List.forall_mem_cons] at h
    obtain ⟨⟨s, d₁, h₁⟩, hrest⟩ := h
    obtain ⟨s', d₂, h₂⟩ := ih hrest
    refine ⟨s ++ s', max d₁ d₂, fun d hd => ?_⟩
    obtain ⟨hw₁, hl₁⟩ := h₁ d (by omega)
    obtain ⟨hw₂, hl₂⟩ := h₂ d (by omega)
    exact ⟨writesAll_cons hw₁ hw₂, laysAll_cons hl₁ hl₂⟩

theorem World.Static.agrees (h : w₀.Static n) : n.Agrees w₀ := by
  induction h with
  | empty => exact ⟨"", 0, fun _ _ => ⟨fun _ => ⟨_, rfl⟩, lays_empty⟩⟩
  | text data => exact ⟨escape data, 0, fun _ _ => ⟨fun _ => ⟨_, rfl⟩, lays_text data⟩⟩
  | @element tag attributes listeners children hfixed hnodup hvoid _ ih =>
    obtain ⟨s, d₀, h⟩ := agreesAll ih
    refine ⟨elementHtml tag (Node.fixedAttributes attributes) s, d₀, fun d hd => ?_⟩
    obtain ⟨hwrites, hlays⟩ := h d hd
    exact ⟨writes_element hwrites hfixed hvoid listeners,
      lays_element hlays hfixed hnodup hvoid listeners⟩
  | fragment _ ih =>
    obtain ⟨s, d₀, h⟩ := agreesAll ih
    exact ⟨s, d₀, fun d hd => ⟨(h d hd).1, lays_fragment (h d hd).2⟩⟩
  | deferred hf _ ih =>
    obtain ⟨v, hkind, rfl, d₁, hrender⟩ := hf
    obtain ⟨s, d₀, h⟩ := ih
    refine ⟨s, max d₀ d₁ + 1, fun d hd => ?_⟩
    obtain ⟨d, rfl⟩ : ∃ k, d = k + 1 := ⟨d - 1, by omega⟩
    have hrender := hrender (d + 1) (by omega)
    obtain ⟨hwrites, hlays⟩ := h d (by omega)
    exact ⟨writes_deferred hkind hrender hwrites, lays_deferred hkind hrender hlays⟩

/-- Realizing a static node in a world in order succeeds wherever a page has been entered. The fragment
that it gives is printed as the markup of the node, before and after. -/
theorem World.Static.realized_html {p : PageId} (hs : w.Sound) (hpage : w.activePage = some p)
    (hp : p.index < w.pages.size) (labelled : Bool) (hn : w.Static n) :
    ∃ s d₀, ∀ d ≥ d₀, (∀ u, Steady w u → ∃ u', (n.html (respond d)).run u = .ok s u') ∧
      ∃ r w', (realize (respond d) labelled n).run.run w = .ok (.ok r) w' ∧ Steady w w' ∧
        r.fragment.page = p ∧ (w'.page p).innerHtml r.fragment.slot = s := by
  obtain ⟨s, d₀, h⟩ := hn.agrees
  refine ⟨s, d₀, fun d hd => ⟨fun u hu => (h d hd).1 hu, ?_⟩⟩
  obtain ⟨e, u, hcreate, hpins, hnew⟩ := adds_realizingWith hs hp .fragment n.holds
  have hnew := hnew.pinned [.slot e]
  obtain ⟨m, x, hrealize, -, hl⟩ := (h d hd).2
    (hnew.hosts (r := ⟨p, labelled⟩) (.refl w) (by simp [World.pinned]) rfl rfl)
  have hinner := hl.innerHtml_eq (congrArg Slot.children hnew.slot)
  rw [hnew.page] at hinner
  refine ⟨⟨e, m⟩, x.unpinned, ?_, (hnew.steady.trans hl.steady).repin _, hnew.page, hinner⟩
  refine ok_eget_bind.2 ?_
  simp only [hpage]
  exact ok_ebind.2 ⟨e, u, hcreate, ok_ebind.2 ⟨m, _, ok_realizingWith.2 ⟨x, hrealize, rfl⟩,
    ok_epure.2 ⟨rfl, rfl⟩⟩⟩

/-! ### A paragraph with a line break -/

/-- A page has been entered. -/
def enteredWorld : World := { pages := #[{}], entered := [⟨0⟩] }

/-- A function that gives an element without a closing tag, and says that it is called. -/
def lineBreak : Render := .program (.node (.element "br" [] [] [] none)) (some "break") []

/-- A paragraph with fixed attributes, a text and what a function gives. -/
def brokenLine : Node :=
  .fragment [.element "p" [("class", .list ["a", "b"]), ("title", .text "x < y")] [⟨"click", ⟨0⟩⟩]
    [.text "1 & 2" none, .deferred lineBreak] none, .empty] none

theorem sound_enteredWorld : enteredWorld.Sound := by
  have hcell : ∀ c, (enteredWorld.cell c).registry = [] := fun c => by
    rw [World.cell_of_size_le (w := enteredWorld) (Nat.zero_le c.index)]
    rfl
  refine ⟨fun p => ?_, fun {c _ _} hr _ => ?_⟩
  · have hpage : enteredWorld.page p = {} := by
      obtain ⟨_ | i⟩ := p
      · rfl
      · exact World.page_of_size_le (Nat.le_add_left 1 i)
    rw [hpage]
    exact Document.sound_empty.forest
  · rw [hcell] at hr
    cases hr

theorem yields_lineBreak : lineBreak.Yields enteredWorld (.element "br" [] [] [] none) := by
  refine ⟨.node (.element "br" [] [] [] none), by decide, rfl, 1, fun d hd w _ => ?_⟩
  obtain ⟨d, rfl⟩ : ∃ k, d = k + 1 := ⟨d - 1, by omega⟩
  exact ⟨_, rfl⟩

theorem static_brokenLine : enteredWorld.Static brokenLine := by
  have hbreak : enteredWorld.Static (.deferred lineBreak) :=
    .deferred yields_lineBreak (.element [] (by simp) (by simp) (fun _ => rfl) (by simp))
  refine .fragment (List.forall_mem_cons.2 ⟨.element _ ?_ (by decide) (by decide) ?_, ?_⟩)
  · simp [AttributeValue.Fixed]
  · exact List.forall_mem_cons.2 ⟨.text _, by simpa using hbreak⟩
  · simpa using World.Static.empty

theorem World.Static.realized_html_of_brokenLine :
    enteredWorld.Sound ∧ enteredWorld.activePage = some ⟨0⟩ ∧ 0 < enteredWorld.pages.size ∧
      enteredWorld.Static brokenLine ∧
      ∃ d₀, ∀ d ≥ d₀, ∃ r w, (realize (respond d) false brokenLine).run.run enteredWorld =
        .ok (.ok r) w ∧ (w.page ⟨0⟩).innerHtml r.fragment.slot =
          "<p class=\"a b\" title=\"x &lt; y\">1 &amp; 2<br /></p>" := by
  refine ⟨sound_enteredWorld, rfl, by decide, static_brokenLine, ?_⟩
  obtain ⟨s, d₀, h⟩ := World.Static.realized_html (p := ⟨0⟩) sound_enteredWorld rfl (by decide) false
    static_brokenLine
  refine ⟨max d₀ 3, fun d hd => ?_⟩
  obtain ⟨hwrites, r, w, hrun, -, -, hinner⟩ := h d (by omega)
  obtain ⟨u, hu⟩ := hwrites enteredWorld (.refl _)
  obtain ⟨k, rfl⟩ : ∃ k, d = k + 3 := ⟨d - 3, by omega⟩
  refine ⟨r, w, hrun, hinner.trans ?_⟩
  have hhtml : (brokenLine.html (respond (k + 3))).run enteredWorld =
      .ok "<p class=\"a b\" title=\"x &lt; y\">1 &amp; 2<br /></p>"
        { enteredWorld with log := [.object [("call", .text "break")]] } := rfl
  rw [hhtml] at hu
  cases hu
  rfl

end LivePage
