import LivePage.Proofs.Mount.Attribute

/-!
# What a bound attribute remembers

A value that is applied to an attribute says something of the attribute, or of some properties of
the style, and nothing of the rest: `World.look` is what it says. After a sequence of values each
part of the element is as the last value has it that said something of it
(`Look.get?_attributes_all`, `Look.get?_style_all`). So the element need not be as the last value
alone would have it; it is if and only if the others left nothing behind of which the last one says
nothing (`Look.reads_iff`, and `World.FollowedElsewhere.reads_iff` for runs).
-/

namespace LivePage

open LivePage.Text

variable {α : Type} {w w' w'' : World} {n e : PageNode} {c : CellId} {name property : String}
  {el el' : Element} {l last : Look} {looks : List Look} {f g : Element → Element} {r : Reaction}
  {d : Nat} {held : Held} {v : Value}

/-! ## Entries that are set and erased -/

namespace Entries

/-- Gives a name a value, or erases it. -/
def put (name : String) : Option α → Entries α → Entries α
  | some a, entries => set name a entries
  | none, entries => erase name entries

/-- Gives names values, or erases them, one after the other. -/
def putAll (named : List (String × Option α)) (entries : Entries α) : Entries α :=
  named.foldl (fun entries a => put a.1 a.2 entries) entries

@[simp] theorem get?_put (name other : String) (a : Option α) (entries : Entries α) :
    get? other (put name a entries) = if name = other then a else get? other entries := by
  cases a with
  | none => exact get?_erase ..
  | some a => exact get?_set ..

theorem get?_append (name : String) (entries entries' : Entries α) :
    get? name (entries ++ entries') = (get? name entries).or (get? name entries') := by
  induction entries with
  | nil => rfl
  | cons a rest ih =>
    rw [List.cons_append, get?, get?]
    split
    · rfl
    · exact ih

/-- What is said last of a name counts. -/
theorem get?_putAll (name : String) (named : List (String × Option α)) (entries : Entries α) :
    get? name (putAll named entries) = (get? name named.reverse).getD (get? name entries) := by
  induction named generalizing entries with
  | nil => rfl
  | cons a rest ih =>
    have hstep : get? name (put a.1 a.2 entries) =
        (get? name [a]).getD (get? name entries) := by
      rw [get?_put, get?, get?]
      split <;> rfl
    rw [putAll, List.foldl_cons, ← putAll, ih, List.reverse_cons, get?_append, hstep]
    cases get? name rest.reverse <;> rfl

end Entries

/-! ## What values say of an element -/

/-- What a value asks of the attribute that it is applied to. -/
inductive Look where
  /-- The attribute is removed. -/
  | bare
  | text (s : String)
  /-- Properties of the style are set or removed. -/
  | style (properties : List (String × Option String))

/-- What a value says of an attribute. -/
def World.look (w : World) : Value → Look
  | .empty => .bare
  | .style style => .style (style.map fun s => (stylePropertyName s.1, w.styleText? s.2))
  | v =>
    match w.text? v with
    | some s => .text s
    | none => .bare

/-- What is said of a value that an observable comes to hold. -/
def World.lookHolding (w : World) (c : CellId) (held : Held) : Look :=
  let w := w.withCell c fun cell => { cell with held }
  w.look (w.current c)

namespace Look

/-- What is said of the attribute, if anything is. -/
def attribute? : Look → Option (Option String)
  | bare => some none
  | text s => some (some s)
  | style _ => none

/-- What is said of properties of the style. -/
def properties : Look → List (String × Option String)
  | style properties => properties
  | bare | text _ => []

/-- What is said last of a property of the style, if anything is. -/
def property? (property : String) (look : Look) : Option (Option String) :=
  Entries.get? property look.properties.reverse

/-- The element after a value has been applied to one of its attributes. -/
def on (name : String) (look : Look) (el : Element) : Element :=
  { el with
    attributes := look.attribute?.elim el.attributes fun s => Entries.put name s el.attributes
    style := Entries.putAll look.properties el.style }

/-- The element after values have been applied to one of its attributes, one after the other. -/
def all (name : String) (looks : List Look) (el : Element) : Element :=
  looks.foldl (fun el look => look.on name el) el

theorem get?_attributes_on (other : String) : Entries.get? other (l.on name el).attributes =
    if name = other then l.attribute?.getD (Entries.get? other el.attributes)
    else Entries.get? other el.attributes := by
  unfold on
  cases l.attribute? with
  | none => simp
  | some s => exact Entries.get?_put ..

theorem get?_style_on : Entries.get? property (l.on name el).style =
    (l.property? property).getD (Entries.get? property el.style) :=
  Entries.get?_putAll ..

@[simp] theorem all_append_singleton :
    all name (looks ++ [last]) el = last.on name (all name looks el) := by
  simp [all]

/-- The attribute is as the last value has it that was no style. -/
theorem get?_attributes_all : Entries.get? name (all name looks el).attributes =
    (looks.reverse.findSome? attribute?).getD (Entries.get? name el.attributes) := by
  induction looks using List.reverseRecOn with
  | nil => rfl
  | append_singleton looks last ih =>
    rw [all_append_singleton, get?_attributes_on, if_pos rfl, ih, List.reverse_append]
    cases h : last.attribute? <;> simp [h]

/-- No other attribute changes. -/
theorem get?_attributes_all_of_ne {other : String} (h : name ≠ other) :
    Entries.get? other (all name looks el).attributes = Entries.get? other el.attributes := by
  induction looks using List.reverseRecOn with
  | nil => rfl
  | append_singleton looks last ih =>
    rw [all_append_singleton, get?_attributes_on, if_neg h, ih]

/-- A property of the style is as the last style has it that names it. -/
theorem get?_style_all : Entries.get? property (all name looks el).style =
    (looks.reverse.findSome? (property? property)).getD (Entries.get? property el.style) := by
  induction looks using List.reverseRecOn with
  | nil => rfl
  | append_singleton looks last ih =>
    rw [all_append_singleton, get?_style_on, ih, List.reverse_append]
    cases h : last.property? property <;> simp [h]

end Look

/-- Read as maps, the elements have the same attributes and the same style. -/
structure Element.Reads (el el' : Element) : Prop where
  attributes (name : String) : Entries.get? name el.attributes = Entries.get? name el'.attributes
  style (property : String) : Entries.get? property el.style = Entries.get? property el'.style

namespace Look

/-- The element is as the last value alone would have it exactly if that one says something of all
that the others have changed. -/
theorem reads_iff : (all name (looks ++ [last]) el).Reads (last.on name el) ↔
    (last.attribute? = none →
      Entries.get? name (all name looks el).attributes = Entries.get? name el.attributes) ∧
    ∀ property, last.property? property = none →
      Entries.get? property (all name looks el).style = Entries.get? property el.style := by
  rw [all_append_singleton]
  constructor
  · intro h
    refine ⟨fun hn => ?_, fun property hn => ?_⟩
    · simpa [get?_attributes_on, hn] using h.attributes name
    · simpa [get?_style_on, hn] using h.style property
  · rintro ⟨hattribute, hstyle⟩
    refine ⟨fun other => ?_, fun property => ?_⟩
    · rw [get?_attributes_on, get?_attributes_on]
      split
      · next hn =>
        subst hn
        cases h : last.attribute? with
        | none => exact hattribute h
        | some s => rfl
      · next hn => exact get?_attributes_all_of_ne hn
    · rw [get?_style_on, get?_style_on]
      cases h : last.property? property with
      | none => exact hstyle property h
      | some s => rfl

/-- Values that are no styles leave nothing behind for the next one. -/
theorem reads_of_attribute (h : ∀ look ∈ looks ++ [last], look.attribute?.isSome) :
    (all name (looks ++ [last]) el).Reads (last.on name el) := by
  have hnone : ∀ look ∈ looks ++ [last], ∀ property, look.property? property = none := by
    intro look hlook property
    have hsome := h look hlook
    cases look with
    | bare | text => rfl
    | style => cases hsome
  refine reads_iff.2 ⟨fun hn => ?_, fun property _ => ?_⟩
  · have hsome := h last (by simp)
    rw [hn] at hsome
    cases hsome
  · rw [get?_style_all, List.findSome?_eq_none_iff.2 fun look hlook => ?_]
    · rfl
    · exact hnone look (by simpa using Or.inl hlook) property

/-- Nor do styles that name no property but those that the next one names. -/
theorem reads_of_style (h : ∀ look ∈ looks, look.attribute? = none)
    (hnamed : ∀ look ∈ looks, ∀ property, last.property? property = none →
      look.property? property = none) :
    (all name (looks ++ [last]) el).Reads (last.on name el) := by
  refine reads_iff.2 ⟨fun _ => ?_, fun property hn => ?_⟩
  · rw [get?_attributes_all, List.findSome?_eq_none_iff.2 fun look hlook =>
      h look (by simpa using hlook)]
    rfl
  · rw [get?_style_all, List.findSome?_eq_none_iff.2 fun look hlook =>
      hnamed look (by simpa using hlook) property hn]
    rfl

/-- A style stays when the attribute is removed after it. -/
example : (all "style" [style [("color", some "red")], bare] ⟨"p", [], [], []⟩).style =
    [("color", "red")] := by decide

end Look

/-! ## What is said depends on what observables hold -/

/-- The observables hold the same. -/
structure World.HoldsAs (w w' : World) : Prop where
  size : w'.cells.size = w.cells.size
  held (c : CellId) : (w'.cell c).held = (w.cell c).held

namespace World.HoldsAs

theorem of_cells (h : w'.cells = w.cells) : w.HoldsAs w' :=
  ⟨by rw [h], fun c => by rw [cell, cell, h]⟩

theorem trans (h : w.HoldsAs w') (h' : w'.HoldsAs w'') : w.HoldsAs w'' :=
  ⟨h'.size.trans h.size, fun c => (h'.held c).trans (h.held c)⟩

theorem subscribed (w : World) (c : CellId) (r : Reaction) : w.HoldsAs (w.subscribed c r) := by
  refine ⟨Array.size_modify .., fun d => ?_⟩
  rw [World.subscribed, World.cell_withCell]
  split
  · unfold Cell.subscribe
    split <;> rfl
  · rfl

/-- Holding something else makes up for a difference in what was held. -/
theorem hold (h : ∀ d ≠ c, (w'.cell d).held = (w.cell d).held) (hs : w'.cells.size = w.cells.size)
    (held : Held) : (w.withCell c fun cell => { cell with held }).HoldsAs
      (w'.withCell c fun cell => { cell with held }) := by
  refine ⟨by simpa [World.withCell] using hs, fun d => ?_⟩
  rw [World.cell_withCell, World.cell_withCell, hs]
  by_cases hd : d = c
  · subst hd
    by_cases hlt : d.index < w.cells.size
    · simp [hlt]
    · rw [if_neg (fun h => hlt h.2), if_neg (fun h => hlt h.2), World.cell_of_size_le (by omega),
        World.cell_of_size_le (by omega)]
  · simpa [hd] using h d hd

variable (h : w.HoldsAs w')
include h

theorem content (c : CellId) : w'.content c = w.content c := by
  rw [World.content, World.content, h.held]

theorem cellText (k : Nat) : w'.cellText k = w.cellText k := by
  induction k with
  | zero => rfl
  | succ k ih =>
    funext c
    rw [World.cellText, World.cellText, ih, h.content]

theorem text? (v : Value) : w'.text? v = w.text? v := by
  rw [World.text?, World.text?, h.size, h.cellText]

theorem insertable (v : Value) : w'.insertable v = w.insertable v := by
  rw [World.insertable, World.insertable, h.size, h.cellText]

theorem current (c : CellId) : w'.current c = w.current c := by
  rw [World.current, World.current, h.insertable, h.content]

theorem heldArgument (held : Held) : w'.heldArgument held = w.heldArgument held := by
  cases held with
  | value v => exact h.insertable v
  | element | absent => rfl

theorem styleText? (s : StyleValue) : w'.styleText? s = w.styleText? s := by
  cases s with
  | text => rfl
  | observable c => rw [World.styleText?, World.styleText?, h.current, h.text?]

theorem look (v : Value) : w'.look v = w.look v := by
  cases v with
  | empty => rfl
  | style style => simp only [World.look, h.styleText?]
  | _ => simp only [World.look, h.text?]

theorem lookHolding (c : CellId) (held : Held) : w'.lookHolding c held = w.lookHolding c held := by
  have hheld := hold (c := c) (fun d _ => h.held d) h.size held
  rw [World.lookHolding, World.lookHolding, hheld.current, hheld.look]

end World.HoldsAs

/-- What is held is emitted as it is read. -/
theorem World.heldArgument_held (w : World) (c : CellId) :
    w.heldArgument (w.cell c).held = w.current c := by
  unfold World.current World.content
  cases (w.cell c).held <;> rfl

/-! ## One application -/

/-- The element of `n` has changed by `f`, and nothing of the observables or of what nodes are. -/
structure World.Redressed (w : World) (n : PageNode) (f : Element → Element) (w' : World) :
    Prop where
  cells : w'.cells = w.cells
  type (e : PageNode) : (w'.slot e).content.type = (w.slot e).content.type
  content {el : Element} :
    (w.slot n).content = .element el → (w'.slot n).content = .element (f el)

namespace World.Redressed

theorem refl (w : World) : w.Redressed n id w := ⟨rfl, fun _ => rfl, id⟩

theorem trans (h : w.Redressed n f w') (h' : w'.Redressed n g w'') :
    w.Redressed n (g ∘ f) w'' :=
  ⟨h'.cells.trans h.cells, fun e => (h'.type e).trans (h.type e), h'.content ∘ h.content⟩

/-- Another element is dressed. -/
theorem of_dresses (h : Dresses e w w') (hn : e ≠ n) : w.Redressed n id w' where
  cells := h.cells
  type m := ((h.page m.page).slot m.slot).type
  content hel := by
    have hslot : w'.slot n = w.slot n := ((h.page n.page).slot n.slot).eq fun he => hn he.symm
    rwa [hslot]

theorem withContent (hel : (w.slot n).content = .element el) (hf : f el = el') :
    w.Redressed n f (w.withContent n (.element el')) := by
  subst hf
  have hpage : n.page.index < w.pages.size := by
    refine Nat.lt_of_not_le fun hle => ?_
    rw [World.slot, World.page_of_size_le hle] at hel
    cases hel
  have hslot : n.slot < (w.page n.page).slots.size := by
    refine Nat.lt_of_not_le fun hle => ?_
    rw [World.slot, Page.slot_of_size_le hle] at hel
    cases hel
  have htype : (Content.element (f el)).type = (w.slot n).content.type := by
    rw [hel]
    rfl
  refine ⟨rfl, fun e => (World.shaped_withContent htype e.page).type e.slot, fun hel' => ?_⟩
  cases hel.symm.trans hel'
  obtain ⟨p, i⟩ := n
  rw [World.withContent, World.slot_withPage_self hpage, Page.slot_modify, if_pos ⟨rfl, hslot⟩]

end World.Redressed

theorem run_putStyle (hel : (w.slot n).content = .element el) (property : String)
    (s : Option String) : (n.putStyle property s).run w = .ok (.ok ())
      (w.withContent n (.element { el with style := Entries.put property s el.style })) := by
  cases s with
  | none => exact run_updateElement hel
  | some s => exact run_updateElement hel

theorem run_putStyles (hel : (w.slot n).content = .element el) (name : String) (style : Style) :
    ∃ w', (n.putStyles style).run.run w = .ok (.ok ⟨⟩) w' ∧
      w.Redressed n ((w.look (.style style)).on name) w' := by
  induction style generalizing w el with
  | nil => exact ⟨w, ok_epure.2 ⟨rfl, rfl⟩, .refl w⟩
  | cons s rest ih =>
    let put (el : Element) : Element :=
      { el with style := Entries.put (stylePropertyName s.1) (w.styleText? s.2) el.style }
    have hput : w.Redressed n put (w.withContent n (.element (put el))) := .withContent hel rfl
    obtain ⟨w', hrun, hrest⟩ := ih (hput.content hel)
    rw [(World.HoldsAs.of_cells hput.cells).look] at hrest
    refine ⟨w', ok_eget_bind.2 (ok_ebind.2 ⟨⟨⟩, _, ok_pageStep.2 (run_putStyle hel ..), hrun⟩), ?_⟩
    exact hput.trans hrest

/-- Applying a value to an attribute of an element succeeds, and does what the value says. -/
theorem run_putAttribute (hel : (w.slot n).content = .element el) (name : String) (v : Value) :
    ∃ w', (n.putAttribute name v).run.run w = .ok (.ok ⟨⟩) w' ∧
      w.Redressed n ((w.look v).on name) w' := by
  have hremove : ∀ {u : World}, (u.slot n).content = .element el →
      ∃ w', (pageStep (n.removeAttribute name)).run.run u = .ok (.ok ⟨⟩) w' ∧
        u.Redressed n (Look.bare.on name) w' := fun hel =>
    ⟨_, ok_pageStep.2 (run_updateElement hel), .withContent hel rfl⟩
  unfold PageNode.putAttribute
  cases v with
  | empty => exact hremove hel
  | style style => exact run_putStyles hel name style
  | _ =>
    simp only [World.look]
    split
    · next s h =>
      refine ⟨_, ok_eget_bind.2 ?_, .withContent hel rfl⟩
      simp only [h]
      exact ok_pageStep.2 (run_updateElement hel)
    · next h =>
      obtain ⟨w', hrun, hbare⟩ := hremove (u := { w with log := _ :: w.log }) hel
      refine ⟨w', ok_eget_bind.2 ?_, hbare.cells, hbare.type, hbare.content⟩
      simp only [h]
      exact ok_ebind.2 ⟨⟨⟩, _, ok_lift.2 rfl, hrun⟩

/-! ## Emissions -/

/-- What a subscription does to the element of `n` that is told of a value. -/
def Reaction.redress (n : PageNode) (l : Look) : Reaction → Element → Element
  | .attribute e name _, el => if e = n then l.on name el else el
  | _, el => el

theorem Reaction.redress_own (source : CellId) :
    (Reaction.attribute n name source).redress n l = l.on name := by
  funext el
  exact if_pos rfl

theorem Reaction.redress_of_not_marks (h : ¬ r.Marks n) : r.redress n l = id := by
  funext el
  cases r with
  | «attribute» e name source => exact if_neg fun he => h he.symm
  | _ => rfl

/-- The subscription is an attribute or a property of an element, and on `n` it is an attribute. -/
structure World.Touches (w : World) (n e : PageNode) (r : Reaction) : Prop where
  marks : r.Marks e
  element : (w.slot e).content.type = .element
  own : e = n → ∃ name source, r = .attribute n name source

theorem World.Touches.of_redressed (h : w.Touches n e r) (hw : w.Redressed n f w') :
    w'.Touches n e r :=
  ⟨h.marks, (hw.type e).trans h.element, h.own⟩

theorem Content.exists_of_type {x : Content} (h : x.type = .element) : ∃ el, x = .element el := by
  cases x with
  | element el => exact ⟨el, rfl⟩
  | _ => cases h

/-- A subscription of an attribute or a property that is told does what the value says. -/
theorem run_react (h : w.Touches n e r) (held : Held) :
    ∃ w', (respond (d + 1) (.react r held)).run w = .ok ⟨⟩ w' ∧
      w.Redressed n (r.redress n (w.look (w.heldArgument held))) w' := by
  obtain ⟨el, hel⟩ := Content.exists_of_type h.element
  have hmarks := h.marks
  cases r with
  | «attribute» e' name source =>
    obtain rfl : e = e' := h.marks
    obtain ⟨w', hrun, hw'⟩ := run_putAttribute hel name (w.heldArgument held)
    have hreact :
        (Reaction.run (respond d) held (.attribute e name source)).run w = .ok ⟨⟩ w' :=
      ok_get_bind.2 (ok_bind.2 ⟨.ok ⟨⟩, w', hrun, rfl⟩)
    refine ⟨w', hreact, ?_⟩
    by_cases hn : e = n
    · subst hn
      rwa [Reaction.redress_own]
    · have hother : ¬ (Reaction.attribute e name source).Marks n := fun he : n = e => hn he.symm
      rw [Reaction.redress_of_not_marks hother]
      exact .of_dresses ((dresses_react (respond d) hmarks held).ok hreact) hn
  | styleProperty e' property source =>
    obtain rfl : e = e' := h.marks
    have hn : e ≠ n := fun hn => by
      obtain ⟨name, source, h⟩ := h.own hn
      cases h
    have hreact : ∃ w', (Reaction.run (respond d) held (.styleProperty e property source)).run w =
        .ok ⟨⟩ w' :=
      ⟨_, ok_get_bind.2 (ok_bind.2 ⟨.ok ⟨⟩, _,
        ok_eget_bind.2 (ok_pageStep.2 (run_putStyle hel ..)), rfl⟩)⟩
    obtain ⟨w', hreact⟩ := hreact
    exact ⟨w', hreact, .of_dresses ((dresses_react (respond d) hmarks held).ok hreact) hn⟩
  | _ => exact hmarks.elim

/-- Attributes and properties are told one after the other, and all of them. -/
theorem run_notify (held : Held) (snapshot : List (Nat × Reaction))
    (h : ∀ s ∈ snapshot, (w.cell c).isSubscribed s.1 ∧ ∃ e, w.Touches n e s.2) :
    ∃ w', (notify (respond (d + 1)) c held snapshot).run w = .ok ⟨⟩ w' ∧
      w.Redressed n (fun el => snapshot.foldl
        (fun el s => s.2.redress n (w.look (w.heldArgument held)) el) el) w' := by
  induction snapshot generalizing w with
  | nil => exact ⟨w, rfl, .refl w⟩
  | cons s rest ih =>
    obtain ⟨key, r⟩ := s
    obtain ⟨⟨hkey, e, hr⟩, hrest⟩ := List.forall_mem_cons.1 h
    let held' := ((key, r) :: rest).flatMap fun s => w.reactionHolds s.2
    have hpinned : (w.pinned held').Touches n e r := ⟨hr.marks, hr.element, hr.own⟩
    obtain ⟨u, hrun, hu⟩ := run_react (d := d) hpinned held
    have hlook : (w.pinned held').look ((w.pinned held').heldArgument held) =
        w.look (w.heldArgument held) := by
      have hheld : w.HoldsAs (w.pinned held') := .of_cells rfl
      rw [hheld.look, hheld.heldArgument]
    have hu' : w.Redressed n (r.redress n (w.look (w.heldArgument held))) u.unpinned := by
      rw [hlook] at hu
      exact ⟨hu.cells, hu.type, hu.content⟩
    obtain ⟨w', hrun', hw'⟩ := ih (w := u.unpinned) fun s hs => by
      obtain ⟨hkey, e, hr⟩ := hrest s hs
      refine ⟨?_, e, hr.of_redressed hu'⟩
      have hcell : u.unpinned.cell c = w.cell c := by rw [World.cell, World.cell, hu'.cells]
      rwa [hcell]
    have hheld : w.HoldsAs u.unpinned := .of_cells hu'.cells
    rw [hheld.look, hheld.heldArgument] at hw'
    refine ⟨w', ok_get_bind.2 ?_, hu'.trans hw'⟩
    rw [if_pos hkey]
    exact ok_bind.2 ⟨⟨⟩, _, ok_holding.2 ⟨u, hrun, rfl⟩, hrun'⟩

/-- The observable is followed by attributes and properties of elements only, and on the element of
`n` by this attribute only. -/
structure World.FollowedOnce (w : World) (c : CellId) (n : PageNode) (name : String) : Prop where
  touches : ∀ s ∈ (w.cell c).registry, ∃ e, w.Touches n e s.2
  once : ∃ before key source after,
    (w.cell c).registry = before ++ (key, .attribute n name source) :: after ∧
      ∀ s ∈ before ++ after, ¬ s.2.Marks n

namespace World.FollowedOnce

theorem redress (h : w.FollowedOnce c n name) (l : Look) (el : Element) :
    (w.cell c).registry.foldl (fun el s => s.2.redress n l el) el = l.on name el := by
  have hothers : ∀ (ss : List (Nat × Reaction)) (el : Element), (∀ s ∈ ss, ¬ s.2.Marks n) →
      ss.foldl (fun el s => s.2.redress n l el) el = el := by
    intro ss
    induction ss with
    | nil => exact fun _ _ => rfl
    | cons s ss ih =>
      intro el hs
      rw [List.foldl_cons, Reaction.redress_of_not_marks (hs s List.mem_cons_self)]
      exact ih el fun s' hs' => hs s' (List.mem_cons_of_mem _ hs')
  obtain ⟨before, key, source, after, he, hs⟩ := h.once
  rw [he, List.foldl_append, hothers before el fun s h => hs s (List.mem_append_left _ h),
    List.foldl_cons, hothers after _ fun s h => hs s (List.mem_append_right _ h)]
  rw [Reaction.redress_own]

theorem of_redressed (h : w.FollowedOnce c n name) (hw : w.Redressed n f w') :
    w'.FollowedOnce c n name := by
  have hcell : w'.cell c = w.cell c := by rw [World.cell, World.cell, hw.cells]
  refine ⟨fun s hs => ?_, by rw [hcell]; exact h.once⟩
  obtain ⟨e, he⟩ := h.touches s (hcell ▸ hs)
  exact ⟨e, he.of_redressed hw⟩

theorem hold (h : w.FollowedOnce c n name) (held : Held) :
    (w.withCell c fun cell => { cell with held }).FollowedOnce c n name := by
  have hregistry : ((w.withCell c fun cell => { cell with held }).cell c).registry =
      (w.cell c).registry := by
    rw [World.cell_withCell]
    split <;> rfl
  refine ⟨fun s hs => ?_, by rw [hregistry]; exact h.once⟩
  obtain ⟨e, he⟩ := h.touches s (hregistry ▸ hs)
  exact ⟨e, he.marks, he.element, he.own⟩

/-- An emission does to the element what the value says that the observable holds. -/
theorem emit (h : w.FollowedOnce c n name) :
    ∃ w', (LivePage.emit (respond (d + 1)) c).run w = .ok ⟨⟩ w' ∧
      w.Redressed n ((w.look (w.current c)).on name) w' := by
  let pins := .cell c :: (w.cell c).held.holds
  obtain ⟨u, hrun, hu⟩ := run_notify (w := w.pinned pins) (c := c) (n := n) (d := d)
    (w.cell c).held (w.cell c).registry fun s hs => by
      obtain ⟨e, he⟩ := h.touches s hs
      exact ⟨Cell.isSubscribed_eq_true.2 (List.mem_map.2 ⟨s, hs, rfl⟩), e,
        he.marks, he.element, he.own⟩
  have hheld : w.HoldsAs (w.pinned pins) := .of_cells rfl
  rw [hheld.look, hheld.heldArgument, World.heldArgument_held] at hu
  refine ⟨u.unpinned, ok_get_bind.2 (ok_holding.2 ⟨u, hrun, rfl⟩), hu.cells, hu.type, fun hel => ?_⟩
  rw [← h.redress]
  exact hu.content hel

end World.FollowedOnce

/-! ## Sequences of values -/

/-- What a value says does not depend on what was held before it. -/
theorem World.lookHolding_hold (w : World) (c : CellId) (held held' : Held) :
    (w.withCell c fun cell => { cell with held }).lookHolding c held' = w.lookHolding c held' := by
  have hother : ∀ d ≠ c, ((w.withCell c fun cell => { cell with held }).cell d).held =
      (w.cell d).held := fun d hd => by
    rw [World.cell_withCell, if_neg fun h => hd h.1]
  have hheld := HoldsAs.hold hother (Array.size_modify ..) held'
  rw [lookHolding, lookHolding, hheld.current, hheld.look]

/-- Assigning and emitting values one after the other applies them one after the other. -/
theorem World.FollowedOnce.holdAndEmit_all (h : w.FollowedOnce c n name)
    (hel : (w.slot n).content = .element el) (values : List Held) :
    ∃ w', (values.forM (holdAndEmit (respond (d + 1)) c)).run w = .ok ⟨⟩ w' ∧
      (w'.slot n).content = .element (Look.all name (values.map (w.lookHolding c)) el) := by
  induction values generalizing w el with
  | nil => exact ⟨w, rfl, hel⟩
  | cons held rest ih =>
    obtain ⟨u, hrun, hu⟩ := (h.hold held).emit (d := d)
    obtain ⟨w', hrun', hw'⟩ := ih ((h.hold held).of_redressed hu) (hu.content hel)
    have hlook : ∀ held', u.lookHolding c held' = w.lookHolding c held' := fun held' =>
      ((World.HoldsAs.of_cells hu.cells).lookHolding c held').trans
        (w.lookHolding_hold c held held')
    refine ⟨w', ok_bind.2 ⟨⟨⟩, u, hrun, hrun'⟩, ?_⟩
    rw [hw', List.map_congr_left fun held' _ => hlook held']
    rfl

/-- Binds an attribute to an observable, and then assigns and emits values of it. -/
def bindAndEmit (call : Respond) (n : PageNode) (name : String) (c : CellId) (values : List Held) :
    Realizing Unit := do
  let _ ← bindAttribute call n {} name (.observable c)
  liftM (values.forM (holdAndEmit call c))

theorem Reaction.Marks.unique {e' : PageNode} (h : r.Marks e) (h' : r.Marks e') : e = e' := by
  cases r with
  | «attribute» | styleProperty => exact Eq.trans h (Eq.symm h')
  | _ => exact h.elim

/-- Before the attribute is bound to it, the observable is followed by attributes and properties of
other elements only. -/
def World.FollowedElsewhere (w : World) (c : CellId) (n : PageNode) : Prop :=
  ∀ s ∈ (w.cell c).registry, ∃ e, s.2.Marks e ∧ (w.slot e).content.type = .element ∧ e ≠ n

/-- An attribute that is bound to such an observable is the only one of its element that follows
it. -/
theorem World.FollowedElsewhere.once (hf : w.FollowedElsewhere c n) (hk : w.Keyed)
    (hc : c.index < w.cells.size) (hel : (w.slot n).content.type = .element) :
    (w.subscribed c (.attribute n name c)).FollowedOnce c n name := by
  have hregistry : ((w.subscribed c (.attribute n name c)).cell c).registry =
      (w.cell c).registry ++ [(w.nextKey, .attribute n name c)] := by
    rw [World.registry_subscribed hk, if_pos ⟨rfl, hc⟩]
  constructor
  · rw [hregistry, List.forall_mem_append, List.forall_mem_singleton]
    refine ⟨fun s hs => ?_, n, rfl, hel, fun _ => ⟨name, c, rfl⟩⟩
    obtain ⟨e, hmarks, helement, hn⟩ := hf s hs
    exact ⟨e, hmarks, helement, fun he => absurd he hn⟩
  · refine ⟨(w.cell c).registry, w.nextKey, c, [], hregistry, fun s hs => ?_⟩
    obtain ⟨e, hmarks, -, hn⟩ := hf s (by simpa using hs)
    exact fun hmarks' => hn (Reaction.Marks.unique hmarks hmarks')

/-- Binding an attribute and emitting values succeeds, and applies to the element what is held at
the start and then each of the values. -/
theorem run_bindAndEmit (hk : w.Keyed) (hc : c.index < w.cells.size)
    (hel : (w.slot n).content = .element el) (hf : w.FollowedElsewhere c n) (name : String)
    (values : List Held) :
    ∃ w', (bindAndEmit (respond (d + 1)) n name c values).run.run w = .ok (.ok ⟨⟩) w' ∧
      (w'.slot n).content = .element (Look.all (pageAttributeName name)
        (w.look (w.current c) :: values.map (w.lookHolding c)) el) := by
  obtain ⟨u, hput, hu⟩ := run_putAttribute hel (pageAttributeName name) (w.current c)
  have hdresses := (dresses_putAttribute (E := fun _ => True) (fun _ => trivial) n _ _).ok hput
  have hcell : ∀ d, u.cell d = w.cell d := hdresses.cell
  have hfu : u.FollowedElsewhere c n := fun s hs => by
    obtain ⟨e, hmarks, helement, hn⟩ := hf s (hcell c ▸ hs)
    exact ⟨e, hmarks, (hu.type e).trans helement, hn⟩
  have hku : u.Keyed := fun d => by
    rw [hcell, hdresses.nextKey]
    exact hk d
  have hcu : c.index < u.cells.size := hu.cells ▸ hc
  have helu : (u.slot n).content.type = .element := by
    rw [hu.content hel]
    rfl
  let v := u.subscribed c (.attribute n (pageAttributeName name) c)
  have hheld : w.HoldsAs v := (World.HoldsAs.of_cells hu.cells).trans (.subscribed u c _)
  obtain ⟨w', hrun, hw'⟩ := (hfu.once hku hcu helu).holdAndEmit_all (d := d)
    (hu.content hel) values
  have hbind : (bindAttribute (respond (d + 1)) n {} name (.observable c)).run.run w =
      .ok (.ok { observables := [c] }) v :=
    ok_eget_bind.2 (ok_ebind.2 ⟨⟨⟩, u, hput, ok_ebind.2
      ⟨_, _, ok_lift.2 (run_subscribe ..), ok_epure.2 ⟨rfl, rfl⟩⟩⟩)
  refine ⟨w', ok_ebind.2 ⟨_, v, hbind, ok_lift.2 hrun⟩, ?_⟩
  rw [hw', List.map_congr_left fun held _ => hheld.lookHolding c held]
  rfl

/-- An element whose attribute is bound and then follows values reads as one that is bound when the
last of them is held, exactly if the values before have left nothing of which the last one says
nothing. -/
theorem World.FollowedElsewhere.reads_iff (hf : w.FollowedElsewhere c n) (hk : w.Keyed)
    (hc : c.index < w.cells.size) (hel : (w.slot n).content = .element el) (name : String)
    (values : List Held) (final : Held) :
    ∃ w' el' w'' el'',
      (bindAndEmit (respond (d + 1)) n name c (values ++ [final])).run.run w =
        .ok (.ok ⟨⟩) w' ∧ (w'.slot n).content = .element el' ∧
      (bindAndEmit (respond (d + 1)) n name c []).run.run
        (w.withCell c fun cell => { cell with held := final }) = .ok (.ok ⟨⟩) w'' ∧
        (w''.slot n).content = .element el'' ∧
      let before := Look.all (pageAttributeName name)
        (w.look (w.current c) :: values.map (w.lookHolding c)) el
      (el'.Reads el'' ↔
        ((w.lookHolding c final).attribute? = none →
          Entries.get? (pageAttributeName name) before.attributes =
            Entries.get? (pageAttributeName name) el.attributes) ∧
        ∀ property, (w.lookHolding c final).property? property = none →
          Entries.get? property before.style = Entries.get? property el.style) := by
  have hregistry : ∀ d, ((w.withCell c fun cell => { cell with held := final }).cell d).registry =
      (w.cell d).registry := fun d => by
    rw [World.cell_withCell]
    split <;> rfl
  have hkeyed : (w.withCell c fun cell => { cell with held := final }).Keyed := fun d => by
    rw [Cell.keys, hregistry]
    exact hk d
  have hfollowed : (w.withCell c fun cell => { cell with held := final }).FollowedElsewhere c n :=
    fun s hs => hf s (hregistry c ▸ hs)
  obtain ⟨w', hrun, hw'⟩ := run_bindAndEmit (d := d) hk hc hel hf name (values ++ [final])
  obtain ⟨w'', hrun', hw''⟩ := run_bindAndEmit (d := d) hkeyed
    (by simpa [World.withCell] using hc) hel hfollowed name []
  refine ⟨w', _, w'', _, hrun, hw', hrun', hw'', ?_⟩
  rw [List.map_append, ← List.cons_append]
  exact Look.reads_iff

end LivePage
