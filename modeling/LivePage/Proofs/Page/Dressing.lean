import LivePage.Page.Element
import LivePage.Proofs.Page.Edit

/-!
# Pages up to attributes

An emission that no place on a page follows can still change attributes and style properties of
elements that are bound to the observable. `Page.Dressed X` says that nothing else of a page has
changed, and nothing at all on the slots in `X`.
-/

namespace LivePage

variable {x y : Prop}

/-- What a node is, apart from its attributes and its style. -/
def Content.plain : Content → Content
  | .element e => .element { e with attributes := [], style := [] }
  | content => content

/-- A slot up to the attributes and the style of its node. -/
def Slot.plain (s : Slot) : Slot := { s with content := s.content.plain }

/-- The slots differ in attributes and style only, and are the same if `x`. -/
structure Slot.Alike (x : Prop) (s s' : Slot) : Prop where
  plain : s'.plain = s.plain
  eq : x → s' = s

namespace Slot.Alike

variable {s s' s'' : Slot}

theorem refl (x : Prop) (s : Slot) : Alike x s s := ⟨rfl, fun _ => rfl⟩

theorem trans (h : Alike x s s') (h' : Alike x s' s'') : Alike x s s'' :=
  ⟨h'.plain.trans h.plain, fun hx => (h'.eq hx).trans (h.eq hx)⟩

theorem mono (h : Alike x s s') (hxy : y → x) : Alike y s s' := ⟨h.plain, fun hy => h.eq (hxy hy)⟩

theorem parent (h : Alike x s s') : s'.parent = s.parent :=
  show s'.plain.parent = s.plain.parent by rw [h.plain]

theorem children (h : Alike x s s') : s'.children = s.children :=
  show s'.plain.children = s.plain.children by rw [h.plain]

theorem content (h : Alike x s s') : s'.content.plain = s.content.plain :=
  show s'.plain.content = s.plain.content by rw [h.plain]

end Slot.Alike

@[simp] theorem Content.type_plain (c : Content) : c.plain.type = c.type := by cases c <;> rfl

theorem Slot.Alike.type {s s' : Slot} (h : Alike x s s') : s'.content.type = s.content.type := by
  rw [← Content.type_plain, h.content, Content.type_plain]

/-- Only elements have attributes, so nodes of other shapes are the same. -/
theorem Content.eq_of_plain {a b : Content} (h : a.plain = b.plain) (hb : b.type ≠ .element) :
    a = b := by
  cases a <;> cases b <;> simp_all [Content.plain, Content.type]

theorem Slot.Alike.eq_of_type {s s' : Slot} (h : Alike x s s') (hs : s.content.type ≠ .element) :
    s' = s := by
  obtain ⟨c, p, ch⟩ := s
  obtain ⟨c', p', ch'⟩ := s'
  obtain rfl : c' = c := Content.eq_of_plain h.content hs
  obtain rfl : p' = p := h.parent
  obtain rfl : ch' = ch := h.children
  rfl

/-! ## Pages of one shape -/

/-- The pages have the same nodes of the same types in the same places. -/
structure Page.Shaped (p p' : Page) : Prop where
  size : p'.slots.size = p.slots.size
  free : p'.free = p.free
  parent (i : Nat) : (p'.slot i).parent = (p.slot i).parent
  children (i : Nat) : (p'.slot i).children = (p.slot i).children
  type (i : Nat) : (p'.slot i).content.type = (p.slot i).content.type

namespace Page.Shaped

variable {p p' p'' : Page} {i a : Nat}

theorem refl (p : Page) : Shaped p p := ⟨rfl, rfl, fun _ => rfl, fun _ => rfl, fun _ => rfl⟩

theorem trans (h : Shaped p p') (h' : Shaped p' p'') : Shaped p p'' :=
  ⟨h'.size.trans h.size, h'.free.trans h.free, fun i => (h'.parent i).trans (h.parent i),
    fun i => (h'.children i).trans (h.children i), fun i => (h'.type i).trans (h.type i)⟩

theorem occupied (h : Shaped p p') : p'.Occupied i ↔ p.Occupied i := by
  rw [Page.Occupied, Page.Occupied, h.size, h.free]

theorem up (h : Shaped p p') : p'.Up i a ↔ p.Up i a := by
  constructor
  · rintro ⟨k, hk⟩
    induction hk with
    | refl i => exact .refl p i
    | step hp _ ih => exact .step (h.parent _ ▸ hp) ih
  · rintro ⟨k, hk⟩
    induction hk with
    | refl i => exact .refl p' i
    | step hp _ ih => exact .step ((h.parent _).trans hp) ih

theorem rooted (h : Shaped p p') (hr : p.Rooted) : p'.Rooted where
  up {i q} hp := (hr.up (h.parent i ▸ hp)).imp h.occupied.2 h.occupied.2
  down {q i} hi := by
    rw [h.parent i]
    exact hr.down (by rwa [h.children q] at hi)
  grounded i := (hr.grounded i).of_cut fun j => .inr (h.parent j)
  freeNodup := by
    rw [h.free]
    exact hr.freeNodup
  freeLt hi := by
    rw [h.size]
    exact hr.freeLt (by rwa [h.free] at hi)

theorem forest (h : Shaped p p') (hf : p.Forest) : p'.Forest where
  up {i q} hp := by
    obtain ⟨h1, h2⟩ := (h.rooted hf.rooted).up hp
    exact ⟨h1, h2, by rw [h.children q]; exact (hf.up (h.parent i ▸ hp)).2.2⟩
  down := (h.rooted hf.rooted).down
  nodup q := by
    rw [h.children q]
    exact hf.nodup q
  grounded := (h.rooted hf.rooted).grounded
  leaf i hi := by
    rw [h.children i]
    exact hf.leaf i (by rwa [h.type i] at hi)
  loose i hi := by
    rw [h.parent i]
    exact hf.loose i (by rwa [h.type i] at hi)
  freeNodup := (h.rooted hf.rooted).freeNodup
  freeLt := (h.rooted hf.rooted).freeLt
  vacant {i} hi := by
    have hv := hf.vacant (by rwa [h.free] at hi)
    have hc := h.type i
    have hp := h.parent i
    have hch := h.children i
    rw [hv] at hc hp hch
    generalize p'.slot i = s at hc hp hch
    obtain ⟨content, parent, children⟩ := s
    cases content with
    | fragment =>
      cases hp
      cases hch
      rfl
    | _ => cases hc

end Page.Shaped

namespace Page

variable {p p' : Page} {i : Nat}

/-- A change that concerns only what a node is, and not its type. -/
theorem shaped_modify {f : Slot → Slot} (hparent : ∀ s, (f s).parent = s.parent)
    (hchildren : ∀ s, (f s).children = s.children)
    (htype : (f (p.slot i)).content.type = (p.slot i).content.type) : p.Shaped (p.modify i f) := by
  refine ⟨by simp, rfl, fun j => ?_, fun j => ?_, fun j => ?_⟩
  · rw [slot_modify]
    split
    · exact hparent _
    · rfl
  · rw [slot_modify]
    split
    · exact hchildren _
    · rfl
  · rw [slot_modify]
    split
    · next h => rw [← h.1]; exact htype
    · rfl

theorem shaped_updateElement {operation : String} {f : Element → Element}
    (h : p.updateElement i operation f = .ok p') : p.Shaped p' := by
  unfold updateElement at h
  split at h
  · next e he =>
    cases h
    refine shaped_modify (fun _ => rfl) (fun _ => rfl) ?_
    unfold element? at he
    split at he
    · next hc => rw [hc]; rfl
    · cases he
  · cases h

theorem sameSlots_updateElement {operation : String} {f : Element → Element}
    (h : p.updateElement i operation f = .ok p') : SameSlots p p' := by
  unfold updateElement at h
  split at h
  · cases h
    exact sameSlots_modify ..
  · cases h

theorem shaped_unlisten (p : Page) (i : Nat) (type : String) (handler : HandlerId) :
    p.Shaped (p.unlisten i type handler) := by
  refine shaped_modify (fun s => ?_) (fun s => ?_) ?_
  · cases s.content <;> rfl
  · cases s.content <;> rfl
  · cases hc : (p.slot i).content <;> simp [hc, Content.type]

end Page

/-! ## Dressing -/

/-- The page is the same, up to attributes and style, and exactly the same on the slots in `X`. -/
structure Page.Dressed (X : Nat → Prop) (p p' : Page) : Prop where
  size : p'.slots.size = p.slots.size
  free : p'.free = p.free
  slot (i : Nat) : (p.slot i).Alike (X i) (p'.slot i)

namespace Page.Dressed

variable {p p' p'' : Page} {X Y : Nat → Prop} {i a : Nat}

theorem refl (X : Nat → Prop) (p : Page) : Dressed X p p := ⟨rfl, rfl, fun _ => .refl _ _⟩

theorem trans (h : Dressed X p p') (h' : Dressed X p' p'') : Dressed X p p'' :=
  ⟨h'.size.trans h.size, h'.free.trans h.free, fun i => (h.slot i).trans (h'.slot i)⟩

theorem mono (h : Dressed X p p') (hXY : ∀ i, Y i → X i) : Dressed Y p p' :=
  ⟨h.size, h.free, fun i => (h.slot i).mono (hXY i)⟩

theorem shaped (h : Dressed X p p') : p.Shaped p' :=
  ⟨h.size, h.free, fun i => (h.slot i).parent, fun i => (h.slot i).children,
    fun i => (h.slot i).type⟩

theorem occupied (h : Dressed X p p') : p'.Occupied i ↔ p.Occupied i := h.shaped.occupied

theorem forest (h : Dressed X p p') (hf : p.Forest) : p'.Forest := h.shaped.forest hf

end Page.Dressed

/-- Changing attributes or the style of one element dresses that element. -/
theorem Page.dressed_updateElement {p p' : Page} {i : Nat} {operation : String}
    {f : Element → Element} (h : p.updateElement i operation f = .ok p')
    (hf : ∀ e, (f e).tag = e.tag ∧ (f e).listeners = e.listeners) : Dressed (· ≠ i) p p' := by
  unfold updateElement at h
  split at h
  · next e he =>
    cases h
    refine ⟨by simp, rfl, fun j => ?_⟩
    rw [slot_modify]
    split
    · next hij =>
      obtain ⟨rfl, -⟩ := hij
      have hc : (p.slot i).content = .element e := by
        unfold element? at he
        split at he
        · next he' => rw [he', Option.some.inj he]
        · cases he
      exact ⟨by simp [Slot.plain, Content.plain, hc, hf e], fun h => absurd rfl h⟩
    · exact .refl _ _
  · cases h

end LivePage
