import LivePage.Proofs.Mount.Realization

/-!
# What nodes ask for

On its way through a node a realization subscribes to observables and attaches references. `Asks`
lists both for nodes that are realized to the end, `Stops` for nodes among which a render function
gives a function: there realization stops. `Uptake.Taken` says that a world has taken up what is
listed, no more and no less.
-/

namespace LivePage

variable {w w' w₁ : World} {D : CellId → Prop} {c : CellId}

/-! ## Uptakes -/

/-- What a realization takes up, in order: the observables that it subscribes to, and the references
that it attaches. -/
structure Uptake where
  followed : List CellId := []
  attached : List CellId := []

namespace Uptake

instance : Append Uptake :=
  ⟨fun t t' => ⟨t.followed ++ t'.followed, t.attached ++ t'.attached⟩⟩

@[simp] theorem followed_append (t t' : Uptake) : (t ++ t').followed = t.followed ++ t'.followed :=
  rfl

@[simp] theorem attached_append (t t' : Uptake) : (t ++ t').attached = t.attached ++ t'.attached :=
  rfl

@[simp] theorem nil_append (t : Uptake) : ({} : Uptake) ++ t = t := rfl

@[simp] theorem append_nil (t : Uptake) : t ++ ({} : Uptake) = t := by
  change Uptake.mk (t.followed ++ []) (t.attached ++ []) = t
  rw [List.append_nil, List.append_nil]

/-- One more subscription. -/
def follow (c : CellId) : Uptake := ⟨[c], []⟩

/-- What the driving observable of a node adds. -/
def ofDriving (driving : Option CellId) : Uptake := ⟨driving.toList, []⟩

/-- What a style adds. -/
def ofStyle (style : Style) : Uptake := ⟨style.sources, []⟩

/-- What an attribute adds. -/
def ofAttribute (value : AttributeValue) : Uptake := ⟨value.sources, value.refs⟩

/-- What the attributes of an element add. -/
def ofAttributes (attributes : List (String × AttributeValue)) : Uptake :=
  ⟨attributes.flatMap (·.2.sources), attributes.flatMap (·.2.refs)⟩

theorem ofAttributes_cons (name : String) (value : AttributeValue)
    (rest : List (String × AttributeValue)) :
    ofAttributes ((name, value) :: rest) = ofAttribute value ++ ofAttributes rest := rfl

end Uptake

/-- The render function gives a function, in some world. -/
def Render.GivesFunction (r : Render) : Prop :=
  ∃ (d : Nat) (w w₁ : World) (v : Value),
    (holding r.holds (respond d (.render r))).run w = .ok v w₁ ∧ v.kind = .function

/-- What realizing the nodes to the end takes up. -/
inductive Asks : List Node → Uptake → Prop where
  | nil : Asks [] {}
  | empty {ns : List Node} {t : Uptake} : Asks ns t → Asks (.empty :: ns) t
  | text {ns : List Node} {t : Uptake} (data : String) (driving : Option CellId) : Asks ns t →
      Asks (.text data driving :: ns) (.ofDriving driving ++ t)
  | element {children ns : List Node} {t t' : Uptake} (tag : String)
      (attributes : List (String × AttributeValue)) (listeners : List Listener)
      (driving : Option CellId) : Asks children t → Asks ns t' →
      Asks (.element tag attributes listeners children driving :: ns)
        (.ofAttributes attributes ++ (t ++ .ofDriving driving) ++ t')
  | fragment {children ns : List Node} {t t' : Uptake} (driving : Option CellId) :
      Asks children t → Asks ns t' →
      Asks (.fragment children driving :: ns) (t ++ .ofDriving driving ++ t')
  | deferred {r : Render} {n : Node} {ns : List Node} {t t' : Uptake} : r.Gives n →
      Asks [n] t → Asks ns t' → Asks (.deferred r :: ns) (t ++ t')

/-- What realizing the nodes takes up until it stops at a render function among them: all that comes
before it, with the attributes of the elements around it, but not with the observables that drive
the nodes around it. -/
inductive Stops : List Node → Uptake → Prop where
  | here {r : Render} (ns : List Node) : r.GivesFunction → Stops (.deferred r :: ns) {}
  | deferred {r : Render} {n : Node} (ns : List Node) {t : Uptake} : r.Gives n → Stops [n] t →
      Stops (.deferred r :: ns) t
  | element {children : List Node} {t : Uptake} (tag : String)
      (attributes : List (String × AttributeValue)) (listeners : List Listener)
      (driving : Option CellId) (ns : List Node) : Stops children t →
      Stops (.element tag attributes listeners children driving :: ns)
        (.ofAttributes attributes ++ t)
  | fragment {children : List Node} {t : Uptake} (driving : Option CellId) (ns : List Node) :
      Stops children t → Stops (.fragment children driving :: ns) t
  | later {n : Node} {ns : List Node} {t t' : Uptake} : Asks [n] t → Stops ns t' →
      Stops (n :: ns) (t ++ t')

theorem Asks.cons {n : Node} {ns : List Node} {t t' : Uptake} (h : Asks [n] t) (h' : Asks ns t') :
    Asks (n :: ns) (t ++ t') := by
  cases h with
  | empty hrest =>
    cases hrest
    exact .empty h'
  | text data driving hrest =>
    cases hrest
    rw [Uptake.append_nil]
    exact .text data driving h'
  | element tag attributes listeners driving hc hrest =>
    cases hrest
    rw [Uptake.append_nil]
    exact .element tag attributes listeners driving hc h'
  | fragment driving hc hrest =>
    cases hrest
    rw [Uptake.append_nil]
    exact .fragment driving hc h'
  | deferred hr hn hrest =>
    cases hrest
    rw [Uptake.append_nil]
    exact .deferred hr hn h'

theorem Stops.cons {n : Node} {t : Uptake} (ns : List Node) (h : Stops [n] t) :
    Stops (n :: ns) t := by
  cases h with
  | here _ hr => exact .here ns hr
  | deferred _ hr hn => exact .deferred ns hr hn
  | element tag attributes listeners driving _ hc =>
    exact .element tag attributes listeners driving ns hc
  | fragment driving _ hc => exact .fragment driving ns hc
  | later _ hrest => cases hrest

/-! ## Worlds that have taken something up -/

/-- From `w` to `w'` exactly `t` has been taken up: behind the subscriptions that an observable had
stand as many new ones as `t` follows it, and exactly the references that `t` attaches hold an
element now. Apart from them only what is computed from references can hold something else. -/
structure Uptake.Taken (D : CellId → Prop) (t : Uptake) (w w' : World) : Prop where
  evolves : Evolves w w'
  kept (c : CellId) : (w.cell c).registry <+: (w'.cell c).registry
  count {c : CellId} : c.index < w.cells.size →
    (w'.cell c).registry.length = (w.cell c).registry.length + t.followed.count c
  held {c : CellId} : ¬ D c → (w'.cell c).held = (w.cell c).held
  attached {c : CellId} : c ∈ t.attached →
    (w.cell c).flavour = .ref ∧ ∃ e, (w'.cell c).held = .element e
  unattached {c : CellId} : (w.cell c).flavour = .ref → c ∉ t.attached →
    (w'.cell c).held = (w.cell c).held

namespace Uptake.Taken

variable {t t' : Uptake}

/-- Nothing has changed about observables. -/
theorem of_cells (h : Evolves w w') (hc : w'.cells = w.cells) : Taken D {} w w' := by
  have hcell : ∀ c, w'.cell c = w.cell c := fun c => by simp [World.cell, hc]
  refine ⟨h, fun c => ?_, fun {c} _ => ?_, fun {c} _ => by rw [hcell],
    fun hc => absurd hc List.not_mem_nil, fun {c} _ _ => by rw [hcell]⟩
  · rw [hcell]
  · rw [hcell]
    rfl

theorem trans (h : Taken D t w w') (h' : Taken D t' w' w₁) : Taken D (t ++ t') w w₁ where
  evolves := h.evolves.trans h'.evolves
  kept c := (h.kept c).trans (h'.kept c)
  count {c} hc := by
    rw [h'.count (by rwa [h.evolves.cells]), h.count hc, followed_append, List.count_append,
      Nat.add_assoc]
  held hc := (h'.held hc).trans (h.held hc)
  attached {c} hc := by
    by_cases hc' : c ∈ t'.attached
    · obtain ⟨hf, e, he⟩ := h'.attached hc'
      exact ⟨(h.evolves.flavour c).symm.trans hf, e, he⟩
    · obtain ⟨hf, e, he⟩ := h.attached ((List.mem_append.1 hc).resolve_right hc')
      have hf' : (w'.cell c).flavour = .ref := (h.evolves.flavour c).trans hf
      exact ⟨hf, e, (h'.unattached hf' hc').trans he⟩
  unattached {c} hf hc := by
    rw [attached_append, List.mem_append, not_or] at hc
    exact (h'.unattached ((h.evolves.flavour c).trans hf) hc.2).trans (h.unattached hf hc.1)

theorem unpinned {held : List Entity} (h : Taken D t (w.pinned held) w') :
    Taken D t w w'.unpinned :=
  ⟨h.evolves.unpinned, h.kept, h.count, h.held, h.attached, h.unattached⟩

/-- One more subscription. -/
theorem subscribed {r : Reaction} (hk : w.Keyed) (hp : r.onPage) (hf : w.Follows c r) :
    Taken D (.follow c) w (w.subscribed c r) := by
  refine ⟨evolves_subscribed hp hf, fun d => ?_, fun {d} hd => ?_,
    fun _ => World.held_subscribed .., fun hc => absurd hc List.not_mem_nil,
    fun _ _ => World.held_subscribed ..⟩
  all_goals rw [World.registry_subscribed hk]
  all_goals split
  · exact List.prefix_append ..
  · exact List.prefix_refl _
  · next h => simp [follow, h.1]
  · next h =>
    have hne : c ≠ d := fun he => h ⟨he.symm, hd⟩
    simp [follow, hne]

/-- One more reference is attached, and those that are told of it only murmur. -/
theorem attaching {e : PageNode} (hf : (w.cell c).flavour = .ref) (hc : D c)
    (h : Murmur D (w.withCell c fun cell => { cell with held := .element e }) w') :
    Taken D ⟨[], [c]⟩ w w' := by
  have hlt : c.index < w.cells.size := by
    refine Nat.lt_of_not_le fun hle => ?_
    rw [World.cell_of_size_le hle] at hf
    cases hf
  have hev : Evolves w (w.withCell c fun cell => { cell with held := .element e }) :=
    evolves_withCell (fun _ => rfl) fun _ => .refl _
  have hregistry : ∀ d, (w'.cell d).registry = (w.cell d).registry := by
    intro d
    rw [h.registry, World.cell_withCell]
    split <;> rfl
  have hheld : ∀ {d}, ¬ D d ∨ (w.cell d).flavour = .ref → (w'.cell d).held =
      if d = c then .element e else (w.cell d).held := by
    intro d hd
    rw [h.held d (by rwa [hev.flavour]), World.cell_withCell]
    by_cases hdc : d = c
    · subst hdc
      simp [hlt]
    · simp [hdc]
  refine ⟨hev.trans h.evolves, fun d => ?_, fun _ => by rw [hregistry]; rfl, fun {d} hd => ?_,
    fun {d} hd => ?_, fun {d} hd hnot => ?_⟩
  · rw [hregistry]
  · have hne : d ≠ c := fun hdc => hd (hdc ▸ hc)
    rw [hheld (.inl hd), if_neg hne]
  · obtain rfl := List.mem_singleton.1 hd
    exact ⟨hf, e, by rw [hheld (.inr hf), if_pos rfl]⟩
  · rw [hheld (.inr hd), if_neg fun hdc => hnot (List.mem_singleton.2 hdc)]

/-- What is not followed has exactly the subscriptions that it had. -/
theorem registry_eq (h : Taken D t w w') (hc : c ∉ t.followed) :
    (w'.cell c).registry = (w.cell c).registry := by
  refine ((h.kept c).eq_of_length ?_).symm
  by_cases hlt : c.index < w.cells.size
  · rw [h.count hlt, List.count_eq_zero_of_not_mem hc, Nat.add_zero]
  · have hle := Nat.le_of_not_lt hlt
    rw [World.cell_of_size_le hle, World.cell_of_size_le (by rwa [h.evolves.cells])]

/-- What is followed has subscriptions that it did not have. -/
theorem registry_ne (h : Taken D t w w') (hlt : c.index < w.cells.size) (hc : c ∈ t.followed) :
    (w'.cell c).registry ≠ (w.cell c).registry := by
  intro he
  have hcount := h.count hlt
  have hpos := List.count_pos_iff.2 hc
  rw [he] at hcount
  omega

end Uptake.Taken

end LivePage
