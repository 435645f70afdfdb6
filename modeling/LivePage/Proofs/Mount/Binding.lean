import LivePage.Proofs.Mount.Built
import LivePage.Proofs.Mount.Placing

/-!
# Binding attributes

Putting attributes onto a new element changes that element, subscribes what the attributes follow
and attaches references. All of it is building: nothing that was there before is concerned
(`binds_bindAttributes`).
-/

namespace LivePage

variable {b w w' w'' : World} {q e : PageNode} {c : CellId} {D : CellId → Prop}
  {cs cs' : List CellId} {d : Nat}

/-- The element `e` has been dressed and subscribed to observables of `cs`. -/
structure Binds (D : CellId → Prop) (e : PageNode) (cs : List CellId) (w w' : World) : Prop where
  evolves : Evolves w w'
  slot : (w.slot e).Alike False (w'.slot e)
  occupied : w.Occupied e → w'.Occupied e
  built {b : World} {q : PageNode} : ¬ b.Safe e → Built D q b w → Built D q b w'
  owns {c : CellId} {key : Nat} {r : Reaction} : (key, r) ∈ (w'.cell c).registry →
    (key, r) ∈ (w.cell c).registry ∨ c ∈ cs ∧ r.Marks e

namespace Binds

theorem refl (w : World) : Binds D e [] w w :=
  ⟨.refl w, .refl _ _, id, fun _ => id, .inl⟩

theorem trans (h : Binds D e cs w w') (h' : Binds D e cs' w' w'') :
    Binds D e (cs ++ cs') w w'' where
  evolves := h.evolves.trans h'.evolves
  slot := h.slot.trans h'.slot
  occupied ho := h'.occupied (h.occupied ho)
  built he hb := h'.built he (h.built he hb)
  owns hr := by
    rcases h'.owns hr with hr | ⟨hc, hm⟩
    · exact (h.owns hr).imp_right fun hc => ⟨List.mem_append_left _ hc.1, hc.2⟩
    · exact .inr ⟨List.mem_append_right _ hc, hm⟩

theorem unpinned {held : List Entity} (h : Binds D e cs (w.pinned held) w') :
    Binds D e cs w w'.unpinned where
  evolves := h.evolves.unpinned
  slot := h.slot
  occupied := h.occupied
  built he hb := hb.unpinned (h.built he (hb.pinned held)) h.evolves.pins
  owns := h.owns

end Binds

theorem Dresses.binds (h : Dresses e w w') : Binds D e [] w w' where
  evolves := h.evolves
  slot := ((h.page e.page).slot e.slot).mono False.elim
  occupied ho := (h.page e.page).occupied.2 ho
  built he hb := hb.dresses h (.inr he)
  owns hr := .inl (by rwa [h.cell] at hr)

theorem Murmur.binds (h : Murmur D w w') : Binds D e [] w w' where
  evolves := h.evolves
  slot := ((h.page e.page).slot e.slot).mono False.elim
  occupied ho := (h.page e.page).occupied.2 ho
  built _ hb := hb.murmur h
  owns hr := .inl (by rwa [h.registry] at hr)

theorem binds_hold (hc : D c) (held : Held) :
    Binds D e [] w (w.withCell c fun cell => { cell with held }) where
  evolves := evolves_withCell (fun _ => rfl) fun _ => .refl _
  slot := .refl _ _
  occupied := id
  built _ hb := hb.hold hc held
  owns {d key r} hr := by
    rw [World.cell_withCell] at hr
    split at hr <;> exact .inl hr

theorem binds_subscribed {r : Reaction} (hk : w.Keyed) (ho : w.Occupied e) (hm : r.Marks e)
    (hf : w.Follows c r) : Binds D e [c] w (w.subscribed c r) := by
  have hreach : ∀ x, r.Reaches w x → x = .slot e := by
    intro x hx
    cases r with
    | «attribute» e' name source =>
      cases hm
      exact hx
    | styleProperty e' property source =>
      cases hm
      exact hx
    | _ => exact hm.elim
  have hpl : w.Placed c r := by
    refine ⟨hm.onPage, hf, fun {x} hx => ?_⟩
    rw [hreach x hx]
    exact ho
  refine ⟨evolves_subscribed hm.onPage hf, .refl _ _, id, fun he hb => ?_, fun {d key r'} hr => ?_⟩
  · refine hb.subscribed hk hpl fun x hx => ?_
    rw [hreach x hx]
    exact he
  · rw [World.registry_subscribed hk] at hr
    split at hr
    · next hd =>
      rcases List.mem_append.1 hr with hr | hr
      · exact .inl hr
      · cases List.mem_singleton.1 hr
        exact .inr ⟨List.mem_singleton.2 hd.1, hm⟩
    · exact .inl hr

/-- Attaching a reference. -/
theorem binds_attach (hw : w.Wired) (ht : w.Tracks D) (hn : w'.NoSites D)
    (h : (attach (respond d) c e).run w = .ok ⟨⟩ w') : Binds D e [] w w' := by
  have hn := hn.of_evolves ((lives_attach (respond_lives d) c e).ok h hw.reading)
  rw [attach, withRef, ok_get_bind] at h
  split at h
  · next hf =>
    have hc : D c := ht.ofRef hf
    obtain ⟨_, w₁, h₁, h⟩ := ok_bind.1 h
    obtain rfl : w₁ = w.withCell c fun cell => { cell with held := .element e } := by
      rw [hold, run_modifyCell] at h₁
      exact ((EStateM.Result.ok.injEq ..).mp h₁).2.symm
    have hhold : Binds D e [] w (w.withCell c fun cell => { cell with held := .element e }) :=
      binds_hold hc _
    have hm : Murmur D _ w' := (murmurs d (x := False) ⟨hw.evolves hhold.evolves,
      ht.evolves hhold.evolves, hn, False.elim⟩ hc).ok h
    exact hhold.trans hm.binds
  · exact absurd h not_ok_unknown

theorem binds_bindStyle {style : Style} {bound bound' : Bindings} (hk : w.Keyed)
    (ho : w.Occupied e) (h : (bindStyle e bound style).run.run w = .ok (.ok bound') w') :
    Binds D e (Style.sources style) w w' ∧
      bound' = { bound with observables := bound.observables ++ Style.sources style } := by
  induction style generalizing bound w with
  | nil =>
    obtain ⟨rfl, rfl⟩ := ok_epure.1 h
    exact ⟨.refl _, by simp [Style.sources]⟩
  | cons s rest ih =>
    obtain ⟨key, value⟩ := s
    cases value with
    | text s =>
      obtain ⟨_, w₁, h₁, h⟩ := ok_ebind.1 h
      have hb : Binds D e [] w w₁ :=
        ((dresses_setStyle (E := fun _ => True) e _ s).ok (ok_pageStep.1 h₁)).binds
      obtain ⟨hb', rfl⟩ := ih (hb.evolves.keyed hk) (hb.occupied ho) h
      exact ⟨hb.trans hb', rfl⟩
    | observable c =>
      obtain ⟨_, w₁, h₁, h⟩ := ok_ebind.1 (ok_eget_bind.1 h)
      obtain ⟨_, w₂, h₂, h⟩ := ok_ebind.1 h
      have hb : Binds D e [] w w₁ :=
        ((dresses_putProperty (E := fun _ => True) e _ _).ok h₁).binds
      have hk₁ := hb.evolves.keyed hk
      have hs : Binds D e [c] w₁ w₂ := by
        have h₂ := ok_lift.1 h₂
        rw [run_subscribe] at h₂
        cases h₂
        exact binds_subscribed hk₁ (hb.occupied ho) rfl rfl
      obtain ⟨hb', rfl⟩ := ih (hs.evolves.keyed hk₁) (hs.occupied (hb.occupied ho)) h
      exact ⟨(hb.trans hs).trans hb', by simp [Style.sources]⟩

/-- What an attribute adds to the bindings of an element. -/
def Bindings.with (bound : Bindings) (value : AttributeValue) : Bindings :=
  ⟨bound.refs ++ value.refs, bound.observables ++ value.sources⟩

theorem binds_bindAttribute {name : String} {value : AttributeValue} {bound bound' : Bindings}
    (hw : w.Wired) (ht : w.Tracks D) (hn : w'.NoSites D) (ho : w.Occupied e)
    (h : (bindAttribute (respond d) e bound name value).run.run w = .ok (.ok bound') w') :
    Binds D e value.sources w w' ∧ bound' = bound.with value := by
  have hset : ∀ {s : String} {u : PUnit} {w₁ : World},
      (pageStep (e.setAttribute name s)).run.run w = .ok (.ok u) w₁ → Binds D e [] w w₁ :=
    fun {s _ _} h₁ => ((dresses_setAttribute (E := fun _ => True) e name s).ok
      (ok_pageStep.1 h₁)).binds
  cases value with
  | text s =>
    obtain ⟨_, w₁, h₁, h⟩ := ok_ebind.1 h
    obtain ⟨rfl, rfl⟩ := ok_epure.1 h
    exact ⟨hset h₁, by simp [Bindings.with, AttributeValue.refs, AttributeValue.sources]⟩
  | list items =>
    obtain ⟨_, w₁, h₁, h⟩ := ok_ebind.1 h
    obtain ⟨rfl, rfl⟩ := ok_epure.1 h
    exact ⟨hset h₁, by simp [Bindings.with, AttributeValue.refs, AttributeValue.sources]⟩
  | ref c =>
    obtain ⟨_, w₁, h₁, h⟩ := ok_ebind.1 h
    obtain ⟨rfl, rfl⟩ := ok_epure.1 h
    exact ⟨binds_attach hw ht hn (ok_lift.1 h₁),
      by simp [Bindings.with, AttributeValue.refs, AttributeValue.sources]⟩
  | style style =>
    obtain ⟨hb, rfl⟩ := binds_bindStyle (D := D) hw.keyed ho h
    exact ⟨hb, by simp [Bindings.with, AttributeValue.refs, AttributeValue.sources]⟩
  | observable c =>
    obtain ⟨_, w₁, h₁, h⟩ := ok_ebind.1 (ok_eget_bind.1 h)
    obtain ⟨_, w₂, h₂, h⟩ := ok_ebind.1 h
    obtain ⟨rfl, rfl⟩ := ok_epure.1 h
    have hb : Binds D e [] w w₁ :=
      ((dresses_putAttribute (E := fun _ => True) (fun _ => trivial) e _ _).ok h₁).binds
    have h₂ := ok_lift.1 h₂
    rw [run_subscribe] at h₂
    cases h₂
    exact ⟨hb.trans (binds_subscribed (hb.evolves.keyed hw.keyed) (hb.occupied ho) rfl rfl),
      by simp [Bindings.with, AttributeValue.refs, AttributeValue.sources]⟩

/-- Binding attributes is building, and gives the references and observables that they ask for. -/
theorem binds_bindAttributes {attributes : List (String × AttributeValue)}
    {bound bound' : Bindings} (hw : w.Wired) (ht : w.Tracks D) (hn : w'.NoSites D)
    (ho : w.Occupied e)
    (h : (bindAttributes (respond d) e bound attributes).run.run w = .ok (.ok bound') w') :
    Binds D e (attributes.flatMap (·.2.sources)) w w' ∧
      bound' = ⟨bound.refs ++ attributes.flatMap (·.2.refs),
        bound.observables ++ attributes.flatMap (·.2.sources)⟩ := by
  induction attributes generalizing bound w with
  | nil =>
    obtain ⟨rfl, rfl⟩ := ok_epure.1 h
    exact ⟨.refl _, by simp⟩
  | cons a rest ih =>
    obtain ⟨name, value⟩ := a
    obtain ⟨bound₁, w₁, h₁, h⟩ := ok_ebind.1 h
    have hlives := (lives_bindAttributes (respond_lives d) e bound₁ rest).ok h
    obtain ⟨w₀, h₀, rfl⟩ := ok_holding.1 h₁
    have hl₀ := (lives_bindAttribute (respond_lives d) e bound name value).ok h₀ hw.reading
    have hn₀ : w₀.unpinned.NoSites D :=
      hn.of_evolves (hlives (hl₀.unpinned.reading hw.reading))
    obtain ⟨hb, rfl⟩ := binds_bindAttribute (hw.pinned _) (ht.pinned _)
      (show w₀.NoSites D from hn₀) ho h₀
    have hb := hb.unpinned
    obtain ⟨hb', rfl⟩ := ih (hw.evolves hb.evolves) (ht.evolves hb.evolves) (hb.occupied ho) h
    exact ⟨by simpa using hb.trans hb', by simp [Bindings.with]⟩

/-! ## Listeners -/

/-- A content of the same type for a new node. -/
theorem Built.withContent (h : Built D q b w) (ho : w.Occupied e) (he : ¬ b.Safe e)
    {content : Content} (ht : content.type = (w.slot e).content.type) :
    Built D q b (w.withContent e content) := by
  have hlt := World.lt_of_occupied ho
  have hshape := World.shaped_withContent ht e.page
  have hother : ∀ i, b.Safe ⟨e.page, i⟩ →
      (w.withContent e content).slot ⟨e.page, i⟩ = w.slot ⟨e.page, i⟩ := by
    intro i hi
    have hne : (⟨e.page, i⟩ : PageNode) ≠ e := fun hie => he (hie ▸ hi)
    rw [World.slot_withContent ho, if_neg hne]
  rw [World.withContent, World.page_withPage_self hlt] at hshape
  refine h.edit (hshape.forest (h.sound.forest _)) (fun i => hshape.occupied.2) (fun i j hi hp => ?_)
    fun i hi _ => ?_
  · exact (hshape.parent i).trans hp
  · rw [← hother i hi, World.withContent, World.slot_withPage_self hlt]

/-- Changing an element succeeds exactly on elements, and changes nothing else. -/
theorem ok_updateElement {operation : String} {f : Element → Element} :
    (editPage e.page fun p => p.updateElement e.slot operation f).run w = .ok (.ok ()) w' ↔
      ∃ el, (w.slot e).content = .element el ∧ w' = w.withContent e (.element (f el)) := by
  rw [editPage, ok_onPage, World.slot]
  cases hc : ((w.page e.page).slot e.slot).content with
  | element el => simp [Page.updateElement, Page.element?, hc, World.withContent]
  | _ => simp [Page.updateElement, Page.element?, hc]

theorem run_updateElement {operation : String} {f : Element → Element} {el : Element}
    (hel : (w.slot e).content = .element el) :
    (editPage e.page fun p => p.updateElement e.slot operation f).run w =
      .ok (.ok ()) (w.withContent e (.element (f el))) :=
  ok_updateElement.2 ⟨el, hel, rfl⟩

theorem ok_listen {type : String} {handler : HandlerId}
    (h : (e.listen type handler).run w = .ok (.ok ()) w') :
    ∃ el, (w.slot e).content = .element el ∧ w' = w.withContent e
      (.element { el with listeners := el.listeners ++ [(type, handler)] }) :=
  ok_updateElement.1 h

/-- Listeners come behind those that are there. -/
theorem run_addListeners {el : Element} (ho : w.Occupied e)
    (hel : (w.slot e).content = .element el)
    (listeners : List Listener) :
    (addListeners e listeners).run.run w = .ok (.ok ⟨⟩) (w.withContent e (.element
      { el with listeners := el.listeners ++ listeners.map fun l => (l.event, l.handler) })) := by
  induction listeners generalizing w el with
  | nil =>
    refine ok_epure.2 ⟨rfl, ?_⟩
    simp [World.withContent_self ho hel]
  | cons l rest ih =>
    have ht : (Content.element { el with listeners := el.listeners ++ [(l.event, l.handler)] }).type =
        (w.slot e).content.type := by
      rw [hel]
      rfl
    rw [addListeners, ok_ebind]
    refine ⟨_, _, ok_pageStep.2 (run_updateElement hel), ?_⟩
    rw [ih ((World.shaped_withContent ht e.page).occupied.2 ho)
      (by rw [World.slot_withContent ho, if_pos rfl]), World.withContent_withContent ho]
    simp

end LivePage
