import LivePage.Proofs.Mount.Walk
import LivePage.Proofs.Run.Telling

/-!
# Steps of a realization that succeed

`FailsOnly Q F S w x` says how a realization can go: it ends well in a world where `Q` holds, fails at
a render function that gives a function, called as `F` says, or stops for a reason that is no panic
and only if `S`. The page operations that a realization is made of succeed: attributes and listeners
go onto an element (`failsOnly_bindAttributes`, `FailsOnly.updateElement`), new nodes go behind the
children of a container (`Built.run_append`, `run_openRegion`), and contents go between the comments
of a region that has just been opened (`World.Prepared.run_splice`).
-/

namespace LivePage

variable {α β : Type} {w w' w₁ w₂ b : World} {D : CellId → Prop} {c : CellId} {d : Nat} {x : Prop}
  {r : Surface} {q e child content : PageNode} {l : RecordsId} {g : Mounts} {ms : List Teardown}

/-! ## What keeps emissions away from pages -/

namespace World.Hears

/-- Subscriptions are the same, and places follow what they followed. -/
theorem transfer (h : w.Hears D x) (hev : Evolves w { w' with pins := w.pins })
    (hreg : ∀ c, (w'.cell c).registry = (w.cell c).registry)
    (hsites : w'.sites.map Site.still = w.sites.map Site.still) : w'.Hears D x where
  wired := (h.wired.evolves hev).repin w'.pins
  tracks := (h.tracks.evolves hev).repin w'.pins
  noSites s site hs := by
    have hst := congrArg (·[s]?) hsites
    simp only [Array.getElem?_map, hs, Option.map_some] at hst
    obtain ⟨site', hs', he⟩ := Option.map_eq_some_iff.1 hst.symm
    rw [← Site.source_of_still he]
    exact h.noSites s site' hs'
  noMarks hx c s hc hs := h.noMarks hx c s hc (by rwa [hreg] at hs)

theorem repin (h : w.Hears D x) (pins : List (List Entity)) :
    ({ w with pins } : World).Hears D x :=
  h.transfer (.refl w) (fun _ => rfl) rfl

theorem withPage (h : w.Hears D x) (p : PageId) (page : Page) : (w.withPage p page).Hears D x :=
  h.transfer (evolves_pages w p page) (fun _ => rfl) rfl

theorem withList (h : w.Hears D x) : w.withList.Hears D x :=
  h.transfer { Evolves.refl w with records := by simp [World.withList] } (fun _ => rfl) rfl

theorem pushed (h : w.Hears D x) (l : RecordsId) (m : Teardown) : (w.pushed l m).Hears D x :=
  h.transfer { Evolves.refl w with records := by simp [World.pushed] } (fun _ => rfl) rfl

/-- Building that leaves observables and places alone. -/
theorem built (h : w.Hears D x) (hb : Built D q w w') (hcells : w'.cells = w.cells)
    (hsites : w'.sites = w.sites) : w'.Hears D x :=
  h.transfer hb.evolves (fun c => by simp [World.cell, hcells]) (by rw [hsites])

/-- Something on a page follows an observable that is not in the set. -/
theorem subscribed (h : w.Hears D x) {reaction : Reaction} (hc : ¬ D c) (hp : reaction.onPage)
    (hf : w.Follows c reaction) : (w.subscribed c reaction).Hears D x where
  wired := h.wired.evolves (evolves_subscribed hp hf)
  tracks := h.tracks.evolves (evolves_subscribed hp hf)
  noSites := h.noSites
  noMarks hx d s hd hs := by
    have hne : ¬ (d = c ∧ d.index < w.cells.size) := fun hdc => hc (hdc.1 ▸ hd)
    rw [World.registry_subscribed h.wired.keyed, if_neg hne] at hs
    exact h.noMarks hx d s hd hs

/-- A place follows an observable that is not in the set. -/
theorem following (h : w.Hears D x) (hc : ¬ D c) (surface : Surface) (l : RecordsId) (t : Target) :
    (w.following surface c l t).Hears D x := by
  have hev : Evolves w (w.withSite ⟨surface, c, l, t, false, none⟩) :=
    evolves_sites (f := (·.push _)) fun s site h => ⟨site, getElem?_push_of_some h, rfl⟩
  have hsite : (w.withSite ⟨surface, c, l, t, false, none⟩).Hears D x := by
    refine ⟨h.wired.evolves hev, h.tracks.evolves hev, fun s site hs => ?_, h.noMarks⟩
    rw [World.withSite, Array.getElem?_push] at hs
    split at hs
    · cases hs
      exact hc
    · exact h.noSites s site hs
  exact hsite.subscribed hc trivial ⟨_, Array.getElem?_push_size .., rfl⟩

end World.Hears

/-! ## How a realization can go -/

/-- The realization ends well in a world where `Q` holds, fails at a render function that gives a
function, called as `F` says, or stops without a panic, but only if `S`. -/
structure FailsOnly (Q : World → Prop) (F : String → World → Prop) (S : Prop) (w : World)
    (x : Realizing α) : Prop where
  ok {a : α} {w' : World} : x.run.run w = .ok (.ok a) w' → Q w'
  failed {e : RealizationError} {w' : World} : x.run.run w = .ok (.error e) w' →
    ∃ variant, e = .unresolvableRender variant ∧ F variant w'
  stopped {e : Stop} {w' : World} : x.run.run w = .error e w' → e.calm ∧ S

namespace FailsOnly

variable {Q Q' : World → Prop} {F F' : String → World → Prop} {S S' : Prop} {y : Realizing α}
  {f : α → Realizing β} {a : α}

theorem of_ok (h : y.run.run w = .ok (.ok a) w') (hw : Q w') : FailsOnly Q F S w y := by
  refine ⟨fun h' => ?_, fun h' => ?_, fun h' => ?_⟩
  · cases h.symm.trans h'
    exact hw
  · cases h.symm.trans h'
  · cases h.symm.trans h'

theorem pure (hw : Q w) : FailsOnly Q F S w (Pure.pure a : Realizing α) :=
  of_ok (ok_epure.2 ⟨rfl, rfl⟩) hw

/-- A run that cannot fail, and stops without a panic. -/
theorem of_keeps {R : World → World → Prop} {z : Run α} (h : KeepsAt R Stop.calm w z)
    (hS : ∀ {e w'}, z.run w = .error e w' → S) (hQ : ∀ {w'}, R w w' → Q w') :
    FailsOnly Q F S w (liftM z) := by
  refine ⟨fun h' => hQ (h.ok (ok_lift.1 h')), fun h' => ?_, fun {e w'} h' => ?_⟩
  · obtain ⟨_, he, -⟩ := ended_lift h'
    cases he
  · rw [ExceptT.run_liftM, map_eq_pure_bind, EStateM.run_bind] at h'
    cases hz : z.run w with
    | ok a w₁ => simp [hz] at h'
    | error e₁ w₁ =>
      rw [hz] at h'
      cases h'
      have he := h
      rw [KeepsAt, hz] at he
      exact ⟨he, hS hz⟩

theorem mono (h : FailsOnly Q F S w y) (hQ : ∀ w', Q w' → Q' w')
    (hF : ∀ variant w', F variant w' → F' variant w') (hS : S → S') : FailsOnly Q' F' S' w y where
  ok hy := hQ _ (h.ok hy)
  failed hy := (h.failed hy).imp fun _ => And.imp_right (hF _ _)
  stopped hy := (h.stopped hy).imp_right hS

/-- If it stops, then it stops. -/
theorem stops (h : FailsOnly Q F S w y) :
    FailsOnly Q F (∃ e w', y.run.run w = .error e w') w y :=
  { h with stopped := fun hy => ⟨(h.stopped hy).1, _, _, hy⟩ }

/-- After a step that succeeds. -/
theorem after (hx : y.run.run w = .ok (.ok a) w₁) (hf : FailsOnly Q F S w₁ (f a)) :
    FailsOnly Q F S w (y >>= f) where
  ok h := hf.ok (by rwa [run_after hx] at h)
  failed h := hf.failed (by rwa [run_after hx] at h)
  stopped h := hf.stopped (by rwa [run_after hx] at h)

/-- One after the other. -/
theorem bind (hx : FailsOnly Q F S w y)
    (hf : ∀ a w₁, y.run.run w = .ok (.ok a) w₁ → Q w₁ → FailsOnly Q' F S w₁ (f a)) :
    FailsOnly Q' F S w (y >>= f) := by
  cases hrun : y.run.run w with
  | error e w₁ =>
    have hbind : (y >>= f).run.run w = .error e w₁ := by
      rw [ExceptT.run_bind, EStateM.run_bind, hrun]
    refine ⟨fun h => ?_, fun h => ?_, fun h => ?_⟩
    · cases hbind.symm.trans h
    · cases hbind.symm.trans h
    · cases hbind.symm.trans h
      exact hx.stopped hrun
  | ok a w₁ =>
    cases a with
    | ok a => exact after hrun (hf a w₁ hrun (hx.ok hrun))
    | error e =>
      have hbind := failed_ebind (f := f) hrun
      refine ⟨fun h => ?_, fun h => ?_, fun h => ?_⟩
      · cases hbind.symm.trans h
      · cases hbind.symm.trans h
        exact hx.failed hrun
      · cases hbind.symm.trans h

/-- What does not mind what is pinned. -/
theorem realizingWith {held : List Entity} (h : FailsOnly Q F S (w.pinned held) y)
    (hQ : ∀ {w'}, Q w' → Q' w'.unpinned)
    (hF : ∀ {variant w'}, F variant w' → F' variant w'.unpinned) :
    FailsOnly Q' F' S w (realizingWith held y) where
  ok hy := by
    obtain ⟨w₁, hrun, rfl⟩ := ok_realizingWith.1 hy
    exact hQ (h.ok hrun)
  failed hy := by
    obtain ⟨w₁, hrun, rfl⟩ := ok_realizingWith.1 hy
    obtain ⟨variant, he, hw⟩ := h.failed hrun
    exact ⟨variant, he, hF hw⟩
  stopped hy := by
    rw [LivePage.realizingWith, ExceptT.run_mk, run_holding] at hy
    cases hrun : y.run.run (w.pinned held) with
    | ok a w₁ => simp [hrun] at hy
    | error e₁ w₁ =>
      simp only [hrun, EStateM.Result.error.injEq] at hy
      obtain ⟨rfl, -⟩ := hy
      exact h.stopped hrun

/-- What can neither fail nor stop ends well. -/
theorem exists_ok (h : FailsOnly Q (fun _ _ => False) False w y) :
    ∃ a w', y.run.run w = .ok (.ok a) w' ∧ Q w' := by
  cases hrun : y.run.run w with
  | error e w' => exact (h.stopped hrun).2.elim
  | ok a w' =>
    cases a with
    | ok a => exact ⟨a, w', rfl, h.ok hrun⟩
    | error e =>
      obtain ⟨_, -, hF⟩ := h.failed hrun
      exact hF.elim

end FailsOnly

/-! ## Attributes -/

/-- The page node is an element, and emissions of the set are kept away from pages. -/
structure World.Dressing (D : CellId → Prop) (e : PageNode) (w : World) : Prop where
  hears : w.Hears D True
  type : (w.slot e).content.type = .element

theorem World.Dressing.pinned (h : w.Dressing D e) (held : List Entity) :
    (w.pinned held).Dressing D e :=
  ⟨h.hears.pinned held, h.type⟩

theorem World.Dressing.quiet (h : w.Dressing D e) (hq : Quiet w w') : w'.Dressing D e :=
  ⟨hq.murmur.hears h.hears, by rw [World.slot, hq.page]; exact h.type⟩

theorem run_warn (text : String) (w : World) :
    (warn text).run w = .ok ⟨⟩ { w with log := .object [("warn", .text text)] :: w.log } := rfl

theorem World.Dressing.unpinned (h : w.Dressing D e) : w.unpinned.Dressing D e :=
  ⟨h.hears.repin _, h.type⟩

section

variable {F : String → World → Prop} {S : Prop} (hw : w.Dressing D e)
include hw

theorem FailsOnly.updateElement {operation : String} {f : Element → Element} :
    FailsOnly (World.Dressing D e) F S w
      (pageStep (editPage e.page fun p => p.updateElement e.slot operation f)) := by
  obtain ⟨el, hel⟩ : ∃ el, (w.slot e).content = .element el := by
    have ht := hw.type
    cases hc : (w.slot e).content with
    | element el => exact ⟨el, rfl⟩
    | _ => simp [hc, Content.type] at ht
  refine .of_ok (ok_pageStep.2 (run_updateElement hel)) ⟨hw.hears.withPage .., ?_⟩
  exact ((World.shaped_withContent (by rw [hel]; rfl) e.page).type e.slot).trans hw.type

theorem failsOnly_putStyle (property : String) (value : Option String) :
    FailsOnly (World.Dressing D e) F S w (pageStep (e.putStyle property value)) := by
  cases value with
  | none => exact .updateElement hw
  | some s => exact .updateElement hw

theorem failsOnly_putStyles (style : Style) :
    FailsOnly (World.Dressing D e) F S w (e.putStyles style) := by
  induction style generalizing w with
  | nil => exact .pure hw
  | cons s rest ih =>
    exact .after (ok_lift.2 (EStateM.run_get ..)) <|
      (failsOnly_putStyle hw _ _).bind fun _ _ _ hw => ih hw

theorem failsOnly_putAttribute (name : String) (v : Value) :
    FailsOnly (World.Dressing D e) F S w (e.putAttribute name v) := by
  unfold PageNode.putAttribute
  split
  · exact .updateElement hw
  · exact failsOnly_putStyles hw _
  · refine .after (ok_lift.2 (EStateM.run_get ..)) ?_
    split
    · exact .updateElement hw
    · exact .after (ok_lift.2 (run_warn _ w))
        (FailsOnly.updateElement (hw.quiet ((reads_warn _).ok (run_warn _ w))))

theorem failsOnly_putProperty (property : String) (v : Value) :
    FailsOnly (World.Dressing D e) F S w (e.putProperty property v) :=
  .after (ok_lift.2 (EStateM.run_get ..)) (failsOnly_putStyle hw _ _)

/-- An attribute follows an observable that is not in the set. -/
theorem failsOnly_subscribe {reaction : Reaction} (hc : ¬ D c) (hm : reaction.Marks e)
    (hf : w.Follows c reaction) :
    FailsOnly (World.Dressing D e) F S w (liftM (subscribe c reaction)) :=
  .of_ok (ok_lift.2 (run_subscribe ..)) ⟨hw.hears.subscribed hc hm.onPage hf, hw.type⟩

theorem failsOnly_attach (c : CellId) :
    FailsOnly (World.Dressing D e) F True w (liftM (attach (respond d) c e)) := by
  refine .of_keeps (R := fun _ w' => w'.Dressing D e) (keepsAt_get_bind ?_) (fun _ => trivial) id
  split
  · next hf =>
    have hev : Evolves w (w.assigned c (.element e)) :=
      evolves_withCell (fun _ => rfl) fun _ => .refl _
    have hassign : (w.assigned c (.element e)).Dressing D e :=
      ⟨hw.hears.transfer hev (fun _ => World.registry_assigned ..) rfl, hw.type⟩
    refine keepsAt_hold_bind ((murmurs d hassign.hears (hw.hears.tracks.ofRef hf)).mono
      (fun hm => ⟨hm.hears hassign.hears, ?_⟩) fun h => h trivial)
    exact ((hm.page e.page).shaped.type e.slot).trans hassign.type
  · trivial

theorem failsOnly_bindStyle {style : Style} (hs : ∀ c ∈ Style.sources style, ¬ D c)
    (bound : Bindings) : FailsOnly (World.Dressing D e) F S w (bindStyle e bound style) := by
  induction style generalizing w bound with
  | nil => exact .pure hw
  | cons s rest ih =>
    obtain ⟨key, value⟩ := s
    cases value with
    | text s => exact (FailsOnly.updateElement hw).bind fun _ _ _ hw => ih hw hs _
    | observable c =>
      rw [show Style.sources ((key, .observable c) :: rest) = c :: Style.sources rest from rfl,
        List.forall_mem_cons] at hs
      exact .after (ok_lift.2 (EStateM.run_get ..)) <|
        (failsOnly_putProperty hw _ _).bind fun _ _ _ hw =>
          (failsOnly_subscribe hw hs.1 (show Reaction.Marks (.styleProperty e _ c) e from rfl) rfl).bind fun _ _ _ hw => ih hw hs.2 _

theorem failsOnly_bindAttribute {value : AttributeValue} (hs : ∀ c ∈ value.sources, ¬ D c)
    (bound : Bindings) (name : String) :
    FailsOnly (World.Dressing D e) F True w (bindAttribute (respond d) e bound name value) := by
  cases value with
  | text s => exact (FailsOnly.updateElement hw).bind fun _ _ _ hw => .pure hw
  | list items => exact (FailsOnly.updateElement hw).bind fun _ _ _ hw => .pure hw
  | ref c => exact (failsOnly_attach hw c).bind fun _ _ _ hw => .pure hw
  | style style => exact failsOnly_bindStyle hw hs bound
  | observable c =>
    have hc : ¬ D c := hs c (List.mem_singleton.2 rfl)
    exact .after (ok_lift.2 (EStateM.run_get ..)) <|
      (failsOnly_putAttribute hw _ _).bind fun _ _ _ hw =>
        (failsOnly_subscribe hw hc (show Reaction.Marks (.attribute e _ c) e from rfl) rfl).bind fun _ _ _ hw => .pure hw

/-- Binding attributes to an element does not fail, and stops only in what is told of references. -/
theorem failsOnly_bindAttributes {attributes : List (String × AttributeValue)}
    (hs : ∀ c ∈ attributes.flatMap (·.2.sources), ¬ D c) (bound : Bindings) :
    FailsOnly (World.Dressing D e) F True w (bindAttributes (respond d) e bound attributes) := by
  induction attributes generalizing w bound with
  | nil => exact .pure hw
  | cons a rest ih =>
    obtain ⟨name, value⟩ := a
    simp only [List.flatMap_cons, List.forall_mem_append] at hs
    exact ((failsOnly_bindAttribute (F := fun _ _ => False) (hw.pinned _) hs.1 bound name).realizingWith
      World.Dressing.unpinned False.elim).bind fun _ _ _ hw => ih hw hs.2 _

end

/-! ## Nodes -/

/-- A new node goes behind the children of a container. -/
theorem Built.run_append (h : Built D q b w) (hq : b.Safe q)
    (hparent : (w.slot q).parent = (b.slot q).parent)
    (hcon : (w.slot q).content.type.isContainer) (hc : ¬ b.Safe child)
    (hroot : (w.slot child).parent = none) (hpage : child.page = q.page) :
    ∃ page, (q.append child).run w = .ok (.ok ()) (w.withPage q.page page) := by
  refine ⟨_, (ok_append (h.sound.forest _) hroot hpage).2 ⟨hcon, fun hu => hc ?_, rfl⟩⟩
  obtain ⟨pg, i⟩ := child
  obtain rfl : pg = q.page := hpage
  exact h.safe_of_up (fun _ => hparent) hq hu

/-- A region can be opened below a container. -/
theorem run_openRegion (hs : b.Sound) (hq : b.Safe q) (hcon : (b.slot q).content.type.isContainer)
    (label : Option String) :
    ∃ region w', (openRegion q label).run b = .ok (.ok region) w' := by
  have hlt := World.lt_of_occupied (hq.occupied hs)
  unfold openRegion
  generalize anchorTexts label = texts
  obtain ⟨text, text'⟩ := texts
  obtain ⟨start, w₁, h₁⟩ : ∃ n w', (createNode q.page (.comment text)).run b = .ok n w' :=
    ⟨_, _, run_createNode ..⟩
  have hc₁ := createNode_spec hs hlt h₁
  have hb₁ : Built (fun _ => True) q b (w₁.pinned [.slot q, .slot start]) :=
    ((Built.refl hs).create hc₁).pinned _
  have hsafe : (w₁.pinned [.slot q, .slot start]).Safe start :=
    World.safe_of_pinned (by simp) hc₁.occupied_self
  obtain ⟨finish, w₂, h₂⟩ : ∃ n w', (createNode q.page (.comment text')).run
      (w₁.pinned [.slot q, .slot start]) = .ok n w' := ⟨_, _, run_createNode ..⟩
  have hc₂ := createNode_spec hb₁.sound (World.lt_of_occupied (hb₁.occupied hq)) h₂
  have hb₂ := hb₁.create hc₂
  have hq₂ : w₂.slot q = b.slot q :=
    (hc₂.slot_of_safe (hb₁.safe hq)).trans (hc₁.slot_of_safe hq)
  have hstart : w₂.slot start = { content := .comment text } :=
    (hc₂.slot_of_safe hsafe).trans hc₁.slot_self
  obtain ⟨page, h₃⟩ := hb₂.run_append hq (by rw [hq₂]) (by rwa [hq₂]) hc₁.fresh (by rw [hstart])
    hc₁.page
  obtain ⟨ha₃, hb₃⟩ := hb₂.append (.inl rfl) (hb₂.occupied hq) hc₁.fresh (by rw [hstart])
    hc₁.page (by rw [hstart]; exact NodeType.noConfusion) h₃
  have hfinish : ¬ b.Safe finish := fun hf => hc₂.fresh (hb₁.safe hf)
  have hne : start ≠ finish := fun h => hc₂.fresh (h ▸ hsafe)
  have hfq : finish ≠ q := fun h => hfinish (h ▸ hq)
  have hfin : (w₂.withPage q.page page).slot finish = { content := .comment text' } :=
    (ha₃.other hfq hne.symm).trans hc₂.slot_self
  obtain ⟨page', h₄⟩ := hb₃.run_append hq (by rw [ha₃.parent, hq₂]) (by rwa [ha₃.parent, hq₂])
    hfinish (by rw [hfin]) hc₂.page
  obtain ⟨w₄, hw₄⟩ : ∃ w₄, w₄ = (w₂.withPage q.page page).withPage q.page page' := ⟨_, rfl⟩
  rw [← hw₄] at h₄
  exact ⟨⟨w₄.regions.size⟩, World.unpinned { w₄ with regions := w₄.regions.push ⟨start, finish, q⟩ },
    ok_bind.2 ⟨start, w₁, h₁, ok_holding.2 ⟨_, ok_bind.2 ⟨finish, w₂, h₂,
      ok_bind.2 ⟨_, _, h₃, ok_bind.2 ⟨_, w₄, h₄, rfl⟩⟩⟩, rfl⟩⟩⟩

/-- What has been realized goes between the comments of its region. -/
theorem World.Prepared.run_splice {region : RegionId} {start finish : PageNode}
    (hp : World.Prepared D q b w region start finish content) (hq : b.Safe q)
    (hcon : (b.slot q).content.type.isContainer) (hin : Grown D content w w₁ ms g) :
    ∃ w₂, (region.splice content).run w₁ = .ok (.ok ()) w₂ := by
  have hb₁ := hp.built.trans hin.built (.inr hp.content_fresh)
  have hqc : q ≠ content := fun h => hp.content_fresh (h ▸ hq)
  have halike := hin.built.slot (hp.built.safe hq) hqc
  obtain ⟨region, data, hr, ha, hs, hfragment, -, hbetween, hindex⟩ := hp.awaiting hq hin
  obtain rfl : region.start = start := congrArg Prod.fst ha
  obtain rfl : region.finish = finish := congrArg Prod.snd ha
  have hup : ¬ (w₁.page q.page).Up q.slot content.slot := by
    intro hu
    have hsafe := hb₁.safe_of_up (fun _ => halike.parent.trans (by rw [hp.slot])) hq hu
    rw [← hp.content_page] at hsafe
    exact hp.content_fresh hsafe
  refine ⟨_, (ok_splice hr (hb₁.sound.forest _) (by rw [hfragment])).2 (.inr ⟨q,
    hp.start_page.symm, by rw [hs], ?_, hp.finish_page, _, by rw [hbetween]; exact hindex, rfl⟩)⟩
  rw [hbetween]
  refine ⟨hp.content_page, List.nodup_nil, by simp, ?_, hup⟩
  rw [halike.type, hp.slot]
  exact hcon

end LivePage
