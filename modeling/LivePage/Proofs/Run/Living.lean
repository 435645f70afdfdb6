import LivePage.Proofs.Run.Change

/-!
# Emissions evolve

At every depth, what an emission, a realization, a teardown or a rebuilding does is within
`Evolves`: `respond_lives`. It is put together from the same statement for every operation that they
are made of.
-/

namespace LivePage

open LivePage.Script

variable {α ε : Type} {w w' : World} {c d : CellId}

/-! ## Pages, records, regions and places -/

theorem evolves_pages (w : World) (p : PageId) (page : Page) :
    Evolves w { w with pages := w.pages.setIfInBounds p.index page } :=
  { Evolves.refl w with pages := by simp }

theorem lives_onPage (p : PageId) (f : Page → Page.Outcome) : Lives (onPage p f) :=
  keeps_update (fun _ _ => evolves_pages ..) fun _ => keeps_pure _

theorem lives_editPage (p : PageId) (f : Page → Except PageError Page) : Lives (editPage p f) :=
  lives_onPage ..

theorem lives_createNode (p : PageId) (content : Content) : Lives (createNode p content) :=
  keeps_update (fun _ _ => evolves_pages ..) fun _ => keeps_pure _

theorem lives_insertBefore (n child : PageNode) (reference : Option PageNode) :
    Lives (n.insertBefore child reference) := by
  unfold PageNode.insertBefore
  split
  · exact lives_onPage ..
  · exact keeps_pure _

theorem lives_replaceChildren (n content : PageNode) : Lives (n.replaceChildren content) := by
  refine (lives_onPage ..).bind fun r => ?_
  split
  · exact lives_insertBefore ..
  · exact keeps_pure _

theorem lives_newRecords : Lives newRecords :=
  keeps_update (fun w _ => { Evolves.refl w with records := by simp }) fun _ => keeps_pure _

theorem lives_emptyTeardown : Lives emptyTeardown := lives_newRecords.bind fun _ => keeps_pure _

theorem lives_pushRecord (r : RecordsId) (m : Teardown) : Lives (pushRecord r m) :=
  lives_modify fun w => { Evolves.refl w with records := by simp }

theorem lives_takeRecords (r : RecordsId) : Lives (takeRecords r) :=
  keeps_update (fun w _ => { Evolves.refl w with records := by simp }) fun _ => keeps_pure _

theorem evolves_regions {f : Array Region → Array Region}
    (h : ∀ (r : Nat) (region : Region), w.regions[r]? = some region →
      ∃ region', (f w.regions)[r]? = some region' ∧ region'.anchors = region.anchors) :
    Evolves w { w with regions := f w.regions } :=
  { Evolves.refl w with regions := h }

theorem getElem?_push_of_some {x : α} {xs : Array α} {i : Nat} {y : α} (h : xs[i]? = some y) :
    (xs.push x)[i]? = some y := by
  obtain ⟨hi, -⟩ := Array.getElem?_eq_some_iff.1 h
  rw [Array.getElem?_push, if_neg (Nat.ne_of_lt hi), h]

theorem lives_openRegion (parent : PageNode) (label : Option String) :
    Lives (openRegion parent label) := by
  refine (lives_createNode ..).bind fun start => lives_holding ?_
  refine (lives_createNode ..).bind fun finish => (lives_insertBefore ..).bind fun r => ?_
  split
  · exact keeps_pure _
  · refine (lives_insertBefore ..).bind fun r => ?_
    split
    · exact keeps_pure _
    · exact keeps_update (fun w _ => evolves_regions (f := (·.push _)) fun r region h =>
        ⟨region, getElem?_push_of_some h, rfl⟩) fun _ => keeps_pure _

theorem getElem?_modify_of_some {xs : Array α} {i j : Nat} {y : α} (f : α → α)
    (h : xs[j]? = some y) : (xs.modify i f)[j]? = some (if i = j then f y else y) := by
  rw [Array.getElem?_modify, h]
  split <;> rfl

theorem lives_splice (r : RegionId) (content : PageNode) : Lives (r.splice content) := by
  refine keeps_get_bind fun w => ?_
  dsimp only
  split
  · exact (keeps_pure _).start w
  · next parent _ =>
    refine (keepsAt_set fun _ => evolves_regions (f := fun regions => regions.modify r.index
      fun region => { region with parent }) fun i region h =>
        ⟨_, getElem?_modify_of_some _ h, ?_⟩).bind fun _ => (lives_onPage ..).bind fun e => ?_
    · split <;> rfl
    · split
      · exact keeps_pure _
      · exact lives_insertBefore ..

theorem evolves_sites {f : Array Site → Array Site}
    (h : ∀ (s : Nat) (site : Site), w.sites[s]? = some site →
      ∃ site', (f w.sites)[s]? = some site' ∧ site'.still = site.still) :
    Evolves w { w with sites := f w.sites } :=
  { Evolves.refl w with
    registry := fun _ _ hs => .inl hs
    sites := h }

/-- Marking a place as busy, or as not busy, or giving it something to wait for. -/
theorem evolves_mark (w : World) (s : SiteId) (f : Site → Site) (hf : ∀ x, (f x).still = x.still) :
    Evolves w { w with sites := w.sites.modify s.index f } := by
  refine evolves_sites (f := (·.modify s.index f)) fun i site h =>
    ⟨_, getElem?_modify_of_some f h, ?_⟩
  split
  · exact hf site
  · rfl

theorem lives_followAt (surface : Surface) (source : CellId) (records : RecordsId)
    (target : Target) : Lives (followAt surface source records target) := by
  refine keeps_of_ok fun w => ⟨⟨⟩, _, rfl, fun _ => ?_⟩
  have hpush : Evolves w { w with sites := w.sites.push { surface, source, records, target } } :=
    evolves_sites (f := (·.push _)) fun s site h => ⟨site, getElem?_push_of_some h, rfl⟩
  exact hpush.trans (evolves_subscribed trivial ⟨_, Array.getElem?_push_size .., rfl⟩)

theorem evolves_boundary (w : World) (b : BoundaryId) {f : Boundary → Boundary}
    (hf : ∀ x, (f x).display = x.display) :
    Evolves w { w with boundaries := w.boundaries.modify b.index f } := by
  refine { Evolves.refl w with displays := Array.ext_getElem? fun i => ?_ }
  simp only [Array.getElem?_map, Array.getElem?_modify]
  split
  · cases w.boundaries[i]? with
    | none => rfl
    | some x => simp [hf]
  · rfl

theorem lives_modifyBoundary (b : BoundaryId) {f : Boundary → Boundary}
    (hf : ∀ x, (f x).display = x.display) : Lives (modifyBoundary b f) :=
  lives_modify fun w => evolves_boundary w b hf

/-! ## Attributes -/

theorem lives_putStyle (n : PageNode) (property : String) (value : Option String) :
    Lives (n.putStyle property value) := by
  cases value with
  | none => exact lives_editPage n.page fun p => p.removeStyle n.slot property
  | some s => exact lives_editPage n.page fun p => p.setStyle n.slot property s

theorem lives_putStyles (n : PageNode) (style : Style) : Lives (n.putStyles style).run := by
  induction style with
  | nil => exact keeps_epure _
  | cons s rest ih =>
    exact keeps_get.lift.ebind fun _ => (lives_putStyle ..).pageStep.ebind fun _ => ih

theorem lives_putAttribute (n : PageNode) (name : String) (v : Value) :
    Lives (n.putAttribute name v).run := by
  unfold PageNode.putAttribute
  split
  · exact (lives_editPage ..).pageStep
  · exact lives_putStyles ..
  · refine keeps_get.lift.ebind fun w => ?_
    split
    · exact (lives_editPage ..).pageStep
    · exact (reads_warn _).lives.lift.ebind fun _ => (lives_editPage ..).pageStep

theorem lives_putProperty (n : PageNode) (property : String) (v : Value) :
    Lives (n.putProperty property v).run :=
  keeps_get.lift.ebind fun _ => (lives_putStyle ..).pageStep

theorem lives_bindStyle (element : PageNode) (bound : Bindings) (style : Style) :
    Lives (bindStyle element bound style).run := by
  induction style generalizing bound with
  | nil => exact keeps_epure _
  | cons s rest ih =>
    obtain ⟨key, value⟩ := s
    cases value with
    | text s => exact (lives_editPage ..).pageStep.ebind fun _ => ih _
    | observable c =>
      exact keeps_get.lift.ebind fun _ => (lives_putProperty ..).ebind fun _ =>
        (lives_subscribe (r := .styleProperty ..) trivial fun _ => rfl).lift.ebind fun _ => ih _

theorem lives_listen (element : PageNode) (listeners : List Listener) :
    Lives (addListeners element listeners).run := by
  induction listeners with
  | nil => exact keeps_epure _
  | cons l rest ih => exact (lives_editPage ..).pageStep.ebind fun _ => ih

theorem lives_unlisten (n : PageNode) (type : String) (h : HandlerId) : Lives (n.unlisten type h) :=
  (lives_onPage ..).bind fun _ => keeps_pure _

/-! ## Emissions -/

/-- The requests by which an emission is carried out. -/
def Request.living : Request → Prop
  | .react .. | .realize .. | .rebuild .. | .kill _ => True
  | .render _ | .invoke .. | .html _ | .insertedText _ | .perform _ | .bubble .. => False

/-- Answers to requests read where they evaluate, and change no more than emissions do. -/
structure Respond.Lives (call : Respond) : Prop where
  reads : call.Reads
  perform (acts : List Step) : ReadsOnly acts → LivePage.Reads (call (.perform acts))
  lives (q : Request) : q.living → LivePage.Lives (call q)

section

variable {call : Respond} (hc : call.Lives)
include hc

theorem lives_notify (held : Held) (snapshot : List (Nat × Reaction)) :
    Lives (notify call c held snapshot) := by
  induction snapshot with
  | nil => exact keeps_pure _
  | cons s rest ih =>
    obtain ⟨key, r⟩ := s
    refine keeps_get.bind fun w => ?_
    dsimp only
    split
    · exact (lives_holding (hc.lives (.react r held) trivial)).bind fun _ => ih
    · exact ih

theorem lives_emit (c : CellId) : Lives (emit call c) :=
  keeps_get.bind fun _ => lives_holding (lives_notify hc _ _)

theorem lives_holdAndEmit (c : CellId) (held : Held) : Lives (holdAndEmit call c held) :=
  (lives_hold c held).bind fun _ => lives_emit hc c

omit hc in
theorem lives_withRef {act : Run Unit} (h : Lives act) (c : CellId) : Lives (withRef c act) := by
  refine keeps_get.bind fun w => ?_
  split
  · exact h
  · exact keeps_throw trivial

theorem lives_attach (c : CellId) (element : PageNode) : Lives (attach call c element) :=
  lives_withRef (lives_holdAndEmit hc _ _) c

theorem lives_killRef (c : CellId) : Lives (killRef call c) :=
  lives_withRef ((lives_holdAndEmit hc _ _).bind fun _ => lives_unsubscribeAll c) c

theorem lives_regenerate (target : CellId) (g : Generator) (sources : List Held) :
    Lives (regenerate call target g sources) :=
  (reads_generator hc.reads g sources).lives.bind fun _ => lives_holdAndEmit hc _ _

omit hc in
theorem lives_whileAlive {act : Run Unit} (h : Lives act) (cells : List CellId) :
    Lives (whileAlive cells act) := by
  refine keeps_get.bind fun w => ?_
  split
  · exact lives_holding h
  · exact keeps_pure _

theorem lives_updateState (c : CellId) (candidate : Held) :
    Lives (updateState call c candidate) := by
  refine keeps_get.bind fun w => ?_
  dsimp only
  refine (reads_allAccept hc.reads _ _ _).lives.bind fun b => ?_
  split
  · exact (lives_holdAndEmit hc _ _).bind fun _ => keeps_pure _
  · exact keeps_pure _

theorem lives_arrive (b : BoundaryId) : Lives (b.arrive call) := by
  refine keeps_get.bind fun w => ?_
  dsimp only
  split
  · exact keeps_pure _
  · split
    · exact (lives_modifyBoundary b (f := fun x => { x with state := .settled, content := none })
        fun _ => rfl).bind fun _ => (lives_updateState hc _ _).bind fun _ => keeps_pure _
    · refine lives_modifyBoundary b ?_
      exact fun _ => rfl

/-! ## Realizing -/

theorem lives_bindAttribute (element : PageNode) (bound : Bindings) (name : String)
    (value : AttributeValue) : Lives (bindAttribute call element bound name value).run := by
  cases value with
  | text s => exact (lives_editPage ..).pageStep.ebind fun _ => keeps_epure _
  | list items => exact (lives_editPage ..).pageStep.ebind fun _ => keeps_epure _
  | ref c => exact (lives_attach hc _ _).lift.ebind fun _ => keeps_epure _
  | style style => exact lives_bindStyle ..
  | observable c =>
    exact keeps_get.lift.ebind fun _ => (lives_putAttribute ..).ebind fun _ =>
      (lives_subscribe (r := .attribute ..) trivial fun _ => rfl).lift.ebind fun _ => keeps_epure _

theorem lives_bindAttributes (element : PageNode) (bound : Bindings)
    (attributes : List (String × AttributeValue)) :
    Lives (bindAttributes call element bound attributes).run := by
  induction attributes generalizing bound with
  | nil => exact keeps_epure _
  | cons a rest ih =>
    obtain ⟨name, value⟩ := a
    refine Keeps.ebind ?_ fun _ => ih _
    rw [ExceptT.run_mk]
    exact lives_holding (lives_bindAttribute hc ..)

omit hc in
theorem lives_label (r : Surface) : Lives r.label := by
  unfold Surface.label
  split
  · exact keeps_get.bind fun _ => keeps_pure _
  · exact keeps_pure _

mutual

theorem lives_realizeNode (r : Surface) (parent : PageNode) :
    ∀ n : Node, Lives (n.realize call r parent).run
  | .empty => by
    rw [Node.realize]
    exact lives_emptyTeardown.lift
  | .text _ none => by
    rw [Node.realize]
    exact (lives_createNode ..).lift.ebind fun _ => (lives_insertBefore ..).pageStep.ebind fun _ =>
      lives_emptyTeardown.lift
  | .text _ (some c) => by
    rw [Node.realize]
    refine (lives_label r).lift.ebind fun _ =>
      (lives_realizingWith (lives_openRegion ..).pageStep).ebind fun _ => lives_realizingWith ?_
    refine lives_newRecords.lift.ebind fun _ => (lives_createNode ..).lift.ebind fun _ =>
      (lives_realizingWith ?_).ebind fun _ => (lives_followAt ..).lift.ebind fun _ => keeps_epure _
    exact (lives_createNode ..).lift.ebind fun _ => (lives_insertBefore ..).pageStep.ebind fun _ =>
      lives_emptyTeardown.lift.ebind fun _ => (lives_pushRecord ..).lift.ebind fun _ =>
      (lives_splice ..).pageStep
  | .element _ attributes listeners children driving => by
    rw [Node.realize]
    refine (lives_realizingWith (lives_createNode ..).lift).ebind fun element =>
      lives_realizingWith ?_
    refine (lives_realizingWith (lives_bindAttributes hc ..)).ebind fun _ =>
      (lives_listen ..).ebind fun _ => lives_newRecords.lift.ebind fun _ =>
      (lives_realizingWith (lives_realizeAll r element _ children)).ebind fun _ => ?_
    cases driving with
    | none =>
      exact (lives_insertBefore ..).pageStep.ebind fun _ => keeps_epure _
    | some c =>
      exact (lives_followAt ..).lift.ebind fun _ => (lives_insertBefore ..).pageStep.ebind fun _ =>
        keeps_epure _
  | .fragment children none => by
    rw [Node.realize]
    exact lives_newRecords.lift.ebind fun _ =>
      (lives_realizingWith (lives_realizeAll r parent _ children)).ebind fun _ => keeps_epure _
  | .fragment children (some c) => by
    rw [Node.realize]
    refine (lives_label r).lift.ebind fun _ =>
      (lives_realizingWith (lives_openRegion ..).pageStep).ebind fun _ => lives_realizingWith ?_
    refine lives_newRecords.lift.ebind fun _ =>
      (lives_realizingWith (lives_createNode ..).lift).ebind fun content =>
      (lives_realizingWith ?_).ebind fun _ => (lives_followAt ..).lift.ebind fun _ => keeps_epure _
    exact (lives_realizeAll r content _ children).ebind fun _ => (lives_splice ..).pageStep
  | .deferred render => by
    rw [Node.realize]
    refine (lives_realizingWith (hc.reads (.render render) trivial).lives.lift).ebind fun v => ?_
    split
    · exact keeps_ethrow _
    · refine (reads_childNode v).lives.lift.ebind fun n => ?_
      rw [ExceptT.run_mk]
      exact lives_holding (hc.lives (.realize ..) trivial)

theorem lives_realizeAll (r : Surface) (parent : PageNode) (records : RecordsId) :
    ∀ ns : List Node, Lives (realizeAll call r parent records ns).run
  | [] => by
    rw [realizeAll]
    exact keeps_epure _
  | n :: rest => by
    rw [realizeAll]
    exact (lives_realizingWith (lives_realizeNode r parent n)).ebind fun _ =>
      (lives_pushRecord ..).lift.ebind fun _ => lives_realizeAll r parent records rest

end

/-! ## Teardown and rebuilding -/

theorem lives_killRefs (refs : List CellId) : Lives (killRefs call refs) := by
  induction refs with
  | nil => exact keeps_pure _
  | cons c rest ih => exact (lives_holding (lives_killRef hc c)).bind fun _ => ih

theorem lives_killAll (ms : List Teardown) : Lives (killAll call ms) := by
  induction ms with
  | nil => exact keeps_pure _
  | cons m rest ih =>
    exact (lives_holding (hc.lives (.kill m) trivial)).bind fun _ => ih

theorem lives_kill (m : Teardown) : Lives (m.kill call) := by
  refine (keeps_forM fun _ _ => lives_unsubscribeAll _).bind fun _ => (lives_killRefs hc _).bind fun _ =>
    (keeps_forM fun _ _ => lives_unsubscribeAll _).bind fun _ => ?_
  split
  · exact (keeps_forM fun _ _ => lives_unlisten ..).bind fun _ =>
      (lives_takeRecords _).bind fun _ => lives_killAll hc _
  · exact (lives_takeRecords _).bind fun _ => lives_killAll hc _

omit hc in
theorem lives_duringEmission {act : Realizing α} (h : Lives act.run) :
    Lives (duringEmission act) := by
  refine h.bind fun r => ?_
  split
  · exact keeps_pure _
  · exact (reads_log _).lives.bind fun _ => keeps_throw trivial

omit hc in
theorem lives_put (t : Target) (content : PageNode) : Lives (t.put content) := by
  cases t with
  | region r => exact lives_splice ..
  | contents e => exact lives_replaceChildren ..

theorem lives_replaceContents (site : Site) (v : Value) : Lives (replaceContents call site v) := by
  refine (lives_takeRecords _).bind fun _ => (lives_killAll hc _).bind fun _ =>
    (lives_createNode ..).bind fun _ => (reads_childNode v).lives.bind fun n =>
    (lives_holding (lives_duringEmission ?_)).bind fun _ => lives_pushRecord ..
  exact (lives_realizeNode hc _ _ n).ebind fun _ =>
    (lives_realizingWith (lives_put ..).pageStep).ebind fun _ => keeps_epure _

theorem lives_rebuild (s : SiteId) (v : Value) : Lives (s.rebuild call v) := by
  refine keeps_get.bind fun w => ?_
  dsimp only
  refine (lives_holding (lives_replaceContents hc _ _)).bind fun _ => keeps_get_bind fun w => ?_
  split
  · exact (keepsAt_set fun _ => evolves_mark w s (fun site => { site with queued := none })
      fun _ => rfl).bind fun _ => hc.lives (.rebuild ..) trivial
  · exact keepsAt_set fun _ => evolves_mark w s (fun site => { site with busy := false })
      fun _ => rfl

theorem lives_onEmission (s : SiteId) (v : Value) : Lives (s.onEmission call v) := by
  refine keeps_get_bind fun w => ?_
  split
  · exact keepsAt_set fun _ => evolves_mark w s (fun site => { site with queued := some v })
      fun _ => rfl
  · exact (keepsAt_set fun _ => evolves_mark w s (fun site => { site with busy := true })
      fun _ => rfl).bind fun _ => hc.lives (.rebuild ..) trivial

theorem lives_react (r : Reaction) (held : Held) : Lives (r.run call held) := by
  cases r with
  | subscriber name program | watch name program =>
    exact keeps_get.bind fun _ => (reads_log _).lives.bind fun _ => lives_callback hc.perform program
  | derive target g => exact lives_whileAlive (lives_regenerate hc _ _ _) _
  | combineFirst target second g | combineSecond target first g =>
    exact lives_whileAlive (keeps_get.bind fun _ => lives_regenerate hc _ _ _) _
  | combineAll target sources g =>
    exact lives_whileAlive (keeps_get.bind fun _ => lives_regenerate hc _ _ _) _
  | recompute target g => exact lives_whileAlive (lives_regenerate hc _ _ _) _
  | rebuild s => exact keeps_get.bind fun _ => lives_onEmission hc s _
  | «attribute» e name source =>
    exact keeps_get.bind fun _ => lives_duringEmission (lives_putAttribute ..)
  | styleProperty e property source =>
    exact keeps_get.bind fun _ => lives_duringEmission (lives_putProperty ..)
  | awaited b =>
    show Lives (b.onAwaited call held)
    unfold BoundaryId.onAwaited
    split
    · exact lives_arrive hc b
    · exact keeps_pure _

end

/-! ## At every depth -/

theorem respond_performs (d : Nat) (acts : List Step) (h : ReadsOnly acts) :
    Reads (respond d (.perform acts)) := by
  cases d with
  | zero => exact keeps_throw trivial
  | succ d => exact h d

theorem respond_lives (d : Nat) : (respond d).Lives := by
  induction d with
  | zero => exact ⟨respond_reads 0, respond_performs 0, fun _ _ => keeps_throw trivial⟩
  | succ d ih =>
    refine ⟨respond_reads _, respond_performs _, fun q hq => ?_⟩
    cases q with
    | react r held => exact lives_react ih r held
    | realize r n parent => exact lives_realizeNode ih r parent n
    | rebuild s v => exact lives_rebuild ih s v
    | kill m => exact lives_kill ih m
    | _ => exact hq.elim

end LivePage
