import LivePage.Proofs.Chronicle.Emissions

/-!
# Chronicles of realizations and teardowns

The realization of a node is an episode during which it subscribes by itself only to observables
that its record mentions (`taking_realize`). The teardown of a record is an episode during which it
removes by itself the subscriptions of exactly the observables that the record mentions
(`goes_kill`). What is realized or torn down below is an episode of its own.
-/

namespace LivePage

open LivePage.Script

variable {α β ε : Type} {w w' w₁ : World} {c : CellId} {d : Nat}

/-! ## Teardown -/

section

variable {cells cells' : List CellId} {es es' : List Episode}

theorem ClearsExactly.append (h : ClearsExactly cells es) (h' : ClearsExactly cells' es') :
    ClearsExactly (cells ++ cells') (es ++ es') where
  clean := List.forall_mem_append.2 ⟨h.clean, h'.clean⟩
  iff c := by
    rw [List.mem_append, ← h.iff, ← h'.iff]
    simp only [List.mem_append, or_and_right, exists_or]

theorem clearsExactly_of_mild (h : ∀ e ∈ es, e.move.Mild) : ClearsExactly [] es where
  clean e he := (h e he).1
  iff c := by
    refine ⟨fun ⟨e, he, hc⟩ => absurd hc ((h e he).2 c), fun h => nomatch h⟩

/-- There is a chronicle whose episodes remove by themselves the subscriptions of exactly these
observables. -/
def Clearing (cells : List CellId) (w w' : World) : Prop :=
  ∃ es, ClearsExactly cells es ∧ Chronicle es w w'

theorem Via.clearing (h : Via Move.Mild w w') : Clearing [] w w' := by
  obtain ⟨es, hes, hc⟩ := h
  exact ⟨es, clearsExactly_of_mild hes, hc⟩

theorem Goes.clearing {x : Run α} (h : Goes Move.Mild x) : Keeps (Clearing []) (fun _ => True) x :=
  Keeps.mono h Via.clearing id

theorem clearing_bind {x : Run α} {f : α → Run β} (hx : Keeps (Clearing cells) (fun _ => True) x)
    (hf : ∀ a, Keeps (Clearing cells') (fun _ => True) (f a)) :
    Keeps (Clearing (cells ++ cells')) (fun _ => True) (x >>= f) := by
  refine ⟨fun w => (hx.start w).seq fun a w₁ _ ⟨es, hes, hc⟩ => ((hf a).start w₁).mono ?_ id⟩
  rintro w' ⟨es', hes', hc'⟩
  exact ⟨es ++ es', hes.append hes', hc.append hc'⟩

theorem clearing_holding {x : Run α} {entities : List Entity}
    (h : Keeps (Clearing cells) (fun _ => True) x) :
    Keeps (Clearing cells) (fun _ => True) (holding entities x) :=
  h.holding fun ⟨es, hes, hc⟩ => ⟨es, hes, hc.of_repin.repin _⟩

theorem clearing_pure (a : α) : Keeps (Clearing []) (fun _ => True) (pure a : Run α) :=
  Goes.clearing (keeps_pure a)

theorem clearing_unsubscribeAll (c : CellId) :
    Keeps (Clearing [c]) (fun _ => True) (unsubscribeAll c) := by
  refine keeps_modify fun w => ⟨[⟨.cleared c, w, [], w.withCell c Cell.unsubscribeAll⟩], ?_,
    .single rfl⟩
  exact ⟨by simp [Move.Clean], fun d => by simp [eq_comm]⟩

theorem clearing_forM (cells : List CellId) :
    Keeps (Clearing cells) (fun _ => True) (cells.forM unsubscribeAll) := by
  induction cells with
  | nil => exact clearing_pure _
  | cons c rest ih => exact clearing_bind (clearing_unsubscribeAll c) fun _ => ih

end

theorem mild_other : Move.Mild .other := ⟨trivial, nofun⟩

section

variable (hd : (respond d).Chronicled)
include hd

theorem clearing_killRef (c : CellId) :
    Keeps (Clearing [c]) (fun _ => True) (killRef (respond d) c) := by
  refine keeps_get_bind fun w => ?_
  split
  · have hemit : Goes Move.Mild (holdAndEmit (respond d) c .absent) :=
      goes_holdAndEmit hd (fun _ => ⟨trivial, nofun⟩) ⟨trivial, nofun⟩ _
    exact (clearing_bind hemit.clearing fun _ => clearing_unsubscribeAll c).start w
  · exact (keeps_throw trivial).start w

theorem clearing_killRefs (refs : List CellId) :
    Keeps (Clearing refs) (fun _ => True) (killRefs (respond d) refs) := by
  induction refs with
  | nil => exact clearing_pure _
  | cons c rest ih =>
    exact clearing_bind (clearing_holding (clearing_killRef hd c)) fun _ => ih

theorem mild_killAll (ms : List Teardown) : Goes Move.Mild (killAll (respond d) ms) := by
  induction ms with
  | nil => exact keeps_pure _
  | cons m rest ih =>
    refine (goes_holding ((hd.kill m).mono ?_)).bind fun _ => ih
    rintro _ rfl
    exact ⟨trivial, nofun⟩

/-- A teardown removes by itself the subscriptions of exactly the observables that the record
mentions. -/
theorem clearing_kill (m : Teardown) :
    Keeps (Clearing m.mentions) (fun _ => True) (m.kill (respond d)) := by
  have hrest : Goes Move.Mild (do killAll (respond d) (← takeRecords m.children)) :=
    ((sparing_takeRecords _).goes mild_other).bind fun _ => mild_killAll hd _
  have hunlisten (element : PageNode) (ls : List Listener) :
      Goes Move.Mild (ls.forM fun l => element.unlisten l.event l.handler) :=
    keeps_forM fun _ _ => (sparing_unlisten ..).goes mild_other
  rw [show m.mentions = m.driving.toList ++ (m.refs ++ (m.observables ++ [])) by
    simp [Teardown.mentions]]
  refine clearing_bind (clearing_forM _) fun _ => clearing_bind (clearing_killRefs hd _) fun _ =>
    clearing_bind (clearing_forM _) fun _ => ?_
  split
  · exact Goes.clearing ((hunlisten _ _).bind fun _ => hrest)
  · exact Goes.clearing hrest

/-- A teardown is an episode. -/
theorem goes_kill (m : Teardown) : Goes (· = .killed m) (m.kill (respond d)) :=
  goes_of_ok fun hrun => by
    obtain ⟨es, hes, hc⟩ := (clearing_kill hd m).ok hrun
    have hspans : (Move.killed m).Spans es _ _ := ⟨hes, d, hrun⟩
    exact .spanning rfl hspans hc

end

/-! ## Realization -/

/-- After `cells` have been mentioned, the run subscribes by itself to no page but what follows an
observable that its result mentions, and that mentions what was mentioned before. -/
structure Taking (cells : List CellId) (mentions : α → List CellId) (x : ExceptT ε Run α) :
    Prop where
  exists_chronicle {w w' : World} {r : Except ε α} : x.run.run w = .ok r w' →
    ∃ es, Chronicle es w w' ∧ ∀ a, r = .ok a → cells ⊆ mentions a ∧ BindsWithin (mentions a) es

namespace Taking

variable {cells : List CellId} {mentions : α → List CellId}

/-- Something that subscribes nothing to a page by itself. -/
theorem of_chronicled {x : ExceptT ε Run α} (h : Chronicled x.run)
    (hsub : ∀ a, cells ⊆ mentions a) : Taking cells mentions x := by
  refine ⟨fun hrun => ?_⟩
  obtain ⟨es, hes, hc⟩ := h.ok hrun
  refine ⟨es, hc, fun a _ => ⟨hsub a, fun e he c key r hmove hp => absurd hp ?_⟩⟩
  have := hes e he
  rwa [hmove] at this

theorem bind {x : ExceptT ε Run α} {f : α → ExceptT ε Run β} {mentions' : β → List CellId}
    (hx : Taking cells mentions x) (hf : ∀ a, Taking (mentions a) mentions' (f a)) :
    Taking cells mentions' (x >>= f) := by
  refine ⟨fun hrun => ?_⟩
  rcases ended_ebind hrun with ⟨e, hfirst, rfl⟩ | ⟨a, w₁, hfirst, hrest⟩
  · obtain ⟨es, hc, -⟩ := hx.exists_chronicle hfirst
    exact ⟨es, hc, fun _ h => nomatch h⟩
  · obtain ⟨es, hc, hes⟩ := hx.exists_chronicle hfirst
    obtain ⟨es', hc', hes'⟩ := (hf a).exists_chronicle hrest
    refine ⟨es ++ es', hc.append hc', fun b hb => ?_⟩
    obtain ⟨hsub, hbinds⟩ := hes a rfl
    obtain ⟨hsub', hbinds'⟩ := hes' b hb
    refine ⟨List.Subset.trans hsub hsub', fun e he c key r hmove hp => ?_⟩
    rcases List.mem_append.1 he with he | he
    · exact hsub' (hbinds e he hmove hp)
    · exact hbinds' e he hmove hp

/-- After something that subscribes nothing to a page by itself. -/
theorem after {x : ExceptT ε Run α} {f : α → ExceptT ε Run β} {mentions' : β → List CellId}
    (hx : Chronicled x.run) (hf : ∀ a, Taking cells mentions' (f a)) :
    Taking cells mentions' (x >>= f) := by
  have hx' : Taking cells (fun _ => cells) x := of_chronicled hx fun _ => List.Subset.refl _
  exact hx'.bind hf

theorem pure {a : α} (h : cells ⊆ mentions a) :
    Taking cells mentions (Pure.pure a : ExceptT ε Run α) := by
  refine ⟨fun {w w' r} hrun => ?_⟩
  rw [ExceptT.run_pure] at hrun
  obtain ⟨rfl, rfl⟩ := ok_pure.1 hrun
  refine ⟨[], .refl w', fun b hb => ?_⟩
  cases hb
  exact ⟨h, fun _ h => nomatch h⟩

theorem holding {x : Realizing α} {entities : List Entity} (hx : Taking cells mentions x) :
    Taking cells mentions (realizingWith entities x) := by
  refine ⟨fun hrun => ?_⟩
  rw [realizingWith, ExceptT.run_mk] at hrun
  obtain ⟨w₁, hinner, rfl⟩ := ok_holding.1 hrun
  obtain ⟨es, hc, hes⟩ := hx.exists_chronicle hinner
  exact ⟨es, hc.of_repin.repin _, hes⟩

/-- A subscription that does something to a page. -/
theorem subscribing {x : Run α} (hx : ∀ {w a w'}, x.run w = .ok a w' →
      ∃ r w₁, Spares w w₁ ∧ w₁.Follows c r ∧ w' = w₁.subscribed c r) :
    Taking cells (fun _ => cells ++ [c]) (liftM x : ExceptT ε Run α) := by
  refine ⟨fun {w w' r} hrun => ?_⟩
  obtain ⟨a, rfl, hlifted⟩ := ended_lift hrun
  obtain ⟨r, w₁, hs, hf, rfl⟩ := hx hlifted
  have hother : Move.Changes w w₁ .other := hs
  refine ⟨_, (Chronicle.single hother).append (.single (changes_subscribed fun _ => hf)),
    fun _ _ => ⟨List.subset_append_left _ _, fun e he c' key r' hmove _ => ?_⟩⟩
  rcases List.mem_append.1 he with he | he
  all_goals
    obtain rfl := List.mem_singleton.1 he
    cases hmove
  exact List.mem_append_right _ (List.mem_singleton_self _)

end Taking

theorem taking_subscribe {cells : List CellId} {r : Reaction} (hf : ∀ w : World, w.Follows c r) :
    Taking cells (fun _ => cells ++ [c]) (liftM (subscribe c r) : ExceptT ε Run Nat) :=
  .subscribing fun {w _ _} hrun => by
    rw [run_subscribe] at hrun
    cases hrun
    exact ⟨r, w, .refl w, hf w, rfl⟩

theorem taking_followAt {cells : List CellId} (surface : Surface) (records : RecordsId)
    (target : Target) :
    Taking cells (fun _ => cells ++ [c])
      (liftM (followAt surface c records target) : ExceptT ε Run Unit) :=
  .subscribing fun {w _ _} hrun => by
    let site : Site := { surface, source := c, records, target }
    have hspares : Spares w { w with sites := w.sites.push site } :=
      spares_sites (f := (·.push site)) fun _ site h => ⟨site, getElem?_push_of_some h, rfl⟩
    refine ⟨.rebuild ⟨w.sites.size⟩, _, hspares, ⟨site, Array.getElem?_push_size .., rfl⟩, ?_⟩
    cases hrun
    rfl

theorem taking_bindStyle (element : PageNode) (bound : Bindings) (style : Style) :
    Taking bound.observables Bindings.observables (bindStyle element bound style) := by
  induction style generalizing bound with
  | nil => exact .pure (List.Subset.refl _)
  | cons entry rest ih =>
    obtain ⟨key, value⟩ := entry
    cases value with
    | text text =>
      exact .after (sparing_editPage ..).chronicled.pageStep fun _ => ih _
    | observable c =>
      refine .after (Keeps.lift keeps_get) fun _ => ?_
      refine .after (sparing_putProperty ..).chronicled fun _ => ?_
      exact (taking_subscribe (r := .styleProperty ..) fun _ => rfl).bind fun _ =>
        ih { bound with observables := bound.observables ++ [c] }

section

variable (hd : (respond d).Chronicled)
include hd

theorem taking_bindAttribute (element : PageNode) (bound : Bindings) (name : String)
    (value : AttributeValue) :
    Taking bound.observables Bindings.observables
      (bindAttribute (respond d) element bound name value) := by
  cases value with
  | text s =>
    exact .after (sparing_editPage ..).chronicled.pageStep fun _ => .pure (List.Subset.refl _)
  | list items =>
    exact .after (sparing_editPage ..).chronicled.pageStep fun _ => .pure (List.Subset.refl _)
  | ref c =>
    exact .after (chronicled_attach hd c element).lift fun _ => .pure (List.Subset.refl _)
  | style style => exact taking_bindStyle ..
  | observable c =>
    refine .after (Keeps.lift keeps_get) fun _ => ?_
    refine .after (sparing_putAttribute ..).chronicled fun _ => ?_
    exact (taking_subscribe (r := .attribute ..) fun _ => rfl).bind fun _ =>
      .pure (List.Subset.refl _)

theorem taking_bindAttributes (element : PageNode) (bound : Bindings)
    (attributes : List (String × AttributeValue)) :
    Taking bound.observables Bindings.observables
      (bindAttributes (respond d) element bound attributes) := by
  induction attributes generalizing bound with
  | nil => exact .pure (List.Subset.refl _)
  | cons a rest ih =>
    obtain ⟨name, value⟩ := a
    exact (Taking.holding (taking_bindAttribute hd ..)).bind fun _ => ih _

end

/-- A realization is an episode. -/
theorem Taking.chronicled_realizeNode {surface : Surface} {parent : PageNode} {n : Node}
    (h : Taking [] Teardown.mentions (Node.realize (respond d) surface parent n)) :
    Chronicled (Node.realize (respond d) surface parent n).run :=
  goes_of_ok fun {w r w'} hrun => by
    obtain ⟨es, hc, hes⟩ := h.exists_chronicle hrun
    cases r with
    | error error =>
      have hspans : Move.failed.Spans es w w' := ⟨d, surface, parent, n, error, hrun⟩
      exact .spanning (by trivial) hspans hc
    | ok m =>
      have hspans : (Move.realized m).Spans es w w' :=
        ⟨(hes m rfl).2, d, surface, parent, n, hrun⟩
      exact .spanning (by trivial) hspans hc

mutual

theorem taking_realize (hd : (respond d).Chronicled) (r : Surface) (parent : PageNode) :
    ∀ n : Node, Taking [] Teardown.mentions (Node.realize (respond d) r parent n)
  | .empty => by
    rw [Node.realize]
    exact .of_chronicled sparing_emptyTeardown.chronicled.lift fun _ => List.nil_subset _
  | .text _ none => by
    rw [Node.realize]
    exact .after (sparing_createNode ..).chronicled.lift fun _ =>
      .after (sparing_insertBefore ..).chronicled.pageStep fun _ =>
        .of_chronicled sparing_emptyTeardown.chronicled.lift fun _ => List.nil_subset _
  | .text _ (some c) => by
    rw [Node.realize]
    refine .after (sparing_label r).chronicled.lift fun _ =>
      .after (goes_realizingWith (sparing_openRegion ..).chronicled.pageStep) fun _ => .holding ?_
    refine .after sparing_newRecords.chronicled.lift fun _ =>
      .after (sparing_createNode ..).chronicled.lift fun _ =>
      .after (goes_realizingWith ?_) fun _ => (taking_followAt ..).bind fun _ => .pure ?_
    · exact (sparing_createNode ..).chronicled.lift.ebind fun _ =>
        (sparing_insertBefore ..).chronicled.pageStep.ebind fun _ =>
        sparing_emptyTeardown.chronicled.lift.ebind fun _ =>
        (sparing_pushRecord ..).chronicled.lift.ebind fun _ =>
        (sparing_splice ..).chronicled.pageStep
    · simp [Teardown.mentions]
  | .element _ attributes listeners children driving => by
    rw [Node.realize]
    refine .after (goes_realizingWith (sparing_createNode ..).chronicled.lift) fun element =>
      .holding ?_
    have hbound : Taking [] Bindings.observables
        (bindAttributes (respond d) element {} attributes) :=
      taking_bindAttributes hd element {} attributes
    refine (Taking.holding hbound).bind fun bound =>
      .after (sparing_addListeners ..).chronicled fun _ =>
      .after sparing_newRecords.chronicled.lift fun _ =>
      .after (goes_realizingWith (chronicled_realizeAll hd r element _ children)) fun _ => ?_
    cases driving with
    | none =>
      refine .after (sparing_insertBefore ..).chronicled.pageStep fun _ => .pure ?_
      exact List.subset_append_right _ _
    | some c =>
      refine (taking_followAt ..).bind fun _ =>
        .after (sparing_insertBefore ..).chronicled.pageStep fun _ => .pure ?_
      simp [Teardown.mentions]
  | .fragment children none => by
    rw [Node.realize]
    exact .after sparing_newRecords.chronicled.lift fun _ =>
      .after (goes_realizingWith (chronicled_realizeAll hd r parent _ children)) fun _ =>
        .pure (List.nil_subset _)
  | .fragment children (some c) => by
    rw [Node.realize]
    refine .after (sparing_label r).chronicled.lift fun _ =>
      .after (goes_realizingWith (sparing_openRegion ..).chronicled.pageStep) fun _ => .holding ?_
    refine .after sparing_newRecords.chronicled.lift fun _ =>
      .after (goes_realizingWith (sparing_createNode ..).chronicled.lift) fun content =>
      .after (goes_realizingWith ?_) fun _ => (taking_followAt ..).bind fun _ => .pure ?_
    · exact (chronicled_realizeAll hd r content _ children).ebind fun _ =>
        (sparing_splice ..).chronicled.pageStep
    · simp [Teardown.mentions]
  | .deferred render => by
    rw [Node.realize]
    refine .of_chronicled ?_ fun _ => List.nil_subset _
    refine (goes_realizingWith (hd.reads (.render render) trivial).chronicled.lift).ebind
      fun v => ?_
    split
    · exact keeps_ethrow _
    · refine (reads_childNode v).chronicled.lift.ebind fun n => ?_
      rw [ExceptT.run_mk]
      exact goes_holding (hd.realize ..)

theorem chronicled_realizeAll (hd : (respond d).Chronicled) (r : Surface) (parent : PageNode)
    (records : RecordsId) :
    ∀ ns : List Node, Chronicled (realizeAll (respond d) r parent records ns).run
  | [] => by
    rw [realizeAll]
    exact keeps_epure _
  | n :: rest => by
    rw [realizeAll]
    exact (goes_realizingWith (taking_realize hd r parent n).chronicled_realizeNode).ebind fun _ =>
      (sparing_pushRecord ..).chronicled.lift.ebind fun _ =>
        chronicled_realizeAll hd r parent records rest

end

section

variable (hd : (respond d).Chronicled)
include hd

theorem chronicled_realizeNode (surface : Surface) (parent : PageNode) (n : Node) :
    Chronicled (Node.realize (respond d) surface parent n).run :=
  (taking_realize hd surface parent n).chronicled_realizeNode

/-! ## Rebuilding -/

theorem chronicled_killAll (ms : List Teardown) : Chronicled (killAll (respond d) ms) :=
  (mild_killAll hd ms).mono fun _ => And.left

omit hd in
theorem chronicled_duringEmission {act : Realizing α} (h : Chronicled act.run) :
    Chronicled (duringEmission act) := by
  refine h.bind fun r => ?_
  split
  · exact keeps_pure _
  · exact (reads_log _).chronicled.bind fun _ => keeps_throw trivial

theorem chronicled_replaceContents (site : Site) (v : Value) :
    Chronicled (replaceContents (respond d) site v) := by
  refine (sparing_takeRecords _).chronicled.bind fun _ => (chronicled_killAll hd _).bind fun _ =>
    (sparing_createNode ..).chronicled.bind fun _ => (reads_childNode v).chronicled.bind fun n =>
    (goes_holding (chronicled_duringEmission ?_)).bind fun _ => (sparing_pushRecord ..).chronicled
  exact (chronicled_realizeNode hd _ _ n).ebind fun _ =>
    (goes_realizingWith (sparing_put ..).chronicled.pageStep).ebind fun _ => keeps_epure _

theorem chronicled_rebuild (s : SiteId) (v : Value) : Chronicled (s.rebuild (respond d) v) := by
  refine keeps_get.bind fun w => ?_
  dsimp only
  refine (goes_holding (chronicled_replaceContents hd _ _)).bind fun _ =>
    keeps_get_bind fun w => ?_
  split
  · refine (keepsAt_set ?_).bind fun _ => hd.rebuild ..
    exact (spares_mark w s (f := fun site => { site with queued := none }) fun _ => rfl).via trivial
  · refine keepsAt_set ?_
    exact (spares_mark w s (f := fun site => { site with busy := false }) fun _ => rfl).via trivial

theorem chronicled_onEmission (s : SiteId) (v : Value) :
    Chronicled (s.onEmission (respond d) v) := by
  refine keeps_get_bind fun w => ?_
  split
  · refine keepsAt_set ?_
    exact (spares_mark w s (f := fun site => { site with queued := some v }) fun _ => rfl).via
      trivial
  · refine (keepsAt_set ?_).bind fun _ => hd.rebuild ..
    exact (spares_mark w s (f := fun site => { site with busy := true }) fun _ => rfl).via trivial

theorem chronicled_react (r : Reaction) (held : Held) : Chronicled (r.run (respond d) held) := by
  cases r with
  | subscriber name program | watch name program =>
    exact keeps_get.bind fun _ => (reads_log _).chronicled.bind fun _ => chronicled_callback hd _
  | derive target g => exact chronicled_whileAlive (chronicled_regenerate hd ..) _
  | combineFirst target second g | combineSecond target first g =>
    exact chronicled_whileAlive (keeps_get.bind fun _ => chronicled_regenerate hd ..) _
  | combineAll target sources g =>
    exact chronicled_whileAlive (keeps_get.bind fun _ => chronicled_regenerate hd ..) _
  | recompute target g => exact chronicled_whileAlive (chronicled_regenerate hd ..) _
  | rebuild s => exact keeps_get.bind fun _ => chronicled_onEmission hd s _
  | «attribute» e name source =>
    exact keeps_get.bind fun _ => chronicled_duringEmission (sparing_putAttribute ..).chronicled
  | styleProperty e property source =>
    exact keeps_get.bind fun _ => chronicled_duringEmission (sparing_putProperty ..).chronicled
  | awaited b =>
    show Chronicled (b.onAwaited (respond d) held)
    unfold BoundaryId.onAwaited
    split
    · exact chronicled_arrive hd b
    · exact keeps_pure _

/-! ## Events and entry points -/

theorem chronicled_handle (h : HandlerId) (e : Event) : Chronicled (h.handle (respond d) e) := by
  refine keeps_get.bind fun w => ?_
  split
  · exact (reads_log _).chronicled.bind fun _ => (chronicled_callback hd _).bind fun _ =>
      keeps_pure _
  · exact (hd.reads (.render _) trivial).chronicled.bind fun _ => keeps_pure _
  · exact keeps_pure _

theorem chronicled_handleAll (e : Event) (handlers : List HandlerId) :
    Chronicled (handleAll (respond d) e handlers) := by
  induction handlers generalizing e with
  | nil => exact keeps_pure _
  | cons h rest ih => exact (goes_holding (chronicled_handle hd h e)).bind fun _ => ih _

theorem chronicled_bubble (e : Event) (n : PageNode) : Chronicled (e.bubble (respond d) n) := by
  refine keeps_get.bind fun w => (goes_holding (chronicled_handleAll hd ..)).bind fun e => ?_
  split
  · exact keeps_pure _
  · refine keeps_get.bind fun w => ?_
    split
    · exact hd.bubble ..
    · exact keeps_pure _

theorem chronicled_dispatch (type : String) (target : PageNode) :
    Chronicled (dispatch (respond d) type target) :=
  goes_holding (chronicled_bubble hd ..)

theorem chronicled_realize (labelled : Bool) (n : Node) :
    Chronicled (realize (respond d) labelled n).run := by
  refine (Keeps.lift keeps_get).ebind fun w => ?_
  split
  · exact keeps_ethrow _
  · exact (goes_realizingWith (sparing_createNode ..).chronicled.lift).ebind fun _ =>
      (goes_realizingWith (chronicled_realizeNode hd ..)).ebind fun _ => keeps_epure _

theorem chronicled_renderInto (labelled : Bool) (root : PageNode) (n : Node) :
    Chronicled (renderInto (respond d) labelled root n).run :=
  (chronicled_realize hd labelled n).ebind fun _ =>
    (goes_realizingWith (sparing_replaceChildren ..).chronicled.pageStep).ebind fun _ =>
      keeps_epure _

end

end LivePage
