import LivePage.Proofs.Chronicle.Changes

/-!
# Chronicles of emissions

Emissions, and what is done to observables of every flavour, have chronicles if the answers to the
requests that they make do. An emission is an episode: during it, those who are still subscribed are
told in their order, and nothing else happens.
-/

namespace LivePage

open LivePage.Script

variable {α : Type} {w w' : World} {c : CellId} {P : Move → Prop} {d : Nat}

/-- The answers to requests have chronicles. Teardowns that are asked for are episodes. -/
structure Respond.Chronicled (call : Respond) : Prop where
  reads : call.Reads
  react (r : Reaction) (held : Held) : LivePage.Chronicled (call (.react r held))
  perform (acts : List Step) : LivePage.Chronicled (call (.perform acts))
  realize (r : Surface) (n : Node) (parent : PageNode) :
    LivePage.Chronicled (call (.realize r n parent))
  rebuild (s : SiteId) (v : Value) : LivePage.Chronicled (call (.rebuild s v))
  kill (m : Teardown) : Goes (· = .killed m) (call (.kill m))
  bubble (e : Event) (n : PageNode) : LivePage.Chronicled (call (.bubble e n))

/-- By itself it subscribes nothing to a page and removes no subscriptions. -/
def Move.Mild (move : Move) : Prop := move.Clean ∧ ∀ c, move ≠ .cleared c

/-! ## Emissions -/

theorem Hands.of_repin {held : Held} {snapshot : List (Nat × Reaction)} {es : List Episode}
    {pins : List (List Entity)} (h : Hands c held snapshot es { w with pins }) :
    Hands c held snapshot es w := by
  generalize hv : ({ w with pins } : World) = v at h
  induction h with
  | done => exact .done
  | told pins' hkey hmove h _ =>
    subst hv
    exact .told pins' hkey hmove h
  | gone hkey _ ih =>
    subst hv
    exact .gone hkey (ih rfl)

section

variable (hd : (respond d).Chronicled)
include hd

theorem exists_hands {held : Held} {snapshot : List (Nat × Reaction)}
    (h : (notify (respond d) c held snapshot).run w = .ok ⟨⟩ w') :
    ∃ es, Hands c held snapshot es w ∧ Chronicle es w w' := by
  induction snapshot generalizing w with
  | nil =>
    obtain ⟨-, rfl⟩ := ok_pure.1 h
    exact ⟨[], .done, .refl _⟩
  | cons s rest ih =>
    obtain ⟨key, r⟩ := s
    rw [notify, ok_get_bind] at h
    dsimp only at h
    split at h
    · next hkey =>
      obtain ⟨_, w₁, h₁, h₂⟩ := ok_bind.1 h
      obtain ⟨w₂, hrun, rfl⟩ := ok_holding.1 h₁
      obtain ⟨inner, hclean, hinner⟩ := (hd.react r held).ok hrun
      obtain ⟨es, hes, hc⟩ := ih h₂
      have hspans : (Move.told c key r held).Spans inner _ w₂ := ⟨hclean, d, hrun⟩
      exact ⟨_, .told _ hkey rfl hes, .during (w := w) _ hspans hinner hc.of_repin⟩
    · next hkey =>
      obtain ⟨es, hes, hc⟩ := ih h
      exact ⟨es, .gone (Bool.eq_false_iff.2 hkey) hes, hc⟩

/-- An emission is an episode. -/
theorem exists_emission (h : (emit (respond d) c).run w = .ok ⟨⟩ w') :
    ∃ es, Chronicle es w w' ∧ (Move.emission c).Spans es w w' := by
  have hrun := h
  rw [emit, ok_get_bind] at h
  obtain ⟨w₁, h₁, rfl⟩ := ok_holding.1 h
  obtain ⟨es, hes, hc⟩ := exists_hands hd h₁
  exact ⟨es, (hc.of_repin).repin _, hes.of_repin, d, hrun⟩

theorem goes_emit (hP : P (.emission c)) : Goes P (emit (respond d) c) :=
  goes_of_ok fun h => by
    obtain ⟨es, hc, hs⟩ := exists_emission hd h
    exact .spanning hP hs hc

theorem goes_holdAndEmit (hP : ∀ held, P (.assigned c held)) (he : P (.emission c)) (held : Held) :
    Goes P (holdAndEmit (respond d) c held) :=
  (goes_hold hP held).bind fun _ => goes_emit hd he

theorem chronicled_emit (c : CellId) : Chronicled (emit (respond d) c) := goes_emit hd trivial

theorem chronicled_holdAndEmit (c : CellId) (held : Held) :
    Chronicled (holdAndEmit (respond d) c held) :=
  goes_holdAndEmit hd (fun _ => trivial) trivial held

/-! ## References -/

omit hd in
theorem chronicled_withRef {act : Run Unit} (h : Chronicled act) (c : CellId) :
    Chronicled (withRef c act) := by
  refine keeps_get.bind fun w => ?_
  split
  · exact h
  · exact keeps_throw trivial

theorem chronicled_attach (c : CellId) (element : PageNode) :
    Chronicled (attach (respond d) c element) :=
  chronicled_withRef (chronicled_holdAndEmit hd _ _) c

theorem chronicled_killRef (c : CellId) : Chronicled (killRef (respond d) c) :=
  chronicled_withRef
    ((chronicled_holdAndEmit hd _ _).bind fun _ => goes_unsubscribeAll trivial) c

/-! ## Derived observables -/

theorem chronicled_regenerate (target : CellId) (g : Generator) (sources : List Held) :
    Chronicled (regenerate (respond d) target g sources) :=
  (reads_generator hd.reads g sources).chronicled.bind fun _ => chronicled_holdAndEmit hd _ _

omit hd in
theorem chronicled_whileAlive {act : Run Unit} (h : Chronicled act) (cells : List CellId) :
    Chronicled (whileAlive cells act) := by
  refine keeps_get.bind fun w => ?_
  split
  · exact goes_holding h
  · exact keeps_pure _

omit hd in
theorem chronicled_deriveWithInitial (type : ValueType) (source : CellId) (g : Generator)
    (initial : Held) : Chronicled (deriveWithInitial type source g initial) :=
  (sparing_newCell ..).chronicled.bind fun target =>
    (chronicled_subscribe (r := .derive target g) id source).bind fun _ => keeps_pure _

theorem chronicled_deriveFrom (type : ValueType) (source : CellId) (g : Generator) :
    Chronicled (deriveFrom (respond d) type source g) :=
  keeps_get.bind fun _ => (reads_generator hd.reads g _).chronicled.bind fun _ =>
    chronicled_deriveWithInitial ..

theorem chronicled_deriveFromTwo (type : ValueType) (first second : CellId) (g : Generator) :
    Chronicled (deriveFromTwo (respond d) type first second g) :=
  keeps_get.bind fun _ => (reads_generator hd.reads g _).chronicled.bind fun _ =>
    (sparing_newCell ..).chronicled.bind fun target =>
      (chronicled_subscribe (r := .combineFirst target second g) id first).bind fun _ =>
        (chronicled_subscribe (r := .combineSecond target first g) id second).bind fun _ =>
          keeps_pure _

theorem chronicled_deriveFromAll (type : ValueType) (sources : List CellId) (g : Generator) :
    Chronicled (deriveFromAll (respond d) type sources g) :=
  keeps_get.bind fun _ => (reads_generator hd.reads g _).chronicled.bind fun _ =>
    (sparing_newCell ..).chronicled.bind fun target =>
      (chronicled_subscribeToAll (r := .combineAll target sources g) id sources).bind fun _ =>
        keeps_pure _

theorem chronicled_deriveFromAny (type : ValueType) (sources : List CellId) (g : Generator) :
    Chronicled (deriveFromAny (respond d) type sources g) :=
  (reads_generator hd.reads g _).chronicled.bind fun _ =>
    (sparing_newCell ..).chronicled.bind fun target =>
      (chronicled_subscribeToAll (r := .recompute target g) id sources).bind fun _ => keeps_pure _

/-! ## States and stores -/

theorem chronicled_updateState (c : CellId) (candidate : Held) :
    Chronicled (updateState (respond d) c candidate) := by
  refine keeps_get.bind fun w => ?_
  dsimp only
  refine (reads_allAccept hd.reads _ _ _).chronicled.bind fun b => ?_
  split
  · exact (chronicled_holdAndEmit hd _ _).bind fun _ => keeps_pure _
  · exact keeps_pure _

theorem chronicled_syncFields (record : Value) (cells : List CellId) :
    Chronicled (syncFields (respond d) record cells) := by
  induction cells with
  | nil => exact keeps_pure _
  | cons c rest ih =>
    have hsync : Chronicled (syncField (respond d) record c) := by
      refine keeps_get.bind fun w => ?_
      split
      · split
        · exact goes_holding (chronicled_holdAndEmit hd _ _)
        · exact keeps_pure _
      · exact keeps_pure _
    exact hsync.bind fun _ => ih

theorem chronicled_updateStore (c : CellId) (held : Held) :
    Chronicled (updateStore (respond d) c held) :=
  (goes_hold (fun _ => trivial) held).bind fun _ => keeps_get.bind fun _ =>
    (goes_holding (chronicled_syncFields hd _ _)).bind fun _ => chronicled_emit hd c

theorem chronicled_writeBack (store : CellId) (part : Part) (v : Value) :
    Chronicled (writeBack (respond d) store part v) := by
  refine keeps_get.bind fun w => ?_
  split
  · exact goes_holding (chronicled_holdAndEmit hd _ _)
  · exact keeps_pure _

theorem chronicled_updateField (c store : CellId) (part : Part) (held : Held) :
    Chronicled (updateField (respond d) c store part held) :=
  (goes_hold (fun _ => trivial) held).bind fun _ => keeps_get.bind fun _ =>
    (chronicled_writeBack hd _ _ _).bind fun _ => chronicled_emit hd c

omit hd in
theorem sparing_storeField (store : CellId) (name : String) (part : Part) (type : ValueType) :
    Sparing (storeField store name part type) := by
  refine keeps_get.bind fun w => ?_
  dsimp only
  split
  · exact keeps_pure _
  · refine (sparing_newCell ..).bind fun _ => Keeps.bind ?_ fun _ => keeps_pure _
    refine sparing_modifyCell ?_ ?_ store <;> exact fun _ => rfl

/-! ## Programs, results that come later and boundaries -/

theorem chronicled_callback (program : CallbackId) : Chronicled (program.run (respond d)) := by
  refine keeps_get_bind fun w => ?_
  split
  · next acts remaining hget =>
    refine KeepsAt.bind (keepsAt_set ?_) fun _ => hd.perform acts
    exact (quiet_counted hget).spares.via trivial
  · exact (keeps_pure _).start w

theorem chronicled_runOnEither (c : CellId) : Chronicled (runOnEither (respond d) c) := by
  refine keeps_get.bind fun w => ?_
  split
  · exact (reads_log _).chronicled.bind fun _ => chronicled_callback hd _
  · exact keeps_pure _

theorem chronicled_runOnFailure (c : CellId) (message : String) :
    Chronicled (runOnFailure (respond d) c message) := by
  refine keeps_get.bind fun w => ?_
  split
  · exact (reads_log _).chronicled.bind fun _ => chronicled_callback hd _
  · exact keeps_pure _

theorem chronicled_resolve (c : CellId) (v : Value) : Chronicled (resolve (respond d) c v) := by
  refine keeps_get.bind fun w => ?_
  split
  · exact keeps_pure _
  · exact (sparing_modifySettlement _ _).chronicled.bind fun _ =>
      (chronicled_holdAndEmit hd _ _).bind fun _ => chronicled_runOnEither hd c

theorem chronicled_reject (c : CellId) (message : String) :
    Chronicled (reject (respond d) c message) := by
  refine keeps_get.bind fun w => ?_
  split
  · exact keeps_pure _
  · exact (sparing_modifySettlement _ _).chronicled.bind fun _ =>
      (chronicled_runOnFailure hd _ _).bind fun _ => chronicled_runOnEither hd c

theorem chronicled_poll (t : Task) (name : String) : Chronicled (t.poll (respond d) name) := by
  unfold Task.poll
  split
  · exact (sparing_modifyTasks _).chronicled.bind fun _ => keeps_pure _
  · refine (sparing_modifyTasks _).chronicled.bind fun _ => Keeps.bind (goes_holding ?_) fun _ =>
      keeps_pure _
    split
    · exact chronicled_resolve hd _ _
    · exact chronicled_reject hd _ _

theorem chronicled_arrive (b : BoundaryId) : Chronicled (b.arrive (respond d)) := by
  refine keeps_get.bind fun w => ?_
  dsimp only
  split
  · exact keeps_pure _
  · split
    · exact (sparing_modifyBoundary _ _).chronicled.bind fun _ =>
        (chronicled_updateState hd _ _).bind fun _ => keeps_pure _
    · exact (sparing_modifyBoundary _ _).chronicled

end

/-! ## Making boundaries and branches -/

theorem sparing_newBoundary (fallback : Node) : Sparing (newBoundary fallback) :=
  (sparing_newCell ..).bind fun _ =>
    keeps_update (fun _ => spares_of_same rfl rfl rfl rfl) fun _ => keeps_pure _

theorem chronicled_awaitIn (b : BoundaryId) (c : CellId) : Chronicled (awaitIn b c) := by
  refine keeps_get.bind fun w => ?_
  dsimp only
  split
  · exact (sparing_modifyBoundary _ _).chronicled.bind fun _ =>
      (chronicled_subscribe (r := .awaited b) id c).bind fun _ => keeps_pure _
  · exact keeps_pure _

theorem sparing_followNode (c : CellId) : Sparing (followNode c) :=
  keeps_get.bind fun _ => keeps_pure _

theorem sparing_finishBoundary (b : BoundaryId) (content : Node) :
    Sparing (finishBoundary b content) := by
  refine keeps_get.bind fun w => ?_
  dsimp only
  split
  · exact (sparing_modifyBoundary _ _).bind fun _ => keeps_pure _
  · exact (sparing_modifyBoundary _ _).bind fun _ => keeps_pure _
  · exact (sparing_modifyBoundary _ _).bind fun _ => sparing_followNode _

section

variable (hd : (respond d).Chronicled)
include hd

theorem reads_gatedBranch (render : Template) (label : Option String) :
    Reads (gatedBranch (respond d) render label) :=
  (reads_logLabel _ _).bind fun _ => reads_calledTemplate hd.reads _ _

theorem chronicled_showWhen (source : CellId) (render fallback : Template)
    (label : Option String) : Chronicled (showWhen (respond d) source render fallback label) :=
  (chronicled_deriveFrom hd _ _ _).bind fun _ => (sparing_followNode _).chronicled

theorem chronicled_forEach (source : CellId) (render : Template) (label : Option String) :
    Chronicled (forEach (respond d) source render label) :=
  (chronicled_deriveFrom hd _ _ _).bind fun _ => (sparing_followNode _).chronicled

theorem chronicled_conditional (source : CellId) (render : Template) (label : Option String) :
    Chronicled (conditional (respond d) source render label) := by
  have hrest : ∀ (initial : Node) (memo : Memo), Chronicled (do
      let w ← get
      set { w with memos := w.memos.push memo }
      let c ← deriveWithInitial .node source (.gated render label ⟨w.memos.size⟩)
        (.value (.node initial))
      return fragmentOf initial (some c)) := by
    refine fun initial memo => keeps_get_bind fun w => KeepsAt.bind (keepsAt_set ?_) fun _ =>
      (chronicled_deriveWithInitial ..).bind fun _ => keeps_pure _
    exact Spares.via (spares_of_same rfl rfl rfl rfl) trivial
  refine keeps_get.bind fun w => ?_
  dsimp only
  split
  · exact (reads_gatedBranch hd _ _).chronicled.bind fun initial => hrest initial _
  · exact hrest .empty _

theorem reads_showFixed (held : Held) (render fallback : Template) :
    Reads (showFixed (respond d) held render fallback) :=
  (reads_branchNode hd.reads _ _ _ _).bind fun _ => keeps_pure _

theorem reads_forEachFixed (render : Template) (values : List Value) :
    Reads (forEachFixed (respond d) render values) := by
  induction values with
  | nil => exact keeps_pure _
  | cons v rest ih =>
    exact (reads_calledTemplate hd.reads _ _).bind fun _ => ih.bind fun _ => keeps_pure _

theorem reads_conditionalFixed (shown : Bool) (render : Template) :
    Reads (conditionalFixed (respond d) shown render) := by
  unfold conditionalFixed
  split
  · exact (reads_gatedBranch hd _ _).bind fun _ => keeps_pure _
  · exact keeps_pure _

end

end LivePage
