import LivePage.Proofs.Flow.Accounting

/-!
# A boundary counts exactly and swaps once

Scripts make values that come later and boundaries, await, resolve and reject them, in any order and
in programs that are called back while a value is handed around. Whatever they do, a boundary
follows its history: it waits for as many values as were awaited and have not come, it settles when
its content is known and nothing is outstanding, and its display is updated at most once.
-/

namespace LivePage

open LivePage.Script

variable {α β ε : Type} {A : Account} {w w' w₁ : World} {b : BoundaryId} {c d : CellId}
  {key : Nat} {r : Reaction} {call : Respond}

namespace Account

/-! ## Runs with faults of their own -/

theorem PaysAt.ebind {x : ExceptT ε Run α} {f : α → ExceptT ε Run β} (hx : A.PaysAt ∅ w x.run)
    (hf : ∀ a w₁, A.Pays ∅ w w₁ → A.PaysAt ∅ w₁ (f a).run) : A.PaysAt ∅ w (x >>= f).run := by
  rw [ExceptT.run_bind]
  refine PaysAt.before hx fun a w₁ h => ?_
  cases a with
  | error e => exact paysAt_pure h.orderly _
  | ok a => exact hf a w₁ h

theorem PaysAt.lift {x : Run α} (hx : A.PaysAt ∅ w x) :
    A.PaysAt ∅ w (liftM x : ExceptT ε Run α).run := by
  rw [ExceptT.run_liftM, map_eq_pure_bind]
  exact PaysAt.before hx fun _ _ h => paysAt_pure h.orderly _

/-- A run without faults of its own, whose outcome is known to what comes after it. -/
theorem PaysAt.lift_bind {x : Run α} {f : α → ExceptT ε Run β} (hx : A.PaysAt ∅ w x)
    (hf : ∀ a w₁, x.run w = .ok a w₁ → A.Pays ∅ w w₁ → A.PaysAt ∅ w₁ (f a).run) :
    A.PaysAt ∅ w ((liftM x : ExceptT ε Run α) >>= f).run := by
  rw [ExceptT.run_bind, ExceptT.run_liftM, map_eq_pure_bind, bind_assoc]
  simp only [pure_bind]
  exact KeepsAt.seq hx fun a w₁ hrun h => (hf a w₁ hrun h).mono (fun h' => h.trans_empty h') id

theorem PaysAt.silently {act : Run Unit} (h : A.PaysAt ∅ w act) :
    A.PaysAt ∅ w (silently act).run :=
  PaysAt.ebind h.lift fun _ _ h => (keeps_epure _ |> Steady.paysAt) h.orderly

theorem paysAt_eget_bind {f : World → ExceptT ε Run β} (hw : w.Orderly A.names)
    (h : A.PaysAt ∅ w (f w).run) :
    A.PaysAt ∅ w ((liftM (get : Run World) : ExceptT ε Run World) >>= f).run := by
  refine PaysAt.lift_bind (Steady.paysAt keeps_get hw) fun a w₁ hrun _ => ?_
  obtain ⟨rfl, rfl⟩ := ok_get.1 hrun
  exact h

/-- What a name stands for, if it stands for anything. -/
theorem paysAt_lookup (hw : w.Orderly A.names) {table : Names → Entries α} {name : String}
    {f : α → ExceptT ε Run β}
    (h : ∀ a, Entries.get? name (table w.names) = some a → A.PaysAt ∅ w (f a).run) :
    A.PaysAt ∅ w ((liftM (lookup table name) : ExceptT ε Run α) >>= f).run := by
  have hlookup : A.PaysAt ∅ w (lookup table name : Run α) :=
    Steady.paysAt (steady_reads (reads_lookup name)) hw
  refine PaysAt.lift_bind hlookup fun a w₁ hrun _ => ?_
  rw [lookup, ok_get_bind] at hrun
  split at hrun
  · next a' hget =>
    obtain ⟨rfl, rfl⟩ := ok_pure.1 hrun
    exact h _ hget
  · exact absurd hrun not_ok_unknown

theorem paysAt_withCell (hw : w.Orderly A.names) {name : String} {act : CellId → Answering Report}
    (h : ∀ c, Entries.get? name w.names.observables = some c →
      A.PaysAt ∅ (w.pinned [.cell c]) (act c).run) : A.PaysAt ∅ w (withCell name act).run :=
  paysAt_lookup hw fun c hc => PaysAt.holding (h c hc)

theorem steady_withCell {name : String} {act : CellId → Answering Report}
    (h : ∀ c, A.Steady (act c).run) : A.Steady (withCell name act).run :=
  steady_of_paysAt fun _ hw => paysAt_withCell hw fun c _ => Steady.paysAt (h c) (hw.pinned _)

/-! ## Names -/

theorem steady_silently {act : Run Unit} (h : A.Steady act) : A.Steady (silently act).run :=
  h.lift.ebind fun _ => keeps_epure _

theorem steady_storeNode (as : Option String) (n : Node) : A.Steady (storeNode as n).run := by
  have hreport : A.Steady (do return n.report (← get) : Answering Report).run :=
    Keeps.ebind keeps_get.lift fun _ => keeps_epure _
  unfold storeNode
  cases as with
  | none => exact hreport
  | some name =>
    refine Keeps.ebind (Keeps.lift ?_) fun _ => hreport
    exact steady_modifyNames fun w hw => hw.withNames hw.named hw.tasks hw.subscribers hw.known

/-- What a name stands for once a name has been given a value. -/
theorem get?_set_cases {name other : String} {a a' : α} {entries : Entries α}
    (h : Entries.get? other (Entries.set name a entries) = some a') :
    name = other ∧ a' = a ∨ Entries.get? other entries = some a' := by
  rw [Entries.get?_set] at h
  split at h
  · next he => exact .inl ⟨he, (Option.some.inj h).symm⟩
  · exact .inr h

/-- A name for an observable; names of values that come later are for those only. -/
theorem paysAt_nameCell (hw : w.Orderly A.names) {as : String}
    (h : A.names as → (w.cell c).Waits) : A.PaysAt ∅ w (nameCell as c) := by
  have horderly : (w.calling as c).Orderly A.names := by
    refine hw.withNames (fun hl hn => ?_) hw.tasks hw.subscribers hw.known
    obtain ⟨rfl, rfl⟩ | hn := get?_set_cases hn
    · exact h hl
    · exact hw.named hl hn
  exact Pays.of_eq horderly rfl rfl

theorem paysAt_nameSubscriber (hw : w.Orderly A.names) (name : String) (hkey : key < w.nextKey)
    (hr : r.calls) : A.PaysAt ∅ w (modifyNames fun n =>
      { n with subscribers := Entries.set name (key, r) n.subscribers }) := by
  have horderly : ({ w with names :=
      { w.names with subscribers := (Entries.set name (key, r) w.names.subscribers) } } :
        World).Orderly A.names := by
    refine hw.withNames hw.named hw.tasks (fun hn => ?_) hw.known
    obtain ⟨-, he⟩ | hn := get?_set_cases hn
    · cases he
      exact ⟨hkey, hr⟩
    · exact hw.subscribers hn
  exact Pays.of_eq horderly rfl rfl

theorem paysAt_nameBoundary (hw : w.Orderly A.names) (name : String)
    (hb : b.index < w.boundaries.size) : A.PaysAt ∅ w (modifyNames fun n =>
      { n with boundaries := Entries.set name b n.boundaries }) := by
  have horderly : ({ w with names :=
      { w.names with boundaries := Entries.set name b w.names.boundaries } } :
        World).Orderly A.names := by
    refine hw.withNames hw.named hw.tasks hw.subscribers fun hn => ?_
    obtain ⟨-, rfl⟩ | hn := get?_set_cases hn
    · exact hb
    · exact hw.known hn
  exact Pays.of_eq horderly rfl rfl

theorem paysAt_setTask (hw : w.Orderly A.names) {t : Task} (h : (w.cell t.later).Waits)
    (name : String) : A.PaysAt ∅ w (modifyTasks (Entries.set name t)) := by
  have horderly : ({ w with names :=
      { w.names with tasks := Entries.set name t w.names.tasks } } : World).Orderly A.names := by
    refine hw.withNames hw.named (fun hn => ?_) hw.subscribers hw.known
    obtain ⟨-, rfl⟩ | hn := get?_set_cases hn
    · exact h
    · exact hw.tasks hn
  exact Pays.of_eq horderly rfl rfl

theorem steady_eraseTask (name : String) : A.Steady (modifyTasks (Entries.erase name)) := by
  refine keeps_modify fun w hw => .of_eq ?_ rfl rfl
  refine hw.withNames hw.named (fun {other t'} hn => ?_) hw.subscribers hw.known
  rw [Entries.get?_erase] at hn
  split at hn
  · cases hn
  · exact hw.tasks hn

/-! ## New observables -/

/-- A new observable that is used at once. -/
theorem paysAt_newCell (hw : w.Orderly A.names) {flavour : Flavour} {type : ValueType} {held : Held}
    {f : CellId → ExceptT ε Run β} (hok : (Cell.mk flavour type held []).settlement.ok = false)
    (hf : (w.grown ⟨flavour, type, held, []⟩).Orderly A.names →
      A.PaysAt ∅ (w.grown ⟨flavour, type, held, []⟩) (f ⟨w.cells.size⟩).run) :
    A.PaysAt ∅ w ((liftM (newCell flavour type held) : ExceptT ε Run CellId) >>= f).run := by
  have hgrown := hw.grown (x := ⟨flavour, type, held, []⟩) rfl hok
  have hpays : A.Pays ∅ w (w.grown ⟨flavour, type, held, []⟩) := by
    refine .still hgrown (.grown ..) (fun hb => aside_grown hw hb rfl) fun c hc => ?_
    rw [World.cell_grown_of_lt hc]
  have hnew : A.PaysAt ∅ w (newCell flavour type held) := hpays
  refine PaysAt.lift_bind hnew fun a w₁ hrun _ => ?_
  cases hrun
  exact hf hgrown

theorem paysAt_newNamed (hw : w.Orderly A.names) {as : String} {flavour : Flavour}
    {type : ValueType} {held : Held} (hok : (Cell.mk flavour type held []).settlement.ok = false)
    (h : A.names as → (Cell.mk flavour type held []).Waits) :
    A.PaysAt ∅ w ((liftM (newCell flavour type held) : Answering CellId) >>= fun c =>
      silently (nameCell as c)).run := by
  refine paysAt_newCell hw hok fun hgrown => PaysAt.silently (paysAt_nameCell hgrown fun hl => ?_)
  rw [World.cell_grown, if_pos rfl]
  exact h hl

/-! ## New boundaries -/

theorem paysAt_newBoundary (hw : w.Orderly A.names) (fallback : Node) :
    A.PaysAt ∅ w (newBoundary fallback) := by
  have hpays : A.Pays ∅ w (w.bounded fallback) := by
    refine .still (hw.bounded fallback) (.bounded ..) (fun hb => ?_) fun c hc => ?_
    · have hne : A.boundary.index ≠ w.boundaries.size := Nat.ne_of_lt hb
      have hgrown := aside_grown hw hb (x := World.newDisplay fallback) rfl
      exact { hgrown with boundary := by rw [World.boundary_bounded, if_neg hne] }
    · change ((w.grown _).cell c).settlement.ok = _
      rw [World.cell_grown_of_lt hc]
  exact hpays

/-! ## Boundaries -/

theorem paysAt_awaitIn (hw : w.Orderly A.names) (hc : (w.cell c).Waits)
    (hb : b.index < w.boundaries.size) : A.PaysAt ∅ w (awaitIn b c) := by
  unfold PaysAt KeepsAt
  rw [run_awaitIn]
  split
  · next h =>
    cases h
    split
    · exact .refl hw
    · next hok =>
      have hok : (w.cell c).settlement.ok = false := by simpa using hok
      have hcounting := hw.counting hc hb
      by_cases hne : A.boundary = b
      · subst hne
        exact .noticed hcounting (.counting ..) fun _ _ ht => ⟨_, ht.counted hw hc hok⟩
      · refine .still hcounting (.counting ..) (fun _ => ?_) fun d _ => ?_
        · exact (aside_withBoundary hne Boundary.register).trans
            (aside_subscribed fun h => hne (Reaction.awaited.inj h).symm)
        · exact congrArg Settlement.ok (World.settlement_subscribed ..)
  · next h => cases h

theorem paysAt_finishBoundary (hw : w.Orderly A.names) (b : BoundaryId) (content : Node) :
    A.PaysAt ∅ w (finishBoundary b content) := by
  have hfinishing : (w.finishing b content).Orderly A.names :=
    hw.withBoundary (BoundaryState.display_finish content _)
  have hendures : Endures w (w.finishing b content) := .withBoundary ..
  unfold PaysAt KeepsAt
  rw [run_finishBoundary]
  by_cases hne : A.boundary = b
  · subst hne
    exact .noticed hfinishing hendures fun _ _ ht => ⟨_, ht.finished content⟩
  · exact .still hfinishing hendures (fun _ => aside_withBoundary hne _) fun _ _ => rfl

/-! ## Subscriptions -/

theorem steady_newCallback {acts : List Step} (times : Nat) (h : ∀ s ∈ acts, s.Awaits A.names) :
    A.Steady (newCallback acts times) :=
  keeps_of_ok fun _ => ⟨_, _, rfl, fun hw => .of_eq (hw.called times h) rfl rfl⟩

theorem pays_subscribe (hw : (w.withCell c (·.subscribe key r)).Orderly A.names)
    (hr : ∀ b, r ≠ .awaited b) : A.Pays ∅ w (w.withCell c (·.subscribe key r)) := by
  refine .still hw (.subscribe ..) (fun _ => aside_subscribe (hr _)) fun d _ => ?_
  rw [World.cell_withCell]
  split
  · simp [Cell.settlement]
  · rfl

theorem paysAt_subscribe (hw : w.Orderly A.names) (hf : w.Admits c r) (hr : ∀ b, r ≠ .awaited b) :
    A.PaysAt ∅ w (subscribe c r) := by
  have hpays : A.Pays ∅ w (w.subscribed c r) := by
    refine .still (hw.subscribed hf) (.subscribed ..) (fun _ => aside_subscribed (hr _)) ?_
    exact fun d _ => congrArg Settlement.ok (World.settlement_subscribed ..)
  exact hpays

/-! ## Steps that do not call -/

theorem paysAt_stepPending (hw : w.Orderly A.names) (hc : (w.cell c).Waits) (suspense as : String) :
    A.PaysAt ∅ w (stepPending suspense as c).run :=
  paysAt_lookup hw fun _ hb => PaysAt.ebind (paysAt_awaitIn hw hc (hw.known hb)).lift
    fun n _ h => Steady.paysAt (steady_storeNode (some as) n) h.orderly

theorem steady_stepSubscribe (handler : String) {acts : List Step} (times : Nat)
    (h : ∀ s ∈ acts, s.Awaits A.names) (c : CellId) :
    A.Steady (stepSubscribe handler acts times c).run := by
  have hcount : A.Steady (do return .count (← subscriberCount c) : Answering Report).run :=
    Keeps.ebind (Keeps.lift (keeps_get.bind fun _ => keeps_pure _)) fun _ => keeps_epure _
  refine steady_of_paysAt fun w hw => paysAt_eget_bind hw ?_
  split
  · next key r hget =>
    obtain ⟨hkey, hr⟩ := hw.subscribers hget
    have hplain : ∀ b, r ≠ .awaited b := fun b he => by
      rw [he] at hr
      exact hr
    have hadmits : w.Admits c r := by
      cases r with
      | subscriber => trivial
      | _ => exact hr.elim
    have horderly := hw.subscribe hkey hadmits fun b he => absurd he (hplain b)
    have hsubscribe : A.PaysAt ∅ w (modifyCell c (·.subscribe key r)) :=
      pays_subscribe horderly hplain
    exact PaysAt.ebind hsubscribe.lift fun _ _ h => Steady.paysAt hcount h.orderly
  · refine PaysAt.ebind (Steady.paysAt (steady_newCallback times h).lift hw) fun program w₁ h₁ => ?_
    have hsubscribe := paysAt_subscribe (c := c) h₁.orderly (r := .subscriber handler program)
      trivial nofun
    refine PaysAt.lift_bind hsubscribe fun key w₂ hrun h₂ => ?_
    rw [run_subscribe] at hrun
    cases hrun
    have hname := paysAt_nameSubscriber h₂.orderly handler (Nat.lt_succ_self _)
      (r := .subscriber handler program) trivial
    exact PaysAt.ebind hname.lift fun _ _ h => Steady.paysAt hcount h.orderly

theorem steady_stepWatch (as : String) {acts : List Step} (times : Nat)
    (h : ∀ s ∈ acts, s.Awaits A.names) (c : CellId) : A.Steady (stepWatch as acts times c).run := by
  refine steady_of_paysAt fun w hw => ?_
  refine PaysAt.ebind (Steady.paysAt (steady_newCallback times h).lift hw) fun program w₁ h₁ => ?_
  have hsubscribe := paysAt_subscribe (c := c) h₁.orderly (r := .watch as program) trivial nofun
  refine PaysAt.ebind hsubscribe.lift fun key w₂ h₂ => ?_
  exact Steady.paysAt (steady_silently (steady_modifyNames fun _ hw =>
    hw.withNames hw.named hw.tasks hw.subscribers hw.known)) h₂.orderly

theorem steady_stepOnFailure (handler : String) {acts : List Step} (times : Nat)
    (h : ∀ s ∈ acts, s.Awaits A.names) (c : CellId) :
    A.Steady (stepOnFailure handler acts times c).run :=
  Keeps.ebind (steady_newCallback times h).lift fun program => steady_silently
    (steady_modifySettlement (f := fun s => { s with onFailure := some (handler, program) })
      (fun _ => rfl) (fun _ => id) c)

theorem steady_stepOnEither (handler : String) {acts : List Step} (times : Nat)
    (h : ∀ s ∈ acts, s.Awaits A.names) (c : CellId) :
    A.Steady (stepOnEither handler acts times c).run :=
  Keeps.ebind (steady_newCallback times h).lift fun program => steady_silently
    (steady_modifySettlement (f := fun s => { s with onEither := some (handler, program) })
      (fun _ => rfl) (fun _ => id) c)

/-! ## Steps that call -/

section

variable (hcall : A.Served call)
include hcall

theorem reads_stepNode (t : Template) : Reads (stepNode call t).run :=
  reads_answering (reads_evalTemplate hcall.reads [] t)

theorem reads_stepValue (e : Expr) : Reads (stepValue call e).run :=
  reads_answering (reads_evalExpr hcall.reads [] e)

theorem steady_stepNew {as : String} {kind : NewKind} (type : ValueType) (value : Expr)
    (checkers : List Checker) (h : kind = .later ∨ ¬ A.names as) :
    A.Steady (stepNew call as kind type value checkers).run := by
  refine steady_of_paysAt fun w hw => ?_
  refine PaysAt.ebind (Steady.paysAt (steady_reads (reads_stepValue hcall value)) hw)
    fun v w₁ h₁ => PaysAt.ebind (Steady.paysAt keeps_get.lift h₁.orderly) fun u w₂ h₂ => ?_
  have hother : kind ≠ .later → ∀ {p : Prop}, A.names as → p :=
    fun hne _ hl => absurd hl (h.resolve_left hne)
  cases kind with
  | later => exact paysAt_newNamed h₂.orderly rfl fun _ => rfl
  | observable | state | store | ref => exact paysAt_newNamed h₂.orderly rfl (hother nofun)

theorem steady_stepLater (as task : String) (polls : Nat) (outcome : Outcome) :
    A.Steady (stepLater call as task polls outcome).run := by
  have hmake : ∀ t : Except String Value, A.Steady (do
      let later ← newCell (.later {}) .opt .absent
      nameCell as later
      silently (modifyTasks (Entries.set task ⟨later, polls, t⟩)) : Answering Report).run := by
    intro t
    refine steady_of_paysAt fun w hw => ?_
    refine paysAt_newCell hw rfl fun hgrown => ?_
    have hwaits : ((w.grown ⟨.later {}, .opt, .absent, []⟩).cell ⟨w.cells.size⟩).Waits := by
      rw [World.cell_grown, if_pos rfl]
      rfl
    refine PaysAt.ebind (PaysAt.lift (paysAt_nameCell hgrown fun _ => hwaits)) fun _ w₁ h₁ => ?_
    exact PaysAt.silently (paysAt_setTask h₁.orderly (h₁.endures.waits hwaits) task)
  cases outcome with
  | ok e =>
    exact Keeps.ebind (steady_reads (reads_stepValue hcall e)) fun v => hmake (.ok v)
  | failed message => exact hmake (.error message)

theorem steady_stepSuspense (as : String) (fallback : Template) :
    A.Steady (stepSuspense call as fallback).run := by
  refine steady_of_paysAt fun w hw => ?_
  refine PaysAt.ebind (Steady.paysAt (steady_reads (reads_stepNode hcall fallback)) hw)
    fun n w₁ h₁ => ?_
  refine PaysAt.lift_bind (paysAt_newBoundary h₁.orderly n) fun b w₂ hrun h₂ => ?_
  rw [run_newBoundary] at hrun
  cases hrun
  exact PaysAt.silently (paysAt_nameBoundary h₂.orderly as (by simp [World.size_bounded]))

theorem steady_stepFinish (suspense : String) (template : Template) (as : String) :
    A.Steady (stepFinish call suspense template as).run :=
  steady_of_paysAt fun _ hw => paysAt_lookup hw fun b _ =>
    PaysAt.ebind (Steady.paysAt (steady_reads (reads_stepNode hcall template)) hw) fun n _ h =>
      PaysAt.ebind (paysAt_finishBoundary h.orderly b n).lift fun n _ h =>
        Steady.paysAt (steady_storeNode (some as) n) h.orderly

theorem paysAt_stepResolve (hw : w.Orderly A.names) (hc : (w.cell c).Waits) (value : Expr) :
    A.PaysAt ∅ w (stepResolve call value c).run :=
  PaysAt.ebind (Steady.paysAt (steady_reads (reads_stepValue hcall value)) hw) fun v _ h =>
    PaysAt.silently (hcall.resolve h.orderly (h.endures.waits hc) v)

theorem paysAt_poll (hw : w.Orderly A.names) {t : Task} (ht : (w.cell t.later).Waits)
    (name : String) : A.PaysAt ∅ w (t.poll call name) := by
  unfold Task.poll
  split
  · next k _ =>
    exact PaysAt.before (paysAt_setTask hw (t := { t with polls := k }) ht name) fun _ _ h =>
      paysAt_pure h.orderly _
  · refine PaysAt.before (Steady.paysAt (steady_eraseTask name) hw) fun _ w₁ h₁ => ?_
    have hwaits := h₁.endures.waits ht
    refine PaysAt.before (PaysAt.holding ?_) fun _ _ h => paysAt_pure h.orderly _
    have hpinned := h₁.orderly.pinned
    split
    · exact hcall.resolve (hpinned _) hwaits _
    · exact Steady.paysAt (hcall.reject _ _) (hpinned _)

theorem steady_stepPoll (task : String) : A.Steady (stepPoll call task).run :=
  steady_of_paysAt fun _ hw => paysAt_lookup hw fun _ ht =>
    PaysAt.ebind (paysAt_poll hcall hw (hw.tasks ht) task).lift fun _ _ h =>
      Steady.paysAt (keeps_epure _) h.orderly

end

/-- Every step of such a script keeps the boundary to its history. -/
theorem steady_step {n : Nat} (hcall : A.Served (respond n)) {step : Step}
    (h : step.Awaits A.names) : A.Steady (stepAnswer (respond n) step).run := by
  cases h with
  | reads h => exact steady_reads (h n)
  | new h => exact steady_stepNew hcall _ _ _ h
  | later => exact steady_stepLater hcall ..
  | suspense => exact steady_stepSuspense hcall ..
  | finish => exact steady_stepFinish hcall ..
  | poll => exact steady_stepPoll hcall _
  | reject => exact steady_withCell fun c => steady_silently (hcall.reject c _)
  | subscribe h => exact steady_withCell (steady_stepSubscribe _ _ h)
  | watch h => exact steady_withCell (steady_stepWatch _ _ h)
  | onCatch h => exact steady_withCell (steady_stepOnFailure _ _ h)
  | onFinally h => exact steady_withCell (steady_stepOnEither _ _ h)
  | pending h =>
    exact steady_of_paysAt fun w hw => paysAt_withCell hw fun c hc =>
      paysAt_stepPending (hw.pinned _) (hw.named h hc) ..
  | resolve h =>
    exact steady_of_paysAt fun w hw => paysAt_withCell hw fun c hc =>
      paysAt_stepResolve hcall (hw.pinned _) (hw.named h hc) _

/-! ## Runs -/

theorem steady_performAll {n : Nat} (hcall : A.Served (respond n)) {steps : List Step}
    (h : ∀ s ∈ steps, s.Awaits A.names) : A.Steady (performAll (respond n) steps) := by
  induction steps with
  | nil => exact keeps_pure _
  | cons step rest ih =>
    have hreported : A.Steady (reported (stepAnswer (respond n) step)) := by
      refine (steady_step hcall (h step List.mem_cons_self)).bind fun r => ?_
      split <;> exact keeps_pure _
    exact hreported.bind fun r => (steady_reads (reads_log _)).bind fun _ =>
      ih fun s hs => h s (List.mem_cons_of_mem _ hs)

/-- At every depth, programs and subscriptions pay what is due. -/
theorem served (A : Account) (n : Nat) : A.Served (respond n) := by
  -- by induction on the depth: programs pay if what they call one level below does
  induction n with
  | zero => exact ⟨respond_reads 0, fun _ => keeps_throw trivial, fun _ _ _ => trivial⟩
  | succ n ih => exact ⟨respond_reads (n + 1), steady_performAll ih, ih.runs⟩

end Account

/-- Steps of such scripts keep worlds orderly. -/
theorem World.Orderly.performAll {L : String → Prop} (hw : w.Orderly L) {steps : List Step}
    {n : Nat} (hsteps : ∀ s ∈ steps, s.Awaits L)
    (hrun : (performAll (respond n) steps).run w = .ok ⟨⟩ w') : w'.Orderly L := by
  let A : Account := ⟨L, ⟨0⟩, .absent, w⟩
  exact ((Account.steady_performAll (A.served n) hsteps).ok hrun hw).orderly

/-- A value that comes later. -/
def unresolved : Cell := ⟨.later {}, .opt, .absent, []⟩

/-- Two values that come later, and a boundary. -/
def twoAwaited : World :=
  { ((({} : World).grown unresolved).grown unresolved).bounded (.text "loading" none) with
    names :=
      { observables := [("first", ⟨0⟩), ("second", ⟨1⟩)]
        boundaries := [("both", ⟨0⟩)] } }

/-- The first value is awaited twice. Between its two registrations there is a subscriber that
resolves the second value. -/
def twoAwaitedSteps : List Step :=
  [.pending "both" "first" "a",
    .subscribe "first" "other" [.resolve "second" (.scalar (.str "y")), .boundary "both"] 1,
    .pending "both" "first" "b", .pending "both" "second" "c",
    .finish "both" (.fragment [.named "a", .named "b", .named "c"] none) "page",
    .resolve "first" (.scalar (.str "x"))]

def TwoAwaitedName (name : String) : Prop := name = "first" ∨ name = "second"

theorem orderly_twoAwaited_observables :
    ((({} : World).grown unresolved).grown unresolved).Orderly TwoAwaitedName :=
  (World.orderly_empty.grown rfl rfl).grown rfl rfl

theorem orderly_twoAwaited : twoAwaited.Orderly TwoAwaitedName := by
  have hmade := orderly_twoAwaited_observables.bounded (.text "loading" none)
  refine hmade.withNames (fun {name c} _ hn => ?_) nofun nofun fun {name b} hn => ?_
  · simp only [Entries.get?] at hn
    split at hn
    · cases hn
      rfl
    · split at hn
      · cases hn
        rfl
      · cases hn
  · simp only [Entries.get?] at hn
    split at hn
    · cases hn
      exact Nat.zero_lt_one
    · cases hn

theorem fresh_twoAwaited : twoAwaited.Fresh ⟨0⟩ (.value (.node (.text "loading" none))) := by
  have hfresh := orderly_twoAwaited_observables.fresh_bounded (.text "loading" none)
  exact ⟨hfresh.known, hfresh.state, hfresh.content, hfresh.display, hfresh.unawaited⟩

theorem ends_twoAwaited :
    (ended? (performAll (respond 8) twoAwaitedSteps) twoAwaited).isSome := by
  decide +kernel

theorem awaits_twoAwaitedSteps : ∀ s ∈ twoAwaitedSteps, s.Awaits TwoAwaitedName := by
  have hfirst : TwoAwaitedName "first" := .inl rfl
  have hsecond : TwoAwaitedName "second" := .inr rfl
  simp only [twoAwaitedSteps, List.forall_mem_cons, List.not_mem_nil, false_implies, implies_true,
    and_true]
  refine ⟨.pending hfirst, .subscribe ?_, .pending hfirst, .pending hsecond, .finish,
    .resolve hfirst⟩
  simp only [List.forall_mem_cons, List.not_mem_nil, false_implies, implies_true, and_true]
  exact ⟨.resolve hsecond, .boundary _⟩

end LivePage
