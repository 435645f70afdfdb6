import LivePage.Proofs.Rebuild.Abiding

/-!
# Programs that run while places are being rebuilt

The steps of programs that keep to `Script.Step.Emits`, and with them everything that is asked for:
at every depth it changes no more than may happen meanwhile (`respond_abides`).
-/

namespace LivePage

open LivePage.Script

variable {α : Type} {B C : List SiteId} {call : Respond}

/-! ## Steps of programs -/

theorem abides_withCell {name : String} {act : CellId → Answering Report}
    (h : ∀ c, Abides B C (act c).run) : Abides B C (withCell name act).run :=
  (reads_lookup name).abides.lift.ebind fun c => by
    rw [ExceptT.run_mk]
    exact (h c).holding

theorem abides_silently {act : Run Unit} (h : Abides B C act) :
    Abides B C (silently act).run := h.lift.ebind fun _ => keeps_epure _

theorem abides_count (c : CellId) :
    Abides B C (do return .count (← subscriberCount c) : Answering Report).run :=
  Keeps.ebind (Keeps.lift (keeps_get.bind fun _ => keeps_pure _)) fun _ => keeps_epure _

theorem abides_subscriberKey (handler : String) : Abides B C (subscriberKey handler).run :=
  (reads_lookup handler).abides.lift.ebind fun _ => keeps_epure _

theorem run_eget_bind {w : World} {f : World → Answering α} :
    ((liftM (get : Run World) : Answering World) >>= f).run.run w = (f w).run.run w := rfl

theorem abides_stepSubscribe {acts : List Step} (h : ∀ a ∈ acts, a.Emits) (handler : String)
    (times : Nat) (c : CellId) : Abides B C (stepSubscribe handler acts times c).run := by
  refine abides_of_ok fun {w _ _} hw hrun => ?_
  replace hrun := run_eget_bind.symm.trans hrun
  split at hrun
  · next key r hget =>
    have hr : ∀ t, r ≠ .rebuild t := fun t => hw.subscribers (Entries.mem_of_get? hget)
    exact ((abides_subscribeAs c key hr).lift.ebind fun _ => abides_count c).ok hrun hw
  · refine ((abides_newCallback h times).lift.ebind fun program => ?_).ok hrun hw
    refine (abides_subscribe c (r := .subscriber handler program) nofun).lift.ebind fun key => ?_
    refine Keeps.ebind (abides_modifyNames (f := fun n => { n with
      subscribers := Entries.set handler (key, .subscriber handler program) n.subscribers })
      (fun x e he => ?_) fun _ _ he => he).lift fun _ => abides_count c
    rcases Entries.of_mem_set he with he | rfl
    · exact .inl he
    · exact .inr nofun

theorem abides_stepWatch {acts : List Step} (h : ∀ a ∈ acts, a.Emits) (as : String) (times : Nat)
    (c : CellId) : Abides B C (stepWatch as acts times c).run :=
  (abides_newCallback h times).lift.ebind fun program =>
    (abides_subscribe c (r := .watch as program) nofun).lift.ebind fun _ =>
      abides_silently (abides_modifyNames (fun _ _ he => .inl he) fun _ _ he => he)

theorem abides_stepOnFailure {acts : List Step} (h : ∀ a ∈ acts, a.Emits) (handler : String)
    (times : Nat) (c : CellId) : Abides B C (stepOnFailure handler acts times c).run :=
  (abides_newCallback h times).lift.ebind fun _ => abides_silently (abides_modifySettlement ..)

theorem abides_stepOnEither {acts : List Step} (h : ∀ a ∈ acts, a.Emits) (handler : String)
    (times : Nat) (c : CellId) : Abides B C (stepOnEither handler acts times c).run :=
  (abides_newCallback h times).lift.ebind fun _ => abides_silently (abides_modifySettlement ..)

theorem abides_stepUnsubscribe (handler : String) (c : CellId) :
    Abides B C (stepUnsubscribe handler c).run :=
  (abides_subscriberKey handler).ebind fun key => (abides_unsubscribe c key).lift.ebind fun _ =>
    abides_count c

theorem abides_stepCancel (watch : String) : Abides B C (stepCancel watch).run :=
  (reads_lookup watch).abides.lift.ebind fun (c, key) => (abides_unsubscribe c key).lift.ebind
    fun _ => abides_silently (abides_modifyNames (fun _ _ he => .inl he) fun _ _ he => he)

section

variable (hc : call.Abides)
include hc

theorem abides_stepValue (e : Expr) : Abides B C (stepValue call e).run :=
  (reads_answering (reads_evalExpr hc.reads [] e)).abides

theorem abides_stepChange (c : CellId) (change : Change) :
    Abides B C (stepChange call c change).run := by
  have heval : ∀ current, Reads (change.eval call current).run := fun current => by
    cases change with
    | value e => exact reads_evalExpr hc.reads _ e
    | compute e => exact (reads_calledExpr hc.reads _ e).lift
  exact keeps_get.lift.ebind fun _ => (reads_answering (heval _)).abides.ebind fun _ =>
    keeps_get.lift.ebind fun _ => keeps_epure _

theorem abides_stepSet (change : Change) (c : CellId) :
    Abides B C (stepSet call change c).run :=
  (abides_stepChange hc c change).ebind fun _ => abides_silently (abides_hold c _)

theorem abides_stepUpdate (change : Change) (c : CellId) :
    Abides B C (stepUpdate call change c).run := by
  refine (abides_stepChange hc c change).ebind fun held => keeps_get.lift.ebind fun w => ?_
  split
  · exact (abides_updateState hc c held).lift.ebind fun _ => keeps_epure _
  · exact abides_silently (abides_updateStore hc c held)
  · exact abides_silently (abides_updateField hc c _ _ held)
  · exact (reads_unknown _).abides.lift

theorem abides_stepFlip (c : CellId) : Abides B C (stepFlip call c).run :=
  keeps_get.lift.ebind fun _ => (abides_updateState hc c _).lift.ebind fun _ => keeps_epure _

theorem abides_stepPush (slice : String) (c : CellId) :
    Abides B C (stepPush call slice c).run :=
  keeps_get.lift.ebind fun _ => (abides_updateState hc c _).lift.ebind fun _ => keeps_epure _

theorem abides_stepPoll (task : String) : Abides B C (stepPoll call task).run := by
  refine (reads_lookup task).abides.lift.ebind fun t => Keeps.ebind (Keeps.lift ?_) fun _ =>
    keeps_epure _
  have htasks : ∀ f, Abides B C (modifyTasks f) := fun f =>
    abides_modifyNames (f := fun n => { n with tasks := f n.tasks }) (fun _ _ he => .inl he)
      fun _ _ he => he
  unfold Task.poll
  split
  · exact (htasks _).bind fun _ => keeps_pure _
  · refine (htasks _).bind fun _ => Keeps.bind (Abides.holding ?_) fun _ => keeps_pure _
    split
    · exact abides_resolve hc _ _
    · exact abides_reject hc _ _

omit hc in
theorem abides_stepAttached (c : CellId) : Abides B C (stepAttached c).run :=
  keeps_get.lift.ebind fun _ => keeps_epure _

theorem abides_stepAttach (node : NodePath) (c : CellId) :
    Abides B C (stepAttach call node c).run :=
  (reads_lookupPageNode node).abides.lift.ebind fun n => (abides_attach hc c n).lift.ebind fun _ =>
    abides_stepAttached c

theorem abides_stepKillRef (c : CellId) : Abides B C (stepKillRef call c).run :=
  (abides_killRef hc c).lift.ebind fun _ => abides_stepAttached c

theorem abides_stepKill (name : String) : Abides B C (stepKill call name).run := by
  refine (reads_lookup name).abides.lift.ebind fun m => Keeps.ebind (Keeps.lift ?_) fun _ =>
    abides_silently (hc.kill m).holding
  exact abides_modifyNames (fun _ _ he => .inl he) fun _ _ he => (List.mem_filter.1 he).1

end

/-- A step of a program that is called back. -/
theorem abides_step {d : Nat} (hc : (respond d).Abides) {step : Step} (h : step.Emits) :
    Abides B C (stepAnswer (respond d) step).run := by
  cases h with
  | reads h => exact (h d).abides
  | update c change => exact abides_withCell (abides_stepUpdate hc change)
  | set c change => exact abides_withCell (abides_stepSet hc change)
  | setValue c value => exact abides_withCell (abides_stepSet hc _)
  | emit c => exact abides_withCell fun c => abides_silently (abides_emit hc c)
  | flip c => exact abides_withCell (abides_stepFlip hc)
  | push c slice => exact abides_withCell (abides_stepPush hc slice)
  | subscribe c handler times h => exact abides_withCell (abides_stepSubscribe h handler times)
  | watch c as times h => exact abides_withCell (abides_stepWatch h as times)
  | onCatch c handler times h => exact abides_withCell (abides_stepOnFailure h handler times)
  | onFinally c handler times h => exact abides_withCell (abides_stepOnEither h handler times)
  | unsubscribe c handler => exact abides_withCell (abides_stepUnsubscribe handler)
  | unsubscribeAll c => exact abides_withCell fun c => abides_silently (abides_unsubscribeAll c)
  | cancel watch => exact abides_stepCancel watch
  | resolve c value =>
    exact abides_withCell fun c => (abides_stepValue hc value).ebind fun v =>
      abides_silently (abides_resolve hc c v)
  | reject c message => exact abides_withCell fun c => abides_silently (abides_reject hc c message)
  | poll task => exact abides_stepPoll hc task
  | attach c node => exact abides_withCell (abides_stepAttach hc node)
  | killRef c => exact abides_withCell (abides_stepKillRef hc)
  | kill name => exact abides_stepKill hc name

theorem abides_performAll {d : Nat} (hc : (respond d).Abides) {acts : List Step}
    (h : ∀ a ∈ acts, a.Emits) : Abides B C (performAll (respond d) acts) := by
  induction acts with
  | nil => exact keeps_pure _
  | cons step rest ih =>
    have hreport : Abides B C (reported (stepAnswer (respond d) step)) := by
      refine (abides_step hc (h step List.mem_cons_self)).bind fun r => ?_
      split
      · exact keeps_pure _
      · exact keeps_pure _
    exact hreport.bind fun _ => (reads_log _).abides.bind fun _ =>
      ih fun a ha => h a (List.mem_cons_of_mem _ ha)

/-! ## At every depth -/

theorem respond_abides (d : Nat) : (respond d).Abides := by
  induction d with
  | zero =>
    exact {
      reads := respond_reads 0
      perform := fun _ => keeps_throw trivial
      kill := fun _ => keeps_throw trivial
      react := fun _ _ h => absurd h not_ok_throw
      rebuild := fun _ h => absurd h not_ok_throw
      realize := fun _ => ⟨fun h => absurd h not_ok_throw⟩ }
  | succ d ih =>
    exact {
      reads := respond_reads _
      perform := abides_performAll ih
      kill := abides_kill ih
      react := abides_react ih
      rebuild := abides_rebuild ih
      realize := completes_node ih _ _ }

end LivePage
