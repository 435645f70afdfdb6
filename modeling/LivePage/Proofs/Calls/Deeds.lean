import LivePage.Proofs.Calls.Sound

/-!
# Recorded deeds

What is known of each deed that is recorded: it is a run of the operation that it is named for
(`Deed.Ran`), and it consists of what this operation does (`Deed.Holds`).
-/

namespace LivePage

open LivePage.Script

variable {α : Type} {N : Naming} {n : Nat} {w w' : World} {c : CellId} {d : Deed}
  {ds inner : List Deed}

/-! ## Deeds are runs -/

/-- From its start to its finish, the deed is a run of the operation that it is named for. -/
def Deed.Ran (d : Deed) : Prop :=
  match d.act with
  | .emit c | .emission c => ∃ n, (emit (respond n) c).run d.start = .ok ⟨⟩ d.finish
  | .tell _ _ r held =>
    ∃ n held', (holding held' (respond n (.react r held))).run d.start = .ok ⟨⟩ d.finish
  | .ask checker current candidate accepts =>
    ∃ n, (checker.accepts (respond n) current candidate).run d.start = .ok accepts d.finish
  | .update c candidate accepted =>
    ∃ n, (updateState (respond n) c candidate).run d.start = .ok accepted d.finish
  | .resolve c v => ∃ n, (resolve (respond n) c v).run d.start = .ok ⟨⟩ d.finish
  | .reject c message => ∃ n, (reject (respond n) c message).run d.start = .ok ⟨⟩ d.finish
  | .callBack c .failure _ =>
    ∃ n message, (runOnFailure (respond n) c message).run d.start = .ok ⟨⟩ d.finish
  | .callBack c .either _ => ∃ n, (runOnEither (respond n) c).run d.start = .ok ⟨⟩ d.finish
  | _ => True

/-- All deeds that are recorded are runs. -/
def Record.Ran (r : Record) : Prop := ∀ w, ∀ d ∈ Deed.allOf (r w), d.Ran

namespace Record.Ran

theorem nothing : Record.nothing.Ran := fun _ => Deed.forall_mem_allOf_nil

theorem after {x : Run α} {next : α → Record} (h : ∀ a, (next a).Ran) : (after x next).Ran := by
  intro w
  unfold Record.after
  split
  · exact h _ _
  · exact Deed.forall_mem_allOf_nil

theorem afterStep {x : Answering α} {next : α → Record} (h : ∀ a, (next a).Ran) :
    (afterStep x next).Ran := by
  refine after fun r => ?_
  cases r with
  | ok a => exact h a
  | error e => exact nothing

theorem pinning {held : List Entity} {inner : Record} (h : inner.Ran) : (pinning held inner).Ran :=
  fun w => h (w.pinned held)

theorem onCell {name : String} {inner : CellId → Record} (h : ∀ c, (inner c).Ran) :
    (onCell name inner).Ran :=
  afterStep fun c => pinning (h c)

theorem deed {act : α → Act} {x : Run α} {inner : Record} {next : α → Record}
    (hx : ∀ {a w w' ds}, x.run w = .ok a w' → Deed.Ran ⟨act a, w, ds, w'⟩) (hi : inner.Ran)
    (hn : ∀ a, (next a).Ran) : (deed act x inner next).Ran := by
  intro w d hd
  unfold Record.deed at hd
  split at hd
  · next a w₁ hrun =>
    simp only [Deed.allOf_cons, Deed.all_mk, List.cons_append, List.mem_cons, List.mem_append] at hd
    obtain rfl | hd | hd := hd
    · exact hx hrun
    · exact hi w d hd
    · exact hn a w₁ d hd
  · cases hd

theorem change {act : Act} {c : CellId} {f : Cell → Cell}
    (h : ∀ {w ds w'}, Deed.Ran ⟨act, w, ds, w'⟩) : (change act c f).Ran :=
  deed (fun _ => h) nothing fun _ => nothing

end Record.Ran

namespace Recorder

section

variable {recorder : Recorder} (hr : ∀ q, (recorder q).Ran)
include hr

theorem ran_turns (n : Nat) (c : CellId) (held : Held) (snapshot : List (Nat × Reaction)) :
    (turns (respond n) recorder c held snapshot).Ran := by
  induction snapshot with
  | nil => exact .nothing
  | cons s rest ih =>
    intro w
    unfold turns
    split
    · refine Record.Ran.deed ?_ (.pinning (hr _)) (fun _ => ih) w
      exact fun h => ⟨n, _, h⟩
    · exact ih w

theorem ran_emission (n : Nat) (c : CellId) : (emission (respond n) recorder c).Ran :=
  fun w => Record.Ran.pinning (ran_turns hr n c _ _) w

theorem ran_assignment (n : Nat) (c : CellId) (held : Held) :
    (assignment (respond n) recorder c held).Ran :=
  .deed (fun _ => trivial) .nothing fun _ =>
    .deed (fun h => ⟨n, h⟩) (ran_emission hr n c) fun _ => .nothing

theorem ran_emit (n : Nat) (c : CellId) : (emit (respond n) recorder c).Ran :=
  .deed (fun h => ⟨n, h⟩) (.deed (fun h => ⟨n, h⟩) (ran_emission hr n c) fun _ => .nothing)
    fun _ => .nothing

omit hr in
theorem ran_asks (n : Nat) (current candidate : Value) {next : Record} (hn : next.Ran)
    (checkers : List Checker) : (asks (respond n) current candidate next checkers).Ran := by
  induction checkers with
  | nil => exact hn
  | cons checker rest ih =>
    refine .deed (fun h => ⟨n, h⟩) .nothing fun accepts => ?_
    split
    · exact ih
    · exact .nothing

theorem ran_update (n : Nat) (c : CellId) (candidate : Held) :
    (update (respond n) recorder c candidate).Ran :=
  .deed (fun h => ⟨n, h⟩)
    (fun w => ran_asks n _ _ (ran_assignment hr n c candidate) (w.cell c).checkers w)
    fun _ => .nothing

theorem ran_program (p : CallbackId) : (program recorder p).Ran := by
  intro w
  unfold program
  split
  · exact hr _ _
  · exact Deed.forall_mem_allOf_nil

theorem ran_outcome {c : CellId} {hook : Hook} {x : Run Unit} {entry : String → Report}
    {next : Record} (hx : ∀ {w w' ds name}, x.run w = .ok ⟨⟩ w' →
      Deed.Ran ⟨.callBack c hook name, w, ds, w'⟩) (hn : next.Ran) :
    (outcome recorder c hook x entry next).Ran := by
  intro w
  unfold outcome
  split
  · exact Record.Ran.deed hx (.after fun _ => ran_program hr _) (fun _ => hn) w
  · exact Record.Ran.after (fun _ => hn) w

theorem ran_either (n : Nat) (c : CellId) : (either (respond n) recorder c).Ran :=
  ran_outcome hr (fun h => ⟨n, h⟩) .nothing

theorem ran_resolve (n : Nat) (c : CellId) (v : Value) :
    (resolve (respond n) recorder c v).Ran := by
  unfold resolve
  refine .deed (fun h => ⟨n, h⟩) (fun w => ?_) fun _ => .nothing
  split
  · exact Deed.forall_mem_allOf_nil
  · have hemission : (Record.deed (fun _ => .emission c) (LivePage.emit (respond n) c)
        (emission (respond n) recorder c) fun _ => either (respond n) recorder c).Ran :=
      .deed (fun h => ⟨n, h⟩) (ran_emission hr n c) fun _ => ran_either hr n c
    refine Record.Ran.deed ?_ .nothing (fun _ => hemission) w
    exact fun _ => trivial

theorem ran_reject (n : Nat) (c : CellId) (message : String) :
    (reject (respond n) recorder c message).Ran := by
  unfold reject
  refine .deed (fun h => ⟨n, h⟩) (fun w => ?_) fun _ => .nothing
  split
  · exact Deed.forall_mem_allOf_nil
  · have hfailure : (outcome recorder c .failure (runOnFailure (respond n) c message)
        (fun name => .object [("catch", .text name), ("message", .text message)])
        (either (respond n) recorder c)).Ran :=
      ran_outcome hr (fun h => ⟨n, message, h⟩) (ran_either hr n c)
    refine Record.Ran.deed ?_ .nothing (fun _ => hfailure) w
    exact fun _ => trivial

theorem ran_poll (n : Nat) (name : String) (t : Task) : (poll (respond n) recorder name t).Ran := by
  unfold poll
  split
  · exact .nothing
  · exact .after fun _ => .pinning (ran_resolve hr n _ _)
  · exact .after fun _ => .pinning (ran_reject hr n _ _)

theorem ran_regeneration (n : Nat) (cells : List CellId) (target : CellId) (g : Generator)
    (sources : World → List Held) :
    (regeneration (respond n) recorder cells target g sources).Ran := by
  intro w
  unfold regeneration
  split
  · exact Record.Ran.pinning
      (fun w => Record.Ran.after (fun held => ran_assignment hr n target held) w) w
  · exact Deed.forall_mem_allOf_nil

theorem ran_reaction (n : Nat) (held : Held) (r : Reaction) :
    (reaction (respond n) recorder held r).Ran := by
  cases r with
  | subscriber name p | watch name p =>
    unfold reaction
    exact fun w => Record.Ran.after (fun _ => ran_program hr p) w
  | derive | combineFirst | combineSecond | combineAll | recompute =>
    exact ran_regeneration hr n _ _ _ _
  | awaited | rebuild | «attribute» | styleProperty => exact .nothing

theorem ran_step (n : Nat) (s : Step) : (step (respond n) recorder s).Ran := by
  unfold step
  split
  · refine .onCell fun c => .afterStep fun held w => ?_
    split
    · exact ran_update hr n c held w
    · exact Deed.forall_mem_allOf_nil
  · exact .onCell fun _ => .afterStep fun _ => .change trivial
  · exact .onCell fun _ => .afterStep fun _ => .change trivial
  · exact .onCell fun c => ran_emit hr n c
  · exact .onCell fun c w => ran_update hr n c _ w
  · exact .onCell fun c w => ran_update hr n c _ w
  · exact .onCell fun _ => .change trivial
  · refine .onCell fun c w => ?_
    split
    · refine Record.Ran.change ?_ w
      intros
      trivial
    · refine Record.Ran.after (fun _ => .deed ?_ .nothing fun _ => .nothing) w
      exact fun _ => trivial
  · exact .onCell fun _ => .afterStep fun _ => .change trivial
  · exact .onCell fun _ => .change trivial
  · exact .onCell fun _ => .after fun _ => .deed (fun _ => trivial) .nothing fun _ => .nothing
  · exact .after fun _ => .change trivial
  · exact .after fun t => ran_poll hr n _ t
  · exact .onCell fun c => .afterStep fun v => ran_resolve hr n c v
  · exact .onCell fun c => ran_reject hr n c _
  · exact .onCell fun _ => .after fun _ => .change trivial
  · exact .onCell fun _ => .after fun _ => .change trivial
  · exact .nothing

theorem ran_perform (n : Nat) (steps : List Step) :
    (perform (respond n) recorder steps).Ran := by
  induction steps with
  | nil => exact .nothing
  | cons s rest ih =>
    intro w d hd
    rw [perform, Deed.allOf_append, List.mem_append] at hd
    obtain hd | hd := hd
    · exact ran_step hr n s w d hd
    · exact Record.Ran.after (fun _ => .after fun _ => ih) w d hd

end

end Recorder

/-- Whatever is recorded at any depth is a run. -/
theorem ran_recorded (n : Nat) (q : Request) : (recorded n q).Ran := by
  induction n generalizing q with
  | zero => exact .nothing
  | succ n ih =>
    cases q with
    | react r held => exact Recorder.ran_reaction ih n held r
    | perform acts => exact Recorder.ran_perform ih n acts
    | _ => exact .nothing

/-! ## What deeds consist of -/

/-- The deed consists of what the operation does that it is named for. -/
def Deed.Holds (d : Deed) : Prop :=
  match d.act with
  | .emit c => ∃ told, d.inner = [⟨.emission c, d.start, told, d.finish⟩]
  | .emission c =>
    Delivers c (d.start.cell c).held (d.start.cell c).registry d.inner d.start ∧
      Leads d.inner d.start d.finish
  | .update c candidate accepted =>
    ∃ asks w₁, Vets (d.start.shown (d.start.cell c).held) (d.start.shown candidate)
        (d.start.cell c).checkers asks accepted d.start w₁ ∧
      if accepted then
        ∃ w₂ told,
          w₂.cells = w₁.cells.modify c.index (fun cell => { cell with held := candidate }) ∧
          d.inner = asks ++ [⟨.assign c candidate, w₁, [], w₂⟩, ⟨.emission c, w₂, told, d.finish⟩]
      else d.inner = asks ∧ d.finish = w₁
  | .resolve c _ | .reject c _ => (d.start.cell c).settlement.settled = true →
    d.inner = [] ∧ d.finish.cells = d.start.cells
  | _ => True

/-- A checker that is asked does nothing else. -/
theorem Vets.allOf {current next : Value} {checkers : List Checker} {asks : List Deed} {b : Bool}
    (h : Vets current next checkers asks b w w') : Deed.allOf asks = asks := by
  induction h with
  | passed => rfl
  | refused => rfl
  | accepted _ _ ih => simp [ih]

theorem Vets.asks {current next : Value} {checkers : List Checker} {asks : List Deed} {b : Bool}
    (h : Vets current next checkers asks b w w') :
    ∀ d ∈ asks, ∃ checker accepts, d.act = .ask checker current next accepts := by
  induction h with
  | passed => exact fun _ h => nomatch h
  | refused => simp
  | accepted _ _ ih => simpa using ih

theorem holds_hookDeeds {hook : Hook} {called : Option (String × CallbackId)}
    (hi : ∀ d ∈ Deed.allOf inner, d.Holds) :
    ∀ d ∈ Deed.allOf (hookDeeds c hook called w inner w'), d.Holds := by
  cases called with
  | none => exact Deed.forall_mem_allOf_nil
  | some called =>
    exact Deed.forall_mem_allOf_cons.2 ⟨trivial, hi, Deed.forall_mem_allOf_nil⟩

/-- In a list of deeds that lead somewhere, every deed consists of what its operation does. -/
theorem Leads.holds (h : Leads ds w w') : ∀ d ∈ Deed.allOf ds, d.Holds := by
  have hcons : ∀ {act start finish inner ds}, Deed.Holds ⟨act, start, inner, finish⟩ →
      (∀ d ∈ Deed.allOf inner, d.Holds) → (∀ d ∈ Deed.allOf ds, d.Holds) →
      ∀ d ∈ Deed.allOf (⟨act, start, inner, finish⟩ :: ds), d.Holds :=
    fun h hi hr => Deed.forall_mem_allOf_cons.2 ⟨h, hi, hr⟩
  have hasks : ∀ {current next checkers asks b w w'}, Vets current next checkers asks b w w' →
      ∀ d ∈ Deed.allOf asks, d.Holds := by
    intro current next checkers asks b w w' hv d hd
    rw [hv.allOf] at hd
    obtain ⟨checker, accepts, ha⟩ := hv.asks d hd
    simp only [Deed.Holds, ha]
  have hnil := Deed.forall_mem_allOf_nil (P := Deed.Holds)
  induction h with
  | still => exact hnil
  | seq _ _ ih ih' => exact Deed.forall_mem_allOf_append.2 ⟨ih, ih'⟩
  | @changed act c f w w' ha =>
    refine hcons ?_ hnil hnil
    cases act <;> trivial
  | emitted hd h ih => exact hcons ⟨_, rfl⟩ (hcons ⟨hd, h⟩ ih hnil) hnil
  | told _ _ ih => exact hcons trivial ih hnil
  | refused hv => exact hcons ⟨_, _, hv, rfl, rfl⟩ (hasks hv) hnil
  | updated hc hv hf hd h ih =>
    refine hcons ⟨_, _, hv, _, _, hf, rfl⟩ (Deed.forall_mem_allOf_append.2 ⟨hasks hv, ?_⟩) hnil
    exact hcons trivial hnil (hcons ⟨hd, h⟩ ih hnil)
  | derived hc hf hd h ih => exact hcons trivial hnil (hcons ⟨hd, h⟩ ih hnil)
  | late ha hs h =>
    obtain ⟨v, rfl⟩ | ⟨message, rfl⟩ := ha
    all_goals exact hcons (fun _ => ⟨rfl, h⟩) hnil hnil
  | resolved hc hs hf hd ht hn hl hu ih ih' =>
    refine hcons (fun hs' => nomatch hs.symm.trans hs') (hcons trivial hnil ?_) hnil
    exact hcons ⟨hd, ht⟩ ih (holds_hookDeeds ih')
  | rejected hc hs hf hm ht hu hn hl hu' ih ih' =>
    refine hcons (fun hs' => nomatch hs.symm.trans hs') (hcons trivial hnil ?_) hnil
    exact Deed.forall_mem_allOf_append.2 ⟨holds_hookDeeds ih, holds_hookDeeds ih'⟩

end LivePage
