import LivePage.Proofs.Calls.Guarding

/-!
# A result comes once

An observable waits for a result and is resolved, rejected and polled, in any number and order, also
by those who are told of the result. The first to settle it does so with all that follows, the
others do nothing (`Story`). A list of deeds that leads from one world to another either leaves the
observable waiting or tells its whole story, and nothing more about one that has settled before
(`Leads.tale`).
-/

namespace LivePage

open LivePage.Script

variable {N : Naming} {n : Nat} {w w' w₁ w₂ : World} {c e : CellId} {ds ds' inner : List Deed}
  {d : Deed} {act : Act} {x y z : Cell} {f : Cell → Cell}

/-! ## Phases -/

namespace Cell

/-- The result has not come. -/
structure Pending (x : Cell) : Prop where
  waits : x.Waits
  settled : x.settlement.settled = false
  ok : x.settlement.ok = false
  held : x.held = .absent

/-- The result has come. -/
structure Resolved (v : Value) (x : Cell) : Prop where
  waits : x.Waits
  settled : x.settlement.settled = true
  ok : x.settlement.ok = true
  held : x.held = .value v

/-- The result will not come. -/
structure Rejected (x : Cell) : Prop where
  waits : x.Waits
  settled : x.settlement.settled = true
  ok : x.settlement.ok = false
  held : x.held = .absent

/-- It is known whether the result comes. -/
structure Settled (x : Cell) : Prop where
  waits : x.Waits
  settled : x.settlement.settled = true

/-- In what matters for its result, the observable is the same. -/
structure Rests (x y : Cell) : Prop where
  waits : x.Waits → y.Waits
  settled : y.settlement.settled = x.settlement.settled
  ok : y.settlement.ok = x.settlement.ok
  held : y.held = x.held

namespace Rests

theorem refl (x : Cell) : x.Rests x := ⟨id, rfl, rfl, rfl⟩

theorem trans (h : x.Rests y) (h' : y.Rests z) : x.Rests z :=
  ⟨h'.waits ∘ h.waits, h'.settled.trans h.settled, h'.ok.trans h.ok, h'.held.trans h.held⟩

theorem pending (h : x.Rests y) (hx : x.Pending) : y.Pending :=
  ⟨h.waits hx.waits, h.settled.trans hx.settled, h.ok.trans hx.ok, h.held.trans hx.held⟩

theorem resolved {v : Value} (h : x.Rests y) (hx : x.Resolved v) : y.Resolved v :=
  ⟨h.waits hx.waits, h.settled.trans hx.settled, h.ok.trans hx.ok, h.held.trans hx.held⟩

theorem rejected (h : x.Rests y) (hx : x.Rejected) : y.Rejected :=
  ⟨h.waits hx.waits, h.settled.trans hx.settled, h.ok.trans hx.ok, h.held.trans hx.held⟩

theorem settles (h : x.Rests y) (hx : x.Settled) : y.Settled :=
  ⟨h.waits hx.waits, h.settled.trans hx.settled⟩

end Rests

end Cell

/-! ## Deeds on the observable -/

/-- Somebody tries to settle the observable. -/
def Act.attempts (c : CellId) : Act → Bool
  | .resolve d _ | .reject d _ => d = c
  | _ => false

/-- Something happens to the observable because it settles, or others hear of it. -/
def Act.affects (c : CellId) : Act → Bool
  | .assign d _ | .emission d | .fulfil d _ | .fail d | .callBack d _ _ => d = c
  | _ => false

/-- Nobody sets or emits the observable. -/
def Act.Unforced (c : CellId) : Act → Prop
  | .set d _ | .emit d => d ≠ c
  | _ => True

instance (c : CellId) : DecidablePred (Act.Unforced c)
  | .set d _ | .emit d => inferInstanceAs (Decidable (d ≠ c))
  | .subscribe .. | .unsubscribe .. | .unsubscribeAll _ | .addChecker .. | .register ..
  | .update .. | .resolve .. | .reject .. | .assign .. | .emission _ | .tell .. | .ask ..
  | .fulfil .. | .fail _ | .callBack .. => .isTrue trivial

/-- The deed has nothing to do with the result of the observable. -/
structure Act.Aside (c : CellId) (act : Act) : Prop where
  attempts : act.attempts c = false
  affects : act.affects c = false

/-- Who tries to settle the observable. -/
def attempts (c : CellId) (ds : List Deed) : List Deed := (Deed.allOf ds).filter (·.act.attempts c)

/-- What happens because the observable settles. -/
def effects (c : CellId) (ds : List Deed) : List Deed := (Deed.allOf ds).filter (·.act.affects c)

@[simp] theorem attempts_nil : attempts c [] = [] := rfl

@[simp] theorem effects_nil : effects c [] = [] := rfl

@[simp] theorem attempts_append : attempts c (ds ++ ds') = attempts c ds ++ attempts c ds' := by
  simp [attempts]

@[simp] theorem effects_append : effects c (ds ++ ds') = effects c ds ++ effects c ds' := by
  simp [effects]

theorem attempts_cons {start finish : World} :
    attempts c (⟨act, start, inner, finish⟩ :: ds) =
      (if act.attempts c then [⟨act, start, inner, finish⟩] else []) ++
        (attempts c inner ++ attempts c ds) := by
  simp only [attempts, Deed.allOf_cons, Deed.all_mk, List.cons_append, List.filter_cons,
    List.filter_append]
  split <;> rfl

theorem effects_cons {start finish : World} :
    effects c (⟨act, start, inner, finish⟩ :: ds) =
      (if act.affects c then [⟨act, start, inner, finish⟩] else []) ++
        (effects c inner ++ effects c ds) := by
  simp only [effects, Deed.allOf_cons, Deed.all_mk, List.cons_append, List.filter_cons,
    List.filter_append]
  split <;> rfl

/-! ## Stories -/

/-- How the deed settles the observable, and as what. Whoever resolves it has it emitted once, and
then calls what is registered for either outcome by then. Whoever rejects it calls what is
registered for failures, and then what is registered for either outcome by then. -/
inductive Deed.Settles (c : CellId) : Deed → (Cell → Prop) → Prop where
  | resolved {v : Value} {told last : List Deed} {w w₁ w₂ w' : World} (hw : (w.cell c).Pending) :
      Settles c ⟨.resolve c v, w, ⟨.fulfil c v, w, [], w₁⟩ :: ⟨.emission c, w₁, told, w₂⟩ ::
        hookDeeds c .either ((w₂.cell c).settlement.hook .either) w₂ last w', w'⟩ (Cell.Resolved v)
  | rejected {message : String} {failed last : List Deed} {w w₁ w₂ w' : World}
      (hw : (w.cell c).Pending) :
      Settles c ⟨.reject c message, w, ⟨.fail c, w, [], w₁⟩ ::
        (hookDeeds c .failure ((w.cell c).settlement.hook .failure) w₁ failed w₂ ++
          hookDeeds c .either ((w₂.cell c).settlement.hook .either) w₂ last w'), w'⟩ Cell.Rejected

/-- What deeds make of an observable that waits for a result. -/
inductive Story (c : CellId) (ds : List Deed) (w' : World) : Prop where
  /-- Nobody tries to settle it, and it goes on waiting. -/
  | waiting (ha : attempts c ds = []) (he : effects c ds = [])
      (hm : ∀ u ∈ Deed.momentsOf ds ++ [w'], (u.cell c).Pending)
  /-- The first to try settles it, with all that follows; the others come too late. -/
  | settled {d : Deed} {P : Cell → Prop} {late : List Deed} {before after : List World}
      (hd : d.Settles c P) (ha : attempts c ds = d :: late)
      (hl : ∀ e ∈ late, (e.start.cell c).Settled) (he : effects c ds = d.inner)
      (hm : Deed.momentsOf ds = before ++ after) (hb : ∀ u ∈ before, (u.cell c).Pending)
      (hs : ∀ u ∈ after ++ [w'], P (u.cell c))

/-- What deeds make of an observable that has settled: nothing. -/
structure Resting (c : CellId) (x : Cell) (ds : List Deed) (w' : World) : Prop where
  late : ∀ e ∈ attempts c ds, (e.start.cell c).Settled
  effects : effects c ds = []
  rests : ∀ u ∈ Deed.momentsOf ds ++ [w'], x.Rests (u.cell c)

/-- What deeds make of an observable, waiting or settled. -/
structure Tale (c : CellId) (ds : List Deed) (w w' : World) : Prop where
  pending : (w.cell c).Pending → Story c ds w'
  settled : (w.cell c).Settled → Resting c (w.cell c) ds w'

theorem Deed.Settles.settled {P : Cell → Prop} (h : d.Settles c P) (hx : P x) : x.Settled := by
  cases h with
  | resolved => exact ⟨hx.waits, hx.settled⟩
  | rejected => exact ⟨hx.waits, hx.settled⟩

theorem Deed.Settles.rests {P : Cell → Prop} (h : d.Settles c P) (hx : P x) (hxy : x.Rests y) :
    P y := by
  cases h with
  | resolved => exact hxy.resolved hx
  | rejected => exact hxy.rejected hx

namespace Resting

theorem append (h : Resting c x ds w₁) (h' : Resting c (w₁.cell c) ds' w') :
    Resting c x (ds ++ ds') w' := by
  have hw₁ := h.rests w₁ (by simp)
  refine ⟨?_, by rw [effects_append, h.effects, h'.effects]; rfl, ?_⟩
  · simpa [or_imp, forall_and] using ⟨h.late, h'.late⟩
  · rw [Deed.momentsOf_append, List.append_assoc]
    refine List.forall_mem_append.2 ⟨fun u hu => h.rests u (by simp [hu]), fun u hu => ?_⟩
    exact hw₁.trans (h'.rests u hu)

theorem enclose (h : Resting c (w.cell c) inner w') (hw : (w.cell c).Settled)
    (ha : act.affects c = false) : Resting c (w.cell c) [⟨act, w, inner, w'⟩] w' := by
  refine ⟨?_, ?_, ?_⟩
  · rw [attempts_cons]
    split
    · simpa using ⟨hw, h.late⟩
    · simpa using h.late
  · rw [effects_cons, if_neg (by simp [ha]), h.effects]
    rfl
  · have hlast := h.rests w' (by simp)
    have hinner : ∀ u ∈ Deed.momentsOf inner, (w.cell c).Rests (u.cell c) := fun u hu =>
      h.rests u (by simp [hu])
    simpa [or_imp, forall_and] using ⟨Cell.Rests.refl _, hinner, hlast⟩

end Resting

namespace Tale

/-- Nothing is done, and nothing changes that matters. -/
theorem quiet (h : (w.cell c).Rests (w'.cell c)) : Tale c [] w w' where
  pending hw := .waiting rfl rfl (by simpa using h.pending hw)
  settled _ := ⟨nofun, rfl, by simpa using h⟩

theorem append (h : Tale c ds w w₁) (h' : Tale c ds' w₁ w') : Tale c (ds ++ ds') w w' where
  settled hw := by
    have hds := h.settled hw
    exact hds.append (h'.settled ((hds.rests w₁ (by simp)).settles hw))
  pending hw := by
    cases h.pending hw with
    | waiting ha he hm =>
      have hds : ∀ u ∈ Deed.momentsOf ds, (u.cell c).Pending := fun u hu => hm u (by simp [hu])
      cases h'.pending (hm w₁ (by simp)) with
      | waiting ha' he' hm' =>
        refine .waiting (by simp [ha, ha']) (by simp [he, he']) ?_
        rw [Deed.momentsOf_append, List.append_assoc]
        exact List.forall_mem_append.2 ⟨hds, hm'⟩
      | @settled d P late before after hd ha' hl he' hm' hb hs =>
        have hmoments : Deed.momentsOf (ds ++ ds') = (Deed.momentsOf ds ++ before) ++ after := by
          simp [hm']
        exact .settled hd (by simp [ha, ha']) hl (by simp [he, he']) hmoments
          (List.forall_mem_append.2 ⟨hds, hb⟩) hs
    | @settled d P late before after hd ha hl he hm hb hs =>
      have hw₁ := hs w₁ (by simp)
      have hrest := h'.settled (hd.settled hw₁)
      have hattempts : attempts c (ds ++ ds') = d :: (late ++ attempts c ds') := by simp [ha]
      have hmoments : Deed.momentsOf (ds ++ ds') = before ++ (after ++ Deed.momentsOf ds') := by
        simp [hm]
      refine .settled hd hattempts ?_ (by simp [he, hrest.effects]) hmoments hb ?_
      · exact List.forall_mem_append.2 ⟨hl, hrest.late⟩
      · rw [List.append_assoc]
        refine List.forall_mem_append.2 ⟨fun u hu => hs u (by simp [hu]), fun u hu => ?_⟩
        exact hd.rests hw₁ (hrest.rests u hu)

/-- A deed that has nothing to do with the result by itself. -/
theorem enclose (h : Tale c inner w w') (ha : act.Aside c) :
    Tale c [⟨act, w, inner, w'⟩] w w' where
  settled hw := (h.settled hw).enclose hw ha.affects
  pending hw := by
    have hattempts : attempts c [⟨act, w, inner, w'⟩] = attempts c inner := by
      simp [attempts_cons, ha.attempts]
    have heffects : effects c [⟨act, w, inner, w'⟩] = effects c inner := by
      simp [effects_cons, ha.affects]
    cases h.pending hw with
    | waiting ha he hm =>
      refine .waiting (hattempts.trans ha) (heffects.trans he) ?_
      have hlast := hm w' (by simp)
      simpa [or_imp, forall_and] using ⟨hw, fun u hu => hm u (by simp [hu]), hlast⟩
    | @settled d P late before after hd ha hl he hm hb hs =>
      have hmoments : Deed.momentsOf [⟨act, w, inner, w'⟩] = (w :: before) ++ (after ++ [w']) := by
        simp [hm]
      refine .settled hd (hattempts.trans ha) hl (heffects.trans he) hmoments
        (List.forall_mem_cons.2 ⟨hw, hb⟩) ?_
      have hlast := hs w' (by simp)
      simpa [or_imp, forall_and] using ⟨fun u hu => hs u (by simp [hu]), hlast⟩

theorem hookDeeds {hook : Hook} {called : Option (String × CallbackId)} (h : Tale c inner w w')
    (hn : called = none → inner = []) (he : e ≠ c) :
    Tale c (hookDeeds e hook called w inner w') w w' := by
  cases called with
  | none =>
    rw [hn rfl] at h
    exact h
  | some called => exact h.enclose ⟨rfl, by simp [Act.affects, he]⟩

end Tale

/-! ## What settles -/

/-- What happens because the observable has settled, deed by deed. -/
structure Aftermath (c : CellId) (x : Cell) (ds : List Deed) (w' : World) : Prop where
  late : ∀ e ∈ attempts c ds, (e.start.cell c).Settled
  effects : effects c ds = ds
  rests : ∀ u ∈ Deed.momentsOf ds ++ [w'], x.Rests (u.cell c)

namespace Aftermath

theorem append (h : Aftermath c x ds w₁) (h' : Aftermath c (w₁.cell c) ds' w') :
    Aftermath c x (ds ++ ds') w' := by
  have hw₁ := h.rests w₁ (by simp)
  refine ⟨?_, by rw [effects_append, h.effects, h'.effects], ?_⟩
  · simpa [or_imp, forall_and] using ⟨h.late, h'.late⟩
  · rw [Deed.momentsOf_append, List.append_assoc]
    refine List.forall_mem_append.2 ⟨fun u hu => h.rests u (by simp [hu]), fun u hu => ?_⟩
    exact hw₁.trans (h'.rests u hu)

theorem single (h : Resting c (w.cell c) inner w') (ha : act.affects c = true)
    (hn : act.attempts c = false) : Aftermath c (w.cell c) [⟨act, w, inner, w'⟩] w' where
  late := by simpa [attempts_cons, hn] using h.late
  effects := by simp [effects_cons, ha, h.effects]
  rests := by
    have hlast := h.rests w' (by simp)
    have hinner : ∀ u ∈ Deed.momentsOf inner, (w.cell c).Rests (u.cell c) := fun u hu =>
      h.rests u (by simp [hu])
    simpa [or_imp, forall_and] using ⟨Cell.Rests.refl _, hinner, hlast⟩

theorem hookDeeds {hook : Hook} {called : Option (String × CallbackId)}
    (h : Resting c (w.cell c) inner w') (hn : called = none → inner = []) :
    Aftermath c (w.cell c) (hookDeeds c hook called w inner w') w' := by
  cases called with
  | none =>
    rw [hn rfl] at h
    exact ⟨nofun, rfl, h.rests⟩
  | some called => exact single h (by simp [Act.affects]) rfl

end Aftermath

/-- The first deed of one that settles the observable is that it settles. -/
theorem Story.of_settles {P : Cell → Prop} {act' : Act} {rest : List Deed}
    (hd : Deed.Settles c ⟨act, w, ⟨act', w, [], w₁⟩ :: rest, w'⟩ P) (ha : act.attempts c = true)
    (ha' : act.affects c = false) (hf : act'.affects c = true) (hf' : act'.attempts c = false)
    (hw : (w.cell c).Pending) (hw₁ : P (w₁.cell c)) (h : Aftermath c (w₁.cell c) rest w') :
    Story c [⟨act, w, ⟨act', w, [], w₁⟩ :: rest, w'⟩] w' := by
  have hattempts : attempts c [⟨act, w, ⟨act', w, [], w₁⟩ :: rest, w'⟩] =
      ⟨act, w, ⟨act', w, [], w₁⟩ :: rest, w'⟩ :: attempts c rest := by
    simp [attempts_cons, ha, hf']
  have hmoments : Deed.momentsOf [⟨act, w, ⟨act', w, [], w₁⟩ :: rest, w'⟩] =
      [w, w] ++ (w₁ :: (Deed.momentsOf rest ++ [w'])) := by simp
  refine .settled hd hattempts h.late ?_ hmoments (by simpa using hw) ?_
  · simp [effects_cons, ha', hf, h.effects]
  · have hrest : ∀ u ∈ Deed.momentsOf rest ++ [w'], P (u.cell c) := fun u hu =>
      hd.rests hw₁ (h.rests u hu)
    have hlast := hrest w' (by simp)
    simpa [or_imp, forall_and] using ⟨hw₁, fun u hu => hrest u (by simp [hu]), hlast⟩

namespace Cell

theorem Pending.fulfil {v : Value} (h : x.Pending) : (x.fulfil v).Resolved v where
  waits := (Cell.still_modifySettlement _ x).trans h.waits
  settled := congrArg Settlement.settled (h.waits.settlement_modifySettlement _)
  ok := congrArg Settlement.ok (h.waits.settlement_modifySettlement _)
  held := rfl

theorem Pending.fail (h : x.Pending) : x.fail.Rejected where
  waits := (Cell.still_modifySettlement _ x).trans h.waits
  settled := congrArg Settlement.settled (h.waits.settlement_modifySettlement _)
  ok := (congrArg Settlement.ok (h.waits.settlement_modifySettlement _)).trans h.ok
  held := (Cell.held_modifySettlement _ x).trans h.held

/-- A change that a program asks for leaves the result alone, unless it sets the observable. -/
theorem rests_changed (ha : act.change? = some (c, f)) (hb : (f x).flavour.bare = x.flavour.bare)
    (hA : act.Unforced c) : x.Rests (f x) := by
  have hwaits : x.Waits → (f x).Waits := fun h =>
    Cell.waits_iff_bare.2 (hb.trans (Cell.waits_iff_bare.1 h))
  cases act with
  | set =>
    cases ha
    exact absurd rfl hA
  | subscribe _ key r =>
    cases ha
    have hsettlement : (x.subscribe key r).settlement = x.settlement := by simp [Cell.settlement]
    exact ⟨hwaits, congrArg _ hsettlement, congrArg _ hsettlement, Cell.held_subscribe ..⟩
  | unsubscribe | unsubscribeAll =>
    cases ha
    exact ⟨hwaits, rfl, rfl, rfl⟩
  | addChecker _ checker =>
    cases ha
    -- only a state takes checkers, and has nothing to settle
    obtain ⟨checkers, hflavour⟩ := Cell.IsState.flavour (x := x) hb.symm
    have hsettlement : (x.addChecker checker).settlement = x.settlement := by
      simp [Cell.settlement, Cell.addChecker, hflavour]
    exact ⟨hwaits, congrArg _ hsettlement, congrArg _ hsettlement, rfl⟩
  | register _ hook called =>
    cases ha
    obtain h | h := Cell.settlement_modifySettlement (·.withHook called hook) x
    · refine ⟨hwaits, ?_, ?_, Cell.held_modifySettlement ..⟩
      all_goals rw [h]
      all_goals cases hook <;> rfl
    · exact ⟨hwaits, congrArg _ h, congrArg _ h, Cell.held_modifySettlement ..⟩
  | _ => cases ha

end Cell

/-! ## Runs -/

theorem Vets.tale {current next : Value} {checkers : List Checker} {b : Bool}
    (h : Vets current next checkers ds b w w') : Tale c ds w w' := by
  have hask : ∀ {n w w' b} {checker : Checker},
      (checker.accepts (respond n) current next).run w = .ok b w' →
        Tale c [⟨.ask checker current next b, w, [], w'⟩] w w' := fun h =>
    Tale.enclose (.quiet (World.cell_congr (quiet_ask h).cells c ▸ .refl _))
      ⟨rfl, rfl⟩
  induction h with
  | passed => exact .quiet (.refl _)
  | refused h => exact hask h
  | accepted h _ ih => exact (hask h).append ih

/-- An observable that neither waits nor has settled has no tale. -/
theorem Tale.of_not_waits (h : ¬ (w.cell c).Waits) : Tale c ds w w' :=
  ⟨fun hw => absurd hw.waits h, fun hw => absurd hw.waits h⟩

/-- Whatever is done but setting and emitting the observable makes a story of it. -/
theorem Leads.tale (h : Leads ds w w') (hA : ∀ d ∈ Deed.allOf ds, d.act.Unforced c) :
    Tale c ds w w' := by
  have hsame : ∀ {w w' : World}, w'.cell c = w.cell c → Tale c [] w w' := fun h =>
    .quiet (h ▸ .refl _)
  have hother : ∀ {w w' : World} {d : CellId} {f : Cell → Cell},
      w'.cells = w.cells.modify d.index f → d ≠ c → Tale c [] w w' := fun h hd =>
    hsame (World.cell_modified_of_ne h hd.symm)
  induction h with
  | still h => exact hsame (World.cell_congr h c)
  | seq _ _ ih ih' =>
    rw [Deed.forall_mem_allOf_append] at hA
    exact (ih hA.1).append (ih' hA.2)
  | @changed act d f w w' ha hb h =>
    have hact : act.Aside c := by
      cases act <;> first | exact ⟨rfl, rfl⟩ | cases ha
    by_cases hd : d = c
    · subst hd
      have hrests := Cell.rests_changed ha hb (hA _ List.mem_cons_self)
      refine Tale.enclose (.quiet ?_) hact
      rw [World.cell_modified h]
      split
      · exact hrests
      · exact .refl _
    · exact (hother h hd).enclose hact
  | @emitted d told w w' hd h ih =>
    simp only [Deed.forall_mem_allOf_cons] at hA
    obtain ⟨hne, ⟨-, hin, -⟩, -⟩ := hA
    have hne : d ≠ c := hne
    exact ((ih hin).enclose ⟨rfl, by simp [Act.affects, hne]⟩).enclose ⟨rfl, rfl⟩
  | told _ _ ih => exact (ih (Deed.forall_mem_allOf_cons.1 hA).2.1).enclose ⟨rfl, rfl⟩
  | refused hv => exact hv.tale.enclose ⟨rfl, rfl⟩
  | @updated d candidate asks told w w₁ w₂ w' hc hv hf hd h ih =>
    by_cases hdc : d = c
    · subst hdc
      refine .of_not_waits fun hw => ?_
      have := (Cell.waits_iff_bare.1 hw).symm.trans hc
      cases this
    · simp only [Deed.forall_mem_allOf_cons, Deed.forall_mem_allOf_append] at hA
      have hassign : Tale c [⟨.assign d candidate, w₁, [], w₂⟩] w₁ w₂ :=
        (hother hf hdc).enclose ⟨rfl, by simp [Act.affects, hdc]⟩
      have hemission : Tale c [⟨.emission d, w₂, told, w'⟩] w₂ w' :=
        (ih hA.2.1.2.2.2.2.1).enclose ⟨rfl, by simp [Act.affects, hdc]⟩
      exact (hv.tale.append (hassign.append hemission)).enclose ⟨rfl, rfl⟩
  | @derived d held told w w₁ w' hc hf hd h ih =>
    by_cases hdc : d = c
    · subst hdc
      refine .of_not_waits fun hw => ?_
      rw [Cell.Waits, hc] at hw
      cases hw
    · simp only [Deed.forall_mem_allOf_cons] at hA
      have hassign : Tale c [⟨.assign d held, w, [], w₁⟩] w w₁ :=
        (hother hf hdc).enclose ⟨rfl, by simp [Act.affects, hdc]⟩
      exact hassign.append ((ih hA.2.2.2.1).enclose ⟨rfl, by simp [Act.affects, hdc]⟩)
  | @late act d w w' ha hs h =>
    have haffects : act.affects c = false := by
      obtain ⟨v, rfl⟩ | ⟨message, rfl⟩ := ha <;> rfl
    have hquiet := hsame (World.cell_congr h c)
    by_cases hd : d = c
    · subst hd
      refine ⟨fun hw => ?_, fun hw => (hquiet.settled hw).enclose hw haffects⟩
      rw [hw.settled] at hs
      cases hs
    · refine hquiet.enclose ⟨?_, haffects⟩
      obtain ⟨v, rfl⟩ | ⟨message, rfl⟩ := ha <;> simp [Act.attempts, hd]
  | @resolved d v told last w w₁ w₂ w' hc hs hf hd ht hn hl hu ih ih' =>
    simp only [Deed.forall_mem_allOf_cons] at hA
    obtain ⟨-, ⟨-, -, -, htold, hcalled⟩, -⟩ := hA
    have htold := ih htold
    have hlast := ih' fun d hd => hcalled d (mem_allOf_hookDeeds hn hd)
    by_cases hdc : d = c
    · subst hdc
      refine ⟨fun hw => ?_, fun hw => ?_⟩
      · have hw₁ : (w₁.cell d).Resolved v := by
          rw [World.cell_modified_self hf (World.lt_of_waits hc)]
          exact hw.fulfil
        have hemission : Aftermath d (w₁.cell d) [⟨.emission d, w₁, told, w₂⟩] w₂ :=
          .single (htold.settled ⟨hw₁.waits, hw₁.settled⟩) (by simp [Act.affects]) rfl
        have hw₂ := (hemission.rests w₂ (by simp)).resolved hw₁
        exact .of_settles (.resolved hw) (by simp [Act.attempts]) rfl (by simp [Act.affects]) rfl hw
          hw₁ (hemission.append (.hookDeeds (hlast.settled ⟨hw₂.waits, hw₂.settled⟩) hn))
      · rw [hw.settled] at hs
        cases hs
    · have hfulfil : Tale c [⟨.fulfil d v, w, [], w₁⟩] w w₁ :=
        (hother hf hdc).enclose ⟨rfl, by simp [Act.affects, hdc]⟩
      have hemission : Tale c [⟨.emission d, w₁, told, w₂⟩] w₁ w₂ :=
        htold.enclose ⟨rfl, by simp [Act.affects, hdc]⟩
      exact (hfulfil.append (hemission.append (hlast.hookDeeds hn hdc))).enclose
        ⟨by simp [Act.attempts, hdc], rfl⟩
  | @rejected d message failed last w w₁ w₂ w' hc hs hf hm ht hu hn hl hu' ih ih' =>
    simp only [Deed.forall_mem_allOf_cons, Deed.forall_mem_allOf_append] at hA
    obtain ⟨-, ⟨-, -, hfailed, hcalled⟩, -⟩ := hA
    have hfailed := ih fun d hd => hfailed d (mem_allOf_hookDeeds hm hd)
    have hlast := ih' fun d hd => hcalled d (mem_allOf_hookDeeds hn hd)
    by_cases hdc : d = c
    · subst hdc
      refine ⟨fun hw => ?_, fun hw => ?_⟩
      · have hcell := World.cell_modified_self hf (World.lt_of_waits hc)
        have hw₁ : (w₁.cell d).Rejected := hcell ▸ hw.fail
        have hhook :
            (w₁.cell d).settlement.hook .failure = (w.cell d).settlement.hook .failure := by
          rw [hcell]
          exact congrArg (·.hook .failure) (hc.settlement_modifySettlement _)
        rw [hhook] at hm ⊢
        have hfailure : Aftermath d (w₁.cell d)
            (hookDeeds d .failure ((w.cell d).settlement.hook .failure) w₁ failed w₂) w₂ :=
          .hookDeeds (hfailed.settled ⟨hw₁.waits, hw₁.settled⟩) hm
        have hw₂ := (hfailure.rests w₂ (by simp)).rejected hw₁
        exact .of_settles (.rejected hw) (by simp [Act.attempts]) rfl (by simp [Act.affects]) rfl hw
          hw₁ (hfailure.append (.hookDeeds (hlast.settled ⟨hw₂.waits, hw₂.settled⟩) hn))
      · rw [hw.settled] at hs
        cases hs
    · have hfail : Tale c [⟨.fail d, w, [], w₁⟩] w w₁ :=
        (hother hf hdc).enclose ⟨rfl, by simp [Act.affects, hdc]⟩
      exact (hfail.append ((hfailed.hookDeeds hm hdc).append (hlast.hookDeeds hn hdc))).enclose
        ⟨by simp [Act.attempts, hdc], rfl⟩

/-- Nobody tries to settle the observable but by these two operations. -/
theorem Act.attempts_eq_true (h : act.attempts c = true) :
    (∃ v, act = .resolve c v) ∨ ∃ message, act = .reject c message := by
  cases act with
  | resolve d v =>
    have hd : d = c := of_decide_eq_true h
    exact .inl ⟨v, by rw [hd]⟩
  | reject d message =>
    have hd : d = c := of_decide_eq_true h
    exact .inr ⟨message, by rw [hd]⟩
  | _ => cases h

theorem Deed.Holds.late (h : d.Holds) (ha : d.act.attempts c = true)
    (hs : (d.start.cell c).Settled) : d.inner = [] ∧ d.finish.cells = d.start.cells := by
  obtain ⟨v, hact⟩ | ⟨message, hact⟩ := Act.attempts_eq_true ha
  all_goals
    rw [Deed.Holds, hact] at h
    exact h hs.settled

namespace Cell

theorem Pending.ok_iff (h : x.Pending) : x.settlement.ok = true ↔ x.held ≠ .absent := by
  simp [h.ok, h.held]

theorem Resolved.ok_iff {v : Value} (h : x.Resolved v) :
    x.settlement.ok = true ↔ x.held ≠ .absent := by
  simp [h.ok, h.held]

theorem Rejected.ok_iff (h : x.Rejected) : x.settlement.ok = true ↔ x.held ≠ .absent := by
  simp [h.ok, h.held]

end Cell

theorem Deed.Settles.ok_iff {P : Cell → Prop} (h : d.Settles c P) (hx : P x) :
    x.settlement.ok = true ↔ x.held ≠ .absent := by
  cases h with
  | resolved => exact hx.ok_iff
  | rejected => exact hx.ok_iff

theorem Story.ok_iff (h : Story c ds w') : ∀ u ∈ Deed.momentsOf ds ++ [w'],
    (u.cell c).settlement.ok = true ↔ (u.cell c).held ≠ .absent := by
  cases h with
  | waiting ha he hm => exact fun u hu => (hm u hu).ok_iff
  | settled hd ha hl he hm hb hs =>
    rw [hm, List.append_assoc]
    exact List.forall_mem_append.2 ⟨fun u hu => (hb u hu).ok_iff, fun u hu => hd.ok_iff (hs u hu)⟩

/-- Up to `w'` the result of `c` comes at most once. -/
structure SettlesOnce (c : CellId) (ds : List Deed) (w' : World) : Prop where
  story : Story c ds w'
  /-- Who tries to settle it after the first changes and tells nothing. -/
  late : ∀ d ∈ attempts c ds, (d.start.cell c).Settled →
    d.inner = [] ∧ d.finish.cells = d.start.cells
  /-- Who is told of an emission is told of the result. -/
  told : ∀ d ∈ Deed.allOf ds, d.act = .emission c →
    Delivers c (d.start.cell c).held (d.start.cell c).registry d.inner d.start
  /-- At each moment a result is held exactly if it is said to have come. -/
  ok : ∀ u ∈ Deed.momentsOf ds ++ [w'],
    (u.cell c).settlement.ok = true ↔ (u.cell c).held ≠ .absent

/-- A result that is waited for comes at most once, in whatever order, number and nesting it is
settled, unless the observable is set or emitted past it. The deeds are the runs of the operations
that were carried out. -/
theorem World.Traced.result_once (hw : w.Traced N) {steps : List Step}
    (hsteps : ∀ s ∈ steps, s.Traced N) (hrun : (performAll (respond n) steps).run w = .ok ⟨⟩ w')
    (hc : (w.cell c).Pending)
    (hunforced : ∀ d ∈ Deed.allOf (Recorder.perform (respond n) (recorded n) steps w),
      d.act.Unforced c) :
    (∀ d ∈ Deed.allOf (Recorder.perform (respond n) (recorded n) steps w), d.Ran) ∧
      SettlesOnce c (Recorder.perform (respond n) (recorded n) steps w) w' := by
  obtain ⟨-, hleads, -⟩ := recordsAt_perform (faithful N n) hw hsteps _ _ hrun
  have hstory := (hleads.tale hunforced).pending hc
  refine ⟨fun d hd => Recorder.ran_perform (ran_recorded n) n steps w d hd, hstory, ?_, ?_,
    hstory.ok_iff⟩
  · intro d hd hs
    obtain ⟨hd, ha⟩ := List.mem_filter.1 hd
    exact (hleads.holds d hd).late ha hs
  · intro d hd ha
    have hholds := hleads.holds d hd
    rw [Deed.Holds, ha] at hholds
    exact hholds.1

/-! ### Those who are told settle it again -/

/-- A result that is called `l`, with a task that is done when it is driven next. -/
def oneResult : World :=
  let w := (({} : World).grown ⟨.later {}, .any, .absent, []⟩).calling "l" ⟨0⟩
  { w with names := { w.names with tasks := [("t", ⟨⟨0⟩, 0, .ok (.str "third")⟩)] } }

/-- Whoever is told of the result, and what is called in the end, tries to settle it once more. -/
def settledInside : List Step :=
  [.subscribe "l" "told" [.resolve "l" (.scalar (.str "second")), .poll "t"] 1,
    .onCatch "l" "failed" [] 1, .onFinally "l" "ended" [.reject "l" "too late"] 1,
    .resolve "l" (.scalar (.str "first"))]

/-- Only the result is called like one. -/
def resultNamed : Naming := ⟨fun _ => False, (· = "l")⟩

theorem traced_oneResult : oneResult.Traced resultNamed := by
  have hnamed : ((({} : World).grown ⟨.later {}, .any, .absent, []⟩).calling "l" ⟨0⟩).Traced
      resultNamed := (World.traced_empty.grown rfl).calling False.elim fun _ => rfl
  refine hnamed.withNames rfl hnamed.subscribers fun {name t} h => ?_
  obtain ⟨-, rfl⟩ : "t" = name ∧ _ = t := by simpa [Entries.get?] using h
  rfl

theorem traced_settledInside : ∀ s ∈ settledInside, s.Traced resultNamed := by
  have hl : resultNamed.later "l" := rfl
  simp only [settledInside, List.forall_mem_cons, List.not_mem_nil, false_implies, implies_true,
    and_true]
  refine ⟨.subscribe ?_, .onCatch hl nofun, .onFinally hl ?_, .resolve hl⟩
  · simp only [List.forall_mem_cons, List.not_mem_nil, false_implies, implies_true, and_true]
    exact ⟨.resolve hl, .poll⟩
  · simp only [List.forall_mem_cons, List.not_mem_nil, false_implies, implies_true, and_true]
    exact .reject hl

theorem ends_settledInside :
    (ended? (performAll (respond 8) settledInside) oneResult).isSome := by
  decide +kernel

/-- Of four that try, the first settles it and the others do nothing. -/
theorem settledInside_once :
    ∃ w', (performAll (respond 8) settledInside).run oneResult = .ok ⟨⟩ w' ∧
      (∀ d ∈ Deed.allOf (Recorder.perform (respond 8) (recorded 8) settledInside oneResult),
        d.Ran) ∧
      SettlesOnce ⟨0⟩ (Recorder.perform (respond 8) (recorded 8) settledInside oneResult) w' ∧
      (attempts ⟨0⟩ (Recorder.perform (respond 8) (recorded 8) settledInside oneResult)).map
        (·.inner.length) = [3, 0, 0, 0] := by
  have hrun := run_of_ended ends_settledInside
  obtain ⟨hran, honce⟩ := traced_oneResult.result_once (c := ⟨0⟩) traced_settledInside hrun
    ⟨rfl, rfl, rfl, rfl⟩ (by decide +kernel)
  exact ⟨_, hrun, hran, honce, by decide +kernel⟩

end LivePage
