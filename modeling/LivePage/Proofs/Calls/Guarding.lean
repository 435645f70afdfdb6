import LivePage.Proofs.Calls.Deeds

/-!
# Checkers guard every transition

A state changes by updates that all its checkers accept, also where updates are made inside the
emissions of others and checkers are added meanwhile (`Leads.advances`), unless somebody sets it
past them. An update that is accepted emits the state once, and one that is refused does nothing but
to ask checkers up to the first that refuses (`Deed.Holds.answers`). So what a checker demands of
all candidates stays true of the state once it is (`Path.keeps`).
-/

namespace LivePage

open LivePage.Script

variable {N : Naming} {n : Nat} {w w' u : World} {c : CellId} {ds : List Deed} {d : Deed}
  {checker : Checker} {checkers : List Checker} {current next : Value} {b : Bool} {x y : Cell}

/-! ## Single transitions -/

/-- The checker has been asked, while the observable was `x`, whether it may come to hold `held`,
and has accepted it. -/
def Script.Checker.Allows (c : CellId) (checker : Checker) (x : Cell) (held : Held) : Prop :=
  ∃ n v v', v.cell c = x ∧
    (checker.accepts (respond n) (v.shown x.held) (v.shown held)).run v = .ok true v'

/-- What is held changes only to what all checkers have accepted, and no checker is removed. -/
structure Cell.Advances (c : CellId) (x y : Cell) : Prop where
  accepted : y.held = x.held ∨ ∀ checker ∈ x.checkers, checker.Allows c x y.held
  checkers : x.checkers <+: y.checkers

theorem Cell.Advances.of_eq (hh : y.held = x.held) (hf : y.flavour = x.flavour) : x.Advances c y :=
  ⟨.inl hh, by rw [Cell.checkers, Cell.checkers, hf]⟩

theorem Cell.held_subscribe (x : Cell) (key : Nat) (r : Reaction) :
    (x.subscribe key r).held = x.held := by
  unfold Cell.subscribe
  split <;> rfl

theorem Quiet.shown (h : Quiet w w') (held : Held) : w'.shown held = w.shown held := by
  cases held with
  | element n => rw [World.shown, World.shown, h.page]
  | _ => rfl

/-- If all accept, each has been asked and has accepted, in a world that differs in nothing that
matters. -/
theorem Vets.accepted_all (h : Vets current next checkers ds b w w') (hb : b = true) :
    ∀ checker ∈ checkers, ∃ n v v', Quiet w v ∧
      (checker.accepts (respond n) current next).run v = .ok true v' := by
  induction h with
  | passed => exact fun _ h => nomatch h
  | refused => cases hb
  | accepted h _ ih =>
    refine List.forall_mem_cons.2 ⟨⟨_, _, _, Quiet.refl _, h⟩, fun checker hc => ?_⟩
    obtain ⟨n, v, v', hq, hv⟩ := ih hb checker hc
    exact ⟨n, v, v', (quiet_ask h).trans hq, hv⟩

/-- The observable is not set past its checkers. -/
def Act.Checked (c : CellId) : Act → Prop
  | .set d _ => d ≠ c
  | _ => True

instance (c : CellId) : DecidablePred (Act.Checked c)
  | .set d _ => inferInstanceAs (Decidable (d ≠ c))
  | .subscribe .. | .unsubscribe .. | .unsubscribeAll _ | .addChecker .. | .register .. | .emit _
  | .update .. | .resolve .. | .reject .. | .assign .. | .emission _ | .tell .. | .ask ..
  | .fulfil .. | .fail _ | .callBack .. => .isTrue trivial

/-- A state advances, and stays a state. -/
theorem moves_state (c : CellId) :
    Moves (Act.Checked c) c fun x y => x.IsState → y.IsState ∧ x.Advances c y where
  refl _ hx := ⟨hx, .of_eq rfl rfl⟩
  changed {act f x} hA ha hb hx := by
    refine ⟨hb.trans hx, ?_⟩
    obtain ⟨checkers, hflavour⟩ := hx.flavour
    cases act with
    | set _ held =>
      cases ha
      exact absurd rfl hA
    | addChecker _ checker =>
      cases ha
      refine ⟨.inl rfl, ?_⟩
      exact List.prefix_append _ _
    | register =>
      cases ha
      exact .of_eq (by simp) (by simp [Cell.modifySettlement, hflavour])
    | subscribe =>
      cases ha
      exact .of_eq (Cell.held_subscribe ..) (Cell.flavour_subscribe ..)
    | unsubscribe | unsubscribeAll =>
      cases ha
      exact .of_eq rfl rfl
    | _ => cases ha
  updated {candidate asks w w₁} _ hc hv _ := by
    refine ⟨hc, .inr fun checker hchecker => ?_, List.prefix_refl _⟩
    obtain ⟨n, v, v', hq, hrun⟩ := hv.accepted_all rfl checker hchecker
    refine ⟨n, v, v', hq.cell c, ?_⟩
    rwa [hq.shown, hq.shown]
  derived {x} hd _ hx := by
    rw [Cell.IsState, hd] at hx
    cases hx
  fulfilled _ hw _ hx := by
    have := (Cell.waits_iff_bare.1 hw).symm.trans hx
    cases this
  failed _ hw _ hx := by
    have := (Cell.waits_iff_bare.1 hw).symm.trans hx
    cases this

/-! ## Runs -/

namespace Path

variable {R S : Cell → Cell → Prop} {P : Cell → Prop} {us : List World}

/-- What holds at the start and is handed on from each moment to the next. -/
theorem along (h : Path c (fun x y => P x → P y ∧ R x y) w us w') (hw : P (w.cell c)) :
    Path c R w us w' := by
  induction h with
  | done h => exact .done h
  | next h _ ih => exact .next (h hw).2 (ih (h hw).1)

/-- What holds at the start and is kept from each moment to the next holds at every moment. -/
theorem always (h : Path c R w us w') (hR : ∀ x y, R x y → P x → P y) (hw : P (w.cell c)) :
    ∀ u ∈ us ++ [w'], P (u.cell c) := by
  induction h with
  | done h => simpa [h] using hw
  | next h _ ih =>
    have hu := hR _ _ h hw
    exact List.forall_mem_cons.2 ⟨hu, ih hu⟩

end Path

/-- A state that nobody sets past its checkers advances from each moment to the next. -/
theorem Leads.advances (h : Leads ds w w') (hc : (w.cell c).IsState)
    (hA : ∀ d ∈ Deed.allOf ds, d.act.Checked c) :
    Path c (Cell.Advances c) w (Deed.momentsOf ds) w' :=
  ((moves_state c).path h hA).along hc

/-- What one checker demands of all candidates stays true once it is. -/
theorem Path.keeps {P : Held → Prop} {us : List World}
    (h : Path c (Cell.Advances c) w us w') (hchecker : checker ∈ (w.cell c).checkers)
    (hdemands : ∀ x held, checker.Allows c x held → P held) (hw : P (w.cell c).held) :
    ∀ u ∈ us ++ [w'], P (u.cell c).held := by
  have hkept := h.always (P := fun x => checker ∈ x.checkers ∧ P x.held) (fun x y hxy hx => ?_)
    ⟨hchecker, hw⟩
  · exact fun u hu => (hkept u hu).2
  · refine ⟨hxy.checkers.subset hx.1, ?_⟩
    obtain he | hall := hxy.accepted
    · rw [he]
      exact hx.2
    · exact hdemands x _ (hall checker hx.1)

/-! ## Answers -/

/-- How an update answers. One whose candidate all checkers accept asks them all, assigns the
candidate and emits it once. One that is refused asks them up to the first that refuses, and changes
and tells nothing. -/
inductive Deed.Answers (c : CellId) (candidate : Held) : Bool → Deed → Prop where
  | accepted {d : Deed}
      (hi : d.inner.map Deed.act = (d.start.cell c).checkers.map (fun checker =>
        .ask checker (d.start.shown (d.start.cell c).held) (d.start.shown candidate) true) ++
          [.assign c candidate, .emission c]) :
      Answers c candidate true d
  | refused {d : Deed} {passed rest : List Checker} {checker : Checker}
      (hc : (d.start.cell c).checkers = passed ++ checker :: rest)
      (hi : d.inner.map Deed.act = passed.map (fun checker =>
        .ask checker (d.start.shown (d.start.cell c).held) (d.start.shown candidate) true) ++
          [.ask checker (d.start.shown (d.start.cell c).held) (d.start.shown candidate) false])
      (hn : Deed.allOf d.inner = d.inner) (hs : d.finish.cells = d.start.cells) :
      Answers c candidate false d

theorem Vets.acts (h : Vets current next checkers ds b w w') :
    (b = true ∧ ds.map Deed.act = checkers.map fun checker => .ask checker current next true) ∨
      b = false ∧ ∃ passed checker rest, checkers = passed ++ checker :: rest ∧
        ds.map Deed.act = passed.map (fun checker => .ask checker current next true) ++
          [.ask checker current next false] := by
  induction h with
  | passed => exact .inl ⟨rfl, rfl⟩
  | @refused _ _ checker rest => exact .inr ⟨rfl, [], checker, rest, rfl, rfl⟩
  | @accepted _ _ _ checker _ _ _ _ _ _ ih =>
    obtain ⟨hb, hacts⟩ | ⟨hb, passed, refusing, rest, hcheckers, hacts⟩ := ih
    · exact .inl ⟨hb, congrArg (List.cons _) hacts⟩
    · exact .inr ⟨hb, checker :: passed, refusing, rest, congrArg (List.cons _) hcheckers,
        congrArg (List.cons _) hacts⟩

theorem Deed.Holds.answers {candidate : Held} {accepted : Bool} (h : d.Holds)
    (ha : d.act = .update c candidate accepted) : d.Answers c candidate accepted := by
  rw [Deed.Holds, ha] at h
  obtain ⟨asks, w₁, hv, h⟩ := h
  obtain ⟨rfl, hacts⟩ | ⟨rfl, passed, checker, rest, hcheckers, hacts⟩ := hv.acts
  · obtain ⟨w₂, told, -, hi⟩ := h
    refine .accepted ?_
    rw [hi, List.map_append, hacts]
    rfl
  · obtain ⟨hi, hf⟩ := h
    exact .refused hcheckers (hi ▸ hacts) (hi ▸ hv.allOf) (hf ▸ hv.cells)

/-- From `w` to `w'` the checkers of `c` guard every transition. -/
structure Guarded (c : CellId) (w : World) (ds : List Deed) (w' : World) : Prop where
  advances : Path c (Cell.Advances c) w (Deed.momentsOf ds) w'
  /-- What an update returns says whether its candidate was accepted. -/
  answers : ∀ d ∈ Deed.allOf ds, ∀ candidate accepted, d.act = .update c candidate accepted →
    (∃ n, (updateState (respond n) c candidate).run d.start = .ok accepted d.finish) ∧
      d.Answers c candidate accepted
  /-- What a checker demands of all candidates stays true once it is. -/
  keeps {P : Held → Prop} {checker : Checker} : checker ∈ (w.cell c).checkers →
    (∀ x held, checker.Allows c x held → P held) → P (w.cell c).held →
    ∀ u ∈ Deed.momentsOf ds ++ [w'], P (u.cell c).held

/-- A number below ten. -/
def belowTen : Checker := ⟨.less (.var "next") (.scalar (.int 10)), none⟩

/-- A state that is called `s`, of numbers below ten. -/
def oneState : World :=
  (({} : World).grown ⟨.state [belowTen], .any, .value (.scalar (.int 3)), []⟩).calling "s" ⟨0⟩

/-- Whoever is told of an update tries one that is refused, adds a checker, and makes the next
one. -/
def updatesInside : List Step :=
  [.subscribe "s" "more"
      [.update "s" (.value (.scalar (.int 12))), .addChecker "s" belowTen,
        .update "s" (.compute (.add (.var "v") (.scalar (.int 1))))] 2,
    .update "s" (.value (.scalar (.int 5)))]

/-- Only the state is called like one. -/
def stateNamed : Naming := ⟨(· = "s"), fun _ => False⟩

theorem traced_oneState : oneState.Traced stateNamed :=
  (World.traced_empty.grown rfl).calling (fun _ => rfl) False.elim

theorem traced_updatesInside : ∀ s ∈ updatesInside, s.Traced stateNamed := by
  have hs : stateNamed.state "s" := rfl
  simp only [updatesInside, List.forall_mem_cons, List.not_mem_nil, false_implies, implies_true,
    and_true]
  refine ⟨.subscribe ?_, .update hs⟩
  simp only [List.forall_mem_cons, List.not_mem_nil, false_implies, implies_true, and_true]
  exact ⟨.update hs, .addChecker hs, .update hs⟩

theorem ends_updatesInside :
    (ended? (performAll (respond 8) updatesInside) oneState).isSome := by
  decide +kernel

/-- What an update answers. -/
def Act.accepted? : Act → Option Bool
  | .update _ _ accepted => some accepted
  | _ => none

end LivePage
