import LivePage.World.Lookup
import LivePage.World.Request
import LivePage.Live.Binding
import Mathlib.Order.Defs.Unbundled

/-!
# How runs are taken apart

A run that ends well went through each of its parts: `ok_bind` and its companions give the worlds in
between. `Keeps R E` says that a run relates every world to the one it leaves by `R`, and that it
stops for reasons in `E` only; it holds of a composed run if it holds of the parts.
-/

namespace LivePage

variable {α β ε : Type} {w w' : World}

/-! ## Runs that end well -/

theorem ok_bind {x : Run α} {f : α → Run β} {b : β} :
    (x >>= f).run w = .ok b w' ↔ ∃ a w₁, x.run w = .ok a w₁ ∧ (f a).run w₁ = .ok b w' := by
  rw [EStateM.run_bind]
  cases x.run w with
  | error e w₁ => simp
  | ok a w₁ =>
    constructor
    · exact fun h => ⟨a, w₁, rfl, h⟩
    · rintro ⟨_, _, ⟨⟩, h⟩
      exact h

theorem ok_pure {a b : α} : (pure a : Run α).run w = .ok b w' ↔ b = a ∧ w' = w := by
  rw [EStateM.run_pure]
  simp [eq_comm]

theorem ok_map {x : Run α} {f : α → β} {b : β} :
    (f <$> x).run w = .ok b w' ↔ ∃ a, x.run w = .ok a w' ∧ b = f a := by
  rw [map_eq_pure_bind, ok_bind]
  constructor
  · rintro ⟨a, w₁, h, hp⟩
    obtain ⟨rfl, rfl⟩ := ok_pure.1 hp
    exact ⟨a, h, rfl⟩
  · rintro ⟨a, h, rfl⟩
    exact ⟨a, w', h, ok_pure.2 ⟨rfl, rfl⟩⟩

theorem ok_get {a : World} : (get : Run World).run w = .ok a w' ↔ a = w ∧ w' = w := by
  rw [EStateM.run_get]
  simp [eq_comm]

theorem ok_get_bind {f : World → Run β} {b : β} :
    (get >>= f).run w = .ok b w' ↔ (f w).run w = .ok b w' := by
  rw [EStateM.run_bind, EStateM.run_get]

theorem ok_set {v : World} {u : PUnit} : (set v : Run PUnit).run w = .ok u w' ↔ w' = v := by
  rw [EStateM.run_set]
  simp [eq_comm]

theorem ok_set_bind {v : World} {f : PUnit → Run β} {b : β} :
    (set v >>= f).run w = .ok b w' ↔ (f ⟨⟩).run v = .ok b w' := by
  rw [EStateM.run_bind, EStateM.run_set]

theorem ok_modify {f : World → World} {u : PUnit} :
    (modify f : Run PUnit).run w = .ok u w' ↔ w' = f w := by
  rw [EStateM.run_modify]
  simp [eq_comm]

theorem ok_modify_bind {g : World → World} {f : PUnit → Run β} {b : β} :
    (modify g >>= f).run w = .ok b w' ↔ (f ⟨⟩).run (g w) = .ok b w' := by
  rw [EStateM.run_bind, EStateM.run_modify]

theorem run_throw (e : Stop) (w : World) : (throw e : Run α).run w = .error e w := rfl

theorem not_ok_throw {e : Stop} {a : α} : ¬ (throw e : Run α).run w = .ok a w' := by
  simp [run_throw]

theorem not_ok_unknown {what : String} {a : α} : ¬ (unknown what : Run α).run w = .ok a w' :=
  not_ok_throw

/-- The world while `held` cannot be reclaimed. -/
def World.pinned (w : World) (held : List Entity) : World := { w with pins := held :: w.pins }

/-- The world after what was pinned last has been let go. -/
def World.unpinned (w : World) : World := { w with pins := w.pins.tail }

theorem run_holding (held : List Entity) (x : Run α) (w : World) :
    (holding held x).run w =
      match x.run (w.pinned held) with
      | .ok a w₁ => .ok a w₁.unpinned
      | .error e w₁ => .error e w₁ := by
  simp only [holding, EStateM.run_bind, EStateM.run_modify, World.pinned]
  cases x.run { w with pins := held :: w.pins } <;> rfl

theorem ok_holding {held : List Entity} {x : Run α} {a : α} :
    (holding held x).run w = .ok a w' ↔
      ∃ w₁, x.run (w.pinned held) = .ok a w₁ ∧ w' = w₁.unpinned := by
  rw [run_holding]
  cases x.run (w.pinned held) with
  | error e w₁ => simp
  | ok b w₁ =>
    simp only [EStateM.Result.ok.injEq]
    constructor
    · rintro ⟨rfl, rfl⟩
      exact ⟨w₁, ⟨rfl, rfl⟩, rfl⟩
    · rintro ⟨_, ⟨rfl, rfl⟩, rfl⟩
      exact ⟨rfl, rfl⟩

/-- The world that a run leaves. -/
def ended? (x : Run Unit) (w : World) : Option World :=
  match x.run w with
  | .ok _ w' => some w'
  | .error .. => none

theorem run_of_ended {x : Run Unit} (h : (ended? x w).isSome = true) :
    x.run w = .ok ⟨⟩ ((ended? x w).get h) := by
  revert h
  unfold ended?
  split
  · next hx => exact fun _ => hx
  · exact fun h => by cases h

/-- The result of a run that succeeds, and the world that it leaves. -/
def World.succeeded? {ε α : Type} (x : Run (Except ε α)) (w : World) : Option (α × World) :=
  match x.run w with
  | .ok (.ok a) w' => some (a, w')
  | _ => none

theorem World.run_of_succeeded {ε α : Type} {x : Run (Except ε α)}
    (h : (succeeded? x w).isSome = true) :
    x.run w = .ok (.ok ((succeeded? x w).get h).1) ((succeeded? x w).get h).2 := by
  revert h
  unfold succeeded?
  split
  · next hx => exact fun _ => hx
  · exact fun h => by cases h

/-! ## Runs with faults of their own -/

theorem ok_ebind {x : ExceptT ε Run α} {f : α → ExceptT ε Run β} {b : β} :
    (x >>= f).run.run w = .ok (.ok b) w' ↔
      ∃ a w₁, x.run.run w = .ok (.ok a) w₁ ∧ (f a).run.run w₁ = .ok (.ok b) w' := by
  rw [ExceptT.run_bind, ok_bind]
  constructor
  · rintro ⟨a | a, w₁, h, h'⟩
    · exact absurd (ok_pure.1 h').1 (by simp)
    · exact ⟨a, w₁, h, h'⟩
  · rintro ⟨a, w₁, h, h'⟩
    exact ⟨.ok a, w₁, h, h'⟩

theorem ok_epure {a b : α} :
    (pure a : ExceptT ε Run α).run.run w = .ok (.ok b) w' ↔ b = a ∧ w' = w := by
  rw [ExceptT.run_pure, ok_pure]
  simp

theorem not_ok_ethrow {e : ε} {a : α} :
    ¬ (throw e : ExceptT ε Run α).run.run w = .ok (.ok a) w' := by
  rw [ExceptT.run_throw, ok_pure]
  simp

theorem ok_lift {x : Run α} {a : α} :
    (liftM x : ExceptT ε Run α).run.run w = .ok (.ok a) w' ↔ x.run w = .ok a w' := by
  rw [ExceptT.run_liftM, ok_map]
  simp

theorem ok_eget_bind {f : World → ExceptT ε Run β} {b : β} :
    ((liftM (get : Run World) : ExceptT ε Run World) >>= f).run.run w = .ok (.ok b) w' ↔
      (f w).run.run w = .ok (.ok b) w' := by
  simp only [ok_ebind, ok_lift, ok_get]
  constructor
  · rintro ⟨_, _, ⟨rfl, rfl⟩, h⟩
    exact h
  · exact fun h => ⟨w, w, ⟨rfl, rfl⟩, h⟩

theorem ok_pageStep {x : Run (Except PageError α)} {a : α} :
    (pageStep x).run.run w = .ok (.ok a) w' ↔ x.run w = .ok (.ok a) w' := by
  rw [pageStep, ExceptT.run_mk, ok_bind]
  constructor
  · rintro ⟨b | b, w₁, h, h'⟩
    · exact absurd (ok_pure.1 h').1 (by simp)
    · obtain ⟨hb, rfl⟩ := ok_pure.1 h'
      cases hb
      exact h
  · intro h
    exact ⟨.ok a, w', h, ok_pure.2 ⟨rfl, rfl⟩⟩

/-! ## Runs that end with or without a fault -/

theorem ended_ebind {x : ExceptT ε Run α} {f : α → ExceptT ε Run β} {r : Except ε β}
    (h : (x >>= f).run.run w = .ok r w') :
    (∃ e, x.run.run w = .ok (.error e) w' ∧ r = .error e) ∨
      ∃ a w₁, x.run.run w = .ok (.ok a) w₁ ∧ (f a).run.run w₁ = .ok r w' := by
  rw [ExceptT.run_bind, ok_bind] at h
  obtain ⟨a | a, w₁, hx, h⟩ := h
  · obtain ⟨rfl, rfl⟩ := ok_pure.1 h
    exact .inl ⟨a, hx, rfl⟩
  · exact .inr ⟨a, w₁, hx, h⟩

theorem ended_lift {x : Run α} {r : Except ε α}
    (h : (liftM x : ExceptT ε Run α).run.run w = .ok r w') :
    ∃ a, r = .ok a ∧ x.run w = .ok a w' := by
  rw [ExceptT.run_liftM, ok_map] at h
  obtain ⟨a, h, rfl⟩ := h
  exact ⟨a, rfl, h⟩

theorem ended_pageStep {x : Run (Except PageError α)} {r : Except RealizationError α}
    (h : (pageStep x).run.run w = .ok r w') :
    ∃ a, x.run w = .ok a w' ∧ ((∃ b, r = .ok b) ∨ ∃ e, r = .error (.page e)) := by
  rw [pageStep, ExceptT.run_mk, ok_bind] at h
  obtain ⟨a, w₁, hx, h⟩ := h
  cases a with
  | error e =>
    obtain ⟨rfl, rfl⟩ := ok_pure.1 h
    exact ⟨_, hx, .inr ⟨e, rfl⟩⟩
  | ok b =>
    obtain ⟨rfl, rfl⟩ := ok_pure.1 h
    exact ⟨_, hx, .inl ⟨b, rfl⟩⟩

/-! ## What every run of a program keeps -/

/-- From `w` on, `x` ends in a world related to `w` by `R`, or stops for a reason in `E`. -/
def KeepsAt (R : World → World → Prop) (E : Stop → Prop) (w : World) (x : Run α) : Prop :=
  match x.run w with
  | .ok _ w' => R w w'
  | .error e _ => E e

/-- Every end of `x` is related to its start by `R`, and every stop of it is in `E`. -/
structure Keeps (R : World → World → Prop) (E : Stop → Prop) (x : Run α) : Prop where
  start (w : World) : KeepsAt R E w x

variable {R : World → World → Prop} {E : Stop → Prop}

theorem Keeps.ok {x : Run α} (h : Keeps R E x) {a : α} (hx : x.run w = .ok a w') : R w w' := by
  have := h.start w
  rwa [KeepsAt, hx] at this

/-- A run that cannot stop. -/
theorem keeps_of_ok {x : Run α} (h : ∀ w, ∃ a w', x.run w = .ok a w' ∧ R w w') : Keeps R E x := by
  refine ⟨fun w => ?_⟩
  obtain ⟨a, w', hx, hR⟩ := h w
  rw [KeepsAt, hx]
  exact hR

theorem keeps_throw {e : Stop} (he : E e) : Keeps R E (throw e : Run α) := by
  refine ⟨fun w => ?_⟩
  rw [KeepsAt, run_throw]
  exact he

theorem keeps_modify {f : World → World} (h : ∀ w, R w (f w)) : Keeps R E (modify f) :=
  keeps_of_ok fun w => ⟨⟨⟩, f w, EStateM.run_modify .., h w⟩

/-- What is decided by the world that the run starts in. -/
theorem keeps_get_bind {f : World → Run α} (h : ∀ w, KeepsAt R E w (f w)) :
    Keeps R E (get >>= f) := by
  refine ⟨fun w => ?_⟩
  rw [KeepsAt, EStateM.run_bind, EStateM.run_get]
  exact h w

section

variable [IsPreorder World R]

theorem keeps_pure (a : α) : Keeps R E (pure a : Run α) :=
  keeps_of_ok fun w => ⟨a, w, EStateM.run_pure .., refl w⟩

theorem keeps_get : Keeps R E (get : Run World) :=
  keeps_of_ok fun w => ⟨w, w, EStateM.run_get .., refl w⟩

theorem KeepsAt.bindAt {x : Run α} {f : α → Run β} (hx : KeepsAt R E w x)
    (hf : ∀ a w₁, R w w₁ → KeepsAt R E w₁ (f a)) : KeepsAt R E w (x >>= f) := by
  rw [KeepsAt, EStateM.run_bind]
  cases hxw : x.run w with
  | error e w₁ =>
    rw [KeepsAt, hxw] at hx
    exact hx
  | ok a w₁ =>
    rw [KeepsAt, hxw] at hx
    have hf := hf a w₁ hx
    dsimp only
    cases hfw : (f a).run w₁ with
    | error e w₂ =>
      rw [KeepsAt, hfw] at hf
      exact hf
    | ok b w₂ =>
      rw [KeepsAt, hfw] at hf
      exact IsTrans.trans _ _ _ hx hf

theorem KeepsAt.bind {x : Run α} {f : α → Run β} (hx : KeepsAt R E w x)
    (hf : ∀ a, Keeps R E (f a)) : KeepsAt R E w (x >>= f) :=
  hx.bindAt fun a w₁ _ => (hf a).start w₁

theorem Keeps.bind {x : Run α} {f : α → Run β} (hx : Keeps R E x) (hf : ∀ a, Keeps R E (f a)) :
    Keeps R E (x >>= f) :=
  ⟨fun w => (hx.start w).bind hf⟩

theorem keepsAt_set {v : World} (h : R w v) : KeepsAt R E w (set v) := h

/-- A change of the world that is computed from it, and what follows. -/
theorem keeps_update {f : World → World} {g : World → Run α} (hf : ∀ w, R w (f w))
    (hg : ∀ w, Keeps R E (g w)) : Keeps R E (get >>= fun w => set (f w) >>= fun _ => g w) :=
  keeps_get_bind fun w => (keepsAt_set (hf w)).bind fun _ => hg w

theorem Keeps.map {x : Run α} (f : α → β) (hx : Keeps R E x) : Keeps R E (f <$> x) := by
  rw [map_eq_pure_bind]
  exact hx.bind fun a => keeps_pure (f a)

theorem keeps_forM {l : List α} {f : α → Run PUnit} (h : ∀ a ∈ l, Keeps R E (f a)) :
    Keeps R E (l.forM f) := by
  induction l with
  | nil => exact keeps_pure _
  | cons a l ih =>
    exact (h a List.mem_cons_self).bind fun _ => ih fun b hb => h b (List.mem_cons_of_mem _ hb)

omit [IsPreorder World R] in
theorem keeps_ite {c : Prop} [Decidable c] {x y : Run α} (hx : Keeps R E x) (hy : Keeps R E y) :
    Keeps R E (if c then x else y) := by
  split
  · exact hx
  · exact hy

theorem Keeps.lift {x : Run α} (hx : Keeps R E x) : Keeps R E (liftM x : ExceptT ε Run α).run := by
  rw [ExceptT.run_liftM]
  exact hx.map _

theorem keeps_epure (a : α) : Keeps R E (pure a : ExceptT ε Run α).run := by
  rw [ExceptT.run_pure]
  exact keeps_pure _

theorem keeps_ethrow (e : ε) : Keeps R E (throw e : ExceptT ε Run α).run := by
  rw [ExceptT.run_throw]
  exact keeps_pure _

theorem Keeps.ebind {x : ExceptT ε Run α} {f : α → ExceptT ε Run β} (hx : Keeps R E x.run)
    (hf : ∀ a, Keeps R E (f a).run) : Keeps R E (x >>= f).run := by
  rw [ExceptT.run_bind]
  refine hx.bind fun a => ?_
  cases a with
  | error e => exact keeps_pure _
  | ok a => exact hf a

theorem Keeps.pageStep {x : Run (Except PageError α)} (hx : Keeps R E x) :
    Keeps R E (pageStep x).run := by
  rw [LivePage.pageStep, ExceptT.run_mk]
  refine hx.bind fun a => ?_
  cases a with
  | error e => exact keeps_pure _
  | ok a => exact keeps_pure _

end

theorem KeepsAt.holding {x : Run α} {held : List Entity} (hx : KeepsAt R E (w.pinned held) x)
    (hR : ∀ {w₁}, R (w.pinned held) w₁ → R w w₁.unpinned) : KeepsAt R E w (holding held x) := by
  rw [KeepsAt, run_holding]
  cases hxw : x.run (w.pinned held) with
  | error e w₁ =>
    rw [KeepsAt, hxw] at hx
    exact hx
  | ok a w₁ =>
    rw [KeepsAt, hxw] at hx
    exact hR hx

/-- A relation that does not mind what is pinned, as long as it is let go in the end. -/
theorem Keeps.holding {x : Run α} {held : List Entity} (hx : Keeps R E x)
    (hR : ∀ {w w₁}, R (w.pinned held) w₁ → R w w₁.unpinned) :
    Keeps R E (holding held x) :=
  ⟨fun w => (hx.start (w.pinned held)).holding hR⟩

theorem keepsAt_get_bind {f : World → Run α} (h : KeepsAt R E w (f w)) :
    KeepsAt R E w (get >>= f) := by
  rw [KeepsAt, EStateM.run_bind, EStateM.run_get]
  exact h

/-- Two runs of which the second one knows what the first one gave. -/
theorem KeepsAt.seq {R' : World → World → Prop} {x : Run α} {f : α → Run β}
    (hx : KeepsAt R' E w x)
    (hf : ∀ a w₁, x.run w = .ok a w₁ → R' w w₁ → KeepsAt (fun _ => R w) E w₁ (f a)) :
    KeepsAt R E w (x >>= f) := by
  rw [KeepsAt, EStateM.run_bind]
  cases hxw : x.run w with
  | error e w₁ =>
    rw [KeepsAt, hxw] at hx
    exact hx
  | ok a w₁ =>
    rw [KeepsAt, hxw] at hx
    exact hf a w₁ hxw hx

theorem KeepsAt.ok {x : Run α} (h : KeepsAt R E w x) {a : α} (hx : x.run w = .ok a w') :
    R w w' := by
  rwa [KeepsAt, hx] at h

theorem KeepsAt.mono {R' : World → World → Prop} {E' : Stop → Prop} {x : Run α}
    (h : KeepsAt R E w x) (hR : ∀ {w'}, R w w' → R' w w') (hE : ∀ {e}, E e → E' e) :
    KeepsAt R' E' w x := by
  unfold KeepsAt at h ⊢
  split at h
  · exact hR h
  · exact hE h

theorem Keeps.mono {R' : World → World → Prop} {E' : Stop → Prop} {x : Run α} (h : Keeps R E x)
    (hR : ∀ {w w'}, R w w' → R' w w') (hE : ∀ {e}, E e → E' e) : Keeps R' E' x :=
  ⟨fun w => (h.start w).mono hR hE⟩

end LivePage
