import LivePage.Proofs.Run.Change

/-!
# Who is told of what

An emission tells the subscriptions of an observable what it holds, each of them once and in their
order, unless they are gone when their turn comes: that is `Tells`. A longer run assigns observables
and emits some of them. `Announces` says which ones are emitted, in which order and with which
values, and that nobody is told anything else. Both carry a property of worlds that holds whenever
somebody is told.

What everybody who is told something keeps is kept by the whole emission (`Telling.emit`).
-/

namespace LivePage

variable {w w' w'' : World} {c : CellId} {call : Respond} {E : Stop → Prop} {Q : Reaction → Prop}
  {J P : World → Prop}

/-! ## Assignments -/

/-- The world after an assignment that nobody was told of. -/
def World.assigned (w : World) (c : CellId) (held : Held) : World :=
  w.withCell c fun cell => { cell with held }

/-- What comes after an assignment. -/
theorem keepsAt_hold_bind {β : Type} {R : World → World → Prop} {held : Held} {f : Unit → Run β}
    (h : KeepsAt (fun _ => R w) E (w.assigned c held) (f ⟨⟩)) :
    KeepsAt R E w (hold c held >>= f) := by
  have hassign : KeepsAt (fun _ w₁ => w₁ = w.assigned c held) E w (hold c held) := rfl
  refine hassign.seq fun _ w₁ _ he => ?_
  subst he
  exact h

namespace World

theorem cell_assigned (w : World) (c d : CellId) (held : Held) :
    (w.assigned c held).cell d =
      if d = c ∧ d.index < w.cells.size then { w.cell d with held } else w.cell d :=
  cell_withCell ..

@[simp] theorem flavour_assigned (c d : CellId) (held : Held) :
    ((w.assigned c held).cell d).flavour = (w.cell d).flavour := by
  rw [cell_assigned]
  split <;> rfl

@[simp] theorem type_assigned (c d : CellId) (held : Held) :
    ((w.assigned c held).cell d).type = (w.cell d).type := by
  rw [cell_assigned]
  split <;> rfl

@[simp] theorem registry_assigned (c d : CellId) (held : Held) :
    ((w.assigned c held).cell d).registry = (w.cell d).registry := by
  rw [cell_assigned]
  split <;> rfl

theorem held_assigned (h : c.index < w.cells.size) (held : Held) :
    ((w.assigned c held).cell c).held = held := by
  rw [cell_assigned, if_pos ⟨rfl, h⟩]

theorem held_assigned_of_ne {d : CellId} (h : d ≠ c) (held : Held) :
    ((w.assigned c held).cell d).held = (w.cell d).held := by
  rw [cell_assigned, if_neg fun h' => h h'.1]

end World

/-! ## Emissions and what lies between them -/

/-- From the first world to the second, those of the subscriptions that are registered with `c` when
their turn comes are told what it held, each once and in order, and `P` holds whenever one is. -/
inductive Tells (call : Respond) (P : World → Prop) (c : CellId) (held : Held) :
    List (Nat × Reaction) → World → World → Prop where
  | done {w : World} : Tells call P c held [] w w
  | told {w w₁ w' : World} {key : Nat} {r : Reaction} {rest : List (Nat × Reaction)}
      (before after : List (List Entity)) : (w.cell c).isSubscribed key = true → P w →
      (call (.react r held)).run { w with pins := before } = .ok ⟨⟩ w₁ →
      Tells call P c held rest { w₁ with pins := after } w' →
      Tells call P c held ((key, r) :: rest) w w'
  | gone {w w' : World} {key : Nat} {r : Reaction} {rest : List (Nat × Reaction)} :
      (w.cell c).isSubscribed key = false → Tells call P c held rest w w' →
      Tells call P c held ((key, r) :: rest) w w'

/-- From the first world to the second, the observables of the list are emitted one after the other
with these values, and nobody is told anything else; `P` holds whenever somebody is told. -/
inductive Announces (call : Respond) (P : World → Prop) :
    List (CellId × Held) → World → World → Prop where
  | done {w : World} : Announces call P [] w w
  | assigned {w w' : World} {es : List (CellId × Held)} (c : CellId) (held : Held) :
      Announces call P es (w.assigned c held) w' → Announces call P es w w'
  | pinned {w w' : World} {es : List (CellId × Held)} (pins : List (List Entity)) :
      Announces call P es { w with pins } w' → Announces call P es w w'
  | emitted {w w₁ w' : World} {es : List (CellId × Held)} {c : CellId} :
      (w.cell c).keys.Nodup →
      Tells call P c (w.cell c).held (w.cell c).registry w w₁ → Announces call P es w₁ w' →
      Announces call P ((c, (w.cell c).held) :: es) w w'

theorem Announces.append {es fs : List (CellId × Held)} (h : Announces call P es w w')
    (h' : Announces call P fs w' w'') : Announces call P (es ++ fs) w w'' := by
  induction h with
  | done => exact h'
  | assigned c held _ ih => exact .assigned c held (ih h')
  | pinned pins _ ih => exact .pinned pins (ih h')
  | emitted hk ht _ ih => exact .emitted hk ht (ih h')

/-- What is pinned at the end does not matter. -/
theorem Announces.repin {es : List (CellId × Held)} (h : Announces call P es w w')
    (pins : List (List Entity)) : Announces call P es w { w' with pins } := by
  rw [← List.append_nil es]
  exact h.append (.pinned pins .done)

/-- The observables of the list are emitted, and then `J` holds. -/
structure Announced (call : Respond) (J P : World → Prop) (es : List (CellId × Held))
    (w w' : World) : Prop where
  holds : J w'
  announces : Announces call P es w w'

/-- One run after the other. -/
theorem Announced.seq {α β : Type} {J' : World → Prop} {es fs : List (CellId × Held)} {x : Run α}
    {f : α → Run β} (hx : KeepsAt (Announced call J P es) E w x)
    (hf : ∀ a w₁, J w₁ → KeepsAt (Announced call J' P fs) E w₁ (f a)) :
    KeepsAt (Announced call J' P (es ++ fs)) E w (x >>= f) :=
  KeepsAt.seq hx fun a w₁ _ h =>
    (hf a w₁ h.holds).mono (fun h' => ⟨h'.holds, h.announces.append h'.announces⟩) id

theorem Announced.assigning {β : Type} {es : List (CellId × Held)} {held : Held} {f : Unit → Run β}
    (hf : KeepsAt (Announced call J P es) E (w.assigned c held) (f ⟨⟩)) :
    KeepsAt (Announced call J P es) E w (hold c held >>= f) :=
  keepsAt_hold_bind (hf.mono (fun h => ⟨h.holds, .assigned c held h.announces⟩) id)

/-! ## What whoever is told keeps -/

/-- What is known of a run while something is pinned, and what follows from it afterwards. -/
theorem keepsAt_holding {α : Type} {R R' : World → World → Prop} {x : Run α} {held : List Entity}
    (hx : KeepsAt R' E (w.pinned held) x)
    (hR : ∀ a w₁, x.run (w.pinned held) = .ok a w₁ → R' (w.pinned held) w₁ → R w w₁.unpinned) :
    KeepsAt R E w (holding held x) := by
  rw [KeepsAt, run_holding]
  cases hrun : x.run (w.pinned held) with
  | error e w₁ =>
    rw [KeepsAt, hrun] at hx
    exact hx
  | ok a w₁ =>
    rw [KeepsAt, hrun] at hx
    exact hR a w₁ hrun hx

/-- The subscriptions in `Q` keep `J` when they are told something. It implies `P`, whatever is
pinned. -/
structure Telling (call : Respond) (E : Stop → Prop) (Q : Reaction → Prop) (J P : World → Prop) :
    Prop where
  repin {w : World} (pins : List (List Entity)) : J w → J { w with pins }
  implies {w : World} : J w → P w
  react {w : World} {r : Reaction} (held : Held) : J w → Q r →
    KeepsAt (fun _ w' => J w') E w (call (.react r held))

namespace Telling

variable (h : Telling call E Q J P)
include h

theorem notify (hw : J w) (held : Held) (snapshot : List (Nat × Reaction))
    (hQ : ∀ s ∈ snapshot, Q s.2) :
    KeepsAt (fun w w' => J w' ∧ Tells call P c held snapshot w w') E w
      (LivePage.notify call c held snapshot) := by
  induction snapshot generalizing w with
  | nil => exact ⟨hw, .done⟩
  | cons s rest ih =>
    obtain ⟨key, r⟩ := s
    have hrest : ∀ s ∈ rest, Q s.2 := fun s hs => hQ s (List.mem_cons_of_mem _ hs)
    refine keepsAt_get_bind ?_
    split
    · next hkey =>
      have hreact : KeepsAt (fun w w₁ => J w₁ ∧ ∃ before after w₂,
          (call (.react r held)).run { w with pins := before } = .ok ⟨⟩ w₂ ∧
            w₁ = { w₂ with pins := after }) E w
          (holding (((key, r) :: rest).flatMap fun s => w.reactionHolds s.2)
            (call (.react r held))) :=
        keepsAt_holding (h.react held (h.repin _ hw) (hQ _ List.mem_cons_self))
          fun _ w₂ hrun hw₂ => ⟨h.repin _ hw₂, _, _, w₂, hrun, rfl⟩
      refine hreact.seq fun _ w₁ _ ⟨hw₁, before, after, w₂, hrun, he⟩ => ?_
      subst he
      exact (ih hw₁ hrest).mono
        (fun h' => ⟨h'.1, .told before after hkey (h.implies hw) hrun h'.2⟩) id
    · next hkey =>
      exact (ih hw hrest).mono
        (fun h' => ⟨h'.1, .gone (Bool.eq_false_iff.2 hkey) h'.2⟩) id

theorem holding {α : Type} {es : List (CellId × Held)} {x : Run α} {held : List Entity}
    (hx : KeepsAt (Announced call J P es) E (w.pinned held) x) :
    KeepsAt (Announced call J P es) E w (holding held x) :=
  keepsAt_holding hx fun _ _ _ h' =>
    ⟨h.repin _ h'.holds, .pinned _ (h'.announces.repin _)⟩

/-- An emission keeps what everybody keeps who is told of it. -/
theorem emit (hw : J w) (hkeys : (w.cell c).keys.Nodup) (hQ : ∀ s ∈ (w.cell c).registry, Q s.2) :
    KeepsAt (Announced call J P [(c, (w.cell c).held)]) E w (LivePage.emit call c) := by
  refine keepsAt_get_bind (h.holding ?_)
  refine (h.notify (h.repin _ hw) _ _ hQ).mono (fun h' => ⟨h'.1, ?_⟩) id
  exact Announces.emitted (w := w.pinned _) hkeys h'.2 .done

theorem holdAndEmit (held : Held) (hw : J (w.assigned c held)) (hc : c.index < w.cells.size)
    (hkeys : (w.cell c).keys.Nodup) (hQ : ∀ s ∈ (w.cell c).registry, Q s.2) :
    KeepsAt (Announced call J P [(c, held)]) E w (LivePage.holdAndEmit call c held) := by
  have hemit := h.emit (c := c) hw (by simpa [Cell.keys] using hkeys) (by simpa using hQ)
  rw [World.held_assigned hc] at hemit
  exact Announced.assigning hemit

end Telling

end LivePage
