import LivePage.Proofs.Run.Evolving

/-!
# The single changes of the world

Each operation that changes the world by itself, as an equation for the world it leaves, and the
part of that world that it concerns.
-/

namespace LivePage

open LivePage.Script

variable {w w' : World} {c d : CellId}

/-! ## Observables -/

namespace World

/-- The world with an observable changed. -/
def withCell (w : World) (c : CellId) (f : Cell → Cell) : World :=
  { w with cells := w.cells.modify c.index f }

theorem cell_of_size_le (h : w.cells.size ≤ c.index) : w.cell c = default := by
  simp [cell, Array.getD_eq_getD_getElem?, h]

theorem cell_withCell (w : World) (c d : CellId) (f : Cell → Cell) :
    (w.withCell c f).cell d = if d = c ∧ d.index < w.cells.size then f (w.cell d) else w.cell d := by
  simp only [cell, withCell, Array.getD_eq_getD_getElem?, Array.getElem?_modify]
  by_cases hd : d = c
  · subst hd
    by_cases hlt : d.index < w.cells.size <;> simp [hlt]
  · have hne : c.index ≠ d.index := fun h => hd (by cases c; cases d; cases h; rfl)
    simp [hd, hne]

theorem lt_of_registry {s : Nat × Reaction} (h : s ∈ (w.cell c).registry) :
    c.index < w.cells.size := by
  refine Nat.lt_of_not_le fun hc => ?_
  rw [cell_of_size_le hc] at h
  cases h

theorem lt_of_flavour (h : (w.cell c).flavour ≠ .plain) : c.index < w.cells.size := by
  refine Nat.lt_of_not_le fun hc => h ?_
  rw [cell_of_size_le hc]
  rfl

end World

theorem run_modifyCell (c : CellId) (f : Cell → Cell) (w : World) :
    (modifyCell c f).run w = .ok ⟨⟩ (w.withCell c f) := rfl

/-- A change of an observable that leaves its flavour and takes nothing new into its registry. -/
theorem evolves_withCell {f : Cell → Cell} (hflavour : ∀ x, (f x).flavour = x.flavour)
    (hregistry : ∀ x, (f x).registry.Sublist x.registry) : Evolves w (w.withCell c f) :=
  { Evolves.refl w with
    cells := by simp [World.withCell]
    flavour := fun d => by
      rw [World.cell_withCell]
      split
      · exact hflavour _
      · rfl
    registry := fun d s hs => by
      rw [World.cell_withCell] at hs
      split at hs
      · exact .inl ((hregistry _).subset hs)
      · exact .inl hs
    keyed := fun hk d => by
      obtain ⟨hn, hlt⟩ := hk d
      rw [World.cell_withCell]
      split
      · have hsub : (f (w.cell d)).keys.Sublist (w.cell d).keys := (hregistry _).map _
        exact ⟨hn.sublist hsub, fun k hk => hlt k (hsub.subset hk)⟩
      · exact ⟨hn, hlt⟩ }

theorem lives_hold (c : CellId) (held : Held) : Lives (hold c held) :=
  lives_modify fun w => evolves_withCell (w := w) (c := c)
    (f := fun cell => { cell with held }) (fun _ => rfl) fun _ => .refl _

theorem lives_unsubscribeAll (c : CellId) : Lives (unsubscribeAll c) :=
  lives_modify fun w => evolves_withCell (w := w) (c := c)
    (f := Cell.unsubscribeAll) (fun _ => rfl) fun _ => List.nil_sublist _

/-- The world after a new subscription. -/
def World.subscribed (w : World) (c : CellId) (r : Reaction) : World :=
  ({ w with nextKey := w.nextKey + 1 }).withCell c (·.subscribe w.nextKey r)

theorem run_subscribe (c : CellId) (r : Reaction) (w : World) :
    (subscribe c r).run w = .ok w.nextKey (w.subscribed c r) := rfl

theorem Cell.registry_subscribe {cell : Cell} {key : Nat} (r : Reaction) (h : key ∉ cell.keys) :
    (cell.subscribe key r).registry = cell.registry ++ [(key, r)] := by
  rw [subscribe, if_neg (by simpa using h)]

theorem Cell.mem_subscribe {cell : Cell} {key : Nat} {r : Reaction} {s : Nat × Reaction}
    (h : s ∈ (cell.subscribe key r).registry) : s ∈ cell.registry ∨ s = (key, r) := by
  unfold subscribe at h
  split at h
  · exact .inl h
  · simpa using h

@[simp] theorem Cell.flavour_subscribe (cell : Cell) (key : Nat) (r : Reaction) :
    (cell.subscribe key r).flavour = cell.flavour := by
  unfold subscribe
  split <;> rfl

theorem World.registry_subscribed (hk : w.Keyed) (c d : CellId) (r : Reaction) :
    ((w.subscribed c r).cell d).registry =
      if d = c ∧ d.index < w.cells.size then (w.cell d).registry ++ [(w.nextKey, r)]
      else (w.cell d).registry := by
  have hnew : w.nextKey ∉ (w.cell d).keys := fun h => Nat.lt_irrefl _ ((hk d).2 _ h)
  rw [World.subscribed, World.cell_withCell]
  split
  · exact Cell.registry_subscribe r hnew
  · rfl

@[simp] theorem World.held_subscribed (w : World) (c d : CellId) (r : Reaction) :
    ((w.subscribed c r).cell d).held = (w.cell d).held := by
  rw [World.subscribed, World.cell_withCell]
  split
  · show ((w.cell d).subscribe w.nextKey r).held = (w.cell d).held
    unfold Cell.subscribe
    split <;> rfl
  · rfl

theorem World.Keyed.subscribed (hk : w.Keyed) (c : CellId) (r : Reaction) :
    (w.subscribed c r).Keyed := by
  intro d
  obtain ⟨hn, hlt⟩ := hk d
  have hnew : w.nextKey ∉ (w.cell d).keys := fun h => Nat.lt_irrefl _ (hlt _ h)
  rw [World.subscribed, World.cell_withCell]
  split
  · show ((w.cell d).subscribe w.nextKey r).keys.Nodup ∧
      ∀ k ∈ ((w.cell d).subscribe w.nextKey r).keys, k < w.nextKey + 1
    rw [Cell.keys_subscribe, if_neg hnew]
    refine ⟨List.nodup_append.2 ⟨hn, by simp, ?_⟩, ?_⟩
    · rintro k hk _ h rfl
      exact hnew (by simpa using (List.mem_singleton.1 h) ▸ hk)
    · intro k hk
      rcases List.mem_append.1 hk with hk | hk
      · exact Nat.lt_succ_of_lt (hlt k hk)
      · exact (List.mem_singleton.1 hk) ▸ Nat.lt_succ_self _
  · exact ⟨hn, fun k hk => Nat.lt_succ_of_lt (hlt k hk)⟩

/-- A new subscription that does something to a page and follows its observable. -/
theorem evolves_subscribed {r : Reaction} (hp : r.onPage) (hf : w.Follows c r) :
    Evolves w (w.subscribed c r) :=
  { Evolves.refl w with
    cells := by simp [World.subscribed, World.withCell]
    flavour := fun d => by
      rw [World.subscribed, World.cell_withCell]
      split
      · exact Cell.flavour_subscribe ..
      · rfl
    nextKey := Nat.le_succ _
    registry := fun d s hs => by
      rw [World.subscribed, World.cell_withCell] at hs
      split at hs
      · next h =>
        rcases Cell.mem_subscribe hs with hs | rfl
        · exact .inl hs
        · exact .inr ⟨Nat.le_refl _, hp, h.1 ▸ hf⟩
      · exact .inl hs
    keyed := fun hk => hk.subscribed c r }

theorem lives_subscribe {r : Reaction} (hp : r.onPage) (hf : ∀ w : World, w.Follows c r) :
    Lives (subscribe c r) :=
  keeps_of_ok fun w => ⟨_, _, run_subscribe c r w, fun _ => evolves_subscribed hp (hf w)⟩

/-! ## New observables and names -/

/-- The world with one observable more. -/
def World.grown (w : World) (cell : Cell) : World := { w with cells := w.cells.push cell }

theorem World.cell_grown (w : World) (x : Cell) (c : CellId) :
    (w.grown x).cell c = if c.index = w.cells.size then x else w.cell c := by
  simp only [World.cell, World.grown, Array.getD_eq_getD_getElem?, Array.getElem?_push]
  split <;> simp

theorem World.cell_grown_of_lt {x : Cell} (h : c.index < w.cells.size) :
    (w.grown x).cell c = w.cell c := by
  rw [World.cell_grown, if_neg (Nat.ne_of_lt h)]

theorem World.Keyed.grown {x : Cell} (hk : w.Keyed) (hx : x.registry = []) :
    (w.grown x).Keyed := by
  intro c
  rw [World.cell_grown]
  split
  · simp [Cell.keys, hx]
  · exact hk c

/-- The world with a name more for an observable. -/
def World.calling (w : World) (as : String) (c : CellId) : World :=
  { w with names := { w.names with observables := Entries.set as c w.names.observables } }

theorem run_nameCell (as : String) (c : CellId) (w : World) :
    (nameCell as c).run w = .ok ⟨⟩ (w.calling as c) := rfl

/-! ## Programs that are called back -/

/-- A call is counted. -/
theorem quiet_counted {program : CallbackId} {acts : List Step} {remaining : Nat}
    (hget : w.callbacks[program.index]? = some ⟨acts, remaining + 1⟩) :
    Quiet w { w with callbacks := w.callbacks.setIfInBounds program.index ⟨acts, remaining⟩ } :=
  { Quiet.refl w with
    acts := by
      rw [Array.map_setIfInBounds]
      refine Array.ext_getElem? fun i => ?_
      rw [Array.getElem?_setIfInBounds]
      split
      · next h =>
        subst h
        have hlt : program.index < w.callbacks.size := (Array.getElem?_eq_some_iff.1 hget).1
        rw [Array.getElem?_map, hget]
        simp [hlt]
      · rfl }

/-- The steps of a program are those of a callback. -/
theorem acts_mem {program : CallbackId} {acts : List Step} {remaining : Nat}
    (hget : w.callbacks[program.index]? = some ⟨acts, remaining⟩) :
    acts ∈ w.callbacks.map (·.acts) :=
  Array.mem_map.2 ⟨_, Array.mem_of_getElem? hget, rfl⟩

/-- A program that is called back only reads and logs, apart from being counted. -/
theorem reads_callback {call : Respond} (hc : ∀ acts, ReadsOnly acts → Reads (call (.perform acts)))
    (hw : w.Reading) (program : CallbackId) : KeepsAt Quiet Stop.calm w (program.run call) := by
  refine keepsAt_get_bind ?_
  split
  · next acts remaining hget =>
    exact (keepsAt_set (quiet_counted hget)).bind fun _ => hc acts (hw acts (acts_mem hget))
  · exact (keeps_pure _).start w

theorem lives_callback {call : Respond}
    (hc : ∀ acts, ReadsOnly acts → Reads (call (.perform acts))) (program : CallbackId) :
    Lives (program.run call) := by
  refine ⟨fun w => ?_⟩
  by_cases hw : w.Reading
  · exact (reads_callback hc hw program).mono (fun h _ => h.evolves) fun _ => trivial
  · unfold KeepsAt
    split
    · exact fun h => absurd h hw
    · trivial

end LivePage
