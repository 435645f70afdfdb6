import LivePage.Proofs.Page.Forest

/-!
# What moving nodes does to a page

Slot by slot, what taking nodes out changes, and that it keeps a page a forest, or at least keeps
the links leading to roots. No edit gives slots back or takes new ones (`SameSlots`).
-/

namespace LivePage.Page

variable {p p' : Page} {i j q r k parent child : Nat}

/-! ## Single slots -/

theorem slot_eq_getElem? (p : Page) (i : Nat) : p.slot i = (p.slots[i]?).getD .vacant := by
  simp [slot, Array.getD_eq_getD_getElem?]

theorem slot_of_size_le (h : p.slots.size ≤ i) : p.slot i = .vacant := by
  simp [slot_eq_getElem?, h]

theorem slot_modify (p : Page) (i j : Nat) (f : Slot → Slot) :
    (p.modify i f).slot j = if i = j ∧ j < p.slots.size then f (p.slot j) else p.slot j := by
  simp only [slot_eq_getElem?, modify, Array.getElem?_modify]
  by_cases hij : i = j
  · by_cases hj : j < p.slots.size
    · simp [hij, hj]
    · simp [hij, hj]
  · simp [hij]

@[simp] theorem size_modify (p : Page) (i : Nat) (f : Slot → Slot) :
    (p.modify i f).slots.size = p.slots.size := by
  simp [modify]

@[simp] theorem free_modify (p : Page) (i : Nat) (f : Slot → Slot) :
    (p.modify i f).free = p.free := rfl

theorem lt_of_parent (h : (p.slot i).parent = some q) : i < p.slots.size := by
  by_contra hi
  rw [slot_of_size_le (Nat.le_of_not_lt hi)] at h
  cases h

theorem lt_of_child (h : j ∈ (p.slot i).children) : i < p.slots.size := by
  by_contra hi
  rw [slot_of_size_le (Nat.le_of_not_lt hi)] at h
  cases h

/-- A node that is not a fragment stands in an occupied slot. -/
theorem Forest.occupied_of_type (hf : p.Forest) (h : (p.slot i).content.type ≠ .fragment) :
    p.Occupied i := by
  refine ⟨?_, fun hi => h (by rw [hf.vacant hi]; rfl)⟩
  by_contra hi
  exact h (by rw [slot_of_size_le (Nat.le_of_not_lt hi)]; rfl)

/-- The pages have the same slots, of which the same are free, and the next sweep is due at the same
number of nodes. -/
structure SameSlots (p p' : Page) : Prop where
  size : p'.slots.size = p.slots.size
  free : p'.free = p.free
  sweepAt : p'.sweepAt = p.sweepAt

namespace SameSlots

variable {p'' : Page}

theorem refl (p : Page) : SameSlots p p := ⟨rfl, rfl, rfl⟩

theorem trans (h : SameSlots p p') (h' : SameSlots p' p'') : SameSlots p p'' :=
  ⟨h'.size.trans h.size, h'.free.trans h.free, h'.sweepAt.trans h.sweepAt⟩

theorem occupied (h : SameSlots p p') : p'.Occupied i ↔ p.Occupied i := by
  rw [Occupied, Occupied, h.size, h.free]

end SameSlots

theorem sameSlots_modify (p : Page) (i : Nat) (f : Slot → Slot) : SameSlots p (p.modify i f) :=
  ⟨size_modify p i f, rfl, rfl⟩

/-! ## Taking nodes out -/

theorem slot_detach (hr : p.Rooted) (hp : (p.slot i).parent = some q) (j : Nat) :
    (p.detach i).slot j =
      if j = i then { p.slot i with parent := none }
      else if j = q then { p.slot q with children := (p.slot q).children.filter (· ≠ i) }
      else p.slot j := by
  have hqi := hr.parent_ne hp
  have hi := lt_of_parent hp
  have hq := (hr.up hp).2.1
  simp only [detach, hp, slot_modify, size_modify]
  by_cases hji : j = i
  · subst hji
    simp [hqi, hi]
  · by_cases hjq : j = q
    · subst hjq
      simp [hji, hq, Ne.symm hji]
    · simp [hji, hjq, Ne.symm hji, Ne.symm hjq]

theorem detach_of_root (hp : (p.slot i).parent = none) : p.detach i = p := by
  simp [detach, hp]

theorem parent_detach (hr : p.Rooted) (i j : Nat) :
    ((p.detach i).slot j).parent = if j = i then none else (p.slot j).parent := by
  cases hp : (p.slot i).parent with
  | none =>
    rw [detach_of_root hp]
    split
    · next h => rw [h, hp]
    · rfl
  | some q =>
    rw [slot_detach hr hp]
    split
    · rfl
    · split
      · next h => rw [h]
      · rfl

/-- What a node is does not change when one is taken out. -/
theorem content_detach (p : Page) (i j : Nat) :
    ((p.detach i).slot j).content = (p.slot j).content := by
  unfold detach
  split
  · rfl
  · simp only [slot_modify, size_modify]
    split <;> split <;> rfl

@[simp] theorem size_detach (p : Page) (i : Nat) : (p.detach i).slots.size = p.slots.size := by
  unfold detach
  split <;> simp

@[simp] theorem free_detach (p : Page) (i : Nat) : (p.detach i).free = p.free := by
  unfold detach
  split <;> simp

@[simp] theorem occupied_detach : (p.detach i).Occupied j ↔ p.Occupied j := by
  simp [Occupied]

theorem sameSlots_detach (p : Page) (i : Nat) : SameSlots p (p.detach i) := by
  unfold detach
  split
  · exact .refl p
  · exact (sameSlots_modify ..).trans (sameSlots_modify ..)

/-- What a chain of parents becomes when links are only cut. -/
theorem Grounded.of_cut (h : p.Grounded i)
    (hc : ∀ j, (p'.slot j).parent = none ∨ (p'.slot j).parent = (p.slot j).parent) :
    p'.Grounded i := by
  induction h with
  | @root i hp =>
    rcases hc i with h | h
    · exact .root h
    · exact .root (h.trans hp)
  | @step i q hp _ ih =>
    rcases hc i with h | h
    · exact .root h
    · exact .step (h.trans hp) ih

theorem children_detach (hr : p.Rooted) (i j : Nat) :
    ((p.detach i).slot j).children =
      if (p.slot i).parent = some j then (p.slot j).children.filter (· ≠ i)
      else (p.slot j).children := by
  cases hp : (p.slot i).parent with
  | none => simp [detach_of_root hp]
  | some q =>
    rw [slot_detach hr hp]
    by_cases hj : j = i
    · subst hj
      simp [hr.parent_ne hp]
    · by_cases hq : j = q
      · subst hq
        simp [hj]
      · simp [hj, hq, Ne.symm hq]

/-- The children that are left when a node is taken out. -/
theorem mem_children_detach (hr : p.Rooted) :
    j ∈ ((p.detach i).slot q).children ↔ j ∈ (p.slot q).children ∧ j ≠ i := by
  rw [children_detach hr]
  split
  · simp [List.mem_filter]
  · next h => exact ⟨fun hj => ⟨hj, fun he => h (he ▸ hr.down hj)⟩, And.left⟩

theorem Rooted.detach (hr : p.Rooted) (i : Nat) : (p.detach i).Rooted where
  up {j q} hj := by
    rw [parent_detach hr] at hj
    split at hj
    · cases hj
    · exact (hr.up hj).imp occupied_detach.2 occupied_detach.2
  down hj := by
    obtain ⟨hj, hji⟩ := (mem_children_detach hr).1 hj
    rw [parent_detach hr, if_neg hji]
    exact hr.down hj
  grounded j := by
    refine (hr.grounded j).of_cut fun l => ?_
    rw [parent_detach hr]
    split
    · exact .inl rfl
    · exact .inr rfl
  freeNodup := by simpa using hr.freeNodup
  freeLt hj := by simpa using hr.freeLt (by simpa using hj)

theorem Forest.detach (hf : p.Forest) (i : Nat) : (p.detach i).Forest := by
  have hr := hf.rooted.detach i
  refine ⟨fun {j q} hj => ?_, hr.down, fun q => ?_, hr.grounded, fun j hj => ?_, fun j hj => ?_,
    hr.freeNodup, hr.freeLt, fun {j} hj => ?_⟩
  · obtain ⟨h1, h2⟩ := hr.up hj
    refine ⟨h1, h2, (mem_children_detach hf.rooted).2 ?_⟩
    rw [parent_detach hf.rooted] at hj
    split at hj
    · cases hj
    · next hji => exact ⟨(hf.up hj).2.2, hji⟩
  · rw [children_detach hf.rooted]
    split
    · exact (hf.nodup q).filter _
    · exact hf.nodup q
  · rw [content_detach] at hj
    rw [children_detach hf.rooted, hf.leaf j hj]
    simp
  · rw [content_detach] at hj
    rw [parent_detach hf.rooted, hf.loose j hj]
    simp
  · have hj : j ∈ p.free := by simpa using hj
    have hfree : ¬ p.Occupied j := fun h => h.2 hj
    cases hp : (p.slot i).parent with
    | none => rw [detach_of_root hp, hf.vacant hj]
    | some q =>
      obtain ⟨hi, hq, -⟩ := hf.up hp
      rw [slot_detach hf.rooted hp, if_neg (fun h : j = i => hfree (h ▸ hi)),
        if_neg (fun h : j = q => hfree (h ▸ hq)), hf.vacant hj]

end LivePage.Page
