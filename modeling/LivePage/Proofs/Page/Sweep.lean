import LivePage.Proofs.Page.Edit

/-!
# What creating and reclaiming nodes does to a page

A sweep frees whole trees, so a page stays a forest, and it spares every tree of which a node is
held (`Rooted.not_mem_unreachable`). A node is created in a slot that was free, possibly after a sweep:
`created_spec` says what is left as it was.
-/

namespace LivePage.Page

variable {p : Page} {i j q a h : Nat} {held : List Nat} {content : Content}

/-! ## Sweeping -/

theorem mem_occupied : i ∈ p.occupied ↔ p.Occupied i := by
  simp [occupied, Occupied]

theorem mem_unreachable :
    i ∈ p.unreachable held ↔
      p.Occupied i ∧ ∀ h, p.Occupied h → h ∈ held → p.root h ≠ p.root i := by
  simp only [unreachable, List.mem_filter, mem_occupied, Bool.not_eq_eq_eq_not, Bool.not_true,
    List.contains_eq_mem, decide_eq_false_iff_not, List.mem_map, decide_eq_true_eq, not_exists,
    not_and, and_imp]

/-- A node shares its tree with a held one: some node is above both. -/
def Retained (p : Page) (held : List Nat) (i : Nat) : Prop :=
  ∃ h a, h ∈ held ∧ p.Occupied h ∧ p.Up h a ∧ p.Up i a

theorem Rooted.not_mem_unreachable (hr : p.Rooted) (hi : p.Retained held i) :
    i ∉ p.unreachable held := by
  obtain ⟨h, a, hh, ho, hha, hia⟩ := hi
  intro hi
  exact (mem_unreachable.1 hi).2 h ho hh
    ((hr.root_eq_of_up hha).trans (hr.root_eq_of_up hia).symm)

/-- The garbage is made of whole trees. -/
theorem Rooted.mem_unreachable_of_parent (hr : p.Rooted) (hp : (p.slot i).parent = some q) :
    i ∈ p.unreachable held ↔ q ∈ p.unreachable held := by
  have hroot : p.root i = p.root q := hr.root_eq_of_up (.parent hp)
  simp only [mem_unreachable, hroot, (hr.up hp).1, (hr.up hp).2]

theorem size_foldl_vacate (l : List Nat) (s : Array Slot) :
    (l.foldl (fun s i => s.setIfInBounds i .vacant) s).size = s.size := by
  induction l generalizing s with
  | nil => rfl
  | cons i l ih => rw [List.foldl_cons, ih, Array.size_setIfInBounds]

theorem getD_foldl_vacate (l : List Nat) (s : Array Slot) (j : Nat) :
    (l.foldl (fun s i => s.setIfInBounds i .vacant) s).getD j .vacant =
      if j ∈ l then .vacant else s.getD j .vacant := by
  induction l generalizing s with
  | nil => simp
  | cons i l ih =>
    rw [List.foldl_cons, ih]
    by_cases hm : j ∈ l
    · simp [hm]
    · simp only [Array.getD_eq_getD_getElem?, Array.getElem?_setIfInBounds, hm, if_false,
        List.mem_cons, or_false]
      by_cases hji : j = i
      · subst hji
        by_cases hlt : j < s.size <;> simp [hlt]
      · simp [hji, Ne.symm hji]

theorem slot_sweep (p : Page) (held : List Nat) (j : Nat) :
    (p.sweep held).slot j = if j ∈ p.unreachable held then .vacant else p.slot j :=
  getD_foldl_vacate _ _ _

@[simp] theorem size_sweep (p : Page) (held : List Nat) :
    (p.sweep held).slots.size = p.slots.size :=
  size_foldl_vacate _ _

theorem mem_free_sweep : i ∈ (p.sweep held).free ↔ i ∈ p.unreachable held ∨ i ∈ p.free := by
  simp [sweep]

theorem occupied_sweep :
    (p.sweep held).Occupied i ↔ p.Occupied i ∧ i ∉ p.unreachable held := by
  simp only [Occupied, size_sweep, mem_free_sweep, not_or]
  tauto

theorem Rooted.sweep (hr : p.Rooted) (held : List Nat) : (p.sweep held).Rooted := by
  have hs := slot_sweep p held
  refine ⟨fun {i q} hi => ?_, fun {q i} hi => ?_, fun i => ?_, ?_, fun {i} hi => ?_⟩
  · rw [hs] at hi
    split at hi
    · cases hi
    · next hn =>
      obtain ⟨h1, h2⟩ := hr.up hi
      exact ⟨occupied_sweep.2 ⟨h1, hn⟩,
        occupied_sweep.2 ⟨h2, fun h => hn ((hr.mem_unreachable_of_parent hi).2 h)⟩⟩
  · rw [hs] at hi
    split at hi
    · cases hi
    · next hn =>
      have hi := hr.down hi
      rwa [hs, if_neg fun h => hn ((hr.mem_unreachable_of_parent hi).1 h)]
  · refine (hr.grounded i).of_cut fun j => ?_
    rw [hs]
    split
    · exact .inl rfl
    · exact .inr rfl
  · have hn : (p.unreachable held).Nodup :=
      ((List.nodup_range).filter _).filter _
    refine List.Nodup.append (List.nodup_reverse.2 hn) hr.freeNodup ?_
    intro i hi hfree
    exact (mem_unreachable.1 (List.mem_reverse.1 hi)).1.2 hfree
  · rw [size_sweep]
    rcases mem_free_sweep.1 hi with h | h
    · exact (mem_unreachable.1 h).1.1
    · exact hr.freeLt h

theorem Forest.sweep (hf : p.Forest) (held : List Nat) : (p.sweep held).Forest := by
  have hr := hf.rooted.sweep held
  have hs := slot_sweep p held
  refine ⟨fun {i q} hi => ?_, hr.down, fun q => ?_, hr.grounded, fun i hi => ?_, fun i hi => ?_,
    hr.freeNodup, hr.freeLt, fun {i} hi => ?_⟩
  · obtain ⟨h1, h2⟩ := hr.up hi
    refine ⟨h1, h2, ?_⟩
    rw [hs, if_neg (occupied_sweep.1 h1).2] at hi
    rw [hs, if_neg (occupied_sweep.1 h2).2]
    exact (hf.up hi).2.2
  · rw [hs]
    split
    · exact List.nodup_nil
    · exact hf.nodup q
  · rw [hs] at hi ⊢
    split
    · rfl
    · next hn =>
      rw [if_neg hn] at hi
      exact hf.leaf i hi
  · rw [hs] at hi ⊢
    split
    · rfl
    · next hn =>
      rw [if_neg hn] at hi
      exact hf.loose i hi
  · rw [hs]
    split
    · rfl
    · next hn => exact hf.vacant ((mem_free_sweep.1 hi).resolve_left hn)

theorem rooted_sweepAt (hr : p.Rooted) (n : Nat) : ({ p with sweepAt := n } : Page).Rooted where
  up := hr.up
  down := hr.down
  grounded i := (hr.grounded i).of_cut fun _ => .inr rfl
  freeNodup := hr.freeNodup
  freeLt := hr.freeLt

theorem forest_sweepAt (hf : p.Forest) (n : Nat) : ({ p with sweepAt := n } : Page).Forest where
  up := hf.up
  down := hf.down
  nodup := hf.nodup
  grounded := (rooted_sweepAt hf.rooted n).grounded
  leaf := hf.leaf
  loose := hf.loose
  freeNodup := hf.freeNodup
  freeLt := hf.freeLt
  vacant := hf.vacant

theorem Rooted.reclaim (hr : p.Rooted) (held : List Nat) : (p.reclaim held).Rooted :=
  rooted_sweepAt (hr.sweep held) _

theorem Forest.reclaim (hf : p.Forest) (held : List Nat) : (p.reclaim held).Forest :=
  forest_sweepAt (hf.sweep held) _

/-! ## Creating -/

theorem place_fst_not_occupied (p : Page) (content : Content) :
    ¬ p.Occupied (p.place content).1 := by
  unfold place
  split
  · next i rest h => exact fun ho => ho.2 (by rw [h]; exact List.mem_cons_self)
  · exact fun ho => absurd ho.1 (Nat.lt_irrefl _)

theorem slot_place (hr : p.Rooted) (content : Content) (j : Nat) :
    (p.place content).2.slot j = if j = (p.place content).1 then { content } else p.slot j := by
  unfold place
  split
  · next i rest h =>
    have hi : i < p.slots.size := hr.freeLt (by rw [h]; exact List.mem_cons_self)
    simp only [slot_eq_getElem?, Array.getElem?_setIfInBounds]
    by_cases hj : j = i
    · simp [hj, hi]
    · simp [hj, Ne.symm hj]
  · simp only [slot_eq_getElem?, Array.getElem?_push]
    by_cases hj : j = p.slots.size <;> simp [hj]

theorem occupied_place (hr : p.Rooted) (content : Content) :
    (p.place content).2.Occupied j ↔ p.Occupied j ∨ j = (p.place content).1 := by
  unfold place Occupied
  split
  · next i rest h =>
    have hi : i < p.slots.size := hr.freeLt (by rw [h]; exact List.mem_cons_self)
    have hn : i ∉ rest := by
      have := hr.freeNodup
      rw [h] at this
      exact (List.nodup_cons.1 this).1
    simp only [Array.size_setIfInBounds, h, List.mem_cons, not_or]
    constructor
    · rintro ⟨h1, h2⟩
      by_cases hj : j = i
      · exact .inr hj
      · exact .inl ⟨h1, hj, h2⟩
    · rintro (⟨h1, -, h2⟩ | rfl)
      · exact ⟨h1, h2⟩
      · exact ⟨hi, hn⟩
  · next h =>
    simp only [Array.size_push, h, List.not_mem_nil, not_false_eq_true, and_true]
    omega

theorem Rooted.place (hr : p.Rooted) (content : Content) : (p.place content).2.Rooted := by
  have hs := slot_place hr content
  have ho := place_fst_not_occupied p content
  refine ⟨fun {j q} hj => ?_, fun {q j} hj => ?_, fun j => ?_, ?_, fun {j} hj => ?_⟩
  · rw [hs] at hj
    split at hj
    · cases hj
    · exact (hr.up hj).imp (fun h => (occupied_place hr content).2 (.inl h))
        fun h => (occupied_place hr content).2 (.inl h)
  · rw [hs] at hj
    split at hj
    · cases hj
    · have hj := hr.down hj
      rwa [hs, if_neg]
      rintro rfl
      exact ho (hr.up hj).1
  · refine (hr.grounded j).of_cut fun l => ?_
    rw [hs]
    split
    · exact .inl rfl
    · exact .inr rfl
  · unfold Page.place
    split
    · next l rest h =>
      have := hr.freeNodup
      rw [h] at this
      exact (List.nodup_cons.1 this).2
    · exact hr.freeNodup
  · unfold Page.place at hj ⊢
    split at hj
    · next l rest h =>
      simp only [Array.size_setIfInBounds]
      exact hr.freeLt (by rw [h]; exact List.mem_cons_of_mem _ hj)
    · next h => simp [h] at hj

theorem Forest.place (hf : p.Forest) (content : Content) : (p.place content).2.Forest := by
  have hr := hf.rooted.place content
  have hs := slot_place hf.rooted content
  have ho := place_fst_not_occupied p content
  refine ⟨fun {j q} hj => ?_, hr.down, fun q => ?_, hr.grounded, fun j hj => ?_, fun j hj => ?_,
    hr.freeNodup, hr.freeLt, fun {j} hj => ?_⟩
  · obtain ⟨h1, h2⟩ := hr.up hj
    refine ⟨h1, h2, ?_⟩
    rw [hs] at hj
    split at hj
    · cases hj
    · obtain ⟨-, hq, hmem⟩ := hf.up hj
      rwa [hs, if_neg]
      rintro rfl
      exact ho hq
  · rw [hs]
    split
    · exact List.nodup_nil
    · exact hf.nodup q
  · rw [hs] at hj ⊢
    split
    · rfl
    · next hn =>
      rw [if_neg hn] at hj
      exact hf.leaf j hj
  · rw [hs] at hj ⊢
    split
    · rfl
    · next hn =>
      rw [if_neg hn] at hj
      exact hf.loose j hj
  · have hjf : j ∈ p.free := by
      unfold Page.place at hj
      split at hj
      · next l rest h => rw [h]; exact List.mem_cons_of_mem _ hj
      · exact hj
    rw [hs, if_neg, hf.vacant hjf]
    rintro rfl
    have : (p.place content).2.Occupied (p.place content).1 :=
      (occupied_place hf.rooted content).2 (.inr rfl)
    exact this.2 hj

/-- The page after a creation, and the slot of the new node. -/
def created (p : Page) (held : List Nat) (content : Content) : Nat × Page :=
  (if p.isFull then p.reclaim held else p).place content

theorem Rooted.created (hr : p.Rooted) (held : List Nat) (content : Content) :
    (p.created held content).2.Rooted := by
  unfold Page.created
  split
  · exact (hr.reclaim held).place content
  · exact hr.place content

theorem Forest.created (hf : p.Forest) (held : List Nat) (content : Content) :
    (p.created held content).2.Forest := by
  unfold Page.created
  split
  · exact (hf.reclaim held).place content
  · exact hf.place content

/-- What a creation leaves: the new node stands in a slot that held nothing worth keeping, and
every other node in use is one that was there before. -/
structure Created (p : Page) (held : List Nat) (content : Content) (i : Nat) (p' : Page) :
    Prop where
  slot_self : p'.slot i = { content }
  occupied_self : p'.Occupied i
  ne_of_retained {j : Nat} : p.Occupied j → p.Retained held j → j ≠ i
  slot_of_retained {j : Nat} : p.Occupied j → p.Retained held j →
    p'.slot j = p.slot j ∧ p'.Occupied j
  of_occupied {j : Nat} : p'.Occupied j → j ≠ i → p.Occupied j ∧ p'.slot j = p.slot j

theorem created_spec (hr : p.Rooted) (held : List Nat) (content : Content) :
    p.Created held content (p.created held content).1 (p.created held content).2 := by
  have key : ∀ s : Page, s.Rooted →
      (∀ j, p.Occupied j → p.Retained held j → s.slot j = p.slot j ∧ s.Occupied j) →
      (∀ j, s.Occupied j → p.Occupied j ∧ s.slot j = p.slot j) →
      p.Created held content (s.place content).1 (s.place content).2 := by
    intro s hs hkept hold
    have hno := place_fst_not_occupied s content
    refine ⟨by rw [slot_place hs, if_pos rfl], (occupied_place hs content).2 (.inr rfl), ?_, ?_, ?_⟩
    · rintro j ho hi rfl
      exact hno (hkept _ ho hi).2
    · intro j ho hi
      obtain ⟨h1, h2⟩ := hkept j ho hi
      refine ⟨?_, (occupied_place hs content).2 (.inl h2)⟩
      rw [slot_place hs, if_neg, h1]
      rintro rfl
      exact hno h2
    · intro j ho hj
      have ho := ((occupied_place hs content).1 ho).resolve_right hj
      rw [slot_place hs, if_neg hj]
      exact hold j ho
  unfold created
  split
  · refine key _ (hr.reclaim held) ?_ ?_
    · intro j ho hi
      have hn := hr.not_mem_unreachable hi
      refine ⟨?_, occupied_sweep.2 ⟨ho, hn⟩⟩
      show (p.sweep held).slot j = p.slot j
      rw [slot_sweep, if_neg hn]
    · intro j ho
      obtain ⟨ho, hn⟩ := occupied_sweep.1 (show (p.sweep held).Occupied j from ho)
      refine ⟨ho, ?_⟩
      show (p.sweep held).slot j = p.slot j
      rw [slot_sweep, if_neg hn]
  · exact key p hr (fun j ho _ => ⟨rfl, ho⟩) fun j ho => ⟨ho, rfl⟩

end LivePage.Page
