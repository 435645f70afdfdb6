import LivePage.Proofs.Page.Insertion

/-!
# What replacing children does to a page

Replacing takes some children out and puts others in. `slot_replace` gives the page after it slot by
slot, for any children taken out; between two siblings these are exactly the nodes that stand there
(`between_eq`).
-/

namespace LivePage.Page

variable {p p' : Page} {i j q r k child start finish : Nat} {l A B C : List Nat}

/-! ## Taking several nodes out -/

/-- The page after nodes have been taken out of their parents. -/
def detachAll (p : Page) (l : List Nat) : Page := l.foldl detach p

theorem Forest.detachAll (hf : p.Forest) (l : List Nat) : (p.detachAll l).Forest := by
  induction l generalizing p with
  | nil => exact hf
  | cons i l ih => exact ih (hf.detach i)

@[simp] theorem size_detachAll (p : Page) (l : List Nat) :
    (p.detachAll l).slots.size = p.slots.size := by
  induction l generalizing p with
  | nil => rfl
  | cons i l ih => exact (ih _).trans (size_detach p i)

@[simp] theorem free_detachAll (p : Page) (l : List Nat) : (p.detachAll l).free = p.free := by
  induction l generalizing p with
  | nil => rfl
  | cons i l ih => exact (ih _).trans (free_detach p i)

@[simp] theorem occupied_detachAll : (p.detachAll l).Occupied j ↔ p.Occupied j := by
  simp [Occupied]

theorem content_detachAll (hf : p.Forest) (l : List Nat) (j : Nat) :
    ((p.detachAll l).slot j).content = (p.slot j).content := by
  induction l generalizing p with
  | nil => rfl
  | cons i l ih => exact (ih (hf.detach i)).trans (content_detach p i j)

theorem slot_detachAll (hf : p.Forest) (hn : l.Nodup) (hl : ∀ x ∈ l, (p.slot x).parent = some q)
    (j : Nat) :
    (p.detachAll l).slot j =
      { content := (p.slot j).content
        parent := if j ∈ l then none else (p.slot j).parent
        children :=
          if j = q then (p.slot j).children.filter (· ∉ l) else (p.slot j).children } := by
  induction l generalizing p with
  | nil => simp [detachAll]
  | cons i l ih =>
    obtain ⟨hi, hn⟩ := List.nodup_cons.1 hn
    have hpi := hl i List.mem_cons_self
    have hl' : ∀ x ∈ l, ((p.detach i).slot x).parent = some q := by
      intro x hx
      rw [parent_detach hf.rooted, if_neg fun h : x = i => hi (h ▸ hx)]
      exact hl x (List.mem_cons_of_mem _ hx)
    have hqi := hf.parent_ne hpi
    rw [detachAll, List.foldl_cons]
    refine (ih (hf.detach i) hn hl').trans ?_
    rw [slot_detach hf.rooted hpi]
    by_cases hji : j = i
    · subst hji
      simp [Ne.symm hqi]
    · by_cases hjq : j = q
      · subst hjq
        simp only [hji, if_false, if_true, List.mem_cons, false_or, List.filter_filter,
          Slot.mk.injEq, true_and]
        refine List.filter_congr fun x _ => ?_
        by_cases hx : x = i <;> simp [hx]
      · simp [hji, hjq]

theorem removeChild_eq : p.removeChild q i = (.ok (), p') ↔
    (p.slot i).parent = some q ∧ p' = p.detach i := by
  unfold removeChild
  split
  · next h => simp [h, eq_comm]
  · next h => simp [h]

/-- When taking several children out succeeds, and what it does. -/
theorem removeChildren_eq (hf : p.Forest) : p.removeChildren q l = (.ok (), p') ↔
    l.Nodup ∧ (∀ x ∈ l, (p.slot x).parent = some q) ∧ p' = p.detachAll l := by
  induction l generalizing p with
  | nil => simp [removeChildren, detachAll, eq_comm]
  | cons i l ih =>
    rw [removeChildren]
    by_cases hp : (p.slot i).parent = some q
    · have hr : p.removeChild q i = (.ok (), p.detach i) := removeChild_eq.2 ⟨hp, rfl⟩
      rw [hr]
      simp only [ih (hf.detach i), parent_detach hf.rooted, List.nodup_cons, List.mem_cons,
        forall_eq_or_imp, hp, true_and]
      constructor
      · rintro ⟨hn, hl, rfl⟩
        have hi : i ∉ l := fun h => by simpa using hl i h
        refine ⟨⟨hi, hn⟩, fun x hx => ?_, rfl⟩
        have := hl x hx
        rwa [if_neg fun h : x = i => hi (h ▸ hx)] at this
      · rintro ⟨⟨hi, hn⟩, hl, rfl⟩
        refine ⟨hn, fun x hx => ?_, rfl⟩
        rw [if_neg fun h : x = i => hi (h ▸ hx)]
        exact hl x hx
    · have hr : p.removeChild q i = (.error .notAChild, p) := by simp [removeChild, hp]
      rw [hr]
      simp [hp]

theorem sameSlots_removeChild (p : Page) (parent child : Nat) :
    SameSlots p (p.removeChild parent child).2 := by
  unfold removeChild
  split
  · exact sameSlots_detach ..
  · exact .refl p

theorem Rooted.removeChild (hr : p.Rooted) (parent child : Nat) :
    (p.removeChild parent child).2.Rooted := by
  unfold Page.removeChild
  split
  · exact hr.detach child
  · exact hr

/-- Taking several children out up to a fault is taking out children of a page, one by one. -/
theorem removeChildren_induction {P : Page → Prop} (parent : Nat)
    (h : ∀ p child, P p → P (p.removeChild parent child).2) (hp : P p) (l : List Nat) :
    P (p.removeChildren parent l).2 := by
  induction l generalizing p with
  | nil => exact hp
  | cons child l ih =>
    have hchild := h p child hp
    unfold removeChildren
    split
    · next heq =>
      rw [heq] at hchild
      exact ih hchild
    · exact hchild

/-! ## Replacing -/

/-- The page after children have been taken out of `q` and a node without a parent has been put in
at a place among the others. -/
def replace (p : Page) (q : Nat) (l : List Nat) (child index : Nat) : Page :=
  (p.detachAll l).graft q child index

section

variable (hf : p.Forest) (hn : l.Nodup) (hl : ∀ x ∈ l, (p.slot x).parent = some q)
include hf hn hl

theorem moved_detachAll (hne : q ≠ child) : (p.detachAll l).moved child = p.moved child := by
  simp [moved, slot_detachAll hf hn hl, hne.symm]

theorem up_of_up_detachAll (h : (p.detachAll l).Up i j) : p.Up i j := by
  obtain ⟨k, h⟩ := h
  induction h with
  | refl i => exact .refl p i
  | step hp _ ih =>
    rw [slot_detachAll hf hn hl] at hp
    dsimp only at hp
    split at hp
    · cases hp
    · exact .step hp ih

theorem up_detachAll_of_up (h : p.Up q a) : (p.detachAll l).Up q a := by
  have key : ∀ {k i a}, p.Up q i → p.UpBy k i a → (p.detachAll l).Up i a := by
    intro k i a hi h
    induction h with
    | refl i => exact .refl _ i
    | @step i j a k hp _ ih =>
      refine .step (q := j) ?_ (ih (hi.trans (.parent hp)))
      rw [slot_detachAll hf hn hl]
      dsimp only
      rw [if_neg fun hil => hf.not_up_of_parent (hl i hil) hi]
      exact hp
  obtain ⟨k, h⟩ := h
  exact key (.refl p q) h

variable (hc : (p.slot child).parent = none)
include hc

theorem parent_detachAll_root : ((p.detachAll l).slot child).parent = none := by
  rw [slot_detachAll hf hn hl]
  dsimp only
  split
  · rfl
  · exact hc

theorem slot_replace (hq : p.Occupied q) (hne : q ≠ child) (k j : Nat) :
    (p.replace q l child k).slot j =
      { content := (p.slot j).content
        parent :=
          if j ∈ p.moved child then some q else if j ∈ l then none else (p.slot j).parent
        children :=
          if j = q then ((p.slot j).children.filter (· ∉ l)).take k ++ p.moved child
            ++ ((p.slot j).children.filter (· ∉ l)).drop k
          else if j = child ∧ (p.slot child).content.type = .fragment then []
          else (p.slot j).children } := by
  rw [replace, slot_graft (hf.detachAll l) (parent_detachAll_root hf hn hl hc)
    (occupied_detachAll.2 hq) hne, moved_detachAll hf hn hl hne]
  simp only [slot_detachAll hf hn hl]
  by_cases hj : j = q
  · subst hj
    simp
  · simp [hj]

theorem Forest.replace (hq : p.Occupied q) (hcon : (p.slot q).content.type.isContainer)
    (hu : ¬ p.Up q child) (k : Nat) : (p.replace q l child k).Forest := by
  refine (hf.detachAll l).graft (parent_detachAll_root hf hn hl hc) (occupied_detachAll.2 hq) ?_
    (fun h => hu (up_of_up_detachAll hf hn hl h)) k
  rw [slot_detachAll hf hn hl]
  exact hcon

end

@[simp] theorem occupied_replace : (p.replace q l child k).Occupied j ↔ p.Occupied j := by
  simp [replace]

/-! ## The nodes between two siblings -/

theorem idxOf?_append_cons {x : Nat} {X Y : List Nat} (hx : x ∉ X) :
    (X ++ x :: Y).idxOf? x = some X.length := by
  induction X with
  | nil => simp [List.idxOf?_cons]
  | cons y X ih =>
    simp only [List.mem_cons, not_or] at hx
    rw [List.cons_append, List.idxOf?_cons, ih hx.2]
    simp [Ne.symm hx.1]

theorem Forest.nextSibling_eq (hf : p.Forest) (hs : (p.slot q).children = A ++ i :: B) :
    p.nextSibling i = B.head? := by
  have hp : (p.slot i).parent = some q := hf.down (by rw [hs]; simp)
  have hi : i ∉ A := by
    have hn := hf.nodup q
    rw [hs] at hn
    exact fun h => (List.nodup_append.1 hn).2.2 i h i List.mem_cons_self rfl
  simp only [nextSibling, hp, hs, idxOf?_append_cons hi]
  rw [List.getElem?_append_right (by omega), Nat.add_sub_cancel_left]
  cases B <;> simp

theorem Forest.followingUntil_eq (hf : p.Forest)
    (hs : (p.slot q).children = A ++ i :: (B ++ finish :: C)) (hk : B.length < k) :
    p.followingUntil finish k i = B := by
  induction B generalizing A i k with
  | nil =>
    obtain ⟨k, rfl⟩ : ∃ m, k = m + 1 := ⟨k - 1, by simp at hk; omega⟩
    simp [followingUntil, hf.nextSibling_eq hs]
  | cons b B ih =>
    obtain ⟨k, rfl⟩ : ∃ m, k = m + 1 := ⟨k - 1, by simp at hk; omega⟩
    have hb : b ≠ finish := by
      have hn := hf.nodup q
      rw [hs] at hn
      rintro rfl
      simp [List.nodup_append, List.nodup_cons] at hn
    have hs' : (p.slot q).children = (A ++ [i]) ++ b :: (B ++ finish :: C) := by simp [hs]
    have hnext : p.nextSibling i = some b := by rw [hf.nextSibling_eq hs]; rfl
    simp only [followingUntil, hnext, hb, if_false]
    rw [ih hs' (by simpa using hk)]

/-- A node has no more children than the arena has slots. -/
theorem Forest.length_children_le (hf : p.Forest) (q : Nat) :
    (p.slot q).children.length ≤ p.slots.size := by
  have hsub : (p.slot q).children ⊆ List.range p.slots.size := fun x hx =>
    List.mem_range.2 (hf.up (hf.down hx)).1.1
  simpa using ((hf.nodup q).subperm hsub).length_le

/-- Between two siblings stand the nodes that the child list has between them. -/
theorem Forest.between_eq (hf : p.Forest)
    (hs : (p.slot q).children = A ++ start :: (B ++ finish :: C)) : p.between start finish = B := by
  refine hf.followingUntil_eq hs ?_
  have := hf.length_children_le q
  rw [hs] at this
  simp only [List.length_append, List.length_cons] at this
  omega

theorem parent_of_mem_followingUntil (hf : p.Forest) (hp : (p.slot i).parent = some q)
    (h : j ∈ p.followingUntil finish k i) : (p.slot j).parent = some q := by
  induction k generalizing i with
  | zero => simp [followingUntil] at h
  | succ k ih =>
    rw [followingUntil] at h
    cases hnext : p.nextSibling i with
    | none => simp [hnext] at h
    | some n =>
      have hn : (p.slot n).parent = some q := by
        simp only [nextSibling, hp] at hnext
        split at hnext
        · cases hnext
        · exact hf.down (List.mem_of_getElem? hnext)
      simp only [hnext] at h
      split at h
      · cases h
      · rcases List.mem_cons.1 h with rfl | h
        · exact hn
        · exact ih hn h

end LivePage.Page
