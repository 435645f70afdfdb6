import LivePage.Proofs.Page.Edit

/-!
# What inserting does to a page

Inserting a node without a parent is described by `graft`: it gives the nodes that the insertion
moves a new parent and puts them among its children. `insertBefore_iff` says when an insertion
succeeds and that it is this, once the node is out of where it was, and `slot_graft` what it changes
slot by slot. An insertion that fails may be given up after the nodes have got their new parent
(`insertBefore_leaves`); the links then still lead to roots (`Rooted.insertBefore`).
-/

namespace LivePage.Page

variable {p p' : Page} {i j q r k parent child : Nat}

/-- The nodes that inserting `child` moves. -/
def moved (p : Page) (child : Nat) : List Nat :=
  if (p.slot child).content.type = .fragment then (p.slot child).children else [child]

/-- The page after the nodes that inserting `child` moves have come below `parent`, at a place
among its children. -/
def graft (p : Page) (parent child index : Nat) : Page :=
  ((p.release child).2.adopt parent (p.moved child)).spliceChildren parent index (p.moved child)

theorem release_fst (p : Page) (child : Nat) : (p.release child).1 = p.moved child := by
  unfold release moved
  cases (p.slot child).content.type <;> simp

theorem slot_release (hc : (p.slot child).parent = none) (j : Nat) :
    (p.release child).2.slot j =
      if j = child ∧ (p.slot child).content.type = .fragment
        then { p.slot child with children := [] } else p.slot j := by
  unfold release
  cases ht : (p.slot child).content.type with
  | fragment =>
    simp only [slot_modify]
    by_cases hj : j = child
    · subst hj
      by_cases hlt : j < p.slots.size
      · simp [hlt]
      · have hv := slot_of_size_le (Nat.le_of_not_lt hlt)
        simp [hlt, hv, Slot.vacant]
    · simp [hj, Ne.symm hj]
  | element => simp [detach_of_root hc]
  | text => simp [detach_of_root hc]
  | comment => simp [detach_of_root hc]

theorem size_release (p : Page) (child : Nat) :
    (p.release child).2.slots.size = p.slots.size := by
  unfold release
  cases (p.slot child).content.type <;> simp

theorem free_release (p : Page) (child : Nat) : (p.release child).2.free = p.free := by
  unfold release
  cases (p.slot child).content.type <;> simp

@[simp] theorem size_adopt (p : Page) (parent : Nat) (nodes : List Nat) :
    (p.adopt parent nodes).slots.size = p.slots.size := by
  unfold adopt
  induction nodes generalizing p with
  | nil => rfl
  | cons i nodes ih => rw [List.foldl_cons, ih, size_modify]

@[simp] theorem free_adopt (p : Page) (parent : Nat) (nodes : List Nat) :
    (p.adopt parent nodes).free = p.free := by
  unfold adopt
  induction nodes generalizing p with
  | nil => rfl
  | cons i nodes ih => rw [List.foldl_cons, ih, free_modify]

theorem sameSlots_release (p : Page) (child : Nat) : SameSlots p (p.release child).2 := by
  unfold release
  split
  · exact sameSlots_modify ..
  · exact sameSlots_detach ..

theorem sameSlots_adopt (p : Page) (parent : Nat) (nodes : List Nat) :
    SameSlots p (p.adopt parent nodes) := by
  unfold adopt
  induction nodes generalizing p with
  | nil => exact .refl p
  | cons i nodes ih => exact (sameSlots_modify ..).trans (ih _)

theorem slot_adopt (p : Page) (parent : Nat) (nodes : List Nat) (j : Nat) :
    (p.adopt parent nodes).slot j =
      if j ∈ nodes ∧ j < p.slots.size then { p.slot j with parent := some parent }
      else p.slot j := by
  unfold adopt
  induction nodes generalizing p with
  | nil => simp
  | cons i nodes ih =>
    rw [List.foldl_cons, ih, size_modify, slot_modify]
    by_cases hj : j < p.slots.size
    · by_cases hij : i = j
      · by_cases hm : j ∈ nodes <;> simp [hij, hj, hm]
      · by_cases hm : j ∈ nodes <;> simp [hij, hj, hm, Ne.symm hij]
    · simp [hj]

@[simp] theorem size_graft (p : Page) (parent child index : Nat) :
    (p.graft parent child index).slots.size = p.slots.size := by
  simp [graft, spliceChildren, size_release]

@[simp] theorem free_graft (p : Page) (parent child index : Nat) :
    (p.graft parent child index).free = p.free := by
  simp [graft, spliceChildren, free_release]

@[simp] theorem occupied_graft : (p.graft parent child k).Occupied j ↔ p.Occupied j := by
  simp [Occupied]

/-- The nodes that are moved stand in occupied slots. -/
theorem Forest.occupied_of_mem_moved (hf : p.Forest) (h : j ∈ p.moved child) : p.Occupied j := by
  unfold moved at h
  split at h
  · exact (hf.up (hf.down h)).1
  · next ht =>
    obtain rfl := List.mem_singleton.1 h
    exact hf.occupied_of_type ht

theorem slot_graft (hf : p.Forest) (hc : (p.slot child).parent = none) (hq : p.Occupied parent)
    (hne : parent ≠ child) (k j : Nat) :
    (p.graft parent child k).slot j =
      { content := (p.slot j).content
        parent := if j ∈ p.moved child then some parent else (p.slot j).parent
        children :=
          if j = parent then (p.slot j).children.take k ++ p.moved child ++ (p.slot j).children.drop k
          else if j = child ∧ (p.slot child).content.type = .fragment then []
          else (p.slot j).children } := by
  have hlt : j ∈ p.moved child → j < p.slots.size := fun h => (hf.occupied_of_mem_moved h).1
  simp only [graft, spliceChildren, slot_modify, size_adopt, size_release, slot_adopt,
    slot_release hc]
  by_cases hjq : j = parent
  · subst hjq
    by_cases hm : j ∈ p.moved child <;> simp [hne, hq.1, hm]
  · have hqj : ¬ parent = j := fun h => hjq h.symm
    by_cases hm : j ∈ p.moved child
    · by_cases hjc : j = child ∧ (p.slot child).content.type = .fragment
      · obtain ⟨rfl, ht⟩ := hjc
        simp [hqj, hjq, hm, hlt hm, ht]
      · simp [hqj, hjq, hm, hlt hm, hjc]
    · by_cases hjc : j = child ∧ (p.slot child).content.type = .fragment
      · obtain ⟨rfl, ht⟩ := hjc
        simp [hqj, hjq, hm, ht]
      · simp [hqj, hjq, hm, hjc]

/-! ## Links still lead to roots

None of this needs the insertion to be carried through: it holds as soon as the nodes to move have
been taken out and have got their new parent.
-/

/-- What is moved is not above the place where it goes. -/
theorem Rooted.not_up_of_mem_moved (hr : p.Rooted) (hu : ¬ p.Up parent child)
    (h : j ∈ p.moved child) : ¬ p.Up parent j := by
  unfold moved at h
  split at h
  · exact fun hj => hu (hj.trans (.parent (hr.down h)))
  · obtain rfl := List.mem_singleton.1 h
    exact hu

theorem Rooted.occupied_of_mem_moved (hr : p.Rooted) (hc : p.Occupied child)
    (h : j ∈ p.moved child) : p.Occupied j := by
  unfold moved at h
  split at h
  · exact (hr.up (hr.down h)).1
  · obtain rfl := List.mem_singleton.1 h
    exact hc

/-- Nodes get a parent that none of them is above, and leave the children of others. -/
theorem Rooted.relink {nodes : List Nat} (hr : p.Rooted) (hsize : p'.slots.size = p.slots.size)
    (hfree : p'.free = p.free)
    (hparent : ∀ j, (p'.slot j).parent = if j ∈ nodes then some parent else (p.slot j).parent)
    (hchild : ∀ {q i}, i ∈ (p'.slot q).children →
      i ∈ nodes ∧ q = parent ∨ i ∉ nodes ∧ i ∈ (p.slot q).children)
    (hn : ∀ i ∈ nodes, p.Occupied i) (hq : p.Occupied parent)
    (hu : ∀ i ∈ nodes, ¬ p.Up parent i) : p'.Rooted where
  up {i q} hi := by
    simp only [Occupied, hsize, hfree]
    rw [hparent] at hi
    split at hi
    · next hm =>
      cases hi
      exact ⟨hn i hm, hq⟩
    · exact hr.up hi
  down hi := by
    rw [hparent]
    rcases hchild hi with ⟨hm, rfl⟩ | ⟨hm, hi⟩
    · rw [if_pos hm]
    · rw [if_neg hm]
      exact hr.down hi
  grounded i := by
    -- The chain from `parent` avoids the nodes; any other chain does so, or reaches `parent`.
    have hclear : ∀ i, p.Grounded i → (∀ m ∈ nodes, ¬ p.Up i m) → p'.Grounded i := by
      intro i hi
      induction hi with
      | @root i hp =>
        intro hm
        refine .root ?_
        rw [hparent, if_neg (fun h => hm i h (.refl p i)), hp]
      | @step i q hp _ ih =>
        intro hm
        refine .step (q := q) ?_ (ih fun m h hu => hm m h (.step hp hu))
        rw [hparent, if_neg (fun h => hm i h (.refl p i)), hp]
    have hground : p'.Grounded parent := hclear parent (hr.grounded parent) hu
    induction hr.grounded i with
    | @root i hp =>
      by_cases hm : i ∈ nodes
      · exact .step (by rw [hparent, if_pos hm]) hground
      · exact .root (by rw [hparent, if_neg hm, hp])
    | @step i q hp _ ih =>
      by_cases hm : i ∈ nodes
      · exact .step (by rw [hparent, if_pos hm]) hground
      · exact .step (by rw [hparent, if_neg hm, hp]) ih
  freeNodup := by
    rw [hfree]
    exact hr.freeNodup
  freeLt hi := by
    rw [hsize]
    exact hr.freeLt (by rwa [hfree] at hi)

/-- Only the links of what is moved are cut when it is taken out. -/
theorem parent_release (hr : p.Rooted) (hj : j ∉ p.moved child) :
    ((p.release child).2.slot j).parent = (p.slot j).parent := by
  unfold moved at hj
  unfold release
  split at hj
  · next ht =>
    simp only [ht, slot_modify]
    split <;> rfl
  · next ht =>
    split
    · next h => exact absurd h ht
    · rw [parent_detach hr, if_neg fun h => hj (List.mem_singleton.2 h)]

/-- What is moved is nobody's child while it is out. -/
theorem mem_children_release (hr : p.Rooted) (hi : i ∈ ((p.release child).2.slot q).children) :
    i ∉ p.moved child ∧ i ∈ (p.slot q).children := by
  unfold release at hi
  unfold moved
  split at hi
  · next ht =>
    simp only [slot_modify] at hi
    rw [if_pos ht]
    split at hi
    · cases hi
    · next hne =>
      refine ⟨fun hm => hne ?_, hi⟩
      have hq : some child = some q := (hr.down hm).symm.trans (hr.down hi)
      exact ⟨Option.some.inj hq, lt_of_child hi⟩
  · next ht =>
    rw [if_neg ht]
    obtain ⟨hi, hic⟩ := (mem_children_detach hr).1 hi
    exact ⟨fun hm => hic (List.mem_singleton.1 hm), hi⟩

section

variable (hr : p.Rooted) (hn : ∀ i ∈ p.moved child, p.Occupied i)
include hr hn

theorem parent_adopt_release (j : Nat) :
    (((p.release child).2.adopt parent (p.moved child)).slot j).parent =
      if j ∈ p.moved child then some parent else (p.slot j).parent := by
  rw [slot_adopt, size_release]
  by_cases hj : j ∈ p.moved child
  · simp [hj, (hn j hj).1]
  · simp [hj, parent_release hr hj]

omit hn in
theorem mem_children_adopt_release
    (hi : i ∈ (((p.release child).2.adopt parent (p.moved child)).slot q).children) :
    i ∉ p.moved child ∧ i ∈ (p.slot q).children := by
  rw [slot_adopt] at hi
  split at hi <;> exact mem_children_release hr hi

variable (hq : p.Occupied parent) (hu : ¬ p.Up parent child)
include hq hu

/-- An insertion that has gone so far, but does not find its place. -/
theorem Rooted.adopt_release : ((p.release child).2.adopt parent (p.moved child)).Rooted :=
  hr.relink (by simp [size_release]) (by simp [free_release]) (parent_adopt_release hr hn)
    (fun hi => .inr (mem_children_adopt_release hr hi)) hn hq fun _ => hr.not_up_of_mem_moved hu

/-- An insertion that is carried through. -/
theorem Rooted.graft (k : Nat) : (p.graft parent child k).Rooted := by
  refine hr.relink (by simp) (by simp) (fun j => ?_) (fun {q i} hi => ?_) hn hq
    fun _ => hr.not_up_of_mem_moved hu
  · rw [← parent_adopt_release hr hn, Page.graft, spliceChildren, slot_modify]
    split <;> rfl
  · rw [Page.graft, spliceChildren, slot_modify] at hi
    split at hi
    · next h =>
      simp only [List.mem_append, or_assoc] at hi
      rcases hi with hi | hm | hi
      · exact .inr (mem_children_adopt_release hr (List.mem_of_mem_take hi))
      · exact .inl ⟨hm, h.1.symm⟩
      · exact .inr (mem_children_adopt_release hr (List.mem_of_mem_drop hi))
    · exact .inr (mem_children_adopt_release hr hi)

end

/-! ## A graft keeps a forest -/

theorem Forest.nodup_moved (hf : p.Forest) (child : Nat) : (p.moved child).Nodup := by
  unfold moved
  split
  · exact hf.nodup child
  · exact List.nodup_singleton child

/-- No fragment is moved. -/
theorem Forest.type_of_mem_moved (hf : p.Forest) (h : j ∈ p.moved child) :
    (p.slot j).content.type ≠ .fragment := by
  intro ht
  unfold moved at h
  split at h
  · have := hf.down h
    rw [hf.loose j ht] at this
    cases this
  · next hn =>
    obtain rfl := List.mem_singleton.1 h
    exact hn ht

/-- What is moved has no parent yet, or the fragment. -/
theorem Forest.parent_of_mem_moved (hf : p.Forest) (hc : (p.slot child).parent = none)
    (h : j ∈ p.moved child) :
    (p.slot j).parent = none ∨
      (p.slot j).parent = some child ∧ (p.slot child).content.type = .fragment := by
  unfold moved at h
  split at h
  · next ht => exact .inr ⟨hf.down h, ht⟩
  · obtain rfl := List.mem_singleton.1 h
    exact .inl hc

theorem Forest.graft (hf : p.Forest) (hc : (p.slot child).parent = none)
    (hq : p.Occupied parent) (hcon : (p.slot parent).content.type.isContainer)
    (hu : ¬ p.Up parent child) (k : Nat) : (p.graft parent child k).Forest := by
  have hne : parent ≠ child := fun h => hu (h ▸ .refl p _)
  have hs := slot_graft hf hc hq hne k
  have hcontent : ∀ j, ((p.graft parent child k).slot j).content = (p.slot j).content := by
    simp [hs]
  have hparent : ∀ j, ((p.graft parent child k).slot j).parent
      = if j ∈ p.moved child then some parent else (p.slot j).parent := by
    simp [hs]
  have hchildren : ∀ j, ((p.graft parent child k).slot j).children
      = if j = parent then (p.slot j).children.take k ++ p.moved child ++ (p.slot j).children.drop k
        else if j = child ∧ (p.slot child).content.type = .fragment then []
        else (p.slot j).children := by
    simp [hs]
  have hmem : ∀ {l : List Nat} {x : Nat}, x ∈ l.take k ++ p.moved child ++ l.drop k ↔
      x ∈ l ∨ x ∈ p.moved child := by
    intro l x
    conv_rhs => rw [← List.take_append_drop k l]
    simp only [List.mem_append]
    grind
  have hr := hf.rooted.graft (fun _ => hf.occupied_of_mem_moved) hq hu k
  refine ⟨?_, hr.down, ?_, hr.grounded, ?_, ?_, hr.freeNodup, hr.freeLt, ?_⟩
  · intro i q hi
    obtain ⟨h1, h2⟩ := hr.up hi
    refine ⟨h1, h2, ?_⟩
    rw [hparent] at hi
    rw [hchildren]
    split at hi
    · next hm =>
      cases hi
      rw [if_pos rfl]
      exact hmem.2 (.inr hm)
    · next hm =>
      have hi := (hf.up hi).2.2
      split
      · exact hmem.2 (.inl hi)
      · split
        · next h =>
          refine absurd ?_ hm
          rw [moved, if_pos h.2, ← h.1]
          exact hi
        · exact hi
  · intro q
    rw [hchildren]
    split
    · next hqp =>
      subst hqp
      have hd : List.Disjoint (p.slot q).children (p.moved child) := by
        intro x hx hm
        have hx := hf.down hx
        rcases hf.parent_of_mem_moved hc hm with h | h
        · rw [h] at hx; cases hx
        · rw [h.1] at hx
          cases hx
          exact hne rfl
      have hp : (List.take k (p.slot q).children ++ p.moved child
          ++ List.drop k (p.slot q).children).Perm ((p.slot q).children ++ p.moved child) := by
        calc (List.take k (p.slot q).children ++ p.moved child ++ List.drop k (p.slot q).children)
            = List.take k (p.slot q).children
                ++ (p.moved child ++ List.drop k (p.slot q).children) := by
              rw [List.append_assoc]
          _ |>.Perm (List.take k (p.slot q).children
                ++ (List.drop k (p.slot q).children ++ p.moved child)) :=
              List.Perm.append_left _ List.perm_append_comm
          _ = (p.slot q).children ++ p.moved child := by
              rw [← List.append_assoc, List.take_append_drop]
      exact hp.nodup_iff.2 ((hf.nodup q).append (hf.nodup_moved child) hd)
    · split
      · exact List.nodup_nil
      · exact hf.nodup q
  · intro j hj
    rw [hcontent] at hj
    rw [hchildren, hf.leaf j hj, if_neg]
    · simp
    · rintro rfl
      rw [hcon] at hj
      cases hj
  · intro j hj
    rw [hcontent] at hj
    rw [hparent, if_neg (fun h => hf.type_of_mem_moved h hj), hf.loose j hj]
  · intro j hj
    have hj : j ∈ p.free := by simpa using hj
    have hfree : ¬ p.Occupied j := fun h => h.2 hj
    have hv := hf.vacant hj
    rw [hs, if_neg (fun h => hfree (hf.occupied_of_mem_moved h)), if_neg, hv]
    · simp [Slot.vacant]
    · rintro rfl
      exact hfree hq

/-! ## Inserting -/

theorem slot_parent_release_adopt (hc : (p.slot child).parent = none) (hne : parent ≠ child) :
    (((p.release child).2.adopt parent (p.moved child)).slot parent).children
      = (p.slot parent).children := by
  rw [slot_adopt, slot_release hc]
  simp only [hne, false_and, if_false]
  split <;> rfl

/-- The place at which a node is inserted: before the reference, or at the end. -/
def insertionIndex (p : Page) (parent : Nat) : Option Nat → Option Nat
  | none => some (p.slot parent).children.length
  | some r => (p.slot parent).children.idxOf? r

/-- What an insertion leaves of a page, whether it succeeds or fails: the page as it was, unless it
passes the checks; then either the nodes to move are out and have their new parent, or they stand in
their place as well. -/
theorem insertBefore_leaves (p : Page) (parent child : Nat) (reference : Option Nat) :
    (p.insertBefore parent child reference).2 = p ∨
      p.isInclusiveAncestor child parent = false ∧
        ((p.insertBefore parent child reference).2 =
            (p.release child).2.adopt parent (p.moved child) ∨
          ∃ k, (p.insertBefore parent child reference).2 = p.graft parent child k) := by
  unfold insertBefore
  by_cases hcon : (p.slot parent).content.type.isContainer
  swap
  · exact .inl (by simp [hcon])
  by_cases hanc : p.isInclusiveAncestor child parent = true
  · exact .inl (by simp [hcon, hanc])
  by_cases hr : p.isChildOrNone parent reference
  swap
  · exact .inl (by simp [hcon, hanc, hr])
  refine .inr ⟨by simpa using hanc, ?_⟩
  simp only [hcon, hanc, hr, Bool.not_true, Bool.false_eq_true, if_false, release_fst]
  split
  · exact .inr ⟨_, rfl⟩
  · split
    · exact .inl rfl
    · exact .inr ⟨_, rfl⟩

theorem sameSlots_insertBefore (p : Page) (parent child : Nat) (reference : Option Nat) :
    SameSlots p (p.insertBefore parent child reference).2 := by
  have hout : SameSlots p ((p.release child).2.adopt parent (p.moved child)) :=
    (sameSlots_release ..).trans (sameSlots_adopt ..)
  obtain h | ⟨-, h | ⟨k, h⟩⟩ := p.insertBefore_leaves parent child reference
  · rw [h]
    exact .refl p
  · rwa [h]
  · rw [h]
    exact hout.trans (sameSlots_modify ..)

theorem Rooted.insertBefore (hr : p.Rooted) (hq : p.Occupied parent) (hc : p.Occupied child)
    (reference : Option Nat) : (p.insertBefore parent child reference).2.Rooted := by
  have hn : ∀ i ∈ p.moved child, p.Occupied i := fun _ => hr.occupied_of_mem_moved hc
  obtain h | ⟨hanc, h⟩ := p.insertBefore_leaves parent child reference
  · rwa [h]
  · have hu : ¬ p.Up parent child := fun hu => by
      rw [hr.isInclusiveAncestor_iff.2 hu] at hanc
      cases hanc
    obtain h | ⟨k, h⟩ := h
    · rw [h]
      exact hr.adopt_release hn hq hu
    · rw [h]
      exact hr.graft hn hq hu k

/-- Releasing a node takes it out of where it is first. -/
theorem release_detach (hf : p.Forest) (child : Nat) :
    (p.detach child).release child = p.release child := by
  have hroot : ((p.detach child).slot child).parent = none := by rw [parent_detach hf.rooted, if_pos rfl]
  cases hp : (p.slot child).parent with
  | none => rw [detach_of_root hp]
  | some r =>
    have hcontent : ((p.detach child).slot child).content = (p.slot child).content := by
      rw [slot_detach hf.rooted hp, if_pos rfl]
    cases ht : (p.slot child).content.type with
    | fragment =>
      have := hf.loose child ht
      rw [hp] at this
      cases this
    | _ => simp only [release, hcontent, ht, detach_of_root hroot]

/-- When an insertion succeeds and what it does, wherever the node was before. -/
theorem insertBefore_iff (hf : p.Forest) {reference : Option Nat} :
    p.insertBefore parent child reference = (.ok (), p') ↔
      (p.slot parent).content.type.isContainer ∧ ¬ p.Up parent child ∧
        p.isChildOrNone parent reference ∧
        ∃ k, (p.detach child).insertionIndex parent reference = some k ∧
          p' = (p.detach child).graft parent child k := by
  have hroot : ((p.detach child).slot child).parent = none := by rw [parent_detach hf.rooted, if_pos rfl]
  unfold insertBefore
  by_cases hcon : (p.slot parent).content.type.isContainer
  swap
  · simp [hcon]
  by_cases hu : p.Up parent child
  · simp [hcon, hu, hf.rooted.isInclusiveAncestor_iff.2 hu]
  have hne : parent ≠ child := fun h => hu (h ▸ .refl p _)
  have hanc : p.isInclusiveAncestor child parent = false := by
    rwa [Bool.eq_false_iff, ne_eq, hf.rooted.isInclusiveAncestor_iff]
  by_cases hr : p.isChildOrNone parent reference
  swap
  · simp [hcon, hanc, hr]
  simp only [hcon, hanc, hu, hr, Bool.not_true, Bool.false_eq_true, if_false, ← release_detach hf,
    release_fst, slot_parent_release_adopt hroot hne, not_false_eq_true, true_and]
  cases reference with
  | none =>
    simp only [insertionIndex, Prod.mk.injEq, true_and, Option.some.injEq, exists_eq_left']
    exact eq_comm
  | some r =>
    simp only [insertionIndex]
    cases hidx : List.idxOf? r ((p.detach child).slot parent).children with
    | none => simp
    | some index =>
      simp only [Prod.mk.injEq, true_and, Option.some.injEq, exists_eq_left']
      exact eq_comm

/-- When inserting a node without a parent succeeds, and what it does. -/
theorem insertBefore_eq_graft (hf : p.Forest) (hc : (p.slot child).parent = none)
    {reference : Option Nat} :
    p.insertBefore parent child reference = (.ok (), p') ↔
      (p.slot parent).content.type.isContainer ∧ ¬ p.Up parent child ∧
        ∃ k, p.insertionIndex parent reference = some k ∧ p' = p.graft parent child k := by
  have hchild : ∀ k, p.insertionIndex parent reference = some k →
      p.isChildOrNone parent reference := by
    intro k hk
    cases reference with
    | none => rfl
    | some r =>
      have hr : r ∈ (p.slot parent).children := by
        by_contra hr
        rw [insertionIndex, List.idxOf?_eq_none_iff.2 hr] at hk
        cases hk
      simp [isChildOrNone, hf.down hr]
  rw [insertBefore_iff hf, detach_of_root hc]
  refine and_congr_right fun _ => and_congr_right fun _ => ⟨And.right, ?_⟩
  rintro ⟨k, hk, hp⟩
  exact ⟨hchild k hk, k, hk, hp⟩

end LivePage.Page
