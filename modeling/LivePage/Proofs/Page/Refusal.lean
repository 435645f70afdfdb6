import LivePage.Proofs.Page.Document

/-!
# What a failing edit leaves of a page

An insertion is checked before anything is moved, and only the place of the reference is looked up
afterwards. `insertBefore_refused_iff` lists the ways to fail: each of them leaves the page as it was,
but for a child that is to be put before itself. That one is taken out of the children of its parent
before the reference is looked up among them, and is not put back, so that the page is a forest no
longer (`not_forest_forsake`). Replacing children has no such order: the old children are gone when
the insertion is found to be impossible (`replaceChildren_refused_iff`).
-/

namespace LivePage.Page

variable {p p' : Page} {j q parent child : Nat} {reference : Option Nat} {e : PageError}

/-! ## A child that is put before itself -/

/-- The page after a child has been taken out of the children of its parent, to which it still has
its link. -/
def forsake (p : Page) (parent child : Nat) : Page :=
  p.modify parent fun s => { s with children := s.children.filter (· ≠ child) }

theorem slot_forsake (p : Page) (parent child j : Nat) :
    (p.forsake parent child).slot j =
      { p.slot j with
        children := if j = parent then (p.slot j).children.filter (· ≠ child)
          else (p.slot j).children } := by
  rw [forsake, slot_modify]
  by_cases hj : j = parent
  · subst hj
    by_cases hlt : j < p.slots.size
    · simp [hlt]
    · simp [slot_of_size_le (Nat.le_of_not_lt hlt), Slot.vacant]
  · simp [hj, Ne.symm hj]

/-- A child that is released and adopted again by its parent is no longer among its children. -/
theorem adopt_detach (hf : p.Forest) (hp : (p.slot child).parent = some parent) :
    (p.detach child).adopt parent [child] = p.forsake parent child := by
  have hne := hf.parent_ne hp
  have hself : p.slots[child]? = some (p.slot child) := by
    have hlt := lt_of_parent hp
    simp [slot_eq_getElem?, hlt]
  simp only [detach, hp, adopt, List.foldl_cons, List.foldl_nil, forsake, modify, mk.injEq, and_true]
  refine Array.ext_getElem? fun j => ?_
  simp only [Array.getElem?_modify]
  by_cases hj : child = j
  · subst hj
    simp [hne, hself, ← hp]
  · simp [hj]

/-- The link to the parent that is left makes that the page is no forest. -/
theorem not_forest_forsake (hp : (p.slot child).parent = some parent) :
    ¬ (p.forsake parent child).Forest := by
  intro hf
  have hmem := (hf.up (i := child) (q := parent) (by rw [slot_forsake]; exact hp)).2.2
  rw [slot_forsake] at hmem
  simp at hmem

/-! ## Failing insertions and removals -/

/-- The reference of an insertion is still found among the children when the node to insert is out of
where it was, unless it is that node. -/
theorem insertionIndex_detach_eq_none_iff (hf : p.Forest) (hr : p.isChildOrNone parent reference) :
    (p.detach child).insertionIndex parent reference = none ↔
      reference = some child ∧ (p.slot child).parent = some parent := by
  cases reference with
  | none => simp [insertionIndex]
  | some r =>
    have hr : (p.slot r).parent = some parent := by simpa [isChildOrNone] using hr
    have hmem : r ∈ ((p.detach child).slot parent).children ↔ r ≠ child := by
      rw [show r ∈ ((p.detach child).slot parent).children ↔
        ((p.detach child).slot r).parent = some parent from
          ⟨(hf.detach child).down, fun h => ((hf.detach child).up h).2.2⟩, parent_detach hf.rooted]
      by_cases h : r = child <;> simp [h, hr]
    rw [insertionIndex, List.idxOf?_eq_none_iff, hmem]
    constructor
    · intro h
      obtain rfl : r = child := not_not.1 h
      exact ⟨rfl, hr⟩
    · rintro ⟨h, -⟩
      simpa using h

/-- What an insertion that passes the checks comes to: the place of the reference is looked up when
the node is out of where it was. -/
theorem insertBefore_checked (hf : p.Forest) (hcon : (p.slot parent).content.type.isContainer)
    (hu : ¬ p.Up parent child) (hr : p.isChildOrNone parent reference) :
    p.insertBefore parent child reference =
      match (p.detach child).insertionIndex parent reference with
      | some k => (.ok (), (p.detach child).graft parent child k)
      | none => (.error .notAChild,
          ((p.detach child).release child).2.adopt parent ((p.detach child).moved child)) := by
  have hroot : ((p.detach child).slot child).parent = none := by rw [parent_detach hf.rooted, if_pos rfl]
  have hne : parent ≠ child := fun h => hu (h ▸ .refl p _)
  have hanc : p.isInclusiveAncestor child parent = false := by
    rwa [Bool.eq_false_iff, ne_eq, hf.rooted.isInclusiveAncestor_iff]
  simp only [insertBefore, hcon, hanc, hr, Bool.not_true, Bool.false_eq_true, if_false,
    ← release_detach hf, release_fst, slot_parent_release_adopt hroot hne]
  cases reference with
  | none => rfl
  | some r =>
    simp only [insertionIndex]
    cases List.idxOf? r ((p.detach child).slot parent).children <;> rfl

/-- The page that is left when the reference is not found: a fragment has no parent, so it is the
child itself that has been taken out. -/
theorem adopt_release_detach (hf : p.Forest) (hp : (p.slot child).parent = some parent) :
    ((p.detach child).release child).2.adopt parent ((p.detach child).moved child) =
      p.forsake parent child := by
  have htype : ((p.detach child).slot child).content.type ≠ .fragment := by
    rw [content_detach]
    intro ht
    rw [hf.loose child ht] at hp
    cases hp
  have hrelease : ((p.detach child).release child).2 = p.detach child := by
    have hroot : ((p.detach child).slot child).parent = none := by
      rw [parent_detach hf.rooted, if_pos rfl]
    unfold release
    split
    · next ht => exact absurd ht htype
    · exact detach_of_root hroot
  rw [hrelease, moved, if_neg htype, adopt_detach hf hp]

/-- When an insertion fails, and what is left of the page then. -/
theorem insertBefore_refused_iff (hf : p.Forest) :
    p.insertBefore parent child reference = (.error e, p') ↔
      ¬ (p.slot parent).content.type.isContainer ∧
          e = .notAContainer (p.slot parent).content.type ∧ p' = p ∨
        (p.slot parent).content.type.isContainer ∧
          (p.Up parent child ∧ e = .hierarchyRequest ∧ p' = p ∨
            ¬ p.Up parent child ∧
              (¬ p.isChildOrNone parent reference ∧ e = .notAChild ∧ p' = p ∨
                reference = some child ∧ (p.slot child).parent = some parent ∧ e = .notAChild ∧
                  p' = p.forsake parent child)) := by
  by_cases hcon : (p.slot parent).content.type.isContainer
  swap
  · simpa [insertBefore, hcon] using and_congr eq_comm eq_comm
  by_cases hu : p.Up parent child
  · simpa [insertBefore, hcon, hu, hf.rooted.isInclusiveAncestor_iff.2 hu] using and_congr eq_comm eq_comm
  have hanc : p.isInclusiveAncestor child parent = false := by
    rwa [Bool.eq_false_iff, ne_eq, hf.rooted.isInclusiveAncestor_iff]
  by_cases hr : p.isChildOrNone parent reference
  swap
  · have hself : ¬ (reference = some child ∧ (p.slot child).parent = some parent ∧
        e = .notAChild ∧ p' = p.forsake parent child) := by
      rintro ⟨rfl, hp, -⟩
      exact hr (by simp [isChildOrNone, hp])
    simp only [insertBefore, hcon, hanc, hu, hr, hself, Bool.not_false, Bool.not_true,
      Bool.false_eq_true, if_false, if_true, Prod.mk.injEq, Except.error.injEq, not_true,
      not_false_eq_true, true_and, false_and, false_or, or_false]
    exact and_congr eq_comm eq_comm
  have hindex : (p.detach child).insertionIndex parent reference = none ↔ _ :=
    insertionIndex_detach_eq_none_iff hf hr
  rw [insertBefore_checked hf hcon hu hr]
  cases hidx : (p.detach child).insertionIndex parent reference with
  | some k =>
    have hno : ¬ (reference = some child ∧ (p.slot child).parent = some parent) := by
      rw [← hindex, hidx]
      simp
    simp only [hcon, hu, hr, Prod.mk.injEq, reduceCtorEq, false_and, not_true, true_and, false_or,
      not_false_eq_true, false_iff]
    exact fun h => hno ⟨h.1, h.2.1⟩
  | none =>
    obtain ⟨rfl, hp⟩ := hindex.1 hidx
    simpa [hcon, hu, hr, hp, adopt_release_detach hf hp] using and_congr eq_comm eq_comm

/-- An insertion that fails leaves the page as it was, unless a child is put before itself. -/
theorem insertBefore_refused (hf : p.Forest)
    (h : p.insertBefore parent child reference = (.error e, p')) (hne : reference ≠ some child) :
    p' = p := by
  rcases (insertBefore_refused_iff hf).1 h with h | ⟨-, h | ⟨-, h | h⟩⟩
  · exact h.2.2
  · exact h.2.2
  · exact h.2.2
  · exact absurd h.1 hne

/-- A removal that fails leaves the page as it was. -/
theorem removeChild_refused_iff :
    p.removeChild parent child = (.error e, p') ↔
      (p.slot child).parent ≠ some parent ∧ e = .notAChild ∧ p' = p := by
  unfold removeChild
  split
  · next h => simp [h]
  · next h => simp [h, eq_comm]

/-! ## Failing replacements -/

/-- All children of a node can be taken out. -/
theorem Forest.removeChildren_children (hf : p.Forest) (q : Nat) :
    p.removeChildren q (p.slot q).children = (.ok (), p.detachAll (p.slot q).children) :=
  (removeChildren_eq hf).2 ⟨hf.nodup q, fun _ => hf.down, rfl⟩

/-- The siblings that follow a node up to another one, or to the end. -/
theorem Forest.followingUntil_eq_take (hf : p.Forest) {A B : List Nat} {i k : Nat}
    (hs : (p.slot q).children = A ++ i :: B) :
    p.followingUntil j k i = (B.takeWhile (· ≠ j)).take k := by
  induction k generalizing A B i with
  | zero => rfl
  | succ k ih =>
    rw [followingUntil, hf.nextSibling_eq hs]
    cases B with
    | nil => rfl
    | cons b B =>
      by_cases hb : b = j
      · simp [hb]
      · have hs' : (p.slot q).children = (A ++ [i]) ++ b :: B := by simp [hs]
        simp [hb, ih hs']

/-- Whatever stands behind a child up to another node can be taken out. -/
theorem Forest.removeChildren_between (hf : p.Forest) {start : Nat} (finish : Nat)
    (hp : (p.slot start).parent = some q) :
    p.removeChildren q (p.between start finish) =
      (.ok (), p.detachAll (p.between start finish)) := by
  refine (removeChildren_eq hf).2 ⟨?_, fun x hx => parent_of_mem_followingUntil hf hp hx, rfl⟩
  obtain ⟨A, B, hs⟩ := List.append_of_mem (hf.up hp).2.2
  have hB : B.Nodup := by
    have := hf.nodup q
    rw [hs] at this
    exact (List.nodup_cons.1 (List.nodup_append.1 this).2.1).2
  rw [between, hf.followingUntil_eq_take hs]
  exact hB.sublist ((List.take_sublist ..).trans (List.takeWhile_sublist _))

/-- When replacing the children of a node fails, and what is left of the page then. -/
theorem replaceChildren_refused_iff (hf : p.Forest) :
    p.replaceChildren parent child = (.error e, p') ↔
      ¬ (p.slot parent).content.type.isContainer ∧
          e = .notAContainer (p.slot parent).content.type ∧ p' = p ∨
        (p.slot parent).content.type.isContainer ∧ p.Up parent child ∧ e = .hierarchyRequest ∧
          p' = p.detachAll (p.slot parent).children := by
  have hn := hf.nodup parent
  have hl : ∀ x ∈ (p.slot parent).children, (p.slot x).parent = some parent := fun _ => hf.down
  have hup : (p.detachAll (p.slot parent).children).Up parent child ↔ p.Up parent child :=
    ⟨up_of_up_detachAll hf hn hl, up_detachAll_of_up hf hn hl⟩
  have hcontent : ((p.detachAll (p.slot parent).children).slot parent).content =
      (p.slot parent).content := by
    rw [slot_detachAll hf hn hl]
  simp only [replaceChildren, hf.removeChildren_children, insertBefore_refused_iff (hf.detachAll _),
    hup, hcontent, isChildOrNone, reduceCtorEq, false_and, or_false]
  rw [not_true, false_and, and_false, or_false]
  refine or_congr_left (and_congr_right fun hleaf => ?_)
  rw [hf.leaf parent (Bool.eq_false_iff.2 hleaf)]
  rfl

end LivePage.Page
