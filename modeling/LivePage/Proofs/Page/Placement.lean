import LivePage.Proofs.Page.Document
import LivePage.Proofs.Page.Refusal

/-!
# Where an insertion puts nodes

`Placed` says all that an insertion may do to a page: it takes the nodes it moves out of where they
were, gives them their new parent, and puts them directly before the reference among the children that
are left there. An insertion that passes its checks does exactly this (`Forest.placed_insertBefore`),
in whatever order child and reference stand before, because the reference is looked up among the
children without the child (`Forest.detach_placed`).
-/

namespace LivePage.Page

variable {p p' : Page} {j q parent child : Nat} {reference : Option Nat}

/-- The children of a node without one of them. -/
def childrenWithout (p : Page) (parent child : Nat) : List Nat :=
  (p.slot parent).children.filter (· ≠ child)

/-- What an insertion of `child` below `parent`, before `reference`, makes of a page, and what it
leaves. -/
structure Placed (p : Page) (parent child : Nat) (reference : Option Nat) (p' : Page) : Prop where
  /-- The nodes stand directly before the reference, or at the end, among the other children. -/
  children : ∃ A B, p.childrenWithout parent child = A ++ B ∧ B.head? = reference ∧
    (p'.slot parent).children = A ++ p.moved child ++ B
  /-- The child is gone from where it was. -/
  left {q : Nat} : (p.slot child).parent = some q → q ≠ parent →
    (p'.slot q).children = p.childrenWithout q child
  /-- A fragment has handed over its children. -/
  emptied : (p.slot child).content.type = .fragment → (p'.slot child).children = []
  /-- No other list of children has changed. -/
  others {j : Nat} : j ≠ parent → (p.slot child).parent ≠ some j →
    (j = child → (p.slot child).content.type ≠ .fragment) →
    (p'.slot j).children = (p.slot j).children
  /-- Links to parents follow. -/
  parent (j : Nat) :
    (p'.slot j).parent = if j ∈ p.moved child then some parent else (p.slot j).parent
  /-- What nodes are has not changed. -/
  content (j : Nat) : (p'.slot j).content = (p.slot j).content
  size : p'.slots.size = p.slots.size
  free : p'.free = p.free

/-! ## Children without one of them -/

/-- A node that is not among the children is not missed. -/
theorem childrenWithout_of_ne (hf : p.Forest) (h : (p.slot child).parent ≠ some parent) :
    p.childrenWithout parent child = (p.slot parent).children :=
  List.filter_eq_self.2 fun x hx => by
    have hne : x ≠ child := fun he => h (hf.down (he ▸ hx))
    simpa using hne

theorem children_detach_eq (hf : p.Forest) (parent child : Nat) :
    ((p.detach child).slot parent).children = p.childrenWithout parent child := by
  rw [children_detach hf.rooted]
  split
  · rfl
  · next h => exact (childrenWithout_of_ne hf h).symm

/-- A fragment has no parent, so taking it out first changes nothing of what it moves. -/
theorem moved_detach (hf : p.Forest) (child : Nat) : (p.detach child).moved child = p.moved child := by
  cases hp : (p.slot child).parent with
  | none => rw [detach_of_root hp]
  | some q =>
    have ht : (p.slot child).content.type ≠ .fragment := fun ht => by
      rw [hf.loose child ht] at hp
      cases hp
    rw [moved, moved, content_detach, if_neg ht, if_neg ht]

/-! ## Insertions -/

/-- The place that an insertion looks up splits the other children before the reference. -/
theorem insertionIndex_splits {k : Nat} (h : p.insertionIndex parent reference = some k) :
    ∃ A B, (p.slot parent).children = A ++ B ∧ B.head? = reference ∧ A.length = k := by
  cases reference with
  | none =>
    exact ⟨_, [], (List.append_nil _).symm, rfl, Option.some.inj h⟩
  | some r =>
    obtain ⟨hlt, hget, -⟩ := List.idxOf?_eq_some_iff.1 h
    refine ⟨_, _, (List.take_append_drop k _).symm, ?_, List.length_take_of_le (Nat.le_of_lt hlt)⟩
    rw [List.drop_eq_getElem_cons hlt, hget]
    rfl

/-- An insertion that passes its checks succeeds, and does what it is meant to do. -/
theorem Forest.placed_insertBefore (hf : p.Forest) (hq : p.Occupied parent)
    (hcon : (p.slot parent).content.type.isContainer) (hu : ¬ p.Up parent child)
    (hr : ∀ r, reference = some r → r ∈ (p.slot parent).children ∧ r ≠ child) :
    ∃ p', p.insertBefore parent child reference = (.ok (), p') ∧ p'.Forest ∧
      p.Placed parent child reference p' := by
  have hchild : p.isChildOrNone parent reference := by
    cases reference with
    | none => rfl
    | some r => simp [isChildOrNone, hf.down (hr r rfl).1]
  have hroot : ((p.detach child).slot child).parent = none := by rw [parent_detach hf.rooted, if_pos rfl]
  have hne : parent ≠ child := fun h => hu (h ▸ .refl p _)
  obtain ⟨k, hk⟩ : ∃ k, (p.detach child).insertionIndex parent reference = some k := by
    cases hk : (p.detach child).insertionIndex parent reference with
    | some k => exact ⟨k, rfl⟩
    | none =>
      have hself := ((insertionIndex_detach_eq_none_iff hf hchild).1 hk).1
      exact absurd rfl (hr child hself).2
  have hok := (insertBefore_iff hf).2 ⟨hcon, hu, hchild, k, hk, rfl⟩
  refine ⟨_, hok, (hf.insertBefore hq hok).1, ?_⟩
  obtain ⟨A, B, hsplit, hhead, rfl⟩ := insertionIndex_splits hk
  have hslot := slot_graft (hf.detach child) hroot (occupied_detach.2 hq) hne A.length
  simp only [moved_detach hf, content_detach, parent_detach hf.rooted] at hslot
  refine
    { children := ⟨A, B, (children_detach_eq hf parent child).symm.trans hsplit, hhead, ?_⟩
      left := fun {q} hp hqp => ?_
      emptied := fun ht => ?_
      others := fun {j} hj hp hc => ?_
      parent := fun j => ?_
      content := fun j => by rw [hslot]
      size := by simp
      free := by simp }
  · simp [hslot, hsplit]
  · simp [hslot, hqp, hf.parent_ne hp, children_detach hf.rooted, hp, childrenWithout]
  · simp [hslot, hne.symm, ht]
  · have hfrag : ¬ (j = child ∧ (p.slot child).content.type = .fragment) := fun h => hc h.1 h.2
    simp [hslot, hj, hfrag, children_detach hf.rooted, hp]
  · rw [hslot]
    by_cases hm : j ∈ p.moved child
    · simp [hm]
    · by_cases hj : j = child
      · subst hj
        -- a node that is not moved itself is a fragment, which had no parent before
        have ht : (p.slot j).content.type = .fragment := by
          by_contra ht
          exact hm (by simp [moved, ht])
        simp [hm, hf.loose j ht]
      · simp [hm, hj]

end LivePage.Page

namespace LivePage

variable {w : World} {n child : PageNode} {reference : Option PageNode}

/-- An insertion in a page of the world is one edit of that page. -/
theorem PageNode.run_insertBefore (hchild : child.page = n.page)
    (hreference : ∀ r, reference = some r → r.page = n.page) (w : World) :
    (n.insertBefore child reference).run w =
      (onPage n.page fun p => p.insertBefore n.slot child.slot (reference.map (·.slot))).run w := by
  have hshare : (n.sharesPage (some child) && n.sharesPage reference) = true := by
    cases reference with
    | none => simp [sharesPage, hchild]
    | some r => simp [sharesPage, hchild, hreference r rfl]
  rw [insertBefore, if_pos hshare]

/-- An insertion below an element or a fragment, of a node of the same page that is neither that node
nor above it, and before none or another one of its children, succeeds and does exactly what it is
meant to do. -/
theorem PageNode.insertBefore_places (hf : (w.page n.page).Forest)
    (hn : (w.page n.page).Occupied n.slot) (hcon : (w.slot n).content.type.isContainer)
    (hchild : child.page = n.page) (hu : ¬ (w.page n.page).Up n.slot child.slot)
    (hr : ∀ r, reference = some r →
      r.page = n.page ∧ r.slot ∈ (w.slot n).children ∧ r ≠ child) :
    ∃ page : Page,
      (n.insertBefore child reference).run w =
        .ok (.ok ()) { w with pages := w.pages.setIfInBounds n.page.index page } ∧
      page.Forest ∧
      (w.page n.page).Placed n.slot child.slot (reference.map (·.slot)) page := by
  have href : ∀ r, reference.map (·.slot) = some r →
      r ∈ ((w.page n.page).slot n.slot).children ∧ r ≠ child.slot := by
    intro r h
    obtain ⟨m, hm, rfl⟩ := Option.map_eq_some_iff.1 h
    obtain ⟨hpage, hmem, hne⟩ := hr m hm
    refine ⟨hmem, fun he => hne ?_⟩
    obtain ⟨_, _⟩ := m
    obtain ⟨_, _⟩ := child
    cases hpage.trans hchild.symm
    cases he
    rfl
  obtain ⟨page, hok, hforest, hplaced⟩ := hf.placed_insertBefore hn hcon hu href
  refine ⟨page, ?_, hforest, hplaced⟩
  rw [run_insertBefore hchild (fun r h => (hr r h).1), run_onPage, hok]

/-- The first item of a list is moved before its last one. -/
theorem PageNode.insertBefore_places_item :
    ∃ (d : Document) (page : Page), d.Reached ∧ (d.page.slot 0).children = [1, 2, 3] ∧
      (PageNode.insertBefore ⟨⟨0⟩, 0⟩ ⟨⟨0⟩, 1⟩ (some ⟨⟨0⟩, 3⟩)).run { pages := #[d.page] } =
        .ok (.ok ()) { pages := #[page] } ∧
      (page.slot 0).children = [2, 1, 3] := by
  have h₁ : Document.Reached _ := .step (o := .create (.element { tag := "ul" })) .empty (by decide) rfl
  have h₂ : Document.Reached _ := .step (o := .create (.text "a")) h₁ (by decide) rfl
  have h₃ : Document.Reached _ := .step (o := .create (.text "b")) h₂ (by decide) rfl
  have h₄ : Document.Reached _ := .step (o := .create (.text "c")) h₃ (by decide) rfl
  have h₅ : Document.Reached _ := .step (o := .insertBefore 0 1 none) h₄ (by decide) rfl
  have h₆ : Document.Reached _ := .step (o := .insertBefore 0 2 none) h₅ (by decide) rfl
  have h₇ : Document.Reached _ := .step (o := .insertBefore 0 3 none) h₆ (by decide) rfl
  generalize hd : ({ page := _, handles := _ } : Document) = d at h₇
  have hs : (d.page.slot 0).children = [1, 2, 3] := by rw [← hd]; rfl
  have hu : ¬ d.page.Up 0 1 := fun hu => absurd (hu.eq_of_root (by rw [← hd]; rfl)) (by decide)
  obtain ⟨page, hrun, -, hplaced⟩ :=
    @PageNode.insertBefore_places { pages := #[d.page] } ⟨⟨0⟩, 0⟩ ⟨⟨0⟩, 1⟩ (some ⟨⟨0⟩, 3⟩)
      h₇.sound.forest (h₇.sound.occupied (by rw [← hd]; decide)) (by rw [← hd]; rfl) rfl hu
      (by rintro r ⟨⟩; exact ⟨rfl, by rw [← hd]; decide, by decide⟩)
  refine ⟨d, page, h₇, hs, hrun, ?_⟩
  obtain ⟨A, B, hsplit, hhead, hchildren⟩ := hplaced.children
  have hmoved : d.page.moved 1 = [1] := by rw [← hd]; rfl
  have hothers : d.page.childrenWithout 0 1 = [2, 3] := by rw [← hd]; rfl
  have hsplit : [2, 3] = A ++ B := hothers.symm.trans hsplit
  have hhead : B.head? = some 3 := hhead
  have hchildren : (page.slot 0).children = A ++ d.page.moved 1 ++ B := hchildren
  rw [hchildren, hmoved]
  -- of the places among the others only the one between them has the reference behind it
  match A, hsplit with
  | [], hsplit => subst hsplit; cases hhead
  | [_], hsplit => cases hsplit; rfl
  | _ :: _ :: A, hsplit =>
    obtain ⟨-, -, -, rfl⟩ := by simpa [eq_comm] using hsplit
    cases hhead

end LivePage
