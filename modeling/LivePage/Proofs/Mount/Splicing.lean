import LivePage.Proofs.Mount.Placing
import LivePage.Proofs.Page.Between
import LivePage.Proofs.Page.Placement

/-!
# What replacing the contents of a region changes

`Spliced` says all that a replacement between two siblings may do to a page. Replacing the contents of
a region does exactly this (`RegionId.splice_replaces`): the nodes between the comments are found by
going from sibling to sibling, and the closing comment is still found behind the opening one when they
are gone (`Forest.insertionIndex_between`). Content that is above the place cannot be put there, and
neither can the parent of the comments itself (`RegionId.not_splice_parent`).
-/

namespace LivePage.Page

variable {p : Page} {i j q child start finish : Nat} {A B C : List Nat}

/-- What replacing the nodes `B` between the children `start` and `finish` of `q` by `child` makes of a
page, and what it leaves. -/
structure Spliced (p : Page) (q child start finish : Nat) (A B C : List Nat) (p' : Page) : Prop where
  children : (p'.slot q).children = A ++ start :: (p.moved child ++ finish :: C)
  /-- What is taken out stands alone. -/
  removed {i : Nat} : i ∈ B → (p'.slot i).parent = none
  /-- Everything at or below what is taken out has kept its children. -/
  subtrees {i j : Nat} : i ∈ B → p.Up j i → (p'.slot j).children = (p.slot j).children
  inserted {i : Nat} : i ∈ p.moved child → (p'.slot i).parent = some q
  /-- A fragment has handed over its children. -/
  emptied : (p.slot child).content.type = .fragment → (p'.slot child).children = []
  /-- No other link has changed. -/
  parent {j : Nat} : j ∉ B → j ∉ p.moved child → (p'.slot j).parent = (p.slot j).parent
  others {j : Nat} : j ≠ q → (j = child → (p.slot child).content.type ≠ .fragment) →
    (p'.slot j).children = (p.slot j).children
  /-- What nodes are has not changed. -/
  content (j : Nat) : (p'.slot j).content = (p.slot j).content
  size : p'.slots.size = p.slots.size
  free : p'.free = p.free

section

variable (hf : p.Forest) (hs : (p.slot q).children = A ++ start :: (B ++ finish :: C))
include hf hs

theorem Forest.nodup_between : B.Nodup := by
  have h := hf.nodup q
  rw [hs] at h
  exact (List.nodup_append.1 (List.nodup_cons.1 (List.nodup_append.1 h).2.1).2).1

theorem Forest.parent_between (hi : i ∈ B) : (p.slot i).parent = some q :=
  hf.down (by rw [hs]; simp [hi])

/-- What is left of the children when the nodes between two of them are taken out. -/
theorem Forest.children_detachAll_between :
    ((p.detachAll B).slot q).children = (A ++ [start]) ++ finish :: C := by
  rw [slot_detachAll hf (hf.nodup_between hs) fun _ => hf.parent_between hs]
  simp only [if_true, hs]
  exact filter_between (hs ▸ hf.nodup q)

/-- The second of two siblings is found behind the first one when what stands between them is gone. -/
theorem Forest.insertionIndex_between :
    (p.detachAll B).insertionIndex q (some finish) = some (A ++ [start]).length := by
  have hchildren := hf.children_detachAll_between hs
  have hn := (hf.detachAll B).nodup q
  rw [hchildren] at hn
  rw [insertionIndex, hchildren]
  exact idxOf?_append_cons fun h => (List.nodup_append.1 hn).2.2 finish h finish List.mem_cons_self rfl

/-- Replacing what stands between two siblings does nothing else. -/
theorem Forest.spliced_replace (hc : (p.slot child).parent = none) (hu : ¬ p.Up q child) :
    p.Spliced q child start finish A B C (p.replace q B child (A ++ [start]).length) := by
  have hne : q ≠ child := fun h => hu (h ▸ .refl p _)
  have hq : p.Occupied q :=
    (hf.up (i := start) (hf.down (by rw [hs]; simp))).2.1
  have hslot := slot_replace hf (hf.nodup_between hs) (fun _ => hf.parent_between hs) hc hq hne
    (A ++ [start]).length
  have hothers : ∀ {j}, j ≠ q → (j = child → (p.slot child).content.type ≠ .fragment) →
      ((p.replace q B child (A ++ [start]).length).slot j).children = (p.slot j).children := by
    intro j hj hchild
    have hfrag : ¬ (j = child ∧ (p.slot child).content.type = .fragment) := fun h => hchild h.1 h.2
    rw [hslot]
    simp [hj, hfrag]
  refine
    { children := ?_
      removed := fun {i} hi => ?_
      subtrees := fun {i j} hi hj => hothers ?_ ?_
      inserted := fun hi => by rw [hslot]; simp [hi]
      emptied := fun ht => by rw [hslot]; simp [hne.symm, ht]
      parent := fun hj hm => by rw [hslot]; simp [hj, hm]
      others := hothers
      content := fun j => by rw [hslot]
      size := (size_graft ..).trans (size_detachAll ..)
      free := (free_graft ..).trans (free_detachAll ..) }
  · rw [hslot]
    simp only [if_true, hs, filter_between (hs ▸ hf.nodup q), List.take_left, List.drop_left]
    simp
  · have hm : i ∉ p.moved child := fun hm => by
      have hp := hf.parent_between hs hi
      rcases hf.parent_of_mem_moved hc hm with h | h
      · rw [h] at hp; cases hp
      · rw [h.1] at hp
        cases hp
        exact hne rfl
    rw [hslot]
    simp [hm, hi]
  · rintro rfl
    exact hf.not_up_of_parent (hf.parent_between hs hi) hj
  · rintro rfl -
    -- the child stands alone, so it would be one of the nodes that have a parent
    obtain rfl := hj.eq_of_root hc
    rw [hf.parent_between hs hi] at hc
    cases hc

end

end LivePage.Page

namespace LivePage

variable {w : World} {r : RegionId} {region : Region} {child : PageNode}

/-- A region of which the opening comment has no parent is not replaced. -/
theorem RegionId.run_splice_of_root (hr : w.regions[r.index]? = some region)
    (hp : (w.slot region.start).parent = none) : (r.splice child).run w = .ok (.ok ()) w := by
  have hparent : region.start.parent? w = none := by simp [PageNode.parent?, hp]
  rw [RegionId.splice, ok_get_bind]
  simp only [World.region_eq hr, hparent]
  exact ok_pure.2 ⟨rfl, rfl⟩

/-- The contents of a region are what stands between its comments. -/
theorem World.contents_reparented (hr : w.regions[r.index]? = some region)
    {q : PageNode} {page : Page} (hq : region.start.page = q.page)
    (hlt : q.page.index < w.pages.size) :
    ((w.reparented r q).withPage q.page page).contents r =
      (page.between region.start.slot region.finish.slot).map fun slot => ⟨q.page, slot⟩ := by
  have hregion : ((w.reparented r q).withPage q.page page).region r = { region with parent := q } := by
    refine World.region_eq ?_
    show (w.regions.modify r.index _)[r.index]? = _
    rw [Array.getElem?_modify, if_pos rfl, hr]
    rfl
  rw [World.contents, hregion]
  simp only [hq]
  rw [World.page_withPage_self]
  exact hlt

/-- Replacing the contents of a region by a node of its page without a parent, which is neither the
parent of the comments nor above it, succeeds, replaces what stands between the comments and nothing
else, and the contents are then what has been put in. A region of which the opening comment has no
parent is left alone. -/
theorem RegionId.splice_replaces (hr : w.regions[r.index]? = some region) :
    (∀ (q : PageNode) (A B C : List Nat), (w.page q.page).Forest → region.start.page = q.page →
      region.finish.page = q.page →
      (w.slot q).children = A ++ region.start.slot :: (B ++ region.finish.slot :: C) →
      child.page = q.page → (w.slot child).parent = none →
      ¬ (w.page q.page).Up q.slot child.slot →
      ∃ page : Page,
        (r.splice child).run w = .ok (.ok ()) ((w.reparented r q).withPage q.page page) ∧
        page.Forest ∧
        (w.page q.page).Spliced q.slot child.slot region.start.slot region.finish.slot A B C page ∧
        ((w.reparented r q).withPage q.page page).contents r =
          ((w.page q.page).moved child.slot).map fun slot => ⟨q.page, slot⟩) ∧
    ((w.slot region.start).parent = none → (r.splice child).run w = .ok (.ok ()) w) := by
  refine ⟨fun q A B C hf hstart hfinish hs hchild hc hu => ?_, run_splice_of_root hr⟩
  have hc' : ((w.page q.page).slot child.slot).parent = none := by rwa [World.slot, hchild] at hc
  have hparent : ((w.page q.page).slot region.start.slot).parent = some q.slot :=
    hf.down (show region.start.slot ∈ (w.slot q).children by rw [hs]; simp)
  have hcon : (w.slot q).content.type.isContainer := by
    by_contra hcon
    have := hf.leaf q.slot (Bool.eq_false_iff.2 hcon)
    rw [show (w.page q.page).slot q.slot = w.slot q from rfl, hs] at this
    simp at this
  have hbetween := hf.between_eq hs
  have hn := hf.nodup_between hs
  have hl : ∀ i ∈ B, ((w.page q.page).slot i).parent = some q.slot := fun _ => hf.parent_between hs
  have hspliced := hf.spliced_replace hs hc' hu
  have hforest := hf.replace hn hl hc' (hf.up hparent).2.1 hcon hu (A ++ [region.start.slot]).length
  have hfits : w.Fits q B child :=
    ⟨hchild, hn, hl, hcon, fun h => hu (Page.up_of_up_detachAll hf hn hl h)⟩
  have hrun : (r.splice child).run w = .ok (.ok ())
      ((w.reparented r q).replaced q B child (A ++ [region.start.slot]).length) := by
    refine (ok_splice hr (by rwa [hstart]) hc).2 (.inr ⟨q, hstart.symm, ?_, ?_, hfinish, ?_⟩)
    · rw [World.slot, hstart]
      exact hparent
    · rwa [hbetween]
    · rw [hbetween]
      exact ⟨_, hf.insertionIndex_between hs, rfl⟩
  refine ⟨_, hrun, hforest, hspliced, ?_⟩
  exact (World.contents_reparented hr hstart (World.lt_of_occupied (hf.up hparent).2.1)).trans
    (congrArg _ (hforest.between_eq hspliced.children))

/-- A text between two comments is replaced by a fragment that holds another text. -/
theorem RegionId.splice_replaces_text :
    ∃ (w w' : World), (w.slot ⟨⟨0⟩, 0⟩).children = [1, 2, 3] ∧
      (RegionId.splice ⟨0⟩ ⟨⟨0⟩, 4⟩).run w = .ok (.ok ()) w' ∧
      w'.contents ⟨0⟩ = [⟨⟨0⟩, 5⟩] := by
  have h₁ : Document.Reached _ := .step (o := .create (.element { tag := "p" })) .empty (by decide) rfl
  have h₂ : Document.Reached _ := .step (o := .create (.comment "")) h₁ (by decide) rfl
  have h₃ : Document.Reached _ := .step (o := .create (.text "a")) h₂ (by decide) rfl
  have h₄ : Document.Reached _ := .step (o := .create (.comment "")) h₃ (by decide) rfl
  have h₅ : Document.Reached _ := .step (o := .insertBefore 0 1 none) h₄ (by decide) rfl
  have h₆ : Document.Reached _ := .step (o := .insertBefore 0 2 none) h₅ (by decide) rfl
  have h₇ : Document.Reached _ := .step (o := .insertBefore 0 3 none) h₆ (by decide) rfl
  have h₈ : Document.Reached _ := .step (o := .create .fragment) h₇ (by decide) rfl
  have h₉ : Document.Reached _ := .step (o := .create (.text "b")) h₈ (by decide) rfl
  have h₁₀ : Document.Reached _ := .step (o := .insertBefore 4 5 none) h₉ (by decide) rfl
  generalize hd : ({ page := _, handles := _ } : Document) = d at h₁₀
  have hs : (d.page.slot 0).children = [] ++ 1 :: ([2] ++ 3 :: []) := by rw [← hd]; rfl
  have hu : ¬ d.page.Up 0 4 := fun hu => absurd (hu.eq_of_root (by rw [← hd]; rfl)) (by decide)
  obtain ⟨page, hrun, -, -, hcontents⟩ :=
    (@RegionId.splice_replaces { pages := #[d.page], regions := #[⟨⟨⟨0⟩, 1⟩, ⟨⟨0⟩, 3⟩, ⟨⟨0⟩, 0⟩⟩] }
      ⟨0⟩ _ ⟨⟨0⟩, 4⟩ rfl).1 ⟨⟨0⟩, 0⟩ [] [2] [] h₁₀.sound.forest rfl rfl hs rfl
      (by rw [← hd]; rfl) hu
  have hmoved : d.page.moved 4 = [5] := by rw [← hd]; rfl
  refine ⟨_, _, ?_, hrun, hcontents.trans (congrArg _ hmoved)⟩
  exact hs

/-- It is not enough that the content is not above the parent of the comments: the parent itself
cannot be put between its own children. -/
theorem RegionId.not_splice_parent :
    ¬ ∀ (w : World) (r : RegionId) (region : Region) (q child : PageNode) (A B C : List Nat),
      w.regions[r.index]? = some region → (w.page q.page).Forest → region.start.page = q.page →
      region.finish.page = q.page →
      (w.slot q).children = A ++ region.start.slot :: (B ++ region.finish.slot :: C) →
      child.page = q.page → (w.slot child).parent = none →
      (∀ a, (w.slot q).parent = some a → ¬ (w.page q.page).Up a child.slot) →
      ∃ w', (r.splice child).run w = .ok (.ok ()) w' := by
  intro h
  have h₁ : Document.Reached _ := .step (o := .create (.element { tag := "p" })) .empty (by decide) rfl
  have h₂ : Document.Reached _ := .step (o := .create (.comment "")) h₁ (by decide) rfl
  have h₃ : Document.Reached _ := .step (o := .create (.comment "")) h₂ (by decide) rfl
  have h₄ : Document.Reached _ := .step (o := .insertBefore 0 1 none) h₃ (by decide) rfl
  have h₅ : Document.Reached _ := .step (o := .insertBefore 0 2 none) h₄ (by decide) rfl
  obtain ⟨w', hrun⟩ := h { pages := #[_], regions := #[⟨⟨⟨0⟩, 1⟩, ⟨⟨0⟩, 2⟩, ⟨⟨0⟩, 0⟩⟩] } ⟨0⟩ _ ⟨⟨0⟩, 0⟩
    ⟨⟨0⟩, 0⟩ [] [] [] rfl h₅.sound.forest rfl rfl rfl rfl rfl (fun a ha => by cases ha)
  cases hrun

end LivePage
