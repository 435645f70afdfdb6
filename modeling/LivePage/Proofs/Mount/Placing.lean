import LivePage.Proofs.World.Sound

/-!
# Putting content into place

When the operations that put nodes into a page succeed, and which world they leave: appending a node
(`ok_append`), replacing the children of a node (`ok_replaceChildren`) and replacing what stands in a
region (`ok_splice`), each for content without a parent.
-/

namespace LivePage

variable {w w' : World} {n child : PageNode} {p : PageId} {r : RegionId}

theorem ok_onPage {f : Page → Page.Outcome} {a : Except PageError Unit} :
    (onPage p f).run w = .ok a w' ↔ ∃ page, f (w.page p) = (a, page) ∧ w' = w.withPage p page := by
  rw [onPage, ok_get_bind]
  cases h : f (w.page p) with
  | mk result page =>
    rw [ok_set_bind, ok_pure]
    constructor
    · rintro ⟨rfl, rfl⟩
      exact ⟨page, rfl, rfl⟩
    · rintro ⟨_, ⟨⟩, rfl⟩
      exact ⟨rfl, rfl⟩

/-- Appending succeeds below a container that is not below the node itself. -/
theorem ok_append (hf : (w.page n.page).Forest) (hc : (w.slot child).parent = none)
    (hpage : child.page = n.page) :
    (n.append child).run w = .ok (.ok ()) w' ↔
      (w.slot n).content.type.isContainer ∧ ¬ (w.page n.page).Up n.slot child.slot ∧
        w' = w.withPage n.page ((w.page n.page).graft n.slot child.slot (w.slot n).children.length) := by
  have hc : ((w.page n.page).slot child.slot).parent = none := by rwa [World.slot, hpage] at hc
  have hshare : (n.sharesPage (some child) && n.sharesPage none) = true := by
    simp [PageNode.sharesPage, hpage]
  rw [PageNode.append, PageNode.insertBefore, if_pos hshare, ok_onPage]
  simp only [Option.map_none, Page.insertBefore_eq_graft hf hc, Page.insertionIndex,
    Option.some.injEq, exists_eq_left']
  constructor
  · rintro ⟨page, ⟨h1, h2, rfl⟩, rfl⟩
    exact ⟨h1, h2, rfl⟩
  · rintro ⟨h1, h2, rfl⟩
    exact ⟨_, ⟨h1, h2, rfl⟩, rfl⟩

/-- A page after nodes have been taken out below `n` and `child` has been put in at `k`. -/
def World.replaced (w : World) (n : PageNode) (stale : List Nat) (child : PageNode) (k : Nat) :
    World :=
  w.withPage n.page ((w.page n.page).replace n.slot stale child.slot k)

/-- What it takes to put `child` below `n` in place of the `stale` nodes. -/
structure World.Fits (w : World) (n : PageNode) (stale : List Nat) (child : PageNode) : Prop where
  page : child.page = n.page
  nodup : stale.Nodup
  parent : ∀ i ∈ stale, (w.slot ⟨n.page, i⟩).parent = some n.slot
  container : (w.slot n).content.type.isContainer
  notUp : ¬ ((w.page n.page).detachAll stale).Up n.slot child.slot

theorem World.withPage_withPage (w : World) (p : PageId) (page page' : Page) :
    (w.withPage p page).withPage p page' = w.withPage p page' := by
  simp [World.withPage, Array.setIfInBounds_setIfInBounds]

/-- Taking nodes out and inserting another one, with the reference looked up in between. -/
theorem ok_replace (hf : (w.page n.page).Forest) (hc : (w.slot child).parent = none)
    (hlt : n.page.index < w.pages.size) {stale : List Nat} {reference : Option PageNode} :
    (∃ w₁, (onPage n.page fun p => p.removeChildren n.slot stale).run w = .ok (.ok ()) w₁ ∧
      (n.insertBefore child reference).run w₁ = .ok (.ok ()) w') ↔
      w.Fits n stale child ∧ n.sharesPage reference ∧ ∃ k,
        ((w.page n.page).detachAll stale).insertionIndex n.slot (reference.map (·.slot)) = some k ∧
          w' = w.replaced n stale child k := by
  have hcp : child.page = n.page → ((w.page n.page).slot child.slot).parent = none := by
    intro h
    rwa [World.slot, h] at hc
  constructor
  · rintro ⟨w₁, h₁, h₂⟩
    obtain ⟨page, hpage, rfl⟩ := ok_onPage.1 h₁
    obtain ⟨hn, hl, rfl⟩ := (Page.removeChildren_eq hf).1 hpage
    have hd := hf.detachAll stale
    unfold PageNode.insertBefore at h₂
    split at h₂
    · next hshare =>
      obtain ⟨hs1, hs2⟩ := Bool.and_eq_true_iff.1 hshare
      have hpg : child.page = n.page := by simpa [PageNode.sharesPage, eq_comm] using hs1
      obtain ⟨page', hp', rfl⟩ := ok_onPage.1 h₂
      rw [World.page_withPage_self hlt] at hp'
      obtain ⟨hcon, hup, k, hk, rfl⟩ := (Page.insertBefore_eq_graft hd
        (Page.parent_detachAll_root hf hn hl (hcp hpg))).1 hp'
      refine ⟨⟨hpg, hn, hl, ?_, hup⟩, hs2, k, hk, ?_⟩
      · rwa [Page.slot_detachAll hf hn hl] at hcon
      · rw [World.withPage_withPage]
        rfl
    · exact absurd (ok_pure.1 h₂).1 (by simp)
  · rintro ⟨⟨hpg, hn, hl, hcon, hup⟩, hs2, k, hk, rfl⟩
    refine ⟨_, ok_onPage.2 ⟨_, (Page.removeChildren_eq hf).2 ⟨hn, hl, rfl⟩, rfl⟩, ?_⟩
    have hshare : (n.sharesPage (some child) && n.sharesPage reference) = true := by
      rw [hs2, Bool.and_true]
      simp [PageNode.sharesPage, hpg]
    simp only [PageNode.insertBefore, if_pos hshare]
    refine ok_onPage.2 ⟨((w.page n.page).detachAll stale).graft n.slot child.slot k, ?_, ?_⟩
    · rw [World.page_withPage_self hlt]
      refine (Page.insertBefore_eq_graft (hf.detachAll stale)
        (Page.parent_detachAll_root hf hn hl (hcp hpg))).2 ⟨?_, hup, k, hk, rfl⟩
      rwa [Page.slot_detachAll hf hn hl]
    · rw [World.withPage_withPage]
      rfl

/-- Replacing children takes all of them out. -/
theorem ok_replaceChildren (hf : (w.page n.page).Forest) (hc : (w.slot child).parent = none)
    (hlt : n.page.index < w.pages.size) :
    (n.replaceChildren child).run w = .ok (.ok ()) w' ↔
      w.Fits n (w.slot n).children child ∧ w' = w.replaced n (w.slot n).children child 0 := by
  have key : (n.replaceChildren child).run w = .ok (.ok ()) w' ↔
      ∃ w₁, (onPage n.page fun p => p.removeChildren n.slot (w.slot n).children).run w =
        .ok (.ok ()) w₁ ∧ (n.insertBefore child none).run w₁ = .ok (.ok ()) w' := by
    rw [PageNode.replaceChildren, ok_bind]
    constructor
    · rintro ⟨e | _, w₁, h₁, h₂⟩
      · exact absurd (ok_pure.1 h₂).1 (by simp)
      · exact ⟨w₁, h₁, h₂⟩
    · rintro ⟨w₁, h₁, h₂⟩
      exact ⟨.ok (), w₁, h₁, h₂⟩
  rw [key, ok_replace hf hc hlt]
  simp only [PageNode.sharesPage, true_and, Option.map_none, Page.insertionIndex,
    Option.some.injEq, exists_eq_left']
  refine and_congr_right fun hfit => ?_
  have hlen : (((w.page n.page).detachAll (w.slot n).children).slot n.slot).children = [] := by
    rw [Page.slot_detachAll hf hfit.nodup hfit.parent]
    simp only [if_true]
    exact List.filter_eq_nil_iff.2 fun i hi => by simpa using show i ∈ (w.slot n).children from hi
  rw [hlen]
  rfl

/-- A world in which a region has been told its parent. -/
def World.reparented (w : World) (r : RegionId) (q : PageNode) : World :=
  { w with regions := w.regions.modify r.index fun region => { region with parent := q } }

theorem World.region_eq {region : Region} (hr : w.regions[r.index]? = some region) :
    w.region r = region := by
  simp [World.region, Array.getD_eq_getD_getElem?, hr]

/-- Replacing what stands in a region does nothing if its opening comment has no parent. -/
theorem ok_splice_region {region : Region} (hregion : w.region r = region)
    (hf : (w.page region.start.page).Forest) (hc : (w.slot child).parent = none) :
    (r.splice child).run w = .ok (.ok ()) w' ↔
      (w.slot region.start).parent = none ∧ w' = w ∨
      ∃ q : PageNode, q.page = region.start.page ∧ (w.slot region.start).parent = some q.slot ∧
        w.Fits q ((w.page q.page).between region.start.slot region.finish.slot) child ∧
        region.finish.page = q.page ∧ ∃ k,
          ((w.page q.page).detachAll ((w.page q.page).between region.start.slot
            region.finish.slot)).insertionIndex q.slot (some region.finish.slot) = some k ∧
          w' = (w.reparented r q).replaced q ((w.page q.page).between region.start.slot
            region.finish.slot) child k := by
  have hstale : (w.contents r).map (·.slot) =
      (w.page region.start.page).between region.start.slot region.finish.slot := by
    simp [World.contents, hregion, Function.comp_def]
  rw [RegionId.splice, ok_get_bind]
  simp only [hregion, hstale]
  cases hp : (w.slot region.start).parent with
  | none =>
    have : region.start.parent? w = none := by simp [PageNode.parent?, hp]
    simp only [this, ok_pure, true_and, reduceCtorEq, false_and, and_false, exists_false, or_false]
  | some q =>
    have : region.start.parent? w = some ⟨region.start.page, q⟩ := by simp [PageNode.parent?, hp]
    have hlt : region.start.page.index < w.pages.size :=
      World.lt_of_occupied (hf.up (show ((w.page region.start.page).slot region.start.slot).parent =
        some q from hp)).1
    simp only [this, ok_set_bind, reduceCtorEq, false_and, false_or, Option.some.injEq]
    rw [ok_bind]
    constructor
    · rintro ⟨e | _, w₁, h₁, h₂⟩
      · exact absurd (ok_pure.1 h₂).1 (by simp)
      obtain ⟨hfit, hs, k, hk, rfl⟩ := (ok_replace (w := w.reparented r ⟨region.start.page, q⟩)
        (n := ⟨region.start.page, q⟩) hf hc hlt).1 ⟨w₁, h₁, h₂⟩
      have hfp : region.finish.page = region.start.page := by
        simpa [PageNode.sharesPage, eq_comm] using hs
      exact ⟨⟨region.start.page, q⟩, rfl, rfl,
        ⟨hfit.page, hfit.nodup, hfit.parent, hfit.container, hfit.notUp⟩, hfp, k, hk, rfl⟩
    · rintro ⟨⟨pg, q'⟩, hpg, hq, hfit, hfp, k, hk, rfl⟩
      obtain rfl : pg = region.start.page := hpg
      obtain rfl : q = q' := hq
      have hshare : (⟨region.start.page, q⟩ : PageNode).sharesPage (some region.finish) := by
        simpa [PageNode.sharesPage] using hfp.symm
      obtain ⟨w₁, h₁, h₂⟩ := (ok_replace (w := w.reparented r ⟨region.start.page, q⟩)
        (n := ⟨region.start.page, q⟩) hf hc hlt).2 ⟨⟨hfit.page, hfit.nodup, hfit.parent,
          hfit.container, hfit.notUp⟩, hshare, k, hk, rfl⟩
      exact ⟨.ok (), w₁, h₁, h₂⟩

theorem ok_splice {region : Region} (hr : w.regions[r.index]? = some region)
    (hf : (w.page region.start.page).Forest) (hc : (w.slot child).parent = none) :
    (r.splice child).run w = .ok (.ok ()) w' ↔
      (w.slot region.start).parent = none ∧ w' = w ∨
      ∃ q : PageNode, q.page = region.start.page ∧ (w.slot region.start).parent = some q.slot ∧
        w.Fits q ((w.page q.page).between region.start.slot region.finish.slot) child ∧
        region.finish.page = q.page ∧ ∃ k,
          ((w.page q.page).detachAll ((w.page q.page).between region.start.slot
            region.finish.slot)).insertionIndex q.slot (some region.finish.slot) = some k ∧
          w' = (w.reparented r q).replaced q ((w.page q.page).between region.start.slot
            region.finish.slot) child k :=
  ok_splice_region (World.region_eq hr) hf hc

end LivePage
