import LivePage.Live.Realization
import LivePage.Proofs.Mount.Placing
import LivePage.Proofs.Page.Refusal

/-!
# What a failing replacement has discarded

Inserting and removing page nodes leave the world as it was when they fail, but for a child that is
put before itself (`PageNode.insertBefore_refused`, `PageNode.removeChild_refused`). What replaces
contents discards the old ones first: `PageNode.replaceChildren_refused_iff` and
`RegionId.splice_refused` say that all of them are out of their place when the new content turns out
not to fit, and `renderInto_refused` that a render fails either before anything is replaced or with
the container emptied.
-/

namespace LivePage

variable {w w' : World} {n child : PageNode} {reference : Option PageNode} {e : PageError}
  {r : RegionId}

theorem World.withPage_page (w : World) (p : PageId) : w.withPage p (w.page p) = w := by
  have h : w.pages.setIfInBounds p.index (w.page p) = w.pages := by
    refine Array.ext_getElem? fun i => ?_
    rw [Array.getElem?_setIfInBounds]
    split
    · next hi =>
      subst hi
      split
      · next hlt => simp [World.page, Array.getD_eq_getD_getElem?, hlt]
      · next hlt => simp [Nat.le_of_not_lt hlt]
    · rfl
  rw [World.withPage, h]

namespace PageNode

/-- An insertion that fails leaves the world as it was, unless a child is put before itself: that one
is lost from the children of its parent. -/
theorem insertBefore_refused (hf : (w.page n.page).Forest)
    (h : (n.insertBefore child reference).run w = .ok (.error e) w') :
    w' = w ∨ reference = some child ∧ child.page = n.page ∧ (w.slot child).parent = some n.slot ∧
      e = .notAChild ∧ w' = w.withPage n.page ((w.page n.page).forsake n.slot child.slot) := by
  unfold PageNode.insertBefore at h
  split at h
  · next hshare =>
    obtain ⟨hchild, href⟩ := Bool.and_eq_true_iff.1 hshare
    have hchild : child.page = n.page := by simpa [sharesPage, eq_comm] using hchild
    obtain ⟨page, hp, rfl⟩ := ok_onPage.1 h
    have hsame : page = w.page n.page → w.withPage n.page page = w := by
      rintro rfl
      exact w.withPage_page n.page
    rcases (Page.insertBefore_refused_iff hf).1 hp with
      ⟨-, -, hpage⟩ | ⟨-, ⟨-, -, hpage⟩ | ⟨-, ⟨-, -, hpage⟩ | ⟨hrc, hparent, he, rfl⟩⟩⟩
    · exact .inl (hsame hpage)
    · exact .inl (hsame hpage)
    · exact .inl (hsame hpage)
    · right
      refine ⟨?_, hchild, by rw [World.slot, hchild, hparent], he, rfl⟩
      cases reference with
      | none => cases hrc
      | some m =>
        have hm : n.page = m.page := by simpa [sharesPage] using href
        have hslot : m.slot = child.slot := Option.some.inj hrc
        obtain ⟨page, slot⟩ := m
        obtain ⟨page', slot'⟩ := child
        cases hslot
        cases hm.symm.trans hchild.symm
        rfl
  · exact .inl (ok_pure.1 h).2

/-- A removal that fails leaves the world as it was. -/
theorem removeChild_refused (h : (n.removeChild child).run w = .ok (.error e) w') : w' = w := by
  unfold PageNode.removeChild at h
  split at h
  · obtain ⟨page, hp, rfl⟩ := ok_onPage.1 h
    obtain ⟨-, -, rfl⟩ := Page.removeChild_refused_iff.1 hp
    exact w.withPage_page n.page
  · exact (ok_pure.1 h).2

/-- When replacing the children of a node fails, and what is left then: the node without children. -/
theorem replaceChildren_refused_iff (hf : (w.page n.page).Forest)
    (hlt : n.page.index < w.pages.size) :
    (n.replaceChildren child).run w = .ok (.error e) w' ↔
      (child.page ≠ n.page ∧ e = .wrongDocument ∨
        child.page = n.page ∧ (w.slot n).content.type.isContainer ∧
          (w.page n.page).Up n.slot child.slot ∧ e = .hierarchyRequest ∨
        child.page = n.page ∧ ¬ (w.slot n).content.type.isContainer ∧
          e = .notAContainer (w.slot n).content.type) ∧
      w' = w.withPage n.page ((w.page n.page).detachAll (w.slot n).children) := by
  by_cases hpage : child.page = n.page
  · have hleaf : ¬ (w.slot n).content.type.isContainer →
        (w.page n.page).detachAll (w.slot n).children = w.page n.page := by
      intro hcon
      rw [World.slot, hf.leaf n.slot (Bool.eq_false_iff.2 hcon)]
      rfl
    rw [run_replaceChildren hpage hlt, ok_onPage]
    simp only [Page.replaceChildren_refused_iff hf, hpage, true_and, ne_eq, not_true, false_and, false_or]
    constructor
    · rintro ⟨page, ⟨hcon, he, rfl⟩ | ⟨hcon, hup, he, rfl⟩, rfl⟩
      · exact ⟨.inr ⟨hcon, he⟩, by rw [hleaf hcon]⟩
      · exact ⟨.inl ⟨hcon, hup, he⟩, rfl⟩
    · rintro ⟨⟨hcon, hup, he⟩ | ⟨hcon, he⟩, rfl⟩
      · exact ⟨_, .inr ⟨hcon, hup, he, rfl⟩, rfl⟩
      · exact ⟨_, .inl ⟨hcon, he, rfl⟩, by rw [hleaf hcon]⟩
  · have hshare : (n.sharesPage (some child) && n.sharesPage none) = false := by
      simp [sharesPage, Ne.symm hpage]
    rw [PageNode.replaceChildren, ok_bind]
    simp only [ok_onPage, hf.removeChildren_children, Prod.mk.injEq, PageNode.append,
      PageNode.insertBefore, hshare]
    constructor
    · rintro ⟨_, w₁, ⟨page, ⟨rfl, rfl⟩, rfl⟩, h⟩
      obtain ⟨he, rfl⟩ := ok_pure.1 h
      exact ⟨.inl ⟨hpage, Except.error.inj he⟩, rfl⟩
    · rintro ⟨⟨-, rfl⟩ | ⟨h, -⟩ | ⟨h, -⟩, rfl⟩
      · exact ⟨_, _, ⟨_, ⟨rfl, rfl⟩, rfl⟩, ok_pure.2 ⟨rfl, rfl⟩⟩
      · exact absurd h hpage
      · exact absurd h hpage

end PageNode

/-- When taking nodes out and inserting another one fails, the nodes are out. -/
theorem replace_refused (hf : (w.page n.page).Forest) (hlt : n.page.index < w.pages.size)
    {stale : List Nat} {result : Edited} {w₁ : World}
    (hstale : (w.page n.page).removeChildren n.slot stale = (.ok (), (w.page n.page).detachAll stale))
    (h₁ : (onPage n.page fun p => p.removeChildren n.slot stale).run w = .ok result w₁) :
    result = .ok () ∧ ((n.insertBefore child reference).run w₁ = .ok (.error e) w' →
      ∃ page, (page = (w.page n.page).detachAll stale ∨ reference = some child ∧
          page = ((w.page n.page).detachAll stale).forsake n.slot child.slot) ∧
        w' = w.withPage n.page page) := by
  obtain ⟨page, hpage, rfl⟩ := ok_onPage.1 h₁
  obtain ⟨rfl, rfl⟩ := Prod.mk.inj (hstale.symm.trans hpage)
  refine ⟨rfl, fun h₂ => ?_⟩
  have hself := World.page_withPage_self hlt ((w.page n.page).detachAll stale)
  rcases PageNode.insertBefore_refused (by rw [hself]; exact hf.detachAll _) h₂ with
    rfl | ⟨href, -, -, -, rfl⟩
  · exact ⟨_, .inl rfl, rfl⟩
  · exact ⟨_, .inr ⟨href, rfl⟩, by rw [World.withPage_withPage, hself]⟩

/-- Replacing what stands in a region fails when the old contents have been taken out. The new content
is one that does not go there, or the region's own closing comment. -/
theorem RegionId.splice_refused {region : Region} (hr : w.regions[r.index]? = some region)
    (hf : (w.page region.start.page).Forest)
    (h : (r.splice child).run w = .ok (.error e) w') :
    ∃ q : PageNode, q.page = region.start.page ∧ (w.slot region.start).parent = some q.slot ∧
      ∃ page, (page = (w.page q.page).detachAll ((w.contents r).map (·.slot)) ∨
          region.finish = child ∧ page = ((w.page q.page).detachAll
            ((w.contents r).map (·.slot))).forsake q.slot child.slot) ∧
        w' = (w.reparented r q).withPage q.page page := by
  have hregion := World.region_eq hr
  have hstale : (w.contents r).map (·.slot) =
      (w.page region.start.page).between region.start.slot region.finish.slot := by
    simp [World.contents, hregion, Function.comp_def]
  rw [RegionId.splice, ok_get_bind] at h
  simp only [hregion, hstale] at h ⊢
  cases hp : (w.slot region.start).parent with
  | none =>
    have hnone : region.start.parent? w = none := by simp [PageNode.parent?, hp]
    simp only [hnone, ok_pure, reduceCtorEq, false_and] at h
  | some q =>
    have hsome : region.start.parent? w = some ⟨region.start.page, q⟩ := by
      simp [PageNode.parent?, hp]
    have hlt : region.start.page.index < w.pages.size :=
      World.lt_of_occupied (hf.up (show ((w.page region.start.page).slot region.start.slot).parent =
        some q from hp)).1
    simp only [hsome, ok_set_bind] at h
    rw [ok_bind] at h
    obtain ⟨result, w₁, h₁, h₂⟩ := h
    obtain ⟨rfl, hrefused⟩ := replace_refused (w := w.reparented r ⟨region.start.page, q⟩)
      (n := ⟨region.start.page, q⟩) hf hlt (hf.removeChildren_between region.finish.slot hp) h₁
    obtain ⟨page, hpage, rfl⟩ := hrefused h₂
    exact ⟨⟨region.start.page, q⟩, rfl, rfl, page,
      hpage.imp_right fun h => ⟨Option.some.inj h.1, h.2⟩, rfl⟩

/-- A render that fails has failed to realize, so that nothing has been replaced, or has emptied the
container. -/
theorem renderInto_refused {call : Respond} {labelled : Bool} {root : PageNode} {node : Node}
    {fault : RealizationError}
    (h : (renderInto call labelled root node).run.run w = .ok (.error fault) w') :
    (realize call labelled node).run.run w = .ok (.error fault) w' ∨
      ∃ made w₁, (realize call labelled node).run.run w = .ok (.ok made) w₁ ∧
        ((w₁.page root.page).Forest → root.page.index < w₁.pages.size →
          (∃ e, fault = .page e) ∧
            w' = w₁.withPage root.page
              ((w₁.page root.page).detachAll (w₁.slot root).children)) := by
  rcases ended_ebind h with ⟨e, h₁, hfault⟩ | ⟨made, w₁, h₁, h₂⟩
  · cases hfault
    exact .inl h₁
  refine .inr ⟨made, w₁, h₁, fun hf hlt => ?_⟩
  rcases ended_ebind h₂ with ⟨e, h₃, hfault⟩ | ⟨_, w₂, -, h₃⟩
  · cases hfault
    rw [realizingWith, ExceptT.run_mk, ok_holding] at h₃
    obtain ⟨w₂, h₃, rfl⟩ := h₃
    rw [pageStep, ExceptT.run_mk, ok_bind] at h₃
    obtain ⟨result, w₃, h₄, h₅⟩ := h₃
    cases result with
    | ok _ => exact absurd (ok_pure.1 h₅).1 (by simp)
    | error e =>
      obtain ⟨he, rfl⟩ := ok_pure.1 h₅
      cases he
      obtain ⟨-, rfl⟩ := (PageNode.replaceChildren_refused_iff
        (w := w₁.pinned made.teardown.holds) hf hlt).1 h₄
      exact ⟨⟨e, rfl⟩, rfl⟩
  · rw [ExceptT.run_pure, ok_pure] at h₃
    exact absurd h₃.1 (by simp)

end LivePage
