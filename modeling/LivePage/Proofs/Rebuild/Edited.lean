import LivePage.Proofs.Mount.Unresolvable
import LivePage.Proofs.Rebuild.AtRest

/-!
# Pages that are edited by realizing only

A world is `World.Edited` if pages in it have been edited by realizing nodes, putting the fragments
they are realized in somewhere, emitting observables and killing records, and by nothing else
(`World.Occurs`). Such a world is at rest (`World.Edited.atRest`), also in the middle of an emission,
whenever no place is just being rebuilt.
-/

namespace LivePage

variable {w w' u : World} {D : CellId → Prop} {page : PageId} {n content : PageNode} {node : Node}
  {d : Nat} {labelled : Bool} {m : Teardown}

/-! ## Empty fragments -/

namespace World.Blank

variable (h : World.Blank D content w w')
include h

/-- Nodes can be realized in the fragment. -/
theorem receives {r : Surface} (hh : w'.Hears D True) (hr : r.page = content.page) :
    World.Receives D r content (w'.pinned [.slot content]) := by
  refine .of_hears ⟨h.built.sound.pinned _, hh.wired.pinned _, hh.tracks.pinned _,
    World.safe_of_pinned (by simp) h.occupied, hr⟩ ?_ (hh.pinned _)
  rw [show (w'.pinned [.slot content]).slot content = _ from h.slot]
  rfl

/-- The fragment keeps the world tidy. -/
theorem tidy (hw : w.Tidy) : w'.Tidy := by
  refine (h.built.builds_nil h.fresh fun hr _ => .inl ?_).tidy hw ?_
  · rwa [h.registry] at hr
  · rw [h.slot]
    exact .nil

end World.Blank

namespace World

/-! ## Realizing for a page -/

/-- Realizing the node for a page comes to the node, below the new fragment `content` and in the world
`u`. -/
inductive Begins (w : World) (page : PageId) (node : Node) (content : PageNode) : World → Prop where
  | create {w₁ : World} : (createNode page .fragment).run (w.pinned node.holds) = .ok content w₁ →
      Begins w page node content (w₁.unpinned.pinned [.slot content])

theorem exists_begins (w : World) (page : PageId) (node : Node) :
    ∃ content u, w.Begins page node content u :=
  ⟨_, _, .create (run_createNode ..)⟩

namespace Begins

variable (h : w.Begins page node content u) (hs : w.Sound) (hh : w.Hears D True)
  (hp : page.index < w.pages.size)
include h hs hh hp

/-- An empty fragment is there, and nodes can be realized in it. -/
theorem receives (labelled : Bool) : Receives D ⟨page, labelled⟩ content u ∧ ¬ w.Safe content ∧
    Built D content w u ∧ (w.Tidy → u.Tidy) := by
  obtain ⟨hcreate⟩ := h
  have hb := (createNode_spec (hs.pinned _) hp hcreate).blank_of_pinned (D := D) hs
  rw [run_createNode] at hcreate
  cases hcreate
  exact ⟨hb.receives (((hh.pinned _).withPage ..).repin _) rfl, hb.fresh, hb.built.pinned _,
    fun ht => (hb.tidy ht).repin _⟩

/-- Realizing a node for a page fails only at a render function that gives a function, and stops only
where an evaluation on its way does. -/
theorem failsOnly_realize (hpage : w.activePage = some page)
    (haloof : ¬ node.Comes (Node.Follows D) ⟨page, labelled⟩ d content u) :
    FailsBelow D content w (node.Meets ⟨page, labelled⟩ d content u)
      (node.Stalls ⟨page, labelled⟩ d content u) w (realize (respond d) labelled node) := by
  obtain ⟨hr, hfresh, hb, ht⟩ := h.receives hs hh hp labelled
  have hrealize := (node.tries d hr haloof).part (b := w) (fun _ h => h) id fun hl =>
    hb.left ht hl (.inl rfl)
  obtain ⟨hcreate⟩ := h
  unfold realize
  refine .after (ok_lift.2 (EStateM.run_get ..)) ?_
  rw [hpage]
  exact .after (ok_realizingWith.2 ⟨_, ok_lift.2 hcreate, rfl⟩) <|
    hrealize.held.bind fun _ _ _ hh => .pure hh

omit hs hh hp in
/-- Realizing a node for a page fails if it comes to a render function that gives a function. -/
theorem failed (hpage : w.activePage = some page) {variant : String}
    (hm : node.Meets ⟨page, labelled⟩ d content u variant) :
    ∃ w', (realize (respond d) labelled node).run.run w =
      .ok (.error (.unresolvableRender variant)) w' := by
  obtain ⟨hcreate⟩ := h
  obtain ⟨w', hfail⟩ := hm.failed
  unfold realize
  refine ⟨w'.unpinned, (run_after (ok_lift.2 (EStateM.run_get ..))).trans ?_⟩
  rw [hpage]
  exact (run_after (ok_realizingWith.2 ⟨_, ok_lift.2 hcreate, rfl⟩)).trans
    (failed_ebind (failed_realizingWith hfail))

end Begins

/-! ## What happens to pages -/

/-- Nothing has been realized yet. -/
structure Untouched (w : World) : Prop where
  forest (p : PageId) : (w.page p).Forest
  sites : w.sites = #[]
  registry {c : CellId} {key : Nat} {r : Reaction} : (key, r) ∈ (w.cell c).registry → ¬ r.onPage

/-- Nodes stay where they are, and no subscription comes that does something to a page: observables
and callbacks may be made, and hold, hear and pin what they like; listeners, attributes and data may
change. -/
structure Aside (w w' : World) : Prop where
  page (p : PageId) : (w.page p).Shaped (w'.page p)
  registry {c : CellId} {key : Nat} {r : Reaction} : (key, r) ∈ (w'.cell c).registry → r.onPage →
    (key, r) ∈ (w.cell c).registry
  sites : w'.sites = w.sites
  regions : w'.regions = w.regions
  records : w'.records = w.records

/-- Nodes are realized for the page entered last, however that ends; a node is created; a fragment is
put in place of the children of a node; a subscription is told something, or an observable emitted; a
record is killed; or something happens that leaves the nodes of pages alone. -/
inductive Occurs (D : CellId → Prop) (w w' : World) : Prop where
  | aside : w.Aside w' → Occurs D w w'
  | realizes {d : Nat} {labelled : Bool} {node : Node} {page : PageId}
      {r : Except RealizationError Realization} : w.activePage = some page →
      page.index < w.pages.size →
      (∀ content u, w.Begins page node content u →
        ¬ node.Comes (Node.Follows D) ⟨page, labelled⟩ d content u) →
      (realize (respond d) labelled node).run.run w = .ok r w' → Occurs D w w'
  | creates {page : PageId} {content : Content} {n : PageNode} : page.index < w.pages.size →
      (createNode page content).run w = .ok n w' → Occurs D w w'
  | places {n content : PageNode} : w.Occupied n → (w.slot content).parent = none →
      (w.slot content).content.type = .fragment →
      (n.replaceChildren content).run w = .ok (.ok ()) w' → Occurs D w w'
  | tells {d : Nat} {c : CellId} {key : Nat} {r : Reaction} {held : Held} :
      (key, r) ∈ (w.cell c).registry → (∀ e ∈ w.reactionHolds r, e ∈ w.pins.flatten) →
      (respond d (.react r held)).run w = .ok ⟨⟩ w' → Occurs D w w'
  | emits : w.Emits w' → Occurs D w w'
  | kills {d : Nat} {m : Teardown} : (respond d (.kill m)).run w = .ok ⟨⟩ w' → Occurs D w w'

/-- Only such things have happened, and nothing on a page has come to follow an observable of `D`. -/
inductive Edited (D : CellId → Prop) : World → Prop where
  | start {w : World} : w.Untouched → w.Hears D True → Edited D w
  | step {w w' : World} : Edited D w → w.Occurs D w' → w'.Hears D True → Edited D w'

theorem Untouched.atRest (h : w.Untouched) : w.AtRest where
  tidy := {
    sound := ⟨h.forest, fun hr hp => absurd hp (h.registry hr)⟩
    marks := fun hr hm => absurd hm.onPage (h.registry hr)
    sits := fun hr => absurd trivial (h.registry hr)
    nested := fun p i => .of_not_mem fun a b hp => by
      obtain ⟨hr⟩ := hp
      exact absurd trivial (h.registry hr) }
  rests hs := by
    rw [h.sites] at hs
    cases hs

namespace AtRest

variable (h : w.AtRest)
include h

theorem aside (ha : w.Aside w') : w'.AtRest := by
  have hw : w.Within w' := within_of_eq ha.sites ha.regions ha.records
  have hsound := h.tidy.sound.within hw (fun n hn => (ha.page n.page).occupied.2 (hn.occupied h.tidy.sound))
    (fun p => (ha.page p).forest (h.tidy.sound.forest p)) fun c s hs hp => .inl (ha.registry hs hp)
  exact h.spawns (h.tidy.shaped hsound hw.toFixed (fun c s hs hp => ha.registry hs hp) ha.page)
    (spawns_of_eq ha.sites)

/-- However a realization ends, the world is at rest. -/
theorem realizes {r : Except RealizationError Realization} (hh : w.Hears D True)
    (hpage : w.activePage = some page) (hp : page.index < w.pages.size)
    (haloof : ∀ content u, w.Begins page node content u →
      ¬ node.Comes (Node.Follows D) ⟨page, labelled⟩ d content u)
    (hn : w'.NoSites D) (hrun : (realize (respond d) labelled node).run.run w = .ok r w') :
    w'.AtRest := by
  cases r with
  | ok r =>
    obtain ⟨w₂, g, rfl, hd, -⟩ := drafted_of_realize h.tidy.sound hh.wired hh.tracks
      (fun p hp' _ => by cases hpage.symm.trans hp'; exact hp) hrun hn
    exact h.spawns ((hd.tidy h.tidy).repin _) ⟨hd.built.spawns.old, hd.built.spawns.new⟩
  | error e =>
    obtain ⟨content, u, hb⟩ := w.exists_begins page node
    obtain ⟨-, -, -, hl⟩ :=
      (hb.failsOnly_realize h.tidy.sound hh hp hpage (haloof _ _ hb)).failed hrun
    obtain ⟨pins, hbuilt⟩ := hl.built
    exact h.spawns (hl.tidy h.tidy) ⟨hbuilt.spawns.old, hbuilt.spawns.new⟩

theorem creates {content : Content} (hp : page.index < w.pages.size)
    (hrun : (createNode page content).run w = .ok n w') : w'.AtRest := by
  have hc := createNode_spec h.tidy.sound hp hrun
  have hb : Built (fun _ => True) n w w' := (Built.refl h.tidy.sound).create hc
  refine h.spawns ((hb.builds_nil hc.fresh fun hr _ => .inl ?_).tidy h.tidy ?_) hb.spawns
  · obtain ⟨page, rfl⟩ := hc.eq
    exact hr
  · rw [show w'.slot n = _ from hc.slot_self]
    exact .nil

theorem places (ho : w.Occupied n) (hroot : (w.slot content).parent = none)
    (htype : (w.slot content).content.type = .fragment)
    (hrun : (n.replaceChildren content).run w = .ok (.ok ()) w') : w'.AtRest := by
  have hm := moves_of_replaceChildren h.tidy.sound ho hroot htype hrun
  refine h.spawns (h.tidy.moves hm (h.tidy.nested n.page n.slot).closed) (spawns_of_eq ?_)
  obtain ⟨page, rfl⟩ := hm.eq
  rfl

theorem kills (hh : w.Hears D True) (hrun : (respond d (.kill m)).run w = .ok ⟨⟩ w') : w'.AtRest := by
  have hk := (releases_kill (K := fun _ => True) hh (fun _ _ _ _ => ⟨trivial, fun _ _ => trivial⟩)
    ⟨trivial, fun _ _ => trivial⟩).ok hrun
  exact h.spawns (h.tidy.releases hk) (spawns_of_eq hk.sites)

/-- Whatever occurs, the world is at rest again. -/
theorem occurs (hh : w.Hears D True) (ho : w.Occurs D w') (hn : w'.NoSites D) : w'.AtRest := by
  cases ho with
  | aside ha => exact h.aside ha
  | realizes hpage hp haloof hrun => exact h.realizes hh hpage hp haloof hn hrun
  | creates hp hrun => exact h.creates hp hrun
  | places ho hroot htype hrun => exact h.places ho hroot htype hrun
  | tells hr hheld hrun => exact h.reacts hh.wired hh.tracks hn hr hheld hrun
  | emits he => exact h.emits hh.wired hh.tracks hn he
  | kills hrun => exact h.kills hh hrun

end AtRest

theorem Edited.hears (h : w.Edited D) : w.Hears D True := by
  cases h with
  | start _ hh => exact hh
  | step _ _ hh => exact hh

/-- A world that has been edited in this way is at rest. -/
theorem Edited.atRest (h : w.Edited D) : w.AtRest := by
  induction h with
  | start h _ => exact h.atRest
  | step h ho hh ih => exact ih.occurs h.hears ho hh.noSites

end World

end LivePage
