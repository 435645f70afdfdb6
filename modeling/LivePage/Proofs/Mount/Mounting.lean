import Mathlib.Logic.Relation
import LivePage.Proofs.Mount.Refilling

/-!
# Trees that are mounted

Rendering a node into a page node mounts trees there that are built like the node
(`mounted_of_renderInto`). Emissions refill places of the trees, and the trees stay all that is
mounted there (`World.mounted_lasts`).
-/

namespace LivePage

open LivePage.Script

variable {w w' : World} {root n : PageNode} {D : CellId → Prop} {m : Teardown} {g g₀ : Mounts}
  {s : SiteId} {d : Nat}

/-- One place of the trees has new contents, which are built like the node of some value. -/
inductive Mounts.Refills : Mounts → Mounts → Prop where
  | fill {C : Hole} {x x' : Mounts} {s : SiteId} {w : World} {v : Value} : C.site? = some s →
      Grows [w.nodeOf v] x' → Refills (C.fill x) (C.fill x')

namespace World

/-- Trees are mounted that come from `g₀` by refilling places. -/
def Holds (D : CellId → Prop) (root : PageNode) (m : Teardown) (g₀ : Mounts) (w : World) : Prop :=
  ∃ g, Relation.ReflTransGen Mounts.Refills g₀ g ∧ w.Mounted D root m g

/-- What mounted trees keep while a place is renewed: it is one of theirs or has nothing to do with
them. -/
def HoldsPlace (D : CellId → Prop) (root : PageNode) (m : Teardown) (g₀ : Mounts) (s : SiteId)
    (w : World) : Prop :=
  ∃ g, Relation.ReflTransGen Mounts.Refills g₀ g ∧ w.Mounted D root m g ∧
    (s ∈ g.sites ∨ w.Elsewhere root g s)

theorem Mounted.beside (h : w.Mounted D root m g) (hb : w.Beside w') : w'.Mounted D root m g :=
  h.spared (X := False) (h.sealed.beside hb) hb.spares hb.fixed

/-- A place that is registered is one of the trees' own or has nothing to do with them. -/
theorem Mounted.place {c : CellId} {key : Nat} (h : w.Mounted D root m g)
    (hr : (key, .rebuild s) ∈ (w.cell c).registry) : s ∈ g.sites ∨ w.Elsewhere root g s := by
  by_cases ho : g.Owns root.page c (.rebuild s)
  · obtain ⟨-, ⟨s', hs, he⟩ | ⟨e, -, hm⟩⟩ := ho.cases
    · cases he
      exact .inl hs
    · exact hm.elim
  · exact .inr (h.sealed.elsewhere hr ho)

/-- Renewing any place keeps trees mounted. -/
theorem HoldsPlace.renew {site : Site} {v : Value} {u : Unit} (h : w.HoldsPlace D root m g₀ s)
    (hs : w.sites[s.index]? = some site) (hpin : .site s ∈ w.pins.flatten)
    (hrun : (replaceContents (respond d) site v).run w = .ok u w') (hn : w'.NoSites D) :
    w'.HoldsPlace D root m g₀ s := by
  obtain ⟨g, hg, hm, hp | hp⟩ := h
  · obtain ⟨C, x, rfl, hC⟩ := Hole.exists_of_sites hp
    obtain ⟨x', ⟨b, hgrows⟩, hm'⟩ := hm.refill hC hs hn hrun
    refine ⟨_, hg.tail (.fill hC hgrows), hm', .inl ?_⟩
    exact Hole.sites_fill.mem_iff.2 (List.mem_append_left _ (Hole.site_mem hC))
  · obtain ⟨hm', hsp, hp'⟩ := hm.sealed.renew (X := False) False.elim hs hp hpin hn hrun
    have hev := (lives_replaceContents (respond_lives d) site v).ok hrun hm.wired.reading
    exact ⟨g, hg, hm.spared hm' hsp hev.fixed, .inr hp'⟩

/-- Trees stay mounted, with places refilled. -/
theorem mounted_lasts (D : CellId → Prop) (root : PageNode) (m : Teardown) (g₀ : Mounts) :
    Lasting D (Holds D root m g₀) (HoldsPlace D root m g₀) where
  wired := by
    rintro w ⟨g, -, h⟩
    exact h.wired
  beside := by
    rintro w w' ⟨g, hg, h⟩ hb
    exact ⟨g, hg, h.beside hb⟩
  marks := by
    rintro w w' c key r n ⟨g, hg, h⟩ hr hm hd
    obtain ⟨h', hsp⟩ := h.sealed.dresses (X := False) hd False.elim
    exact ⟨g, hg, h.spared h' hsp hd.evolves.fixed⟩
  place := by
    rintro w c key s ⟨g, hg, h⟩ hr
    exact ⟨g, hg, h, h.place hr⟩
  whole := by
    rintro w s ⟨g, hg, h, -⟩
    exact ⟨g, hg, h⟩
  besidePlace := by
    rintro w w' s ⟨g, hg, h, hp⟩ hb
    exact ⟨g, hg, h.beside hb, hp.imp_right fun hp => hp.beside hb⟩
  exists_site := by
    rintro w s ⟨g, -, h, hp | hp⟩
    · obtain ⟨c, l, t, ⟨site, hsite, -⟩⟩ := h.stand.siteAt hp
      exact ⟨site, hsite⟩
    · exact ⟨_, Array.getElem?_eq_getElem hp.founded.lt⟩
  renew h hs hpin hrun hn := h.renew hs hpin hrun hn

end World

/-! ## Names -/

section

variable (names : Names)

theorem World.fixed_renamed (w : World) : w.Fixed { w with names := names } :=
  ⟨fun hs => ⟨_, hs, rfl⟩, fun hr => ⟨_, hr, rfl⟩, Nat.le_refl _⟩

theorem World.Sound.renamed (h : w.Sound) : ({ w with names := names } : World).Sound where
  forest := h.forest
  placed hr hp := by
    have hpl := h.placed hr hp
    exact hpl.mono (w.fixed_renamed names) (fun _ he => he.congr (by rfl) (by rfl) (by rfl))
      fun n he => hpl.exists_of_reaches he

theorem Reaction.Apart.renamed {r : Reaction} (h : r.Apart w root g) :
    r.Apart { w with names := names } root g :=
  ⟨fun he => h.reaches (he.congr (by rfl) (by rfl) (by rfl)), h.target⟩

/-- What other names stand for does not matter. -/
theorem World.Mounted.renamed (h : w.Mounted D root m g) (hn : .slot root ∈ namesHold names) :
    ({ w with names := names } : World).Mounted D root m g where
  sound := h.sound.renamed names
  wired := ⟨h.wired.reading, h.wired.keyed, h.wired.follows, h.wired.unfed⟩
  tracks := ⟨h.tracks.ofRef, h.tracks.feeds⟩
  named := hn
  occupied := h.occupied
  stand := h.stand.frame (x := True) (w.fixed_renamed names) (fun _ _ => .refl _ _) fun _ _ => rfl
  children := h.children
  teardowns := h.teardowns
  nodup := h.nodup
  nodupLists := h.nodupLists
  apart hr hp := (h.apart hr hp).imp_right fun ha => ha.renamed names

end

/-! ## Mounting -/

/-- What subscriptions do to pages does not happen to the children of `root`. -/
def World.Bare (root : PageNode) (w : World) : Prop :=
  ∀ (c : CellId) (key : Nat) (r : Reaction), (key, r) ∈ (w.cell c).registry → r.onPage →
    r.Apart w root .nil

/-- A draft that has been put below `root`, in place of all that was there, is mounted there. -/
theorem World.Drafted.mounted {b : World} {content : PageNode} {T S : PageNode → Prop}
    (h : World.Drafted D content b w m g) (hb : b.Sound) (hw : b.Wired) (ht : b.Tracks D)
    (hbare : b.Bare root) (hs : w.unpinned.Settles T S root.slot content g w')
    (hp : content.page = root.page) (ho : w'.Occupied root)
    (hch : (w'.slot root).children = g.tops) {names : Names}
    (hnamed : .slot root ∈ namesHold names) :
    ({ w' with names := names } : World).Mounted D root m g := by
  have hev : Evolves b w' := by
    have h₁ := h.built.evolves
    have h₂ := hs.evolves
    rw [World.unpinned, h.pins] at h₂
    exact h₁.trans h₂
  have hsound := hs.sound
  refine ⟨hsound.renamed names, ?_, ?_, hnamed, ho, ?_, hch, hp ▸ h.teardowns, h.nodup,
    h.nodupLists, fun {c key r} hr hpage => ?_⟩
  · have := hw.evolves hev
    exact ⟨this.reading, this.keyed, this.follows, this.unfed⟩
  · have := ht.evolves hev
    exact ⟨this.ofRef, this.feeds⟩
  · have := hs.stand
    rw [hp] at this
    exact this.frame (x := True) (w'.fixed_renamed names) (fun _ _ => .refl _ _) fun _ _ => rfl
  · have hreg : (key, r) ∈ (w.cell c).registry := by
      have hc := hs.cell c
      exact (congrArg Cell.registry hc) ▸ hr
    rcases h.owns hreg hpage with hold | ho
    · right
      have hpl := hb.placed hold hpage
      refine Reaction.Apart.renamed names ⟨fun {e} he hg => ?_, fun {s} {site} hrs hsite => ?_⟩
      · have he : r.Reaches b e := h.built.within.reaction_reaches_of hpl
          ((hs.reaches he).congr (by rfl) (by rfl) (by rfl))
        have hnew := h.new (hp ▸ hg.covers)
        cases e with
        | slot n => exact hnew (World.Guards.safe (.registered hold hpl he) (hpl.exists_of_reaches he))
        | records l => exact Nat.not_lt.2 hnew (hpl.exists_of_reaches he)
        | _ => exact hg
      · subst hrs
        have hsb : w'.sites[s.index]? = b.sites[s.index]? :=
          (congrArg (·[s.index]?) hs.sites).trans (h.built.sites hpl.founded.lt)
        rw [hev.pages]
        exact (hbare c key _ hold hpage).target rfl (hsb ▸ hsite)
    · exact .inl (hp ▸ ho)

theorem World.Creates.blank_of_pinned {b : World} {p : PageId} {content : PageNode}
    {held : List Entity} (hc : (b.pinned held).Creates p .fragment content w) (hs : b.Sound) :
    World.Blank D content b w.unpinned := by
  have hpins : w.pins = held :: b.pins := by
    obtain ⟨page, rfl⟩ := hc.eq
    rfl
  exact {
    built := (Built.refl hs).unpinned (((Built.refl hs).pinned held).create hc) hpins
    pins := congrArg List.tail hpins
    fresh := fun h => hc.fresh (h.pinned hs held)
    slot := hc.slot_self
    occupied := hc.occupied_self
    registry := fun c => by
      obtain ⟨page, rfl⟩ := hc.eq
      rfl }

/-- The steps by which a node is realized for a page. -/
theorem ok_realize {call : Respond} {labelled : Bool} {node : Node} {r : Realization}
    (h : (realize call labelled node).run.run w = .ok (.ok r) w') :
    ∃ page w₁ w₂, w.activePage = some page ∧
      (createNode page .fragment).run (w.pinned node.holds) = .ok r.fragment w₁ ∧
      (node.realize call ⟨page, labelled⟩ r.fragment).run.run
        (w₁.unpinned.pinned [.slot r.fragment]) = .ok (.ok r.teardown) w₂ ∧
      w' = w₂.unpinned := by
  obtain ⟨v, w₀, h₀, h⟩ := ok_ebind.1 h
  have h₀ : (.ok (.ok w) w : EStateM.Result Stop World (Except RealizationError World)) =
    .ok (.ok v) w₀ := h₀
  cases h₀
  split at h
  · cases h
  · next page hpage =>
    obtain ⟨content, v₁, h₁, h⟩ := ok_ebind.1 h
    obtain ⟨w₁, hcreate, rfl⟩ := ok_realizingWith.1 h₁
    obtain ⟨m, v₂, h₂, h⟩ := ok_ebind.1 h
    obtain ⟨w₂, hrealize, rfl⟩ := ok_realizingWith.1 h₂
    obtain ⟨rfl, rfl⟩ := ok_epure.1 h
    exact ⟨page, w₁, w₂, hpage, ok_lift.1 hcreate, hrealize, rfl⟩

theorem lives_realize (d : Nat) (labelled : Bool) (node : Node) :
    Lives (realize (respond d) labelled node).run := by
  refine Keeps.ebind (R := fun w w' => w.Reading → Evolves w w') keeps_get.lift fun w => ?_
  split
  · exact keeps_ethrow _
  · exact (lives_realizingWith (lives_createNode ..).lift).ebind fun _ =>
      (lives_realizingWith (lives_realizeNode (respond_lives d) ..)).ebind fun _ => keeps_epure _

/-- What is realized for a page is a draft in its fragment. -/
theorem drafted_of_realize {labelled : Bool} {node : Node} {r : Realization} (hs : w.Sound)
    (hw : w.Wired) (ht : w.Tracks D)
    (hp : ∀ page, w.activePage = some page → page = r.fragment.page → page.index < w.pages.size)
    (h : (realize (respond d) labelled node).run.run w = .ok (.ok r) w') (hn : w'.NoSites D) :
    ∃ w₂ g, w' = w₂.unpinned ∧ World.Drafted D r.fragment w w₂ r.teardown g ∧ Grows [node] g := by
  obtain ⟨page, w₁, w₂, hpage, h₁, h₂, rfl⟩ := ok_realize h
  have hfragment : r.fragment.page = page := by
    rw [run_createNode] at h₁
    exact (congrArg PageNode.page (EStateM.Result.ok.inj h₁).1).symm
  have hc := createNode_spec (hs.pinned node.holds) (hp page hpage hfragment.symm) h₁
  obtain ⟨g, hd, hg⟩ := (hc.blank_of_pinned hs).drafted hw ht hfragment h₂ hn
  exact ⟨w₂, g, rfl, hd, hg⟩

theorem page_of_replaceChildren {content : PageNode}
    (h : (n.replaceChildren content).run w = .ok (.ok ()) w') : content.page = n.page := by
  obtain ⟨r, w₁, -, h⟩ := ok_bind.1 h
  cases r with
  | error e => cases (ok_pure.1 h).1
  | ok u =>
    by_contra hne
    rw [PageNode.append, PageNode.insertBefore, if_neg] at h
    · cases (ok_pure.1 h).1
    · simpa [PageNode.sharesPage] using fun he => hne he.symm

namespace World

/-- A node is realized below `root`, which is named then: in place of the children that it has, or as
a new fragment. -/
inductive Realizes (d : Nat) (labelled : Bool) (root : PageNode) (node : Node) (m : Teardown) :
    World → World → Prop where
  | render {w w' : World} : .slot root ∈ namesHold w.names → w.Occupied root →
      (renderInto (respond d) labelled root node).run.run w = .ok (.ok m) w' →
      Realizes d labelled root node m w w'
  | realize {w w' : World} {names : Names} :
      (∀ page, w.activePage = some page → page.index < w.pages.size) →
      (LivePage.realize (respond d) labelled node).run.run w = .ok (.ok ⟨root, m⟩) w' →
      .slot root ∈ namesHold names →
      Realizes d labelled root node m w { w' with names := names }

theorem Realizes.reading {labelled : Bool} {node : Node}
    (h : Realizes d labelled root node m w w') (hr : w.Reading) : w'.Reading := by
  cases h with
  | realize _ hrun => exact ((lives_realize ..).ok hrun hr).reading hr
  | render _ _ hrun =>
    refine Evolves.reading (Keeps.ok (R := fun w w' => w.Reading → Evolves w w')
      (E := fun _ => True) ?_ hrun hr) hr
    exact (lives_realize ..).ebind fun _ =>
      (lives_realizingWith (lives_replaceChildren ..).pageStep).ebind fun _ => keeps_epure _

/-- What is realized below a page node is mounted there. -/
theorem Realizes.mounted {labelled : Bool} {node : Node}
    (h : Realizes d labelled root node m w w') (hs : w.Sound) (hw : w.Wired) (ht : w.Tracks D)
    (hbare : w.Bare root) (hn : w'.NoSites D) : ∃ g, Grows [node] g ∧ w'.Mounted D root m g := by
  cases h with
  | @realize w₁ names hp hrun hnamed =>
    obtain ⟨w₂, g, rfl, hd, hg⟩ := drafted_of_realize hs hw ht (fun page hpage _ => hp page hpage)
      hrun hn
    exact ⟨g, hg, hd.mounted hs hw ht hbare (hd.built.sound.unpinned.settles (hd.stand.repin _)
      (fun _ => False) fun _ => False) rfl hd.occupied (congrArg Slot.children hd.slot) hnamed⟩
  | render hnamed ho hrun =>
    obtain ⟨r, w₁, hrealize, h₁⟩ := ok_ebind.1 hrun
    obtain ⟨_, w₂, h₂, h⟩ := ok_ebind.1 h₁
    obtain ⟨rfl, rfl⟩ := ok_epure.1 h
    obtain ⟨w₃, h₃, rfl⟩ := ok_realizingWith.1 h₂
    have hput := ok_pageStep.1 h₃
    have hcp : r.fragment.page = root.page := page_of_replaceChildren hput
    have hev : Evolves (w₁.pinned r.teardown.holds) w₃ :=
      (lives_replaceChildren ..).ok hput (((lives_realize ..).ok hrealize hw.reading).reading hw.reading)
    have hn₁ : (w₁.pinned r.teardown.holds).NoSites D := (show w₃.NoSites D from hn).of_evolves hev
    obtain ⟨w₂, g, rfl, hd, hg⟩ := drafted_of_realize hs hw ht (fun page _ he => by
      rw [he, hcp]
      exact World.lt_of_occupied ho) hrealize hn₁
    have hslot : (w₂.unpinned.pinned r.teardown.holds).slot r.fragment = _ := hd.slot
    have hroot : w.Safe root := Guards.safe (.named hnamed) ho
    have hne : root ≠ r.fragment := fun he => hd.fresh (he ▸ hroot)
    have hm := moves_of_replaceChildren (hd.built.sound.unpinned.pinned _) (hd.built.occupied hroot)
      (by rw [hslot]) (by rw [hslot]; rfl) hput
    have hset := (hm.settles (.inl rfl) (hd.built.sound.unpinned.pinned _)
      ((hd.stand.repin _).repin _) hd.nodup (by rw [hslot])).unpinned
    have hch : (w₃.slot root).children = g.tops := by
      rw [hm.target, hslot]
      simp
    have hnames : w₃.unpinned.names = w.names := hset.evolves.names.trans hd.built.evolves.names
    exact ⟨g, hg, hd.mounted hs hw ht hbare hset hcp (hm.occupied.2 (hd.built.occupied hroot)) hch
      (show .slot root ∈ namesHold w₃.unpinned.names from hnames ▸ hnamed)⟩

/-! ### What driven nodes show first -/

/-- A driven text that is realized shows the text that it was built with, whatever its observable
holds by then. -/
theorem Realizes.drivenText {labelled : Bool} {data : String} {source : CellId}
    (h : Realizes d labelled root (.text data (some source)) m w w') (hs : w.Sound) (hw : w.Wired)
    (ht : w.Tracks D) (hbare : w.Bare root) (hn : w'.NoSites D) :
    ∃ start i finish, (w'.slot root).children = [start, i, finish] ∧
      (w'.slot ⟨root.page, i⟩).content = .text data := by
  obtain ⟨g, hgrows, hm⟩ := h.mounted hs hw ht hbare hn
  cases hgrows with
  | drivenText region i data l hrest =>
    cases hrest
    exact ⟨_, i, _, hm.children, congrArg Slot.content hm.stand.2.1.1⟩

/-- A driven fragment that is realized shows the nodes that it was built with. -/
theorem Realizes.drivenFragment {labelled : Bool} {ns : List Node} {source : CellId}
    (h : Realizes d labelled root (.fragment ns (some source)) m w w') (hs : w.Sound) (hw : w.Wired)
    (ht : w.Tracks D) (hbare : w.Bare root) (hn : w'.NoSites D) :
    ∃ start inner finish, Grows ns inner ∧ inner.Stand w' root.page root.slot ∧
      (w'.slot root).children = start :: (inner.tops ++ [finish]) := by
  obtain ⟨g, hgrows, hm⟩ := h.mounted hs hw ht hbare hn
  cases hgrows with
  | drivenFragment region hinner hrest =>
    cases hrest
    exact ⟨_, _, _, hinner, hm.stand.2.1, hm.children⟩

end World

end LivePage
