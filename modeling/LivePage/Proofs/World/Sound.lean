import LivePage.Proofs.Run.Emission
import LivePage.Proofs.World.Ownership
import LivePage.Proofs.Page.Replacement

/-!
# Worlds in order

`Sound` says that pages are forests, and that what subscriptions lead to that do something to a page
is there. In a sound world a node that is held, or that shares its tree with one that is held, stands
in an occupied slot, and creating nodes does not touch it (`createNode_spec`).
-/

namespace LivePage

variable {w w' : World} {n m : PageNode} {c : CellId} {p : PageId} {e : Entity}

namespace World

/-! ## Pages of the world -/

/-- The world with a page replaced. -/
def withPage (w : World) (p : PageId) (page : Page) : World :=
  { w with pages := w.pages.setIfInBounds p.index page }

theorem page_withPage_self (h : p.index < w.pages.size) (page : Page) :
    (w.withPage p page).page p = page := by
  simp [World.page, withPage, Array.getD_eq_getD_getElem?, h]

theorem page_withPage_of_ne {q : PageId} (h : q ≠ p) (page : Page) :
    (w.withPage p page).page q = w.page q := by
  have hne : p.index ≠ q.index := fun he => h (by cases p; cases q; cases he; rfl)
  simp [World.page, withPage, Array.getD_eq_getD_getElem?, Array.getElem?_setIfInBounds, hne]

theorem page_of_size_le (h : w.pages.size ≤ p.index) : w.page p = {} := by
  simp [World.page, Array.getD_eq_getD_getElem?, h]
  rfl

theorem lt_of_occupied {i : Nat} (h : (w.page p).Occupied i) : p.index < w.pages.size := by
  refine Nat.lt_of_not_le fun hp => ?_
  rw [page_of_size_le hp] at h
  exact absurd h.1 (Nat.not_lt_zero i)

theorem slot_withPage_self (h : p.index < w.pages.size) (page : Page) (i : Nat) :
    (w.withPage p page).slot ⟨p, i⟩ = page.slot i := by
  rw [slot, page_withPage_self h]

theorem slot_withPage_of_ne (h : n.page ≠ p) (page : Page) :
    (w.withPage p page).slot n = w.slot n := by
  rw [slot, page_withPage_of_ne h, slot]

/-- The slot holds a node. -/
def Occupied (w : World) (n : PageNode) : Prop := (w.page n.page).Occupied n.slot

/-- `a` is the node `n` or above it. -/
def Up (w : World) (n a : PageNode) : Prop := a.page = n.page ∧ (w.page n.page).Up n.slot a.slot

/-! ## What a place still leads to -/

/-- The places and the regions of a world are still there, as they were. -/
structure Fixed (w w' : World) : Prop where
  sites {s : Nat} {site : Site} : w.sites[s]? = some site →
    ∃ site', w'.sites[s]? = some site' ∧ site'.still = site.still
  regions {r : Nat} {region : Region} : w.regions[r]? = some region →
    ∃ region', w'.regions[r]? = some region' ∧ region'.anchors = region.anchors
  size : w.records.size ≤ w'.records.size

theorem Fixed.trans {w'' : World} (h : Fixed w w') (h' : Fixed w' w'') : Fixed w w'' where
  sites hs := by
    obtain ⟨site', hs', he⟩ := h.sites hs
    obtain ⟨site'', hs'', he'⟩ := h'.sites hs'
    exact ⟨site'', hs'', he'.trans he⟩
  regions hr := by
    obtain ⟨region', hr', he⟩ := h.regions hr
    obtain ⟨region'', hr'', he'⟩ := h'.regions hr'
    exact ⟨region'', hr'', he'.trans he⟩
  size := Nat.le_trans h.size h'.size

theorem Fixed.exists_of_exists (h : Fixed w w') (he : w.Exists e) (ho : ∀ n, e = .slot n → w'.Occupied n) :
    w'.Exists e := by
  cases e with
  | slot n => exact ho n rfl
  | records l => exact Nat.lt_of_lt_of_le he h.size
  | region r =>
    obtain ⟨region, hr, -⟩ := h.regions (Array.getElem?_eq_getElem he)
    exact (Array.getElem?_eq_some_iff.1 hr).1
  | site s =>
    obtain ⟨site, hs, -⟩ := h.sites (Array.getElem?_eq_getElem he)
    exact (Array.getElem?_eq_some_iff.1 hs).1
  | _ => trivial

/-- A subscription that leads to no more than before is still in order. -/
theorem Placed.mono {r : Reaction} (hp : w.Placed c r) (h : Fixed w w')
    (hr : ∀ e, r.Reaches w' e → r.Reaches w e)
    (ho : ∀ n, r.Reaches w (.slot n) → w'.Occupied n) : w'.Placed c r := by
  refine ⟨hp.onPage, ?_, fun {e} he => ?_⟩
  · have hf := hp.follows
    cases r with
    | rebuild s =>
      obtain ⟨site, hs, rfl⟩ := hf
      obtain ⟨site', hs', he⟩ := h.sites hs
      exact ⟨site', hs', Site.source_of_still he⟩
    | _ => exact hf
  · refine h.exists_of_exists (hp.exists_of_reaches (hr e he)) ?_
    rintro n rfl
    exact ho n (hr _ he)

/-- The places, regions and lists of records of a world are still there, as they were. -/
structure Within (w w' : World) : Prop extends Fixed w w' where
  lists {l : RecordsId} : l.index < w.records.size → w'.recordsIn l = w.recordsIn l

/-- A change that concerns none of them. -/
theorem within_of_eq (hs : w'.sites = w.sites) (hr : w'.regions = w.regions)
    (hl : w'.records = w.records) : Within w w' where
  sites h := ⟨_, by rwa [hs], rfl⟩
  regions h := ⟨_, by rwa [hr], rfl⟩
  size := Nat.le_of_eq (by rw [hl])
  lists _ := by rw [recordsIn, recordsIn, hl]

namespace Within

variable (h : Within w w')
include h

theorem sites_of_lt {s : SiteId} {site' : Site} (hs : s.index < w.sites.size)
    (hsite : w'.sites[s.index]? = some site') :
    ∃ site, w.sites[s.index]? = some site ∧ site.still = site'.still := by
  obtain ⟨site'', hs'', he⟩ := h.sites (Array.getElem?_eq_getElem hs)
  rw [hsite] at hs''
  cases hs''
  exact ⟨_, Array.getElem?_eq_getElem hs, he.symm⟩

theorem regions_of_lt {r : RegionId} {region' : Region} (hr : r.index < w.regions.size)
    (hregion : w'.regions[r.index]? = some region') :
    ∃ region, w.regions[r.index]? = some region ∧ region.anchors = region'.anchors := by
  obtain ⟨region'', hr'', he⟩ := h.regions (Array.getElem?_eq_getElem hr)
  rw [hregion] at hr''
  cases hr''
  exact ⟨_, Array.getElem?_eq_getElem hr, he.symm⟩

theorem reaches {s : SiteId} (hf : w.Founded s) (he : w.Reaches s e) : w'.Reaches s e :=
  he.transfer (fun _ => h.sites) (fun _ _ _ _ => h.regions) fun l m hl _ hm => by
    rwa [h.lists (hf.exists_of_reaches hl)]

theorem reaches_of {s : SiteId} (hf : w.Founded s) (he : w'.Reaches s e) : w.Reaches s e :=
  he.transfer (fun _ => h.sites_of_lt hf.lt)
    (fun _ _ _ hr => h.regions_of_lt (hf.exists_of_reaches hr)) fun l m _ hl hm => by
      rwa [h.lists (hf.exists_of_reaches hl)] at hm

theorem founded {s : SiteId} (hf : w.Founded s)
    (ho : ∀ n, w.Reaches s (.slot n) → w'.Occupied n) : w'.Founded s := by
  refine ⟨h.exists_of_exists (e := .site s) hf.lt (by simp), fun {e} he => ?_⟩
  have he := h.reaches_of hf he
  refine h.exists_of_exists (hf.exists_of_reaches he) ?_
  rintro n rfl
  exact ho n he

theorem reaction_reaches {r : Reaction} (hp : w.Placed c r) (he : r.Reaches w e) :
    r.Reaches w' e := by
  cases r with
  | rebuild s => exact he.imp_right (h.reaches hp.founded)
  | _ => exact he

theorem reaction_reaches_of {r : Reaction} (hp : w.Placed c r) (he : r.Reaches w' e) :
    r.Reaches w e := by
  cases r with
  | rebuild s => exact he.imp_right (h.reaches_of hp.founded)
  | _ => exact he

theorem placed {r : Reaction} (hp : w.Placed c r)
    (ho : ∀ n, r.Reaches w (.slot n) → w'.Occupied n) : w'.Placed c r :=
  hp.mono h.toFixed (fun _ => h.reaction_reaches_of hp) ho

end Within

/-! ## Worlds in order -/

/-- Pages are forests, and what subscriptions that do something to a page lead to is there. -/
structure Sound (w : World) : Prop where
  forest (p : PageId) : (w.page p).Forest
  placed {c : CellId} {key : Nat} {r : Reaction} : (key, r) ∈ (w.cell c).registry → r.onPage →
    w.Placed c r

/-- Whoever shares a tree with a held node stands in an occupied slot. -/
theorem Safe.occupied (hs : w.Sound) (h : w.Safe n) : w.Occupied n := by
  obtain ⟨g, a, -, ho, hg, hn⟩ := h
  have hf := hs.forest n.page
  have hoa : (w.page n.page).Occupied a := by
    rcases hg.eq_or_parent with rfl | ⟨q, hq, -⟩
    · exact ho
    · exact hf.occupied_of_up (hf.up hq).1 hg
  rcases hn.eq_or_parent with rfl | ⟨q, hq, -⟩
  · exact hoa
  · exact (hf.up hq).1

theorem safe_of_pinned {held : List Entity} (h : .slot n ∈ held) (ho : w.Occupied n) :
    (w.pinned held).Safe n :=
  Guards.safe (.pinned (List.mem_flatten.2 ⟨held, List.mem_cons_self, h⟩)) ho

section

variable (h : Within w w') (hnames : w'.names = w.names)
  (hpins : ∀ e ∈ w.pins.flatten, e ∈ w'.pins.flatten)
  (hregistry : ∀ c, ∀ s ∈ (w.cell c).registry, s ∈ (w'.cell c).registry)
  (hoccupied : ∀ n, w.Safe n → w'.Occupied n)
include h hoccupied

/-- A change that keeps what is safe keeps the world in order. -/
theorem Sound.within (hs : w.Sound) (hforest : ∀ p, (w'.page p).Forest)
    (hnew : ∀ c s, s ∈ (w'.cell c).registry → s.2.onPage →
      s ∈ (w.cell c).registry ∨ w'.Placed c s.2) : w'.Sound where
  forest := hforest
  placed {c key r} hr hp := by
    rcases hnew c _ hr hp with hr | hp
    · have hpl := hs.placed hr hp
      exact h.placed hpl fun n he =>
        hoccupied n (Guards.safe (.registered hr hpl he) (hpl.exists_of_reaches he))
    · exact hp

include hnames hpins hregistry

theorem Guards.within (hg : w.Guards n) : w'.Guards n := by
  cases hg with
  | named hg => exact .named (by rwa [hnames])
  | pinned hg => exact .pinned (hpins _ hg)
  | site hp hf he =>
    refine .site (hpins _ hp) (h.founded hf fun m hm => ?_) (h.reaches hf he)
    exact hoccupied m (Guards.safe (.site hp hf hm) (hf.exists_of_reaches hm))
  | registered hr hpl he =>
    refine .registered (hregistry _ _ hr) (h.placed hpl fun m hm => ?_) (h.reaction_reaches hpl he)
    exact hoccupied m (Guards.safe (.registered hr hpl hm) (hpl.exists_of_reaches hm))

/-- What is safe stays so if what holds nodes is still there, and safe nodes stay below the nodes
that were above them. -/
theorem Safe.within
    (hparent : ∀ n q, w.Safe n → (w.slot n).parent = some q → (w'.slot n).parent = some q)
    (hn : w.Safe n) : w'.Safe n := by
  have hup : ∀ {i a : Nat}, (w.page n.page).Up i a → w.Safe ⟨n.page, i⟩ →
      (w'.page n.page).Up i a := by
    rintro i a ⟨k, hk⟩
    induction hk with
    | refl i => exact fun _ => .refl _ i
    | @step i q a k hq hk ih =>
      intro hi
      exact .step (hparent ⟨n.page, i⟩ q hi hq) (ih (hi.up (.parent hq)))
  obtain ⟨g, a, hgn, hog, hga, hna⟩ := hn
  have hgs : w.Safe ⟨n.page, g⟩ := Guards.safe hgn hog
  exact ⟨g, a, hgn.within h hnames hpins hregistry hoccupied, hoccupied _ hgs, hup hga hgs,
    hup hna ⟨g, a, hgn, hog, hga, hna⟩⟩

end

/-! ## Changes of pins only -/

theorem Sound.repin (h : w.Sound) (pins : List (List Entity)) :
    ({ w with pins := pins } : World).Sound := by
  have hw : Within w { w with pins := pins } := within_of_eq rfl rfl rfl
  exact Sound.within hw (fun n hn => show w.Occupied n from hn.occupied h) h h.forest
    fun _ _ hs _ => .inl hs

theorem Sound.pinned (h : w.Sound) (held : List Entity) : (w.pinned held).Sound := h.repin _

theorem Sound.unpinned (h : w.Sound) : w.unpinned.Sound := h.repin _

theorem Safe.repin (hs : w.Sound) {pins : List (List Entity)}
    (hp : ∀ e ∈ w.pins.flatten, e ∈ pins.flatten) (h : w.Safe n) :
    ({ w with pins := pins } : World).Safe n := by
  have hw : Within w { w with pins := pins } := within_of_eq rfl rfl rfl
  exact h.within hw rfl hp (fun _ _ h => h)
    (fun n hn => show w.Occupied n from hn.occupied hs) fun _ _ _ hq => hq

theorem Safe.pinned (hs : w.Sound) (h : w.Safe n) (held : List Entity) :
    (w.pinned held).Safe n :=
  h.repin hs fun _ he => List.mem_append_right held he

/-! ## Changes of pages only -/

theorem cell_withPage (w : World) (p : PageId) (page : Page) (c : CellId) :
    (w.withPage p page).cell c = w.cell c := rfl

theorem within_withPage (w : World) (p : PageId) (page : Page) : Within w (w.withPage p page) :=
  within_of_eq rfl rfl rfl

section

variable {page : Page} (hs : w.Sound) (ho : ∀ n, n.page = p → w.Safe n → page.Occupied n.slot)
include hs ho

theorem occupied_withPage (hn : w.Safe n) : (w.withPage p page).Occupied n := by
  have hex := hn.occupied hs
  by_cases hnp : n.page = p
  · subst hnp
    rw [Occupied, page_withPage_self (lt_of_occupied hex)]
    exact ho n rfl hn
  · rw [Occupied, page_withPage_of_ne hnp]
    exact hex

theorem Sound.withPage (hf : page.Forest) : (w.withPage p page).Sound := by
  refine Sound.within (within_withPage w p page) (fun n => occupied_withPage hs ho) hs
    (fun q => ?_) fun c s h _ => .inl (by rwa [cell_withPage] at h)
  by_cases hq : q = p
  · subst hq
    by_cases hlt : q.index < w.pages.size
    · rwa [page_withPage_self hlt]
    · rw [page_of_size_le (by simpa [World.withPage] using hlt)]
      have := hs.forest q
      rwa [page_of_size_le (Nat.le_of_not_lt hlt)] at this
  · rw [page_withPage_of_ne hq]
    exact hs.forest q

theorem safe_withPage
    (hp : ∀ n q, n.page = p → w.Safe n → (w.slot n).parent = some q →
      (page.slot n.slot).parent = some q)
    (h : w.Safe n) : (w.withPage p page).Safe n := by
  refine h.within (within_withPage w p page) rfl (fun _ h => h)
    (fun c s h => by rwa [cell_withPage]) (fun n => occupied_withPage hs ho) fun n q hn hq => ?_
  by_cases hnp : n.page = p
  · subst hnp
    rw [slot_withPage_self (lt_of_occupied (hn.occupied hs))]
    exact hp n q rfl hn hq
  · rwa [slot_withPage_of_ne hnp]

end

/-! ## Changes of one node only -/

/-- The world with another content of a page node. -/
def withContent (w : World) (n : PageNode) (content : Content) : World :=
  w.withPage n.page ((w.page n.page).modify n.slot fun s => { s with content })

section

variable {content : Content}

theorem slot_withContent (ho : w.Occupied n) (m : PageNode) :
    (w.withContent n content).slot m =
      if m = n then { w.slot n with content } else w.slot m := by
  by_cases hmp : m.page = n.page
  · obtain ⟨pg, i⟩ := m
    obtain ⟨pg', j⟩ := n
    obtain rfl : pg = pg' := hmp
    rw [withContent, slot_withPage_self (lt_of_occupied ho), Page.slot_modify]
    by_cases hij : i = j
    · subst hij
      rw [if_pos rfl, if_pos ⟨rfl, ho.1⟩]
      rfl
    · rw [if_neg fun h => hij h.1.symm, if_neg fun h => hij (congrArg PageNode.slot h)]
      rfl
  · rw [if_neg fun h => hmp (congrArg PageNode.page h)]
    exact slot_withPage_of_ne hmp _

/-- A content of the same type keeps the shape of pages. -/
theorem shaped_withContent (ht : content.type = (w.slot n).content.type) (p : PageId) :
    (w.page p).Shaped ((w.withContent n content).page p) := by
  have hself : ∀ page : Page, page.Shaped page :=
    fun _ => ⟨rfl, rfl, fun _ => rfl, fun _ => rfl, fun _ => rfl⟩
  by_cases hp : p = n.page
  · subst hp
    by_cases hlt : n.page.index < w.pages.size
    · rw [withContent, page_withPage_self hlt]
      have hslot : ∀ i, ((w.page n.page).modify n.slot fun s => { s with content }).slot i =
          if i = n.slot ∧ i < (w.page n.page).slots.size
            then { (w.page n.page).slot i with content } else (w.page n.page).slot i := by
        intro i
        rw [Page.slot_modify]
        by_cases hi : n.slot = i
        · subst hi
          simp
        · rw [if_neg fun h => hi h.1, if_neg fun h => hi h.1.symm]
      refine ⟨by simp, rfl, fun i => ?_, fun i => ?_, fun i => ?_⟩
      · rw [hslot]
        split <;> rfl
      · rw [hslot]
        split <;> rfl
      · rw [hslot]
        split
        · next hi => exact hi.1 ▸ ht
        · rfl
    · have hsize : (w.withContent n content).pages.size ≤ n.page.index := by
        simpa [withContent, withPage] using hlt
      rw [page_of_size_le hsize, page_of_size_le (Nat.le_of_not_lt hlt)]
      exact hself _
  · rw [withContent, page_withPage_of_ne hp]
    exact hself _

theorem withContent_self (ho : w.Occupied n) (h : (w.slot n).content = content) :
    w.withContent n content = w := by
  subst h
  have hlt := lt_of_occupied ho
  have hpage : ((w.page n.page).modify n.slot fun s => { s with content := (w.slot n).content }) =
      w.page n.page := by
    have hslots : (w.page n.page).slots.modify n.slot
        (fun s => { s with content := (w.slot n).content }) = (w.page n.page).slots := by
      refine Array.ext_getElem? fun i => ?_
      rw [Array.getElem?_modify]
      split
      · next hi =>
        subst hi
        simp [slot, Page.slot_eq_getElem?, Array.getElem?_eq_getElem ho.1]
      · rfl
    rw [Page.modify, hslots]
  rw [withContent, hpage, withPage]
  have : w.pages.setIfInBounds n.page.index (w.page n.page) = w.pages := by
    refine Array.ext_getElem? fun i => ?_
    rw [Array.getElem?_setIfInBounds]
    split
    · next hi =>
      subst hi
      simp [page, Array.getD_eq_getD_getElem?, hlt]
    · rfl
  rw [this]

theorem withContent_withContent (ho : w.Occupied n) (content' : Content) :
    (w.withContent n content).withContent n content' = w.withContent n content' := by
  have hlt := lt_of_occupied ho
  rw [withContent, withContent, withContent, page_withPage_self hlt]
  have : ((w.page n.page).modify n.slot fun s => { s with content }).modify n.slot
      (fun s => { s with content := content' }) =
      (w.page n.page).modify n.slot fun s => { s with content := content' } := by
    simp only [Page.modify]
    congr 1
    refine Array.ext_getElem? fun i => ?_
    simp only [Array.getElem?_modify]
    split
    · cases (w.page n.page).slots[i]? <;> simp
    · rfl
  rw [this]
  simp [withPage, Array.setIfInBounds_setIfInBounds]

end

/-! ## Creating nodes -/

/-- What creating a node leaves: the new node stands where nothing safe stood, and what is safe is
as it was. -/
structure Creates (w : World) (p : PageId) (content : Content) (n : PageNode) (w' : World) :
    Prop where
  page : n.page = p
  eq : ∃ page, w' = w.withPage p page
  sound : w'.Sound
  slot_self : w'.slot n = { content }
  occupied_self : w'.Occupied n
  fresh : ¬ w.Safe n
  slot_of_safe {m : PageNode} : w.Safe m → w'.slot m = w.slot m
  safe {m : PageNode} : w.Safe m → w'.Safe m

end World

theorem run_createNode (p : PageId) (content : Content) (w : World) :
    (createNode p content).run w =
      .ok ⟨p, ((w.page p).created (w.heldSlots p) content).1⟩
        (w.withPage p ((w.page p).created (w.heldSlots p) content).2) := rfl

open World in
theorem createNode_spec {content : Content} (hs : w.Sound) (hp : p.index < w.pages.size)
    (h : (createNode p content).run w = .ok n w') : w.Creates p content n w' := by
  have hc := Page.created_spec (hs.forest p).rooted (w.heldSlots p) content
  have hf := (hs.forest p).created (w.heldSlots p) content
  rw [run_createNode] at h
  generalize (w.page p).created (w.heldSlots p) content = r at hc hf h
  obtain ⟨i, page⟩ := r
  cases h
  have hret : ∀ m : PageNode, m.page = p → w.Safe m →
      (w.page p).Occupied m.slot ∧ (w.page p).Retained (w.heldSlots p) m.slot := by
    rintro m rfl hm
    exact ⟨hm.occupied hs, hm.retained⟩
  have hocc : ∀ m : PageNode, m.page = p → w.Safe m → page.Occupied m.slot := fun m hm hsafe =>
    (hc.slot_of_retained (hret m hm hsafe).1 (hret m hm hsafe).2).2
  have hslot : ∀ m : PageNode, m.page = p → w.Safe m → page.slot m.slot = (w.page p).slot m.slot :=
    fun m hm hsafe => (hc.slot_of_retained (hret m hm hsafe).1 (hret m hm hsafe).2).1
  refine ⟨rfl, ⟨_, rfl⟩, hs.withPage hocc hf, ?_, ?_, ?_, ?_, ?_⟩
  · exact (slot_withPage_self hp _ _).trans hc.slot_self
  · show ((w.withPage p page).page p).Occupied i
    rw [page_withPage_self hp]
    exact hc.occupied_self
  · intro hsafe
    exact hc.ne_of_retained (hret _ rfl hsafe).1 (hret _ rfl hsafe).2 rfl
  · intro m hm
    by_cases hmp : m.page = p
    · subst hmp
      exact (slot_withPage_self hp _ _).trans (hslot m rfl hm)
    · exact slot_withPage_of_ne hmp _
  · refine fun hm => safe_withPage hs hocc (fun m q hmp hm hq => ?_) hm
    rw [hslot m hmp hm]
    subst hmp
    exact hq

end LivePage
