import LivePage.Proofs.Mount.Teardown
import LivePage.Proofs.Page.Nesting

/-!
# Places that new contents can be put into

In a world that is `World.Tidy` the attributes that subscriptions set are those of elements, the places
that they rebuild are on their pages, and the comments of regions stand like brackets among the
children of each node. Then new contents can be put into every place (`World.Tidy.room`). It stays so
through all that leaves nodes where they are (`World.Tidy.shaped`). The comments of trees that stand
somewhere are nested (`Mounts.Stand.nested`).
-/

namespace LivePage

variable {b w w' : World} {q n content : PageNode} {pg p : PageId} {g inner rest : Mounts} {i k : Nat}
  {D : CellId → Prop} {R : Nat → Nat → Prop} {c : CellId} {key : Nat} {r : Reaction} {s : SiteId}
  {site site' : Site} {X stale : List Nat} {ms : List Teardown} {m : Teardown} {d : Nat}

namespace World

/-- The two comments of a region that a subscription fills. -/
inductive Pair (w : World) (p : PageId) (a b : Nat) : Prop where
  | mk {c : CellId} {key : Nat} {s : SiteId} {site : Site} {r : RegionId} {region : Region} :
      (key, .rebuild s) ∈ (w.cell c).registry → w.sites[s.index]? = some site →
      site.target = .region r → w.regions[r.index]? = some region →
      region.anchors = (⟨p, a⟩, ⟨p, b⟩) → Pair w p a b

/-- The target of the place is on the page of the place. -/
inductive Sits (w : World) (site : Site) : Prop where
  | region {r : RegionId} {region : Region} : site.target = .region r →
      w.regions[r.index]? = some region → region.start.page = site.surface.page →
      region.finish.page = site.surface.page → Sits w site
  | contents {n : PageNode} : site.target = .contents n → n.page = site.surface.page →
      (w.slot n).content.type = .element → Sits w site

/-- Subscriptions set attributes of elements, and fill places that are on their pages; the comments of
regions are nested. -/
structure Tidy (w : World) : Prop where
  sound : w.Sound
  marks {c : CellId} {key : Nat} {r : Reaction} {n : PageNode} : (key, r) ∈ (w.cell c).registry →
    r.Marks n → (w.slot n).content.type = .element
  sits {c : CellId} {key : Nat} {s : SiteId} : (key, .rebuild s) ∈ (w.cell c).registry →
    ∃ site, w.sites[s.index]? = some site ∧ w.Sits site
  nested (p : PageId) (i : Nat) : Nested (w.Pair p) (w.slot ⟨p, i⟩).children

/-- New contents can be put into the place: if it is a region that is on the page, its comments are
there in order, with both or none of every other region between them. -/
structure Room (w : World) (site : Site) : Prop where
  sits : w.Sits site
  between {r : RegionId} {region : Region} {q : Nat} : site.target = .region r →
    w.regions[r.index]? = some region → (w.slot region.start).parent = some q →
    ∃ A B C, (w.slot ⟨site.surface.page, q⟩).children =
      A ++ region.start.slot :: (B ++ region.finish.slot :: C) ∧ Closed (w.Pair site.surface.page) B

/-! ## Places -/

theorem Sits.still (h : w.Sits site) (hf : w.Fixed w') (he : site'.still = site.still)
    (htype : ∀ n, site.target = .contents n →
      (w'.slot n).content.type = (w.slot n).content.type) : w'.Sits site' := by
  have ht := Site.target_of_still he
  have hp := congrArg Surface.page (Site.surface_of_still he)
  cases h with
  | region htarget hr hs hfin =>
    obtain ⟨region', hr', ha⟩ := hf.regions hr
    refine .region (ht.trans htarget) hr' ?_ ?_
    · rw [Region.start_of_anchors ha, hs, hp]
    · rw [Region.finish_of_anchors ha, hfin, hp]
  | contents htarget hn hc =>
    exact .contents (ht.trans htarget) (hn.trans hp.symm) ((htype _ htarget).trans hc)

namespace Tidy

variable (h : w.Tidy)
include h

/-- A pair is one of the world before if its subscription was there. -/
theorem pair {c : CellId} {key : Nat} {r : RegionId} {region : Region} {a b : Nat} (hf : w.Fixed w')
    (hreg : (key, .rebuild s) ∈ (w.cell c).registry) (hs : w'.sites[s.index]? = some site)
    (ht : site.target = .region r) (hr : w'.regions[r.index]? = some region)
    (ha : region.anchors = (⟨p, a⟩, ⟨p, b⟩)) : w.Pair p a b := by
  obtain ⟨site₀, hs₀, hsits⟩ := h.sits hreg
  obtain ⟨site₁, hs₁, he⟩ := hf.sites hs₀
  obtain rfl : site = site₁ := Option.some.inj (hs.symm.trans hs₁)
  have ht₀ : site₀.target = .region r := (Site.target_of_still he).symm.trans ht
  cases hsits with
  | contents htarget =>
    rw [ht₀] at htarget
    cases htarget
  | @region r₀ region₀ htarget hr₀ =>
    obtain rfl : r = r₀ := Target.region.inj (ht₀.symm.trans htarget)
    obtain ⟨region₁, hr₁, ha₁⟩ := hf.regions hr₀
    obtain rfl : region = region₁ := Option.some.inj (hr.symm.trans hr₁)
    exact ⟨hreg, hs₀, ht₀, hr₀, ha₁.symm.trans ha⟩

/-- All pairs are those of the world before if all subscriptions were there. -/
theorem pairs {a b : Nat} (hf : w.Fixed w')
    (hreg : ∀ c s, s ∈ (w'.cell c).registry → s.2.onPage → s ∈ (w.cell c).registry)
    (hp : w'.Pair p a b) : w.Pair p a b := by
  obtain ⟨hr, hsite, ht, hregion, ha⟩ := hp
  exact h.pair hf (hreg _ _ hr trivial) hsite ht hregion ha

/-- New contents can be put into every place that has a subscription. -/
theorem room (hreg : (key, .rebuild s) ∈ (w.cell c).registry) :
    ∃ site, w.sites[s.index]? = some site ∧ w.Room site := by
  obtain ⟨site, hs, hsits⟩ := h.sits hreg
  refine ⟨site, hs, hsits, fun {r region q} ht hr hq => ?_⟩
  cases hsits with
  | contents htarget =>
    rw [ht] at htarget
    cases htarget
  | @region r₀ region₀ htarget hr₀ hstart hfinish =>
    obtain rfl : r = r₀ := Target.region.inj (ht.symm.trans htarget)
    obtain rfl : region = region₀ := Option.some.inj (hr.symm.trans hr₀)
    have hpair : w.Pair site.surface.page region.start.slot region.finish.slot :=
      ⟨hreg, hs, ht, hr, Prod.ext (by rw [← hstart]; rfl) (by rw [← hfinish]; rfl)⟩
    have hmem := ((h.sound.forest _).up
      (show ((w.page _).slot region.start.slot).parent = some q from hq)).2.2
    rw [hstart] at hmem
    exact (h.nested _ q).spans hpair hmem

/-- Nodes stay where they are, and no subscription comes that does something to a page. -/
theorem shaped (hs : w'.Sound) (hf : w.Fixed w')
    (hreg : ∀ c s, s ∈ (w'.cell c).registry → s.2.onPage → s ∈ (w.cell c).registry)
    (hp : ∀ p, (w.page p).Shaped (w'.page p)) : w'.Tidy where
  sound := hs
  marks {c key r n} hr hm :=
    ((hp n.page).type n.slot).trans (h.marks (hreg c _ hr hm.onPage) hm)
  sits {c key s} hr := by
    obtain ⟨site, hsite, hsits⟩ := h.sits (hreg c _ hr trivial)
    obtain ⟨site', hsite', he⟩ := hf.sites hsite
    exact ⟨site', hsite', hsits.still hf he fun n _ => (hp n.page).type n.slot⟩
  nested p i := by
    rw [World.slot, (hp p).children]
    exact (h.nested p i).widen fun a b hab => .inl (h.pairs hf hreg hab)

end Tidy

end World

/-! ## Trees -/

namespace Mounts

/-- The pairs of comments of all regions. -/
def spans : Mounts → List (Nat × Nat)
  | nil => []
  | text _ _ _ rest => rest.spans
  | element _ inner rest => inner.spans ++ rest.spans
  | region r inner rest => (r.start, r.finish) :: (inner.spans ++ rest.spans)
  | group _ inner rest => inner.spans ++ rest.spans

theorem slots_of_spans {a b : Nat} (h : (a, b) ∈ g.spans) : a ∈ g.slots ∧ b ∈ g.slots := by
  induction g with
  | nil => cases h
  | text i data l rest ih => grind [spans, slots]
  | element e inner rest ihi ihr => grind [spans, slots]
  | region r inner rest ihi ihr => grind [spans, slots]
  | group l inner rest ihi ihr => grind [spans, slots]

/-- The place is the contents of an element of the trees or a region of them. -/
inductive Fills (w : World) (pg : PageId) (s : SiteId) (g : Mounts) : Prop where
  | contents {site : Site} {e : MountedElement} : w.sites[s.index]? = some site →
      site.surface.page = pg → site.target = .contents ⟨pg, e.slot⟩ → e ∈ g.elements → Fills w pg s g
  | region {site : Site} {r : RegionId} {region : Region} {a b : Nat} :
      w.sites[s.index]? = some site → site.surface.page = pg → site.target = .region r →
      w.regions[r.index]? = some region → region.anchors = (⟨pg, a⟩, ⟨pg, b⟩) → (a, b) ∈ g.spans →
      Fills w pg s g

theorem Fills.mono {g' : Mounts} (h : g.Fills w pg s) (he : ∀ e ∈ g.elements, e ∈ g'.elements)
    (hs : ∀ x ∈ g.spans, x ∈ g'.spans) : g'.Fills w pg s := by
  cases h with
  | contents hsite hp ht hmem => exact .contents hsite hp ht (he _ hmem)
  | region hsite hp ht hr ha hmem => exact .region hsite hp ht hr ha (hs _ hmem)

/-- Where the place of an own subscription is. -/
theorem Stand.fills (h : g.Stand w pg i) (ho : g.Owns pg c (.rebuild s)) : g.Fills w pg s := by
  induction g generalizing i with
  | nil => exact ho.elim
  | text j data l rest ih => exact (ih h.2.2 ho).mono (fun _ h => h) fun _ h => h
  | element e inner rest ihi ihr =>
    rcases ho with (⟨s', hd, he⟩ | ⟨-, hm⟩) | ho | ho
    · cases he
      obtain ⟨site, hs, hp, -, -, ht⟩ := (h.1.site hd).site
      exact .contents hs hp ht List.mem_cons_self
    · exact hm.elim
    · exact (ihi h.2.1 ho).mono (fun _ h => by simp [Mounts.elements, h]) fun _ h => by simp [spans, h]
    · exact (ihr h.2.2 ho).mono (fun _ h => by simp [Mounts.elements, h]) fun _ h => by simp [spans, h]
  | region x inner rest ihi ihr =>
    rcases ho with ⟨rfl, he⟩ | ho | ho
    · cases he
      obtain ⟨site, hs, hp, -, -, ht⟩ := h.1.site.site
      obtain ⟨region, hr, ha⟩ := h.1.region
      exact .region hs hp ht hr ha List.mem_cons_self
    · exact (ihi h.2.1 ho).mono (fun _ h => by simp [Mounts.elements, h]) fun _ h => by simp [spans, h]
    · exact (ihr h.2.2 ho).mono (fun _ h => by simp [Mounts.elements, h]) fun _ h => by simp [spans, h]
  | group l inner rest ihi ihr =>
    rcases ho with ho | ho
    · exact (ihi h.2.1 ho).mono (fun _ h => by simp [Mounts.elements, h]) fun _ h => by simp [spans, h]
    · exact (ihr h.2.2 ho).mono (fun _ h => by simp [Mounts.elements, h]) fun _ h => by simp [spans, h]

/-- Every pair with a node of the trees is one of theirs. -/
def Spanned (R : Nat → Nat → Prop) (g : Mounts) : Prop :=
  ∀ a b, R a b → a ∈ g.slots ∨ b ∈ g.slots → (a, b) ∈ g.spans

/-- The pairs with a node of a part are those of the part. -/
theorem Spanned.part {g' : Mounts} (h : g.Spanned R) (hsub : ∀ j ∈ g'.slots, j ∈ g.slots)
    (hspan : ∀ a b, (a, b) ∈ g.spans → a ∈ g'.slots ∨ b ∈ g'.slots → (a, b) ∈ g'.spans) :
    g'.Spanned R :=
  fun a b hab hor => hspan a b (h a b hab (hor.imp (hsub a) (hsub b))) hor

/-- A node that is not a comment of one of the regions is in no pair. -/
theorem Spanned.alone (h : g.Spanned R) (hi : i ∈ g.slots)
    (hspan : ∀ a b, (a, b) ∈ g.spans → a ≠ i ∧ b ≠ i) : Nested R [i] := by
  refine .of_not_mem fun a b hab => ?_
  simp only [List.mem_singleton]
  constructor
  · rintro rfl
    exact (hspan a b (h a b hab (.inl hi))).1 rfl
  · rintro rfl
    exact (hspan a b (h a b hab (.inr hi))).2 rfl

/-- The comments of trees are nested, among the topmost nodes and among the children of each. -/
theorem Stand.nested (h : g.Stand w pg i) (hn : g.slots.Nodup) (hR : g.Spanned R) :
    Nested R g.tops ∧ ∀ j ∈ g.slots, Nested R (w.slot ⟨pg, j⟩).children := by
  induction g generalizing i with
  | nil => exact ⟨.nil, by simp [slots]⟩
  | text j data l rest ih =>
    simp only [slots, List.nodup_cons] at hn
    obtain ⟨h1, -, h3⟩ := h
    have hspan : ∀ {a b}, (a, b) ∈ rest.spans → a ∈ rest.slots ∧ b ∈ rest.slots := slots_of_spans
    obtain ⟨htops, hinner⟩ := ih h3 hn.2 (hR.part (by simp +contextual [slots]) fun _ _ h _ => h)
    have hself : Nested R [j] := hR.alone (by simp [slots]) fun a b hab => by grind [spans]
    refine ⟨hself.append htops, ?_⟩
    simp only [slots, List.forall_mem_cons]
    exact ⟨by rw [h1]; exact .nil, hinner⟩
  | element e inner rest ihi ihr =>
    simp only [slots, List.nodup_cons, List.nodup_append, List.mem_append, not_or] at hn
    obtain ⟨h1, h2, h3⟩ := h
    have hspani : ∀ {a b}, (a, b) ∈ inner.spans → a ∈ inner.slots ∧ b ∈ inner.slots := slots_of_spans
    have hspanr : ∀ {a b}, (a, b) ∈ rest.spans → a ∈ rest.slots ∧ b ∈ rest.slots := slots_of_spans
    obtain ⟨htopsi, hinneri⟩ := ihi h2 hn.2.1
      (hR.part (by simp +contextual [slots]) fun a b => by grind [spans])
    obtain ⟨htopsr, hinnerr⟩ := ihr h3 hn.2.2.1
      (hR.part (by simp +contextual [slots]) fun a b => by grind [spans])
    have hself : Nested R [e.slot] := hR.alone (by simp [slots]) fun a b hab => by grind [spans]
    refine ⟨hself.append htopsr, ?_⟩
    simp only [slots, List.forall_mem_cons, List.forall_mem_append]
    exact ⟨by rw [h1.children]; exact htopsi, hinneri, hinnerr⟩
  | region x inner rest ihi ihr =>
    simp only [slots, List.nodup_cons, List.nodup_append, List.mem_cons, List.mem_append,
      not_or] at hn
    obtain ⟨h1, h2, h3⟩ := h
    have hspani : ∀ {a b}, (a, b) ∈ inner.spans → a ∈ inner.slots ∧ b ∈ inner.slots := slots_of_spans
    have hspanr : ∀ {a b}, (a, b) ∈ rest.spans → a ∈ rest.slots ∧ b ∈ rest.slots := slots_of_spans
    obtain ⟨htopsi, hinneri⟩ := ihi h2 hn.2.2.1
      (hR.part (by simp +contextual [slots]) fun a b => by grind [spans])
    obtain ⟨htopsr, hinnerr⟩ := ihr h3 hn.2.2.2.1
      (hR.part (by simp +contextual [slots]) fun a b => by grind [spans])
    have hpair : ∀ a b, R a b → (a = x.start ↔ b = x.finish) ∧ b ≠ x.start ∧ a ≠ x.finish := by
      intro a b hab
      have := hR a b hab
      grind [spans, slots]
    have hself : Nested R (x.start :: (inner.tops ++ [x.finish])) :=
      htopsi.bracket (fun hm => hn.1.2.1 (tops_subset hm)) (fun hm => hn.2.1.1 (tops_subset hm)) hpair
    have hchildren : ∀ {j}, (∃ data, w.slot ⟨pg, j⟩ = { content := .comment data, parent := some i }) →
        Nested R (w.slot ⟨pg, j⟩).children := by
      rintro j ⟨data, hj⟩
      rw [hj]
      exact .nil
    refine ⟨by simpa [tops] using hself.append htopsr, ?_⟩
    simp only [slots, List.forall_mem_cons, List.forall_mem_append]
    exact ⟨hchildren h1.start, hchildren h1.finish, hinneri, hinnerr⟩
  | group l inner rest ihi ihr =>
    simp only [slots, List.nodup_append] at hn
    obtain ⟨-, h2, h3⟩ := h
    have hspani : ∀ {a b}, (a, b) ∈ inner.spans → a ∈ inner.slots ∧ b ∈ inner.slots := slots_of_spans
    have hspanr : ∀ {a b}, (a, b) ∈ rest.spans → a ∈ rest.slots ∧ b ∈ rest.slots := slots_of_spans
    obtain ⟨htopsi, hinneri⟩ := ihi h2 hn.1
      (hR.part (by simp +contextual [slots]) fun a b => by grind [spans])
    obtain ⟨htopsr, hinnerr⟩ := ihr h3 hn.2.1
      (hR.part (by simp +contextual [slots]) fun a b => by grind [spans])
    refine ⟨htopsi.append htopsr, ?_⟩
    simp only [slots, List.forall_mem_append]
    exact ⟨hinneri, hinnerr⟩

end Mounts

end LivePage
