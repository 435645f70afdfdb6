import LivePage.Proofs.Run.Change
import LivePage.Proofs.Page.Sweep

/-!
# Who is kept alive

A set of shared things in which each is held by another one stays alive (`heldEntities_of_closed`).
A subscription that does something to a page, made with the observable that it follows, is such a
set together with the records, the region and the page nodes that it leads to: so the nodes are
held as long as the subscription is there, whether or not anybody knows the observable.
-/

namespace LivePage

variable {w w' : World} {c : CellId} {s : SiteId} {e : Entity} {n : PageNode}

/-! ## Letting go -/

namespace World

/-- Whoever is held by a root or by one who stays, stays. -/
theorem mem_settle {roots : List Entity} {K : Owner → Prop} {k : Nat} {owners : List Owner}
    (hK : ∀ o, K o → o.self ∈ roots ∨ ∃ o', K o' ∧ o.self ∈ o'.holds)
    (hin : ∀ o, K o → o ∈ owners) {o : Owner} (ho : K o) : o ∈ settle roots k owners := by
  induction k generalizing owners with
  | zero => exact hin o ho
  | succ k ih =>
    simp only [settle]
    split
    · exact hin o ho
    · refine ih fun o ho => ?_
      refine List.mem_filter.2 ⟨hin o ho, ?_⟩
      rw [List.contains_iff_mem]
      rcases hK o ho with hr | ⟨o', ho', hs⟩
      · exact List.mem_append_left _ hr
      · exact List.mem_append_right _ (List.mem_flatMap.2 ⟨o', hin o' ho', hs⟩)

/-- What a set of owners holds is held, if each of them is a root or held by one of them. -/
theorem heldEntities_of_closed {K : Entity → Prop} (hin : ∀ e, K e → e ∈ w.owners)
    (hK : ∀ e, K e → e ∈ w.roots ∨ ∃ o, K o ∧ e ∈ w.holds o) {o : Entity} (ho : K o)
    (he : e ∈ w.holds o) : e ∈ w.heldEntities := by
  have hmem : (⟨o, w.holds o⟩ : Owner) ∈ w.livingOwners := by
    refine mem_settle (K := fun x => K x.self ∧ x.holds = w.holds x.self) ?_ ?_ ⟨ho, rfl⟩
    · rintro ⟨x, l⟩ ⟨hx, -⟩
      exact (hK x hx).imp_right fun ⟨y, hy, hxy⟩ => ⟨⟨y, w.holds y⟩, ⟨hy, rfl⟩, hxy⟩
    · rintro ⟨x, l⟩ ⟨hx, hl⟩
      exact List.mem_map.2 ⟨x, hin x hx, congrArg (Owner.mk x) (Eq.symm hl)⟩
  exact List.mem_append_right _ (List.mem_flatMap.2 ⟨_, hmem, he⟩)

theorem heldEntities_of_root (h : e ∈ w.roots) : e ∈ w.heldEntities := List.mem_append_left _ h

/-! ## What a place leads to -/

/-- What a place on a page leads to: its records and those below them, the elements of these, its
target and the comments of that. -/
inductive Reaches (w : World) (s : SiteId) : Entity → Prop where
  | records {site : Site} : w.sites[s.index]? = some site → Reaches w s (.records site.records)
  | region {site : Site} {r : RegionId} : w.sites[s.index]? = some site →
      site.target = .region r → Reaches w s (.region r)
  | contents {site : Site} {n : PageNode} : w.sites[s.index]? = some site →
      site.target = .contents n → Reaches w s (.slot n)
  | start {r : RegionId} {region : Region} : Reaches w s (.region r) →
      w.regions[r.index]? = some region → Reaches w s (.slot region.start)
  | finish {r : RegionId} {region : Region} : Reaches w s (.region r) →
      w.regions[r.index]? = some region → Reaches w s (.slot region.finish)
  | element {l : RecordsId} {m : Teardown} {n : PageNode} : Reaches w s (.records l) →
      m ∈ w.recordsIn l → m.element = some n → Reaches w s (.slot n)
  | nested {l : RecordsId} {m : Teardown} : Reaches w s (.records l) →
      m ∈ w.recordsIn l → Reaches w s (.records m.children)

end World

/-- What a reaction leads to, if it does something to a page. -/
def Reaction.Reaches (w : World) : Reaction → Entity → Prop
  | .rebuild s, e => e = .site s ∨ w.Reaches s e
  | .attribute n _ _, e | .styleProperty n _ _, e => e = .slot n
  | _, _ => False

/-- What a place leads to is also what it leads to in a world that has the same records, regions and
places, at least as far as the place leads. -/
theorem World.Reaches.transfer
    (hs : ∀ site, w.sites[s.index]? = some site →
      ∃ site', w'.sites[s.index]? = some site' ∧ site'.still = site.still)
    (hr : ∀ (r : RegionId) (region : Region), w.Reaches s (.region r) → w'.Reaches s (.region r) →
      w.regions[r.index]? = some region →
      ∃ region', w'.regions[r.index]? = some region' ∧ region'.anchors = region.anchors)
    (hl : ∀ (l : RecordsId) (m : Teardown), w.Reaches s (.records l) → w'.Reaches s (.records l) →
      m ∈ w.recordsIn l → m ∈ w'.recordsIn l)
    (h : w.Reaches s e) : w'.Reaches s e := by
  induction h with
  | records h =>
    obtain ⟨site', h', he⟩ := hs _ h
    rw [← Site.records_of_still he]
    exact .records h'
  | region h ht =>
    obtain ⟨site', h', he⟩ := hs _ h
    exact .region h' ((Site.target_of_still he).trans ht)
  | contents h ht =>
    obtain ⟨site', h', he⟩ := hs _ h
    exact .contents h' ((Site.target_of_still he).trans ht)
  | start h hg ih =>
    obtain ⟨region', h', he⟩ := hr _ _ h ih hg
    rw [← Region.start_of_anchors he]
    exact .start ih h'
  | finish h hg ih =>
    obtain ⟨region', h', he⟩ := hr _ _ h ih hg
    rw [← Region.finish_of_anchors he]
    exact .finish ih h'
  | element h hm hn ih => exact .element ih (hl _ _ h ih hm) hn
  | nested h hm ih => exact .nested ih (hl _ _ h ih hm)

namespace World

/-- The thing is there. -/
def Exists (w : World) : Entity → Prop
  | .slot n => (w.page n.page).Occupied n.slot
  | .records l => l.index < w.records.size
  | .region r => r.index < w.regions.size
  | .site s => s.index < w.sites.size
  | .cell _ | .boundary _ | .handler _ => True

/-- The place is there, with all that it leads to. -/
structure Founded (w : World) (s : SiteId) : Prop where
  lt : s.index < w.sites.size
  exists_of_reaches {e : Entity} : w.Reaches s e → w.Exists e

/-- The subscription does something to a page, stands at the observable that it follows, and what
it leads to is there. -/
structure Placed (w : World) (c : CellId) (r : Reaction) : Prop where
  onPage : r.onPage
  follows : w.Follows c r
  exists_of_reaches {e : Entity} : r.Reaches w e → w.Exists e

theorem Placed.founded (h : w.Placed c (.rebuild s)) : w.Founded s :=
  ⟨h.exists_of_reaches (e := .site s) (.inl rfl), fun he => h.exists_of_reaches (.inr he)⟩

/-- The place itself or what it leads to, apart from page nodes. -/
def Leads (w : World) (s : SiteId) (e : Entity) : Prop :=
  (e = .site s ∨ w.Reaches s e) ∧ ∀ n, e ≠ .slot n

theorem mem_owners_of_leads (hf : w.Founded s) (he : w.Leads s e) : e ∈ w.owners := by
  obtain ⟨he, hns⟩ := he
  have hex : w.Exists e := by
    rcases he with rfl | he
    · exact hf.lt
    · exact hf.exists_of_reaches he
  simp only [owners, List.mem_append, List.mem_map, List.mem_range]
  cases e with
  | slot n => exact absurd rfl (hns n)
  | records l => exact .inl (.inl (.inl (.inl (.inr ⟨l.index, hex, rfl⟩))))
  | region r => exact .inl (.inl (.inl (.inr ⟨r.index, hex, rfl⟩)))
  | site s => exact .inl (.inl (.inr ⟨s.index, hex, rfl⟩))
  | cell d => rcases he with he | he <;> cases he
  | boundary b => rcases he with he | he <;> cases he
  | handler h => rcases he with he | he <;> cases he

/-- What a place leads to is held by the place or by something on the way. -/
theorem held_of_site (he : w.Reaches s e) : ∃ o, w.Leads s o ∧ e ∈ w.holds o := by
  cases he with
  | records hs => exact ⟨.site s, ⟨.inl rfl, by simp⟩, by simp [holds, hs]⟩
  | region hs ht => exact ⟨.site s, ⟨.inl rfl, by simp⟩, by simp [holds, hs, ht]⟩
  | contents hs ht => exact ⟨.site s, ⟨.inl rfl, by simp⟩, by simp [holds, hs, ht]⟩
  | start h hg => exact ⟨_, ⟨.inr h, by simp⟩, by simp [holds, hg]⟩
  | finish h hg => exact ⟨_, ⟨.inr h, by simp⟩, by simp [holds, hg]⟩
  | element h hm hn =>
    refine ⟨_, ⟨.inr h, by simp⟩, ?_⟩
    simp only [holds, List.mem_flatMap]
    exact ⟨_, hm, by simp [Teardown.holds, hn]⟩
  | nested h hm =>
    refine ⟨_, ⟨.inr h, by simp⟩, ?_⟩
    simp only [holds, List.mem_flatMap]
    exact ⟨_, hm, by simp [Teardown.holds]⟩

/-- What a place leads to is held as long as the place is pinned. -/
theorem heldEntities_of_pinned_site (hp : .site s ∈ w.pins.flatten) (hf : w.Founded s)
    (he : w.Reaches s e) : e ∈ w.heldEntities := by
  obtain ⟨o, ho, heo⟩ := held_of_site he
  refine heldEntities_of_closed (fun x => mem_owners_of_leads hf) (fun x hx => ?_) ho heo
  rcases hx.1 with rfl | hx
  · exact .inl (List.mem_append_left _ (List.mem_append_right _ hp))
  · exact .inr (held_of_site hx)

section

variable {key : Nat} {r : Reaction} (hr : (key, r) ∈ (w.cell c).registry) (hp : w.Placed c r)
include hr

theorem mem_owners_of_registry : .cell c ∈ w.owners := by
  simp only [owners, List.mem_append, List.mem_map, List.mem_range]
  exact .inl (.inl (.inl (.inl (.inl ⟨c.index, lt_of_registry hr, rfl⟩))))

theorem reactionHolds_subset (he : e ∈ w.reactionHolds r) : e ∈ w.holds (.cell c) := by
  simp only [holds, List.mem_append, List.mem_flatMap]
  exact .inl (.inr ⟨_, hr, he⟩)

include hp

/-- What a placed subscription leads to is held as long as it is there: it and its observable hold
each other. -/
theorem heldEntities_of_reaches (he : r.Reaches w e) : e ∈ w.heldEntities := by
  have hbinding : ∀ n : PageNode, w.reactionHolds r = [.slot n, .cell c] → e = .slot n →
      e ∈ w.heldEntities := by
    intro n hh he
    refine heldEntities_of_closed (K := (· = .cell c)) (o := .cell c) ?_ ?_ rfl ?_
    · rintro _ rfl
      exact mem_owners_of_registry hr
    · rintro _ rfl
      exact .inr ⟨_, rfl, reactionHolds_subset hr (by simp [hh])⟩
    · exact reactionHolds_subset hr (by simp [hh, he])
  have hf := hp.follows
  cases r with
  | rebuild s =>
    obtain ⟨site, hsite, hsource⟩ := hf
    have hcell : .cell c ∈ w.holds (.site s) := by simp [holds, hsite, hsource]
    have hsite : .site s ∈ w.holds (.cell c) := reactionHolds_subset hr (by simp [reactionHolds])
    have hleads : w.Leads s (.site s) := ⟨.inl rfl, by simp⟩
    obtain ⟨o, ho, heo⟩ : ∃ o, (o = .cell c ∨ w.Leads s o) ∧ e ∈ w.holds o := by
      rcases he with rfl | he
      · exact ⟨_, .inl rfl, hsite⟩
      · obtain ⟨o, ho, heo⟩ := held_of_site he
        exact ⟨o, .inr ho, heo⟩
    refine heldEntities_of_closed (K := fun x => x = .cell c ∨ w.Leads s x) ?_ ?_ ho heo
    · rintro x (rfl | hx)
      · exact mem_owners_of_registry hr
      · exact mem_owners_of_leads hp.founded hx
    · rintro x (rfl | ⟨rfl | hx, -⟩)
      · exact .inr ⟨_, .inr hleads, hcell⟩
      · exact .inr ⟨_, .inl rfl, hsite⟩
      · obtain ⟨o, ho, hxo⟩ := held_of_site hx
        exact .inr ⟨o, .inr ho, hxo⟩
  | «attribute» n name source =>
    cases hf
    exact hbinding n rfl he
  | styleProperty n name source =>
    cases hf
    exact hbinding n rfl he
  | _ => exact he.elim

end

/-! ## Nodes that a sweep spares -/

/-- A name, an operation under way, a pinned place or a placed subscription holds the page node. -/
inductive Guards (w : World) (n : PageNode) : Prop where
  | named : .slot n ∈ namesHold w.names → Guards w n
  | pinned : .slot n ∈ w.pins.flatten → Guards w n
  | site {s : SiteId} : .site s ∈ w.pins.flatten → w.Founded s → w.Reaches s (.slot n) → Guards w n
  | registered {c : CellId} {key : Nat} {r : Reaction} : (key, r) ∈ (w.cell c).registry →
      w.Placed c r → r.Reaches w (.slot n) → Guards w n

theorem Guards.mem_heldSlots (h : w.Guards n) : n.slot ∈ w.heldSlots n.page := by
  have hmem : .slot n ∈ w.heldEntities := by
    cases h with
    | named h => exact heldEntities_of_root (List.mem_append_left _ (List.mem_append_left _ h))
    | pinned h => exact heldEntities_of_root (List.mem_append_left _ (List.mem_append_right _ h))
    | site hp hf he => exact heldEntities_of_pinned_site hp hf he
    | registered hr hp he => exact heldEntities_of_reaches hr hp he
  refine List.mem_filterMap.2 ⟨_, hmem, ?_⟩
  simp

/-- The node shares its tree with one that is held. -/
def Safe (w : World) (n : PageNode) : Prop :=
  ∃ h a, w.Guards ⟨n.page, h⟩ ∧ (w.page n.page).Occupied h ∧ (w.page n.page).Up h a ∧
    (w.page n.page).Up n.slot a

theorem Safe.retained (h : w.Safe n) : (w.page n.page).Retained (w.heldSlots n.page) n.slot := by
  obtain ⟨h, a, hg, ho, hh, hn⟩ := h
  exact ⟨h, a, hg.mem_heldSlots, ho, hh, hn⟩

theorem Guards.safe (h : w.Guards n) (ho : (w.page n.page).Occupied n.slot) : w.Safe n :=
  ⟨n.slot, n.slot, h, ho, .refl _ _, .refl _ _⟩

theorem Safe.up (h : w.Safe n) {a : Nat} (ha : (w.page n.page).Up n.slot a) :
    w.Safe ⟨n.page, a⟩ := by
  obtain ⟨g, b, hg, ho, hgb, hnb⟩ := h
  rcases hnb.linear ha with h | h
  · exact ⟨g, a, hg, ho, hgb.trans h, .refl _ _⟩
  · exact ⟨g, b, hg, ho, hgb, h⟩

theorem Safe.down (h : w.Safe n) {i : Nat} (hi : (w.page n.page).Up i n.slot) :
    w.Safe ⟨n.page, i⟩ := by
  obtain ⟨g, b, hg, ho, hgb, hnb⟩ := h
  exact ⟨g, b, hg, ho, hgb, hi.trans hnb⟩

end World

end LivePage
