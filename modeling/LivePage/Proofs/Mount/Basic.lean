import LivePage.Proofs.World.Sound

/-!
# What realization leaves

A realized node is spread over the world: nodes of a page, teardown records, regions and places that
follow observables. `Mounts` puts the parts of several realized nodes together as trees again, and
`Mounts.Stand` says that the world holds them: child lists, records and places are as the trees say.
Where a child list stands in a region, so do the trees; a fragment that is not driven has no node of
its own.
-/

namespace LivePage

variable {w w' : World} {pg : PageId} {q i : Nat} {l : RecordsId} {s : SiteId} {c : CellId}
  {r : Reaction} {x : Prop}

/-! ## What attributes ask for -/

/-- The references that an attribute attaches. -/
def AttributeValue.refs : AttributeValue → List CellId
  | .ref c => [c]
  | _ => []

/-- The observables that a style property follows. -/
def Style.sources (style : Style) : List CellId :=
  style.filterMap fun (_, value) =>
    match value with
    | .observable c => some c
    | .text _ => none

/-- The observables that an attribute follows. -/
def AttributeValue.sources : AttributeValue → List CellId
  | .observable c => [c]
  | .style s => Style.sources s
  | _ => []

/-! ## Trees of what was realized -/

/-- An element as it was realized. -/
structure MountedElement where
  slot : Nat
  tag : String
  attributes : List (String × AttributeValue)
  listeners : List Listener
  /-- The observable that drives it, and the place that its children are. -/
  driving : Option (CellId × SiteId)
  records : RecordsId

/-- A region as it was realized. -/
structure MountedRegion where
  start : Nat
  finish : Nat
  source : CellId
  site : SiteId
  region : RegionId
  records : RecordsId

/-- What the realization of nodes has left, in the order of the nodes. -/
inductive Mounts where
  | nil
  | text (slot : Nat) (data : String) (records : RecordsId) (rest : Mounts)
  | element (e : MountedElement) (inner rest : Mounts)
  | region (r : MountedRegion) (inner rest : Mounts)
  | group (records : RecordsId) (inner rest : Mounts)

namespace MountedElement

/-- The place that the children of an element are, if it is driven. -/
def site? (e : MountedElement) : Option SiteId := e.driving.map (·.2)

/-- The references that are attached to the element. -/
def refs (e : MountedElement) : List CellId := e.attributes.flatMap (·.2.refs)

/-- The observables that attributes and style properties of the element follow. -/
def sources (e : MountedElement) : List CellId := e.attributes.flatMap (·.2.sources)

/-- The teardown record of an element. -/
def teardown (pg : PageId) (e : MountedElement) : Teardown where
  element := some ⟨pg, e.slot⟩
  driving := e.driving.map (·.1)
  refs := e.refs
  observables := e.sources
  listeners := e.listeners
  children := e.records

/-- The subscriptions that realizing the element has made. -/
def Owns (pg : PageId) (c : CellId) (r : Reaction) (e : MountedElement) : Prop :=
  (∃ s, e.driving = some (c, s) ∧ r = .rebuild s) ∨ c ∈ e.sources ∧ r.Marks ⟨pg, e.slot⟩

end MountedElement

/-- The teardown record of a region. -/
def MountedRegion.teardown (r : MountedRegion) : Teardown :=
  { driving := some r.source, children := r.records }

namespace Mounts

/-- One after the other. -/
def append : Mounts → Mounts → Mounts
  | nil, g => g
  | text i data l rest, g => text i data l (rest.append g)
  | element e inner rest, g => element e inner (rest.append g)
  | region r inner rest, g => region r inner (rest.append g)
  | group l inner rest, g => group l inner (rest.append g)

instance : Append Mounts := ⟨append⟩

/-- The teardown records, one for each node. -/
def teardowns (pg : PageId) : Mounts → List Teardown
  | nil => []
  | text _ _ l rest => { children := l } :: rest.teardowns pg
  | element e _ rest => e.teardown pg :: rest.teardowns pg
  | region r _ rest => r.teardown :: rest.teardowns pg
  | group l _ rest => { children := l } :: rest.teardowns pg

/-- The topmost page nodes in order. -/
def tops : Mounts → List Nat
  | nil => []
  | text i _ _ rest => i :: rest.tops
  | element e _ rest => e.slot :: rest.tops
  | region r inner rest => r.start :: (inner.tops ++ r.finish :: rest.tops)
  | group _ inner rest => inner.tops ++ rest.tops

/-- All page nodes. -/
def slots : Mounts → List Nat
  | nil => []
  | text i _ _ rest => i :: rest.slots
  | element e inner rest => e.slot :: (inner.slots ++ rest.slots)
  | region r inner rest => r.start :: r.finish :: (inner.slots ++ rest.slots)
  | group _ inner rest => inner.slots ++ rest.slots

/-- The page nodes below the topmost ones. -/
def deep : Mounts → List Nat
  | nil => []
  | text _ _ _ rest => rest.deep
  | element _ inner rest => inner.slots ++ rest.deep
  | region _ inner rest => inner.deep ++ rest.deep
  | group _ inner rest => inner.deep ++ rest.deep

/-- All lists of records. -/
def lists : Mounts → List RecordsId
  | nil => []
  | text _ _ l rest => l :: rest.lists
  | element e inner rest => e.records :: (inner.lists ++ rest.lists)
  | region r inner rest => r.records :: (inner.lists ++ rest.lists)
  | group l inner rest => l :: (inner.lists ++ rest.lists)

/-- All places that follow an observable. -/
def sites : Mounts → List SiteId
  | nil => []
  | text _ _ _ rest => rest.sites
  | element e inner rest => e.site?.toList ++ (inner.sites ++ rest.sites)
  | region r inner rest => r.site :: (inner.sites ++ rest.sites)
  | group _ inner rest => inner.sites ++ rest.sites

/-- All regions. -/
def regions : Mounts → List RegionId
  | nil => []
  | text _ _ _ rest => rest.regions
  | element _ inner rest => inner.regions ++ rest.regions
  | region r inner rest => r.region :: (inner.regions ++ rest.regions)
  | group _ inner rest => inner.regions ++ rest.regions

/-- All elements. -/
def elements : Mounts → List MountedElement
  | nil => []
  | text _ _ _ rest => rest.elements
  | element e inner rest => e :: (inner.elements ++ rest.elements)
  | region _ inner rest => inner.elements ++ rest.elements
  | group _ inner rest => inner.elements ++ rest.elements

/-- All observables that drive a node, an attribute or a style property. -/
def cells : Mounts → List CellId
  | nil => []
  | text _ _ _ rest => rest.cells
  | element e inner rest =>
    (e.driving.map (·.1)).toList ++ e.sources ++ (inner.cells ++ rest.cells)
  | region r inner rest => r.source :: (inner.cells ++ rest.cells)
  | group _ inner rest => inner.cells ++ rest.cells

/-- All references that are attached. -/
def refs (g : Mounts) : List CellId := g.elements.flatMap (·.refs)

/-- The subscriptions that realization has made. -/
def Owns (pg : PageId) (c : CellId) (r : Reaction) : Mounts → Prop
  | nil => False
  | text _ _ _ rest => rest.Owns pg c r
  | element e inner rest => e.Owns pg c r ∨ inner.Owns pg c r ∨ rest.Owns pg c r
  | region m inner rest =>
    c = m.source ∧ r = .rebuild m.site ∨ inner.Owns pg c r ∨ rest.Owns pg c r
  | group _ inner rest => inner.Owns pg c r ∨ rest.Owns pg c r

/-! ## Appending -/

section

variable (g h : Mounts)

@[simp] theorem nil_append : (nil : Mounts) ++ h = h := rfl
@[simp] theorem text_append (i : Nat) (data : String) (l : RecordsId) :
    text i data l g ++ h = text i data l (g ++ h) := rfl
@[simp] theorem element_append (e : MountedElement) (inner : Mounts) :
    element e inner g ++ h = element e inner (g ++ h) := rfl
@[simp] theorem region_append (r : MountedRegion) (inner : Mounts) :
    region r inner g ++ h = region r inner (g ++ h) := rfl
@[simp] theorem group_append (l : RecordsId) (inner : Mounts) :
    group l inner g ++ h = group l inner (g ++ h) := rfl

@[simp] theorem append_nil : g ++ nil = g := by
  induction g <;> simp_all

theorem append_assoc (k : Mounts) : g ++ h ++ k = g ++ (h ++ k) := by
  induction g <;> simp_all

@[simp] theorem teardowns_append :
    (g ++ h).teardowns pg = g.teardowns pg ++ h.teardowns pg := by
  induction g <;> simp_all [teardowns]

@[simp] theorem tops_append : (g ++ h).tops = g.tops ++ h.tops := by
  induction g <;> simp_all [tops]

@[simp] theorem slots_append : (g ++ h).slots = g.slots ++ h.slots := by
  induction g <;> simp_all [slots]

@[simp] theorem lists_append : (g ++ h).lists = g.lists ++ h.lists := by
  induction g <;> simp_all [lists]

@[simp] theorem sites_append : (g ++ h).sites = g.sites ++ h.sites := by
  induction g <;> simp_all [sites]

@[simp] theorem elements_append : (g ++ h).elements = g.elements ++ h.elements := by
  induction g <;> simp_all [elements]

@[simp] theorem cells_append : (g ++ h).cells = g.cells ++ h.cells := by
  induction g <;> simp_all [cells]

@[simp] theorem refs_append : (g ++ h).refs = g.refs ++ h.refs := by simp [refs]

@[simp] theorem owns_append : (g ++ h).Owns pg c r ↔ g.Owns pg c r ∨ h.Owns pg c r := by
  induction g <;> simp_all [Owns, or_assoc]

end

/-! ## Parts -/

theorem tops_subset {g : Mounts} (h : i ∈ g.tops) : i ∈ g.slots := by
  induction g with
  | nil => exact h
  | text j data l rest ih => grind [tops, slots]
  | element e inner rest ihi ihr => grind [tops, slots]
  | region r inner rest ihi ihr => grind [tops, slots]
  | group l inner rest ihi ihr => grind [tops, slots]

theorem slots_perm (g : Mounts) : g.slots.Perm (g.tops ++ g.deep) := by
  refine List.perm_iff_count.2 fun a => ?_
  induction g with
  | nil => rfl
  | text j data l rest ih => grind [slots, tops, deep]
  | element e inner rest ihi ihr => grind [slots, tops, deep]
  | region r inner rest ihi ihr => grind [slots, tops, deep]
  | group l inner rest ihi ihr => grind [slots, tops, deep]

theorem slot_mem_of_elements {g : Mounts} {e : MountedElement} (h : e ∈ g.elements) :
    e.slot ∈ g.slots := by
  induction g with
  | nil => exact absurd h List.not_mem_nil
  | text j data l rest ih => grind [elements, slots]
  | element e' inner rest ihi ihr => grind [elements, slots]
  | region r inner rest ihi ihr => grind [elements, slots]
  | group l inner rest ihi ihr => grind [elements, slots]

/-- An own subscription is made at an observable of the trees, for a place or an element of them. -/
theorem Owns.cases {g : Mounts} (h : g.Owns pg c r) :
    c ∈ g.cells ∧ ((∃ s ∈ g.sites, r = .rebuild s) ∨ ∃ e ∈ g.elements, r.Marks ⟨pg, e.slot⟩) := by
  induction g with
  | nil => exact h.elim
  | text j data l rest ih => exact ih h
  | element e inner rest ihi ihr =>
    rcases h with (⟨s, hd, rfl⟩ | ⟨hc, hm⟩) | h | h
    · exact ⟨by simp [cells, hd], .inl ⟨s, by simp [sites, MountedElement.site?, hd], rfl⟩⟩
    · exact ⟨by simp [cells, hc], .inr ⟨e, by simp [elements], hm⟩⟩
    · obtain ⟨hc, ⟨s, hs, rfl⟩ | ⟨e', he', hm⟩⟩ := ihi h
      · exact ⟨by simp [cells, hc], .inl ⟨s, by simp [sites, hs], rfl⟩⟩
      · exact ⟨by simp [cells, hc], .inr ⟨e', by simp [elements, he'], hm⟩⟩
    · obtain ⟨hc, ⟨s, hs, rfl⟩ | ⟨e', he', hm⟩⟩ := ihr h
      · exact ⟨by simp [cells, hc], .inl ⟨s, by simp [sites, hs], rfl⟩⟩
      · exact ⟨by simp [cells, hc], .inr ⟨e', by simp [elements, he'], hm⟩⟩
  | region m inner rest ihi ihr =>
    rcases h with ⟨rfl, rfl⟩ | h | h
    · exact ⟨by simp [cells], .inl ⟨m.site, by simp [sites], rfl⟩⟩
    · obtain ⟨hc, ⟨s, hs, rfl⟩ | ⟨e', he', hm⟩⟩ := ihi h
      · exact ⟨by simp [cells, hc], .inl ⟨s, by simp [sites, hs], rfl⟩⟩
      · exact ⟨by simp [cells, hc], .inr ⟨e', by simp [elements, he'], hm⟩⟩
    · obtain ⟨hc, ⟨s, hs, rfl⟩ | ⟨e', he', hm⟩⟩ := ihr h
      · exact ⟨by simp [cells, hc], .inl ⟨s, by simp [sites, hs], rfl⟩⟩
      · exact ⟨by simp [cells, hc], .inr ⟨e', by simp [elements, he'], hm⟩⟩
  | group l inner rest ihi ihr =>
    rcases h with h | h
    · obtain ⟨hc, ⟨s, hs, rfl⟩ | ⟨e', he', hm⟩⟩ := ihi h
      · exact ⟨by simp [cells, hc], .inl ⟨s, by simp [sites, hs], rfl⟩⟩
      · exact ⟨by simp [cells, hc], .inr ⟨e', by simp [elements, he'], hm⟩⟩
    · obtain ⟨hc, ⟨s, hs, rfl⟩ | ⟨e', he', hm⟩⟩ := ihr h
      · exact ⟨by simp [cells, hc], .inl ⟨s, by simp [sites, hs], rfl⟩⟩
      · exact ⟨by simp [cells, hc], .inr ⟨e', by simp [elements, he'], hm⟩⟩

end Mounts

/-! ## Standing in the world -/

/-- A place of the world: where it is, what it follows, its records and its target. -/
structure World.SiteAt (w : World) (s : SiteId) (pg : PageId) (c : CellId) (l : RecordsId)
    (t : Target) : Prop where
  site : ∃ site, w.sites[s.index]? = some site ∧ site.surface.page = pg ∧ site.source = c ∧
    site.records = l ∧ site.target = t

/-- A list of records of the world. -/
structure World.ListAt (w : World) (l : RecordsId) (ms : List Teardown) : Prop where
  lt : l.index < w.records.size
  records : w.recordsIn l = ms

/-- A mounted element stands below `q`, with the children `tops` and the records `ms` of them.
Listeners that others have added come behind its own. -/
structure MountedElement.Stands (w : World) (pg : PageId) (q : Nat) (tops : List Nat)
    (ms : List Teardown) (e : MountedElement) : Prop where
  parent : (w.slot ⟨pg, e.slot⟩).parent = some q
  children : (w.slot ⟨pg, e.slot⟩).children = tops
  content : ∃ el others, (w.slot ⟨pg, e.slot⟩).content = .element el ∧ el.tag = e.tag ∧
    el.listeners = (e.listeners.map fun l => (l.event, l.handler)) ++ others
  records : w.ListAt e.records ms
  site {c : CellId} {s : SiteId} : e.driving = some (c, s) →
    w.SiteAt s pg c e.records (.contents ⟨pg, e.slot⟩)

/-- A mounted region stands below `q`, with the records `ms` of what stands in it. -/
structure MountedRegion.Stands (w : World) (pg : PageId) (q : Nat) (ms : List Teardown)
    (r : MountedRegion) : Prop where
  start : ∃ data, w.slot ⟨pg, r.start⟩ = { content := .comment data, parent := some q }
  finish : ∃ data, w.slot ⟨pg, r.finish⟩ = { content := .comment data, parent := some q }
  region : ∃ region, w.regions[r.region.index]? = some region ∧
    region.anchors = (⟨pg, r.start⟩, ⟨pg, r.finish⟩)
  records : w.ListAt r.records ms
  site : w.SiteAt r.site pg r.source r.records (.region r.region)

/-- The trees stand in the world, the topmost nodes as children of `q`. -/
def Mounts.Stand (w : World) (pg : PageId) : Nat → Mounts → Prop
  | _, nil => True
  | q, text i data l rest =>
    w.slot ⟨pg, i⟩ = { content := .text data, parent := some q } ∧ w.ListAt l [] ∧
      rest.Stand w pg q
  | q, element e inner rest =>
    e.Stands w pg q inner.tops (inner.teardowns pg) ∧ inner.Stand w pg e.slot ∧ rest.Stand w pg q
  | q, region r inner rest =>
    r.Stands w pg q (inner.teardowns pg) ∧ inner.Stand w pg q ∧ rest.Stand w pg q
  | q, group l inner rest =>
    w.ListAt l (inner.teardowns pg) ∧ inner.Stand w pg q ∧ rest.Stand w pg q

@[simp] theorem Mounts.stand_append {g h : Mounts} :
    (g ++ h).Stand w pg q ↔ g.Stand w pg q ∧ h.Stand w pg q := by
  induction g generalizing q <;> simp_all [Stand, and_assoc]

/-! ## Frames -/

theorem World.SiteAt.fixed {t : Target} (hw : w.Fixed w') (h : w.SiteAt s pg c l t) :
    w'.SiteAt s pg c l t := by
  obtain ⟨site, hsite, rfl, rfl, rfl, rfl⟩ := h
  obtain ⟨site', hsite', he⟩ := hw.sites hsite
  exact ⟨site', hsite', congrArg Surface.page (Site.surface_of_still he), Site.source_of_still he,
    Site.records_of_still he, Site.target_of_still he⟩

theorem Slot.Alike.comment {a b : Slot} (h : Alike x a b)
    (ha : ∃ data, a = { content := .comment data, parent := some q }) :
    ∃ data, b = { content := .comment data, parent := some q } := by
  obtain ⟨data, rfl⟩ := ha
  exact ⟨data, h.eq_of_type (by simp [Content.type])⟩

theorem MountedRegion.Stands.frame {ms : List Teardown} {m : MountedRegion} (hw : w.Fixed w')
    (hstart : (w.slot ⟨pg, m.start⟩).Alike x (w'.slot ⟨pg, m.start⟩))
    (hfinish : (w.slot ⟨pg, m.finish⟩).Alike x (w'.slot ⟨pg, m.finish⟩))
    (hlist : w'.ListAt m.records ms) {ms' : List Teardown} (h : m.Stands w pg q ms') :
    m.Stands w' pg q ms where
  start := hstart.comment h.start
  finish := hfinish.comment h.finish
  region := by
    obtain ⟨region, hr, ha⟩ := h.region
    obtain ⟨region', hr', ha'⟩ := hw.regions hr
    exact ⟨region', hr', ha'.trans ha⟩
  records := hlist
  site := h.site.fixed hw

/-- Elements up to attributes and style. -/
theorem Content.of_plain_element {a : Content} {e : Element}
    (h : a.plain = (Content.element e).plain) :
    ∃ e', a = .element e' ∧ e'.tag = e.tag ∧ e'.listeners = e.listeners := by
  cases a with
  | element e' =>
    simp only [Content.plain, Content.element.injEq, Element.mk.injEq, true_and] at h
    exact ⟨e', rfl, h⟩
  | _ => cases h

theorem MountedElement.Stands.frame {tops tops' : List Nat} {ms ms' : List Teardown}
    {e : MountedElement} (hw : w.Fixed w')
    (hcontent : (w'.slot ⟨pg, e.slot⟩).content.plain = (w.slot ⟨pg, e.slot⟩).content.plain)
    (hparent : (w'.slot ⟨pg, e.slot⟩).parent = (w.slot ⟨pg, e.slot⟩).parent)
    (hchildren : (w'.slot ⟨pg, e.slot⟩).children = tops) (hlist : w'.ListAt e.records ms)
    (h : e.Stands w pg q tops' ms') : e.Stands w' pg q tops ms where
  parent := hparent.trans h.parent
  children := hchildren
  content := by
    obtain ⟨el, others, hc, ht, hl⟩ := h.content
    rw [hc] at hcontent
    obtain ⟨el', hc', ht', hl'⟩ := Content.of_plain_element hcontent
    exact ⟨el', others, hc', ht'.trans ht, hl'.trans hl⟩
  records := hlist
  site hd := (h.site hd).fixed hw

/-- What stands stays standing if its slots stay alike, its lists keep their records, and places
and regions stay what they are. -/
theorem Mounts.Stand.frame {g : Mounts} (hw : w.Fixed w')
    (hslot : ∀ i ∈ g.slots, (w.slot ⟨pg, i⟩).Alike x (w'.slot ⟨pg, i⟩))
    (hlist : ∀ l ∈ g.lists, w'.recordsIn l = w.recordsIn l) (h : g.Stand w pg q) :
    g.Stand w' pg q := by
  have hat : ∀ {l ms}, w'.recordsIn l = w.recordsIn l → w.ListAt l ms → w'.ListAt l ms :=
    fun hl h => ⟨Nat.lt_of_lt_of_le h.lt hw.size, hl.trans h.records⟩
  induction g generalizing q with
  | nil => trivial
  | text i data l rest ih =>
    simp only [slots, lists, List.forall_mem_cons] at hslot hlist
    obtain ⟨h1, h2, h3⟩ := h
    refine ⟨?_, hat hlist.1 h2, ih hslot.2 hlist.2 h3⟩
    have ha := hslot.1
    rw [h1] at ha
    exact ha.eq_of_type (by simp [Content.type])
  | element e inner rest ihi ihr =>
    simp only [slots, lists, List.forall_mem_cons, List.forall_mem_append] at hslot hlist
    obtain ⟨h1, h2, h3⟩ := h
    exact ⟨h1.frame hw hslot.1.content hslot.1.parent (hslot.1.children.trans h1.children)
      (hat hlist.1 h1.records), ihi hslot.2.1 hlist.2.1 h2, ihr hslot.2.2 hlist.2.2 h3⟩
  | region m inner rest ihi ihr =>
    simp only [slots, lists, List.forall_mem_cons, List.forall_mem_append] at hslot hlist
    obtain ⟨h1, h2, h3⟩ := h
    exact ⟨h1.frame hw hslot.1 hslot.2.1 (hat hlist.1 h1.records), ihi hslot.2.2.1 hlist.2.1 h2,
      ihr hslot.2.2.2 hlist.2.2 h3⟩
  | group l inner rest ihi ihr =>
    simp only [slots, lists, List.forall_mem_cons, List.forall_mem_append] at hslot hlist
    obtain ⟨h1, h2, h3⟩ := h
    exact ⟨hat hlist.1 h1, ihi hslot.1 hlist.2.1 h2, ihr hslot.2 hlist.2.2 h3⟩

/-- What is pinned does not matter. -/
theorem Mounts.Stand.repin {g : Mounts} (h : g.Stand w pg q) (pins : List (List Entity)) :
    g.Stand { w with pins := pins } pg q := by
  have hw : w.Fixed { w with pins := pins } :=
    ⟨fun hs => ⟨_, hs, rfl⟩, fun hr => ⟨_, hr, rfl⟩, Nat.le_refl _⟩
  exact h.frame (x := True) hw (fun _ _ => .refl _ _) fun _ _ => rfl

end LivePage
