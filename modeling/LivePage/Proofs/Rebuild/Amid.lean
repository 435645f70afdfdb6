import LivePage.Proofs.Mount.Releasing

/-!
# While places are being rebuilt

Killing the old contents of a place and realizing the new ones calls programs back, and what they do
can come back to the place: an emission of its observable finds it busy and is queued. `Script.Step.Emits`
are the steps by which programs take part in this; they leave the pages to subscriptions. In a world
that is `World.Amid` some places are busy being rebuilt, and of some of these the list of records has
been emptied; with none of either it is at rest. `Meanwhile` is what a run may do to such a world: the
busy places are told some values (`Deliveries`), nobody else touches their lists, the nodes that are
held stay, a record that stands nowhere comes to stand nowhere, and in the end the same places are
busy.
-/

namespace LivePage

open LivePage.Script

variable {w w' w'' : World} {B B' C : List SiteId} {s t : SiteId} {site : Site} {c : CellId}
  {n : PageNode} {l : RecordsId} {m : Teardown} {held : List Entity} {vs : List Value}

/-! ## What programs do that are called back -/

/-- The step reads, emits, subscribes, settles or kills, and whatever it has called back later does
nothing else. It does not put anything on a page by itself. -/
inductive Script.Step.Emits : Step → Prop where
  | reads {step : Step} : (∀ d, Reads (stepAnswer (respond d) step).run) → Emits step
  | update (c : String) (change : Change) : Emits (.update c change)
  | set (c : String) (change : Change) : Emits (.set c change)
  | setValue (c : String) (value : Expr) : Emits (.setValue c value)
  | emit (c : String) : Emits (.emit c)
  | flip (c : String) : Emits (.flip c)
  | push (c slice : String) : Emits (.push c slice)
  | subscribe (c handler : String) (times : Nat) {acts : List Step} : (∀ a ∈ acts, Emits a) →
      Emits (.subscribe c handler acts times)
  | watch (c as : String) (times : Nat) {acts : List Step} : (∀ a ∈ acts, Emits a) →
      Emits (.watch c as acts times)
  | onCatch (c handler : String) (times : Nat) {acts : List Step} : (∀ a ∈ acts, Emits a) →
      Emits (.onCatch c handler acts times)
  | onFinally (c handler : String) (times : Nat) {acts : List Step} : (∀ a ∈ acts, Emits a) →
      Emits (.onFinally c handler acts times)
  | unsubscribe (c handler : String) : Emits (.unsubscribe c handler)
  | unsubscribeAll (c : String) : Emits (.unsubscribeAll c)
  | cancel (watch : String) : Emits (.cancel watch)
  | resolve (c : String) (value : Expr) : Emits (.resolve c value)
  | reject (c message : String) : Emits (.reject c message)
  | poll (task : String) : Emits (.poll task)
  | attach (c : String) (node : NodePath) : Emits (.attach c node)
  | killRef (c : String) : Emits (.killRef c)
  | kill (name : String) : Emits (.kill name)

/-! ## Records that stand somewhere -/

namespace World

/-- The record stands in a list or has a name. -/
def Files (w : World) (m : Teardown) : Prop :=
  (∃ l, m ∈ w.recordsIn l) ∨ ∃ name, (name, m) ∈ w.names.teardowns

/-- No record with this list of children stands anywhere, so nobody can kill it. -/
def Lacks (w : World) (l : RecordsId) : Prop := ∀ m, w.Files m → m.children ≠ l

/-- The list is not that of a place. -/
def Vacant (w : World) (l : RecordsId) : Prop :=
  ∀ (i : Nat) (x : Site), w.sites[i]? = some x → x.records ≠ l

theorem Files.mono (hl : ∀ l, ∀ m ∈ w'.recordsIn l, m ∈ w.recordsIn l)
    (hn : ∀ e ∈ w'.names.teardowns, e ∈ w.names.teardowns) (h : w'.Files m) : w.Files m :=
  h.imp (Exists.imp fun l => hl l m) (Exists.imp fun _ => hn _)

/-! ## Nodes that are held -/

/-- An operation under way holds the page node, by itself or with the place that it is the element
of. -/
inductive Grasps (w : World) (n : PageNode) : Prop where
  | pinned : .slot n ∈ w.pins.flatten → Grasps w n
  | site {s : SiteId} {site : Site} : .site s ∈ w.pins.flatten →
      w.sites[s.index]? = some site → site.target = .contents n → Grasps w n

theorem Grasps.pin (h : w.Grasps n) (held : List Entity) : (w.pinned held).Grasps n := by
  cases h with
  | pinned hn => exact .pinned (List.mem_append_right held hn)
  | site hp hs ht => exact .site (List.mem_append_right held hp) hs ht

/-- The place is there, on a page, and so is the element whose contents it is. -/
def Seats (w : World) (s : SiteId) : Prop :=
  ∃ site, w.sites[s.index]? = some site ∧ site.surface.page.index < w.pages.size ∧
    ∀ n, site.target = .contents n → w.Occupied n

/-! ## Worlds that programs can be called back in -/

/-- Pages are forests, programs that are called back keep to `Script.Step.Emits`, and subscriptions
lead to places that are there. Records that stand somewhere have a list of children; those in lists
stand nowhere else. Each place has a list of its own. -/
structure Kempt (w : World) : Prop where
  forest (p : PageId) : (w.page p).Forest
  acts : ∀ acts ∈ w.callbacks.map (·.acts), ∀ a ∈ acts, a.Emits
  seats {c : CellId} {key : Nat} {s : SiteId} : (key, .rebuild s) ∈ (w.cell c).registry →
    w.Follows c (.rebuild s) ∧ w.Seats s
  subscribers {e : String × Nat × Reaction} {s : SiteId} : e ∈ w.names.subscribers →
    e.2.2 ≠ .rebuild s
  filed {m : Teardown} : w.Files m → m.children.index < w.records.size
  distinct (l : RecordsId) : ((w.recordsIn l).map (·.children)).Nodup
  sole {l : RecordsId} {m : Teardown} : m ∈ w.recordsIn l → (w.taken l).Lacks m.children
  listed {i : Nat} {x : Site} : w.sites[i]? = some x → x.records.index < w.records.size
  apart {i j : Nat} {x y : Site} : w.sites[i]? = some x → w.sites[j]? = some y →
    x.records = y.records → i = j

/-- Exactly the places in `B` are being rebuilt, and nothing waits at the others. The lists of the
places in `C` have been emptied for that. -/
structure Amid (B C : List SiteId) (w : World) : Prop extends Kempt w where
  busy {s : SiteId} {x : Site} : w.sites[s.index]? = some x → (x.busy = true ↔ s ∈ B)
  idle {s : SiteId} {x : Site} : w.sites[s.index]? = some x → s ∉ B → x.queued = none
  there {s : SiteId} : s ∈ B → s.index < w.sites.size
  empty {s : SiteId} : s ∈ C → ∃ x, w.sites[s.index]? = some x ∧ x.busy = true ∧
    w.recordsIn x.records = []

theorem Amid.not_busy (hw : w.Amid B C) (hs : w.sites[s.index]? = some site) (hB : s ∉ B) :
    site.busy = false := by
  rw [← Bool.not_eq_true]
  exact fun h => hB ((hw.busy hs).1 h)

end World

/-! ## What the place is told -/

/-- From the first world to the second, the busy place is told these values of its observable, in
this order, and nothing else happens to it. -/
inductive Deliveries (s : SiteId) : List Value → World → World → Prop where
  | start {w : World} : Deliveries s [] w w
  | aside {w w₁ w' : World} {vs : List Value} : Deliveries s vs w w₁ →
      w'.sites[s.index]? = w₁.sites[s.index]? → Deliveries s vs w w'
  | told {w w₁ w' : World} {vs : List Value} {call : Respond} {v : Value} {x : Site} :
      Deliveries s vs w w₁ → w₁.sites[s.index]? = some x → x.busy = true →
      (s.onEmission call v).run w₁ = .ok ⟨⟩ w' → Deliveries s (vs ++ [v]) w w'

namespace Deliveries

theorem of_eq (h : w'.sites[s.index]? = w.sites[s.index]?) : Deliveries s [] w w' :=
  .aside .start h

theorem append {us : List Value} (h : Deliveries s vs w w') (h' : Deliveries s us w' w'') :
    Deliveries s (vs ++ us) w w'' := by
  induction h' with
  | start => rwa [List.append_nil]
  | aside _ he ih => exact .aside (ih h) he
  | told _ hx hb hr ih =>
    rw [← List.append_assoc]
    exact .told (ih h) hx hb hr

end Deliveries

/-- A world in which a place has been marked. -/
def World.marked (w : World) (t : SiteId) (f : Site → Site) : World :=
  { w with sites := w.sites.modify t.index f }

/-- A world in which the place does not wait any more for what it was told. -/
abbrev World.dequeued (w : World) (s : SiteId) : World := w.marked s fun x => { x with queued := none }

/-- A world in which the place is not being rebuilt any more. -/
abbrev World.freed (w : World) (s : SiteId) : World := w.marked s fun x => { x with busy := false }

theorem World.site_marked {f : Site → Site} {x : Site} (h : w.sites[t.index]? = some x) :
    (w.marked t f).sites[t.index]? = some (f x) := by
  simp [World.marked, Array.getElem?_modify, h]

theorem World.site_marked_of_ne {f : Site → Site} (h : s ≠ t) :
    (w.marked t f).sites[s.index]? = w.sites[s.index]? := by
  have hne : t.index ≠ s.index := fun he => h (by cases t; cases s; cases he; rfl)
  simp [World.marked, Array.getElem?_modify, hne]

theorem World.getD_site (h : w.sites[s.index]? = some site) :
    w.sites.getD s.index default = site := by
  rw [Array.getD_eq_getD_getElem?, h]
  rfl

section

variable {call : Respond} {v : Value} (hs : w.sites[s.index]? = some site)
include hs

theorem run_onEmission_of_busy (hb : site.busy = true) :
    (s.onEmission call v).run w =
      .ok ⟨⟩ (w.marked s fun site => { site with queued := some v }) := by
  simp only [SiteId.onEmission, EStateM.run_bind, EStateM.run_get, World.getD_site hs, hb, if_true]
  rfl

theorem run_onEmission_of_idle (hb : site.busy = false) :
    (s.onEmission call v).run w =
      (call (.rebuild s v)).run (w.marked s fun site => { site with busy := true }) := by
  simp only [SiteId.onEmission, EStateM.run_bind, EStateM.run_get, World.getD_site hs, hb,
    Bool.false_eq_true, if_false]
  rfl

end

/-- The last value that a busy place has been told stands in its queue. -/
theorem Deliveries.queued {queued : Option Value} (h : Deliveries s vs w w')
    (hs : w.sites[s.index]? = some { site with busy := true, queued }) :
    w'.sites[s.index]? = some { site with busy := true, queued := vs.getLast?.or queued } := by
  induction h with
  | start => exact hs
  | aside _ he ih => exact he.trans (ih hs)
  | told _ _ _ hr ih =>
    rw [run_onEmission_of_busy (ih hs) rfl] at hr
    cases hr
    simp [World.site_marked (ih hs)]

/-! ## What may happen meanwhile -/

/-- From the first world to the second, the places in `B` are told some values. What is pinned is the
same, places and regions are still there, held nodes are still there and of their shape, records that
stood nowhere still stand nowhere, and no place has come to a list that was vacant. -/
structure Passes (B : List SiteId) (w w' : World) : Prop where
  told {s : SiteId} : s ∈ B → ∃ vs, Deliveries s vs w w'
  pins : w'.pins = w.pins
  pages : w'.pages.size = w.pages.size
  fixed : World.Fixed w w'
  kept {n : PageNode} : w.Grasps n → w.Occupied n →
    w'.Occupied n ∧ (w'.slot n).content.type = (w.slot n).content.type
  lacks {l : RecordsId} : l.index < w.records.size → w.Lacks l → w'.Lacks l
  vacant {l : RecordsId} : l.index < w.records.size → w.Vacant l → w'.Vacant l

/-- The same places are busy and have been emptied at the end. -/
structure Meanwhile (B C : List SiteId) (w w' : World) : Prop extends Passes B w w' where
  amid : w'.Amid B C

namespace Passes

theorem refl (w : World) : Passes B w w where
  told _ := ⟨[], .start⟩
  pins := rfl
  pages := rfl
  fixed := (World.within_of_eq rfl rfl rfl).toFixed
  kept _ ho := ⟨ho, rfl⟩
  lacks _ h := h
  vacant _ h := h

variable (h : Passes B w w')
include h

theorem mono (hB : ∀ s ∈ B', s ∈ B) : Passes B' w w' := { h with told := fun hs => h.told (hB _ hs) }

theorem grasps (hn : w.Grasps n) : w'.Grasps n := by
  cases hn with
  | pinned hn => exact .pinned (by rwa [h.pins])
  | site hp hs ht =>
    obtain ⟨site', hs', he⟩ := h.fixed.sites hs
    exact .site (by rwa [h.pins]) hs' ((Site.target_of_still he).trans ht)

theorem seats (hs : w.Seats t) (hp : .site t ∈ w.pins.flatten) : w'.Seats t := by
  obtain ⟨x, hx, hpage, ho⟩ := hs
  obtain ⟨x', hx', he⟩ := h.fixed.sites hx
  refine ⟨x', hx', ?_, fun n hn => ?_⟩
  · rw [Site.surface_of_still he, h.pages]
    exact hpage
  · rw [Site.target_of_still he] at hn
    exact (h.kept (.site hp hx hn) (ho n hn)).1

theorem trans (h' : Passes B w' w'') : Passes B w w'' where
  told hs := by
    obtain ⟨vs, hvs⟩ := h.told hs
    obtain ⟨us, hus⟩ := h'.told hs
    exact ⟨vs ++ us, hvs.append hus⟩
  pins := h'.pins.trans h.pins
  pages := h'.pages.trans h.pages
  fixed := h.fixed.trans h'.fixed
  kept hn ho := by
    obtain ⟨ho₁, ht₁⟩ := h.kept hn ho
    obtain ⟨ho₂, ht₂⟩ := h'.kept (h.grasps hn) ho₁
    exact ⟨ho₂, ht₂.trans ht₁⟩
  lacks hl hw := h'.lacks (Nat.lt_of_lt_of_le hl h.fixed.size) (h.lacks hl hw)
  vacant hl hw := h'.vacant (Nat.lt_of_lt_of_le hl h.fixed.size) (h.vacant hl hw)

end Passes

theorem Meanwhile.refl (h : w.Amid B C) : Meanwhile B C w w := ⟨.refl w, h⟩

theorem Meanwhile.trans (h : Meanwhile B C w w') (h' : Meanwhile B C w' w'') :
    Meanwhile B C w w'' := ⟨h.toPasses.trans h'.toPasses, h'.amid⟩

/-- What happens while something is pinned. -/
theorem Passes.unpinned (h : Passes B (w.pinned held) w') : Passes B w w'.unpinned where
  told {s} hs := by
    obtain ⟨vs, hvs⟩ := h.told hs
    have hstart : Deliveries s [] w (w.pinned held) := .of_eq rfl
    exact ⟨vs, .aside (hstart.append hvs) rfl⟩
  pins := by simp [World.unpinned, h.pins, World.pinned]
  pages := h.pages
  fixed := ⟨h.fixed.sites, h.fixed.regions, h.fixed.size⟩
  kept hn ho := h.kept (hn.pin held) ho
  lacks hl hw := h.lacks hl hw
  vacant hl hw := h.vacant hl hw

/-! ## Changes that leave places and records alone -/

namespace World

/-- What is pinned does not matter to who is in the middle of something. -/
theorem Kempt.repin (hw : w.Kempt) (pins : List (List Entity)) : ({ w with pins } : World).Kempt :=
  ⟨hw.forest, hw.acts, hw.seats, hw.subscribers, hw.filed, hw.distinct, hw.sole, hw.listed, hw.apart⟩

theorem Amid.repin (hw : w.Amid B C) (pins : List (List Entity)) :
    ({ w with pins } : World).Amid B C :=
  ⟨hw.toKempt.repin pins, hw.busy, hw.idle, hw.there, hw.empty⟩

theorem Amid.pinned (hw : w.Amid B C) (held : List Entity) : (w.pinned held).Amid B C := hw.repin _

theorem Kempt.of_same (hw : w.Kempt) (hs : w'.sites = w.sites) (hr : w'.records = w.records)
    (hn : ∀ e ∈ w'.names.teardowns, e ∈ w.names.teardowns) (forest : ∀ p, (w'.page p).Forest)
    (acts : ∀ acts ∈ w'.callbacks.map (·.acts), ∀ a ∈ acts, a.Emits)
    (seats : ∀ {c key s}, (key, .rebuild s) ∈ (w'.cell c).registry →
      w'.Follows c (.rebuild s) ∧ w'.Seats s)
    (subscribers : ∀ {e s}, e ∈ w'.names.subscribers → e.2.2 ≠ .rebuild s) : w'.Kempt where
  forest := forest
  acts := acts
  seats := seats
  subscribers := subscribers
  filed hm := by
    rw [hr]
    exact hw.filed (hm.mono (fun l m hm => by rwa [recordsIn, hr] at hm) hn)
  distinct l := by
    rw [recordsIn, hr]
    exact hw.distinct l
  sole {l m} hm x hx := by
    rw [recordsIn, hr] at hm
    have hsame : ∀ k, (w'.taken l).recordsIn k = (w.taken l).recordsIn k := fun k => by
      simp only [recordsIn, World.taken, hr]
    exact hw.sole hm x (hx.imp (Exists.imp fun k hy => by rwa [hsame] at hy)
      (Exists.imp fun _ => hn _))
  listed hx := by
    rw [hs] at hx
    rw [hr]
    exact hw.listed hx
  apart hx hy := by
    rw [hs] at hx hy
    exact hw.apart hx hy

theorem Amid.of_same (hw : w.Amid B C) (hs : w'.sites = w.sites) (hr : w'.records = w.records)
    (hk : w'.Kempt) : w'.Amid B C where
  toKempt := hk
  busy hx := hw.busy (by rwa [← hs])
  idle hx := hw.idle (by rwa [← hs])
  there h := by
    rw [hs]
    exact hw.there h
  empty h := by
    obtain ⟨x, hx, hb, he⟩ := hw.empty h
    exact ⟨x, by rwa [hs], hb, by rwa [recordsIn, hr]⟩

/-- Nothing happens to places and records, and no record comes to have a name. -/
theorem passes_of_same (hs : w'.sites = w.sites) (hr : w'.records = w.records)
    (hn : ∀ e ∈ w'.names.teardowns, e ∈ w.names.teardowns)
    (hregions : ∀ {r : Nat} {region : Region}, w.regions[r]? = some region →
      ∃ region', w'.regions[r]? = some region' ∧ region'.anchors = region.anchors)
    (hpins : w'.pins = w.pins) (hpages : w'.pages.size = w.pages.size)
    (hkept : ∀ {n}, w.Grasps n → w.Occupied n →
      w'.Occupied n ∧ (w'.slot n).content.type = (w.slot n).content.type) : Passes B w w' where
  told _ := ⟨[], .of_eq (by rw [hs])⟩
  pins := hpins
  pages := hpages
  fixed := ⟨fun hx => ⟨_, by rwa [hs], rfl⟩, hregions, by rw [hr]⟩
  kept := hkept
  lacks _ hl m hm := hl m (hm.mono (fun l m hm => by rwa [recordsIn, hr] at hm) hn)
  vacant _ hl i x hx := hl i x (by rwa [← hs])

end World

/-! ## Changes that leave the shape of pages -/

/-- Nothing has changed at places and in records, pages have kept their shape, and no place has been
subscribed. -/
structure Mild (w w' : World) : Prop where
  size : w'.pages.size = w.pages.size
  page (p : PageId) : (w.page p).Shaped (w'.page p)
  records : w'.records = w.records
  regions : w'.regions = w.regions
  sites : w'.sites = w.sites
  pins : w'.pins = w.pins
  acts : ∀ acts ∈ w'.callbacks.map (·.acts), acts ∈ w.callbacks.map (·.acts) ∨ ∀ a ∈ acts, a.Emits
  registry {c : CellId} {key : Nat} {s : SiteId} : (key, .rebuild s) ∈ (w'.cell c).registry →
    (key, .rebuild s) ∈ (w.cell c).registry
  subscribers {e : String × Nat × Reaction} : e ∈ w'.names.subscribers →
    e ∈ w.names.subscribers ∨ ∀ s, e.2.2 ≠ .rebuild s
  teardowns {e : String × Teardown} : e ∈ w'.names.teardowns → e ∈ w.names.teardowns

theorem Mild.refl (w : World) : Mild w w where
  size := rfl
  page _ := .refl _
  records := rfl
  regions := rfl
  sites := rfl
  pins := rfl
  acts _ ha := .inl ha
  registry h := h
  subscribers h := .inl h
  teardowns h := h

theorem World.Amid.mild (hw : w.Amid B C) (h : Mild w w') : Meanwhile B C w w' where
  toPasses := World.passes_of_same h.sites h.records (fun _ => h.teardowns)
    (fun hr => ⟨_, by rwa [h.regions], rfl⟩) h.pins h.size
    fun {n} _ ho => ⟨(h.page _).occupied.2 ho, (h.page n.page).type n.slot⟩
  amid := hw.of_same h.sites h.records <| hw.toKempt.of_same h.sites h.records (fun _ => h.teardowns)
    (fun p => (h.page p).forest (hw.forest p)) (fun acts ha => (h.acts acts ha).elim (hw.acts acts) id)
    (fun hr => by
      obtain ⟨hf, x, hx, hp, ho⟩ := hw.seats (h.registry hr)
      exact ⟨by rwa [Follows, h.sites], x, by rwa [h.sites], by rwa [h.size],
        fun n hn => (h.page _).occupied.2 (ho n hn)⟩)
    fun {_ t} he => (h.subscribers he).elim (hw.subscribers) fun hne => hne t

theorem Meanwhile.unpinned (h : Meanwhile B C (w.pinned held) w') :
    Meanwhile B C w w'.unpinned := ⟨h.toPasses.unpinned, h.amid.repin _⟩

/-! ## Changes of a page -/

namespace World

/-- The page node is held, by an operation under way or by a subscription that leads to its
contents. -/
def Tended (w : World) (n : PageNode) : Prop :=
  w.Grasps n ∨ ∃ c key s site, (key, .rebuild s) ∈ (w.cell c).registry ∧
    w.sites[s.index]? = some site ∧ site.source = c ∧ site.target = .contents n

/-- A sweep spares the nodes that are held. -/
theorem Tended.mem_heldSlots (h : w.Tended n) : n.slot ∈ w.heldSlots n.page := by
  have hsite : ∀ {s : SiteId} {site : Site}, w.sites[s.index]? = some site →
      .site s ∈ w.owners := by
    intro s site hs
    simp only [owners, List.mem_append, List.mem_map, List.mem_range]
    exact .inl (.inl (.inr ⟨s.index, (Array.getElem?_eq_some_iff.1 hs).1, rfl⟩))
  have hmem : .slot n ∈ w.heldEntities := by
    rcases h with (hp | @⟨s, site, hp, hs, ht⟩) | ⟨c, key, s, site, hr, hs, hc, ht⟩
    · exact heldEntities_of_root (List.mem_append_left _ (List.mem_append_right _ hp))
    · refine heldEntities_of_closed (K := (· = .site s)) (o := .site s) ?_ ?_ rfl
        (by simp [holds, hs, ht])
      · rintro _ rfl
        exact hsite hs
      · rintro _ rfl
        exact .inl (List.mem_append_left _ (List.mem_append_right _ hp))
    · refine heldEntities_of_closed (K := fun e => e = .cell c ∨ e = .site s) (o := .site s) ?_ ?_
        (.inr rfl) (by simp [holds, hs, ht])
      · rintro _ (rfl | rfl)
        · exact mem_owners_of_registry hr
        · exact hsite hs
      · rintro _ (rfl | rfl)
        · exact .inr ⟨.site s, .inr rfl, by simp [holds, hs, hc]⟩
        · exact .inr ⟨.cell c, .inl rfl, reactionHolds_subset hr (by simp [reactionHolds])⟩
  refine List.mem_filterMap.2 ⟨_, hmem, ?_⟩
  simp

variable (hw : w.Amid B C)
include hw

/-- A change of a page that leaves it a forest and the held nodes where they are. -/
theorem Amid.withPage {p : PageId} {page : Page} (hf : page.Forest)
    (hkept : ∀ n, n.page = p → w.Tended n → w.Occupied n →
      page.Occupied n.slot ∧ (page.slot n.slot).content.type = (w.slot n).content.type) :
    Meanwhile B C w (w.withPage p page) := by
  have hall : ∀ n, w.Tended n → w.Occupied n → (w.withPage p page).Occupied n ∧
      ((w.withPage p page).slot n).content.type = (w.slot n).content.type := by
    intro n hn ho
    by_cases hnp : n.page = p
    · subst hnp
      have hlt := lt_of_occupied ho
      rw [Occupied, slot_withPage_self hlt, page_withPage_self hlt]
      exact hkept n rfl hn ho
    · rw [Occupied, slot_withPage_of_ne hnp, page_withPage_of_ne hnp]
      exact ⟨ho, rfl⟩
  refine ⟨passes_of_same rfl rfl (fun _ => id) (fun hr => ⟨_, hr, rfl⟩) rfl
    (by simp [World.withPage]) (fun {n} hn ho => hall n (.inl hn) ho), hw.of_same rfl rfl <|
    hw.toKempt.of_same rfl rfl (fun _ => id) (fun q => ?_) hw.acts (fun {c key t} hr => ?_)
    hw.subscribers⟩
  · by_cases hq : q = p
    · subst hq
      by_cases hlt : q.index < w.pages.size
      · rwa [page_withPage_self hlt]
      · rw [page_of_size_le (by simpa [World.withPage] using hlt)]
        have := hw.forest q
        rwa [page_of_size_le (Nat.le_of_not_lt hlt)] at this
    · rw [page_withPage_of_ne hq]
      exact hw.forest q
  · obtain ⟨⟨x, hx, hc⟩, y, hy, hp, ho⟩ := hw.seats hr
    obtain rfl : x = y := Option.some.inj (hx.symm.trans hy)
    refine ⟨⟨x, hx, hc⟩, x, hx, by simpa [World.withPage] using hp, fun n hn => ?_⟩
    exact (hall n (.inr ⟨c, key, t, x, hr, hx, hc, hn⟩) (ho n hn)).1

/-- A change of a page that leaves the same slots occupied with nodes of the same shape. -/
theorem Amid.withPage_of_occupied {p : PageId} {page : Page} (hf : page.Forest)
    (ho : ∀ i, (w.page p).Occupied i → page.Occupied i)
    (ht : ∀ i, (page.slot i).content.type = ((w.page p).slot i).content.type) :
    Meanwhile B C w (w.withPage p page) :=
  hw.withPage hf fun n hn _ hocc => by
    subst hn
    exact ⟨ho _ hocc, ht _⟩

/-- Creating a node. -/
theorem Amid.createNode {p : PageId} {content : Content} (hp : p.index < w.pages.size)
    (h : (createNode p content).run w = .ok n w') :
    Meanwhile B C w w' ∧ w'.Occupied n ∧ n.page = p ∧ w'.slot n = { content } := by
  have hc := Page.created_spec (hw.forest p).rooted (w.heldSlots p) content
  have hf := (hw.forest p).created (w.heldSlots p) content
  rw [run_createNode] at h
  generalize (w.page p).created (w.heldSlots p) content = r at hc hf h
  obtain ⟨i, page⟩ := r
  cases h
  refine ⟨hw.withPage hf fun n hn ht ho => ?_, ?_, rfl, ?_⟩
  · subst hn
    have hret : (w.page n.page).Retained (w.heldSlots n.page) n.slot :=
      ⟨n.slot, n.slot, ht.mem_heldSlots, ho, .refl _ _, .refl _ _⟩
    obtain ⟨hslot, hocc⟩ := hc.slot_of_retained ho hret
    exact ⟨hocc, by rw [hslot]; rfl⟩
  · show ((w.withPage p page).page p).Occupied i
    rw [page_withPage_self hp]
    exact hc.occupied_self
  · exact (slot_withPage_self hp _ _).trans hc.slot_self

end World

end LivePage
