import LivePage.Proofs.Mount.Releasing
import LivePage.Proofs.Mount.Renewal
import LivePage.Proofs.Page.Document
import LivePage.Proofs.Rebuild.Amid

/-!
# Single changes while a place is being rebuilt

The operations on pages, lists of records and places of which emissions, realizations and rebuildings
are made, each of them `Meanwhile`. Those that put a node somewhere need that it goes below a node
that is there; those that make something say that it is new. A run that needs nothing of the kind is
one that `Abides`, and a realization that succeeds `Completes`.
-/

namespace LivePage

open LivePage.Script

variable {α β : Type} {w w' w₁ : World} {B C : List SiteId} {s t : SiteId} {x : Site} {c : CellId}
  {n child parent content : PageNode} {l : RecordsId} {m : Teardown} {p : PageId}

/-! ## Runs that need nothing -/

instance : IsPreorder World fun w w' => w.Amid B C → Meanwhile B C w w' where
  refl _ h := .refl h
  trans _ _ _ h h' hw := (h hw).trans (h' (h hw).amid)

/-- Whatever place is being rebuilt, the run changes no more than may happen meanwhile. -/
abbrev Abides (B C : List SiteId) (x : Run α) : Prop :=
  Keeps (fun w w' => w.Amid B C → Meanwhile B C w w') (fun _ => True) x

theorem abides_of_ok {x : Run α} (h : ∀ {w a w'}, w.Amid B C → x.run w = .ok a w' →
    Meanwhile B C w w') : Abides B C x := by
  refine ⟨fun w => ?_⟩
  unfold KeepsAt
  split
  · next hx => exact fun hw => h hw hx
  · trivial

theorem abides_of_mild {x : Run α} (h : ∀ {w a w'}, x.run w = .ok a w' → Mild w w') :
    Abides B C x :=
  abides_of_ok fun hw hx => hw.mild (h hx)

theorem Abides.holding {x : Run α} {held : List Entity} (h : Abides B C x) :
    Abides B C (holding held x) :=
  Keeps.holding h fun h hw => (h (hw.pinned _)).unpinned

theorem abides_realizingWith {x : Realizing α} {held : List Entity} (h : Abides B C x.run) :
    Abides B C (realizingWith held x).run := by
  rw [realizingWith, ExceptT.run_mk]
  exact h.holding

theorem Quiet.mild (h : Quiet w w') : Mild w w' where
  size := by rw [h.pages]
  page p := by rw [h.page]; exact .refl _
  records := h.records
  regions := h.regions
  sites := h.sites
  pins := h.pins
  acts acts ha := .inl (by rwa [h.acts] at ha)
  registry hr := by rwa [h.cell] at hr
  subscribers he := .inl (by rwa [h.names] at he)
  teardowns he := by rwa [h.names] at he

theorem Reads.abides {x : Run α} (h : Reads x) : Abides B C x :=
  abides_of_mild fun hx => (h.ok hx).mild

/-! ## Observables and names -/

/-- A change of an observable that subscribes no place. -/
theorem mild_withCell {f : Cell → Cell}
    (hf : ∀ x key t, (key, .rebuild t) ∈ (f x).registry → (key, .rebuild t) ∈ x.registry) :
    Mild w (w.withCell c f) :=
  { Mild.refl w with
    registry := fun {d key t} hr => by
      rw [World.cell_withCell] at hr
      split at hr
      · exact hf _ _ _ hr
      · exact hr }

theorem abides_modifyCell {f : Cell → Cell}
    (hf : ∀ x key t, (key, .rebuild t) ∈ (f x).registry → (key, .rebuild t) ∈ x.registry) :
    Abides B C (modifyCell c f) :=
  keeps_modify fun _ hw => hw.mild (mild_withCell hf)

theorem abides_hold (c : CellId) (held : Held) : Abides B C (hold c held) :=
  abides_modifyCell fun _ _ _ h => h

theorem abides_unsubscribeAll (c : CellId) : Abides B C (unsubscribeAll c) :=
  abides_modifyCell fun _ _ _ h => nomatch h

theorem abides_unsubscribe (c : CellId) (key : Nat) :
    Abides B C (modifyCell c (·.unsubscribe key)) :=
  abides_modifyCell fun _ _ _ h => (List.mem_filter.1 h).1

theorem abides_modifySettlement (c : CellId) (f : Settlement → Settlement) :
    Abides B C (modifyCell c (·.modifySettlement f)) :=
  abides_modifyCell fun x _ _ h => by
    unfold Cell.modifySettlement at h
    split at h <;> exact h

theorem Cell.mem_subscribe_of_ne {x : Cell} {key key' : Nat} {r r' : Reaction} (hr : r' ≠ r)
    (h : (key', r') ∈ (x.subscribe key r).registry) : (key', r') ∈ x.registry :=
  (Cell.mem_subscribe h).resolve_right fun he => hr (congrArg Prod.snd he)

theorem abides_subscribeAs (c : CellId) (key : Nat) {r : Reaction} (hr : ∀ t, r ≠ .rebuild t) :
    Abides B C (modifyCell c (·.subscribe key r)) :=
  abides_modifyCell fun _ _ t h => Cell.mem_subscribe_of_ne (hr t).symm h

theorem abides_subscribe (c : CellId) {r : Reaction} (hr : ∀ t, r ≠ .rebuild t) :
    Abides B C (subscribe c r) := by
  refine abides_of_mild fun {w _ _} hx => ?_
  rw [run_subscribe] at hx
  cases hx
  have hm : Mild w ((w.withCell c (·.subscribe w.nextKey r))) :=
    mild_withCell fun _ _ t h => Cell.mem_subscribe_of_ne (hr t).symm h
  exact { hm with }

theorem abides_newCallback {acts : List Step} (h : ∀ a ∈ acts, a.Emits) (times : Nat) :
    Abides B C (newCallback acts times) := by
  refine abides_of_mild fun {w _ _} hx => ?_
  cases hx
  exact { Mild.refl w with
    acts := fun acts' ha => by
      have ha : acts' ∈ (w.callbacks.push ⟨acts, times⟩).map (·.acts) := ha
      rw [Array.map_push, Array.mem_push] at ha
      rcases ha with ha | rfl
      · exact .inl ha
      · exact .inr h }

/-- A change of names by which no place and no record gets one. -/
theorem abides_modifyNames {f : Names → Names}
    (hs : ∀ x, ∀ e ∈ (f x).subscribers, e ∈ x.subscribers ∨ ∀ t, e.2.2 ≠ .rebuild t)
    (ht : ∀ x, ∀ e ∈ (f x).teardowns, e ∈ x.teardowns) : Abides B C (modifyNames f) :=
  keeps_modify fun w hw => hw.mild
    { Mild.refl w with
      subscribers := fun he => hs _ _ he
      teardowns := fun he => ht _ _ he }

theorem abides_modifyBoundary (b : BoundaryId) (f : Boundary → Boundary) :
    Abides B C (modifyBoundary b f) :=
  keeps_modify fun w hw => hw.mild { Mild.refl w with }

/-! ## Pages -/

theorem Dresses.mild (h : Dresses n w w') : Mild w w' where
  size := h.evolves.pages
  page p := (h.page p).shaped
  records := h.records
  regions := h.regions
  sites := h.sites
  pins := h.evolves.pins
  acts acts ha := .inl (by rwa [h.evolves.acts] at ha)
  registry hr := by rwa [h.cell] at hr
  subscribers he := .inl (by rwa [h.evolves.names] at he)
  teardowns he := by rwa [h.evolves.names] at he

theorem Dresses.abides {E : Stop → Prop} {x : Run α} (h : Keeps (Dresses n) E x) :
    Abides B C x :=
  abides_of_mild fun hx => (h.ok hx).mild

theorem mild_withPage {page : Page} (h : (w.page p).Shaped page) : Mild w (w.withPage p page) :=
  { Mild.refl w with
    size := by simp [World.withPage]
    page := fun q => by
      by_cases hq : q = p
      · subst hq
        by_cases hlt : q.index < w.pages.size
        · rwa [World.page_withPage_self hlt]
        · have hle : w.pages.size ≤ q.index := Nat.le_of_not_lt hlt
          rw [World.page_of_size_le hle,
            World.page_of_size_le (by simpa [World.withPage] using hle)]
          exact .refl _
      · rw [World.page_withPage_of_ne hq]
        exact .refl _ }

theorem abides_onPage {f : Page → Page.Outcome} (h : ∀ page : Page, page.Shaped (f page).2) :
    Abides B C (onPage p f) := by
  refine abides_of_mild fun {w _ _} hx => ?_
  obtain ⟨page, hpage, rfl⟩ := ok_onPage.1 hx
  have := h (w.page p)
  rw [hpage] at this
  exact mild_withPage this

theorem abides_editPage {f : Page → Except PageError Page}
    (h : ∀ page page', f page = .ok page' → page.Shaped page') : Abides B C (editPage p f) :=
  abides_onPage fun page => by
    cases hf : f page with
    | ok page' => exact h page page' hf
    | error e => exact .refl page

theorem abides_unlisten (n : PageNode) (type : String) (h : HandlerId) :
    Abides B C (n.unlisten type h) :=
  (abides_onPage fun page => page.shaped_unlisten n.slot type h).bind fun _ => keeps_pure _

/-- Inserting a node below one that is there. -/
theorem World.Amid.insertBefore (hw : w.Amid B C) (ho : w.Occupied n)
    {reference : Option PageNode}
    (h : (n.insertBefore child reference).run w = .ok (.ok ()) w') : Meanwhile B C w w' := by
  unfold PageNode.insertBefore at h
  split at h
  · obtain ⟨page, hpage, rfl⟩ := ok_onPage.1 h
    have hf := hw.forest n.page
    obtain ⟨hforest, hocc⟩ := hf.insertBefore ho hpage
    exact hw.withPage_of_occupied hforest (fun i => (hocc i).2) fun i => by
      rw [Page.content_insertBefore hf ho hpage]
  · exact absurd (ok_pure.1 h).1 (by simp)

/-- Taking nodes out below a node and inserting another one there. -/
theorem World.Amid.replaced (hw : w.Amid B C) (ho : w.Occupied n) {stale : Page → List Nat}
    {reference : Option PageNode}
    (h₁ : (onPage n.page fun p => p.removeChildren n.slot (stale p)).run w = .ok (.ok ()) w₁)
    (h₂ : (n.insertBefore child reference).run w₁ = .ok (.ok ()) w') : Meanwhile B C w w' := by
  obtain ⟨page, hpage, rfl⟩ := ok_onPage.1 h₁
  have hf := hw.forest n.page
  obtain ⟨-, -, rfl⟩ := (Page.removeChildren_eq hf).1 hpage
  have hm := hw.withPage_of_occupied (hf.detachAll (stale (w.page n.page)))
    (fun _ => Page.occupied_detachAll.2) fun i => by rw [Page.content_detachAll hf]
  refine hm.trans (hm.amid.insertBefore ?_ h₂)
  rw [World.Occupied, World.page_withPage_self (World.lt_of_occupied ho)]
  exact Page.occupied_detachAll.2 ho

theorem World.Amid.replaceChildren (hw : w.Amid B C) (ho : w.Occupied n)
    (h : (n.replaceChildren child).run w = .ok (.ok ()) w') : Meanwhile B C w w' := by
  rw [PageNode.replaceChildren, ok_bind] at h
  obtain ⟨e | _, w₁, h₁, h₂⟩ := h
  · exact absurd (ok_pure.1 h₂).1 (by simp)
  · exact hw.replaced ho h₁ h₂

/-- A change of the regions that leaves their comments. -/
theorem World.Amid.regions (hw : w.Amid B C) {f : Array Region → Array Region}
    (h : ∀ (r : Nat) (region : Region), w.regions[r]? = some region →
      ∃ region', (f w.regions)[r]? = some region' ∧ region'.anchors = region.anchors) :
    Meanwhile B C w { w with regions := f w.regions } :=
  ⟨World.passes_of_same rfl rfl (fun _ => id) (fun hr => h _ _ hr) rfl rfl fun _ ho => ⟨ho, rfl⟩,
    hw.of_same rfl rfl <| hw.toKempt.of_same rfl rfl (fun _ => id) hw.forest hw.acts hw.seats
      hw.subscribers⟩

theorem World.Amid.splice (hw : w.Amid B C) {r : RegionId}
    (h : (r.splice child).run w = .ok (.ok ()) w') : Meanwhile B C w w' := by
  rw [RegionId.splice, ok_get_bind] at h
  cases hp : (w.slot (w.region r).start).parent with
  | none =>
    have hnone : (w.region r).start.parent? w = none := by simp [PageNode.parent?, hp]
    simp only [hnone] at h
    obtain ⟨-, rfl⟩ := ok_pure.1 h
    exact .refl hw
  | some q =>
    have hsome : (w.region r).start.parent? w = some ⟨(w.region r).start.page, q⟩ := by
      simp [PageNode.parent?, hp]
    simp only [hsome, ok_set_bind] at h
    rw [ok_bind] at h
    obtain ⟨e | _, w₁, h₁, h₂⟩ := h
    · exact absurd (ok_pure.1 h₂).1 (by simp)
    have hm : Meanwhile B C w (w.reparented r ⟨(w.region r).start.page, q⟩) :=
      hw.regions (f := fun regions => regions.modify r.index fun region =>
        { region with parent := ⟨(w.region r).start.page, q⟩ }) fun i region h =>
          ⟨_, getElem?_modify_of_some _ h, by split <;> rfl⟩
    have ho : w.Occupied ⟨(w.region r).start.page, q⟩ :=
      ((hw.forest _).up (show ((w.page _).slot (w.region r).start.slot).parent = some q from hp)).2.1
    exact hm.trans (hm.amid.replaced (n := ⟨(w.region r).start.page, q⟩) ho h₁ h₂)

/-- Opening a region below a node that is held. -/
theorem World.Amid.openRegion (hw : w.Amid B C) (hg : w.Grasps parent) (ho : w.Occupied parent)
    {label : Option String} {r : RegionId}
    (h : (openRegion parent label).run w = .ok (.ok r) w') : Meanwhile B C w w' := by
  obtain ⟨start, w₁, h₁, k₁⟩ := ok_bind.1 h
  have hm₁ := (hw.createNode (World.lt_of_occupied ho) h₁).1
  have ho₁ := (hm₁.kept hg ho).1
  obtain ⟨w₇, k, rfl⟩ := ok_holding.1 k₁
  suffices h : Meanwhile B C (w₁.pinned [.slot parent, .slot start]) w₇ from
    hm₁.trans h.unpinned
  have hpinned : (w₁.pinned [.slot parent, .slot start]).Grasps parent :=
    .pinned (List.mem_append_left _ List.mem_cons_self)
  obtain ⟨finish, w₂, h₂, k₂⟩ := ok_bind.1 k
  have hm₂ := ((hm₁.amid.pinned _).createNode (p := parent.page) (World.lt_of_occupied ho₁) h₂).1
  obtain ⟨e | _, w₃, h₃, k₃⟩ := ok_bind.1 k₂
  · exact absurd (ok_pure.1 k₃).1 (by simp)
  have hm₃ := hm₂.trans (hm₂.amid.insertBefore (hm₂.kept hpinned ho₁).1 h₃)
  obtain ⟨e | _, w₄, h₄, k₄⟩ := ok_bind.1 k₃
  · exact absurd (ok_pure.1 k₄).1 (by simp)
  have hm₄ := hm₃.trans (hm₃.amid.insertBefore (hm₃.kept hpinned ho₁).1 h₄)
  rw [ok_get_bind, ok_set_bind] at k₄
  obtain ⟨-, rfl⟩ := ok_pure.1 k₄
  exact hm₄.trans (hm₄.amid.regions (f := (·.push _)) fun i region h =>
    ⟨region, getElem?_push_of_some h, rfl⟩)

/-! ## Lists of records -/

theorem World.files_withList : w.withList.Files m ↔ w.Files m := by
  simp only [Files, recordsIn_withList]
  exact Iff.rfl

/-- The list has been made since `w`, and no record has it for its children yet. -/
structure World.Drafts (w : World) (l : RecordsId) (w' : World) : Prop where
  new : w.records.size ≤ l.index
  lt : l.index < w'.records.size
  lacks : w'.Lacks l

/-- The list is none of those that have been emptied. -/
def World.Evades (w : World) (C : List SiteId) (l : RecordsId) : Prop :=
  ∀ s ∈ C, ∃ x, w.sites[s.index]? = some x ∧ x.records ≠ l

theorem World.Evades.after (hl : w.Evades C l) (h : World.Fixed w w') : w'.Evades C l := by
  intro s hs
  obtain ⟨x, hx, hne⟩ := hl s hs
  obtain ⟨x', hx', he⟩ := h.sites hx
  exact ⟨x', hx', by rwa [Site.records_of_still he]⟩

namespace World.Drafts

theorem since (h : Passes B w w₁) (hl : w₁.Drafts l w') : w.Drafts l w' :=
  ⟨Nat.le_trans h.fixed.size hl.new, hl.lt, hl.lacks⟩

theorem after (hl : w.Drafts l w₁) (h : Passes B w₁ w') : w.Drafts l w' :=
  ⟨hl.new, Nat.lt_of_lt_of_le hl.lt h.fixed.size, h.lacks hl.lt hl.lacks⟩

/-- A new list is not that of a place. -/
theorem ne (hl : w.Drafts l w') (hw : w.Kempt) {i : Nat} (hx : w.sites[i]? = some x) :
    x.records ≠ l := by
  rintro rfl
  exact Nat.not_lt.2 hl.new (hw.listed hx)

theorem evades (hl : w.Drafts l w') (hw : w.Amid B C) : w.Evades C l := fun _ hs => by
  obtain ⟨x, hx, -, -⟩ := hw.empty hs
  exact ⟨x, hx, hl.ne hw.toKempt hx⟩

end World.Drafts

/-- Making a list of records. -/
theorem World.Amid.withList (hw : w.Amid B C) :
    Meanwhile B C w w.withList ∧ w.Drafts ⟨w.records.size⟩ w.withList := by
  have hsize : w.records.size ≤ w.withList.records.size := by simp [World.withList]
  have hlacks : w.withList.Lacks ⟨w.records.size⟩ := fun m hm he => by
    have := hw.filed (World.files_withList.1 hm)
    rw [he] at this
    exact Nat.lt_irrefl _ this
  have htaken : ∀ {l x}, (w.withList.taken l).Files x → (w.taken l).Files x := by
    rintro l x (⟨k, hx⟩ | hx)
    · rw [recordsIn_taken, recordsIn_withList] at hx
      exact .inl ⟨k, by rwa [recordsIn_taken]⟩
    · exact .inr hx
  have hkempt : w.withList.Kempt := {
    forest := hw.forest
    acts := hw.acts
    seats := hw.seats
    subscribers := hw.subscribers
    filed := fun hm => Nat.lt_of_lt_of_le (hw.filed (World.files_withList.1 hm)) hsize
    distinct := fun l => by
      rw [recordsIn_withList]
      exact hw.distinct l
    sole := fun hm x hx => by
      rw [recordsIn_withList] at hm
      exact hw.sole hm x (htaken hx)
    listed := fun hx => Nat.lt_of_lt_of_le (hw.listed hx) hsize
    apart := hw.apart }
  exact ⟨{
    amid := {
      toKempt := hkempt
      busy := hw.busy
      idle := hw.idle
      there := hw.there
      empty := fun hs => by
        obtain ⟨x, hx, hb, he⟩ := hw.empty hs
        exact ⟨x, hx, hb, (recordsIn_withList ..).trans he⟩ }
    told := fun _ => ⟨[], .of_eq rfl⟩
    pins := rfl
    pages := rfl
    fixed := ⟨fun hs => ⟨_, hs, rfl⟩, fun hr => ⟨_, hr, rfl⟩, hsize⟩
    kept := fun _ ho => ⟨ho, rfl⟩
    lacks := fun _ hl m hm => hl m (World.files_withList.1 hm)
    vacant := fun _ hl => hl },
    ⟨Nat.le_refl _, by simp [World.withList], hlacks⟩⟩

theorem World.mem_recordsIn_of_taken {k : RecordsId} (h : m ∈ (w.taken l).recordsIn k) :
    k ≠ l ∧ m ∈ w.recordsIn k := by
  rw [recordsIn_taken] at h
  split at h
  · cases h
  · next hk => exact ⟨hk, h⟩

theorem World.Files.of_taken (h : (w.taken l).Files m) : w.Files m :=
  h.mono (fun _ _ hm => (mem_recordsIn_of_taken hm).2) fun _ => id

theorem World.Kempt.taken (hw : w.Kempt) (l : RecordsId) : (w.taken l).Kempt where
  forest := hw.forest
  acts := hw.acts
  seats := hw.seats
  subscribers := hw.subscribers
  filed hm := by simpa [World.taken] using hw.filed hm.of_taken
  distinct k := by
    rw [recordsIn_taken]
    split
    · exact List.nodup_nil
    · exact hw.distinct k
  sole {k m} hm x hx := by
    refine hw.sole (mem_recordsIn_of_taken hm).2 x (hx.imp_left (Exists.imp fun i hy => ?_))
    obtain ⟨hk, hy⟩ := mem_recordsIn_of_taken hy
    rw [recordsIn_taken, if_neg hk]
    exact (mem_recordsIn_of_taken hy).2
  listed hx := by simpa [World.taken] using hw.listed hx
  apart := hw.apart

/-- Taking the records out of a list tells nobody. -/
theorem World.passes_taken (w : World) (l : RecordsId) : Passes B w (w.taken l) where
  told _ := ⟨[], .of_eq rfl⟩
  pins := rfl
  pages := rfl
  fixed := ⟨fun hs => ⟨_, hs, rfl⟩, fun hr => ⟨_, hr, rfl⟩, by simp [World.taken]⟩
  kept _ ho := ⟨ho, rfl⟩
  lacks _ hl m hm := hl m hm.of_taken
  vacant _ hl := hl

theorem abides_takeRecords (l : RecordsId) : Abides B C (takeRecords l) := by
  refine abides_of_ok fun {w _ _} hw hx => ?_
  rw [run_takeRecords] at hx
  cases hx
  exact ⟨w.passes_taken l, hw.toKempt.taken l, hw.busy, hw.idle, hw.there, fun hs => by
    obtain ⟨x, hx, hb, he⟩ := hw.empty hs
    refine ⟨x, hx, hb, ?_⟩
    rw [recordsIn_taken, he, ite_self]⟩

theorem World.Files.of_pushed {x : Teardown} (h : (w.pushed l m).Files x) : w.Files x ∨ x = m := by
  rcases h with ⟨k, hm⟩ | hm
  · rw [recordsIn_pushed] at hm
    split at hm
    · exact (List.mem_append.1 hm).imp (fun hm => .inl ⟨k, hm⟩) List.mem_singleton.1
    · exact .inl (.inl ⟨k, hm⟩)
  · exact .inl (.inr hm)

/-- Adding a record that stands nowhere. -/
theorem World.Kempt.pushed (hw : w.Kempt) (hm : m.children.index < w.records.size)
    (hlacks : w.Lacks m.children) : (w.pushed l m).Kempt := by
  have hsize : (w.pushed l m).records.size = w.records.size := by simp [World.pushed]
  have hmem : ∀ {k x}, x ∈ (w.pushed l m).recordsIn k → x ∈ w.recordsIn k ∨ k = l ∧ x = m := by
    intro k x hx
    rw [recordsIn_pushed] at hx
    split at hx
    · next hk => exact (List.mem_append.1 hx).imp_right fun hx => ⟨hk.1, List.mem_singleton.1 hx⟩
    · exact .inl hx
  have hfiles : ∀ {k x}, ((w.pushed l m).taken k).Files x → (w.taken k).Files x ∨ k ≠ l ∧ x = m := by
    rintro k x (⟨i, hx⟩ | hx)
    · obtain ⟨hik, hx⟩ := mem_recordsIn_of_taken hx
      rcases hmem hx with hx | ⟨rfl, rfl⟩
      · exact .inl (.inl ⟨i, by rwa [recordsIn_taken, if_neg hik]⟩)
      · exact .inr ⟨Ne.symm hik, rfl⟩
    · exact .inl (.inr hx)
  exact {
    forest := hw.forest
    acts := hw.acts
    seats := hw.seats
    subscribers := hw.subscribers
    filed := fun hx => by
      rw [hsize]
      rcases hx.of_pushed with hx | rfl
      · exact hw.filed hx
      · exact hm
    distinct := fun k => by
      rw [recordsIn_pushed]
      split
      · rw [List.map_append, List.map_singleton, List.nodup_append]
        refine ⟨hw.distinct k, List.nodup_singleton _, ?_⟩
        rintro _ hx _ hy rfl
        obtain ⟨x, hx, he⟩ := List.mem_map.1 hx
        exact hlacks x (.inl ⟨k, hx⟩) (he.trans (List.mem_singleton.1 hy))
      · exact hw.distinct k
    sole := fun {k x} hx y hy => by
      rcases hmem hx with hold | ⟨rfl, rfl⟩
      · rcases hfiles hy with hy | ⟨-, rfl⟩
        · exact hw.sole hold y hy
        · exact fun he => hlacks x (.inl ⟨k, hold⟩) he.symm
      · rcases hfiles hy with hy | ⟨hk, -⟩
        · exact hlacks y hy.of_taken
        · exact absurd rfl hk
    listed := fun hx => by
      rw [hsize]
      exact hw.listed hx
    apart := hw.apart }

/-- Adding a new record to a list. -/
theorem Passes.pushed (h : Passes B w w') (hm : w.Drafts m.children w') :
    Passes B w (w'.pushed l m) where
  told hs := by
    obtain ⟨vs, hvs⟩ := h.told hs
    exact ⟨vs, .aside hvs rfl⟩
  pins := h.pins
  pages := h.pages
  fixed := h.fixed.trans (w'.fixed_pushed l m)
  kept := h.kept
  lacks {k} hk hw x hx := by
    rcases hx.of_pushed with hx | rfl
    · exact h.lacks hk hw x hx
    · rintro rfl
      exact Nat.not_lt.2 hm.new hk
  vacant := h.vacant

/-- Adding a new record to a list that has not been emptied. -/
theorem Meanwhile.pushed (h : Meanwhile B C w w') (hm : w.Drafts m.children w')
    (hl : w.Evades C l) : Meanwhile B C w (w'.pushed l m) where
  toPasses := h.toPasses.pushed hm
  amid :=
    { toKempt := h.amid.toKempt.pushed hm.lt hm.lacks
      busy := h.amid.busy
      idle := h.amid.idle
      there := h.amid.there
      empty := fun {s} hs => by
        obtain ⟨x, hx, hb, he⟩ := h.amid.empty hs
        obtain ⟨y, hy, hne⟩ := hl.after h.fixed s hs
        obtain rfl : y = x := Option.some.inj (hy.symm.trans hx)
        refine ⟨y, hx, hb, ?_⟩
        rw [recordsIn_pushed, if_neg fun hk => hne hk.1]
        exact he }

/-! ## Places -/

section

variable {f : Site → Site} (hf : ∀ x, (f x).still = x.still)
include hf

theorem World.fixed_marked (w : World) (t : SiteId) :
    w.Fixed (w.marked t f) := by
  refine ⟨fun {i x} hx => ⟨_, getElem?_modify_of_some f hx, ?_⟩, fun hr => ⟨_, hr, rfl⟩,
    Nat.le_refl _⟩
  split
  · exact hf x
  · rfl

/-- The records of marked places are those that they had. -/
theorem World.exists_of_marked {t : SiteId} {i : Nat}
    (hx : (w.marked t f).sites[i]? = some x) :
    ∃ y, w.sites[i]? = some y ∧ y.records = x.records := by
  rw [World.marked, Array.getElem?_modify] at hx
  split at hx
  · obtain ⟨y, hy, rfl⟩ := Option.map_eq_some_iff.1 hx
    exact ⟨y, hy, (Site.records_of_still (hf y)).symm⟩
  · exact ⟨x, hx, rfl⟩

theorem World.Seats.marked {i : SiteId} (h : w.Seats i) (t : SiteId) :
    (w.marked t f).Seats i := by
  obtain ⟨x, hx, hp, ho⟩ := h
  obtain ⟨x', hx', he⟩ := (w.fixed_marked hf t).sites hx
  refine ⟨x', hx', ?_, fun n hn => ho n (by rwa [Site.target_of_still he] at hn)⟩
  rw [Site.surface_of_still he]
  exact hp

theorem World.Kempt.marked (hw : w.Kempt) (t : SiteId) :
    (w.marked t f).Kempt where
  forest := hw.forest
  acts := hw.acts
  seats {d key i} hr := by
    obtain ⟨⟨x, hx, hc⟩, hi⟩ := hw.seats hr
    obtain ⟨x', hx', he⟩ := (w.fixed_marked hf t).sites hx
    exact ⟨⟨x', hx', (Site.source_of_still he).trans hc⟩, hi.marked hf t⟩
  subscribers := hw.subscribers
  filed := hw.filed
  distinct := hw.distinct
  sole := hw.sole
  listed hx := by
    obtain ⟨y, hy, he⟩ := exists_of_marked hf hx
    exact he ▸ hw.listed hy
  apart hx hy hxy := by
    obtain ⟨x', hx', hex⟩ := exists_of_marked hf hx
    obtain ⟨y', hy', hey⟩ := exists_of_marked hf hy
    exact hw.apart hx' hy' (hex.trans (hxy.trans hey.symm))

/-- Marking a place that is not told anything by that. -/
theorem World.passes_marked (w : World) (t : SiteId)
    (ht : t ∈ B → ∃ vs, Deliveries t vs w (w.marked t f)) :
    Passes B w (w.marked t f) where
  told {s} hs := by
    by_cases hst : s = t
    · subst hst
      exact ht hs
    · exact ⟨[], .of_eq (site_marked_of_ne hst)⟩
  pins := rfl
  pages := rfl
  fixed := w.fixed_marked hf t
  kept _ ho := ⟨ho, rfl⟩
  lacks _ hl := hl
  vacant _ hl i x hx := by
    obtain ⟨y, hy, he⟩ := exists_of_marked hf hx
    exact he ▸ hl i y hy

end

/-- Marking a place by which it is busy exactly if it is in `B'`, and does not wait for anything
otherwise. -/
theorem World.Amid.marked (hw : w.Amid B C) {f : Site → Site} (hf : ∀ x, (f x).still = x.still)
    {t : SiteId} {B' : List SiteId} (hB : ∀ s, s ≠ t → (s ∈ B' ↔ s ∈ B))
    (hbusy : ∀ x, w.sites[t.index]? = some x → ((f x).busy = true ↔ t ∈ B'))
    (hidle : ∀ x, w.sites[t.index]? = some x → t ∉ B' → (f x).queued = none)
    (hthere : t ∈ B' → t.index < w.sites.size) (hC : t ∈ C → t ∈ B') :
    (w.marked t f).Amid B' C := by
  have hself : ∀ {x}, (w.marked t f).sites[t.index]? = some x →
      ∃ y, w.sites[t.index]? = some y ∧ x = f y := by
    intro x hx
    rw [World.marked, Array.getElem?_modify, if_pos rfl] at hx
    obtain ⟨y, hy, rfl⟩ := Option.map_eq_some_iff.1 hx
    exact ⟨y, hy, rfl⟩
  refine ⟨hw.toKempt.marked hf t, fun {s x} hx => ?_, fun {s x} hx hs => ?_, fun {s} hs => ?_,
    fun {s} hs => ?_⟩ <;> by_cases hst : s = t
  · subst hst
    obtain ⟨y, hy, rfl⟩ := hself hx
    exact hbusy y hy
  · rw [site_marked_of_ne hst] at hx
    exact (hw.busy hx).trans (hB s hst).symm
  · subst hst
    obtain ⟨y, hy, rfl⟩ := hself hx
    exact hidle y hy hs
  · rw [site_marked_of_ne hst] at hx
    exact hw.idle hx fun h => hs ((hB s hst).2 h)
  · subst hst
    simpa [World.marked] using hthere hs
  · simpa [World.marked] using hw.there ((hB s hst).1 hs)
  · obtain ⟨x, hx, hb, he⟩ := hw.empty hs
    subst hst
    refine ⟨f x, site_marked hx, (hbusy x hx).2 (hC hs), ?_⟩
    rw [Site.records_of_still (hf x)]
    exact he
  · obtain ⟨x, hx, hb, he⟩ := hw.empty hs
    exact ⟨x, (site_marked_of_ne hst).trans hx, hb, he⟩

/-- Making a place that follows an observable: it is on a page, and its element is there. -/
theorem World.Amid.followAt (hw : w.Amid B C) {surface : Surface} {target : Target}
    (hlt : l.index < w.records.size) (hl : w.Vacant l) (hp : surface.page.index < w.pages.size)
    (ho : ∀ n, target = .contents n → w.Occupied n)
    (h : (followAt surface c l target).run w = .ok ⟨⟩ w') : w'.Amid B C := by
  rw [run_followAt] at h
  cases h
  have hold : ∀ {i x}, w.sites[i]? = some x →
      (w.sites.push ⟨surface, c, l, target, false, none⟩)[i]? = some x := getElem?_push_of_some
  have hself : (w.sites.push ⟨surface, c, l, target, false, none⟩)[w.sites.size]? = _ :=
    Array.getElem?_push_size
  have hcases : ∀ {i x}, (w.sites.push ⟨surface, c, l, target, false, none⟩)[i]? = some x →
      w.sites[i]? = some x ∨ i = w.sites.size ∧ x = ⟨surface, c, l, target, false, none⟩ := by
    intro i x hx
    rw [Array.getElem?_push] at hx
    split at hx
    · next hi => exact .inr ⟨hi, (Option.some.inj hx).symm⟩
    · exact .inl hx
  have hfresh : ∀ {s : SiteId}, s.index = w.sites.size → s ∉ B := fun hs hB =>
    Nat.lt_irrefl _ (hs ▸ hw.there hB)
  refine {
    forest := hw.forest
    acts := hw.acts
    seats := fun {d key i} hr => ?_
    subscribers := hw.subscribers
    filed := hw.filed
    distinct := hw.distinct
    sole := hw.sole
    listed := fun {i x} hx => ?_
    apart := fun {i j x y} hx hy he => ?_
    busy := fun {s x} hx => ?_
    idle := fun {s x} hx hs => ?_
    there := fun hs => ?_
    empty := fun hs => ?_ }
  · have hcases : (key, .rebuild i) ∈ (w.cell d).registry ∨ d = c ∧ i = ⟨w.sites.size⟩ := by
      rw [World.subscribed, World.cell_withCell] at hr
      split at hr
      · next hd =>
        rcases Cell.mem_subscribe hr with hr | he
        · exact .inl hr
        · injection congrArg Prod.snd he with he
          exact .inr ⟨hd.1, he⟩
      · exact .inl hr
    rcases hcases with hr | ⟨rfl, rfl⟩
    · obtain ⟨⟨x, hx, hc⟩, y, hy, hp, ho⟩ := hw.seats hr
      exact ⟨⟨x, hold hx, hc⟩, y, hold hy, hp, ho⟩
    · exact ⟨⟨_, hself, rfl⟩, _, hself, hp, ho⟩
  · rcases hcases hx with hx | ⟨-, rfl⟩
    · exact hw.listed hx
    · exact hlt
  · rcases hcases hx with hx | ⟨rfl, rfl⟩ <;> rcases hcases hy with hy | ⟨rfl, rfl⟩
    · exact hw.apart hx hy he
    · exact absurd he (hl i x hx)
    · exact absurd he.symm (hl j y hy)
    · rfl
  · rcases hcases hx with hx | ⟨hs, rfl⟩
    · exact hw.busy hx
    · simpa using hfresh hs
  · rcases hcases hx with hx | ⟨-, rfl⟩
    · exact hw.idle hx hs
    · rfl
  · exact Nat.lt_of_lt_of_le (hw.there hs) (by simp [World.subscribed, World.withCell, World.withSite])
  · obtain ⟨x, hx, hb, he⟩ := hw.empty hs
    exact ⟨x, hold hx, hb, he⟩

/-- Since a world in which its list had not been made, a new place is nothing that matters. -/
theorem Meanwhile.followAt (h : Meanwhile B C w w₁) (hl : w.Drafts l w₁) (hv : w₁.Vacant l)
    {surface : Surface} {target : Target} (hp : surface.page.index < w₁.pages.size)
    (ho : ∀ n, target = .contents n → w₁.Occupied n)
    (hrun : (followAt surface c l target).run w₁ = .ok ⟨⟩ w') :
    Meanwhile B C w w' ∧ w.Drafts l w' := by
  have hamid := h.amid.followAt hl.lt hv hp ho hrun
  rw [run_followAt] at hrun
  cases hrun
  have hold : ∀ {i x}, w₁.sites[i]? = some x →
      (w₁.sites.push ⟨surface, c, l, target, false, none⟩)[i]? = some x := getElem?_push_of_some
  refine ⟨⟨{
    told := fun {s} hs => ?_
    pins := h.pins
    pages := h.pages
    fixed := h.fixed.trans ⟨fun hs => ⟨_, hold hs, rfl⟩, fun hr => ⟨_, hr, rfl⟩, Nat.le_refl _⟩
    kept := h.kept
    lacks := h.lacks
    vacant := fun {k} hk hw i x hx => ?_ }, hamid⟩, hl.new, hl.lt, hl.lacks⟩
  · obtain ⟨vs, hvs⟩ := h.told hs
    refine ⟨vs, .aside hvs ?_⟩
    have hlt := h.amid.there hs
    exact (Array.getElem?_push_lt hlt).trans (Array.getElem?_eq_getElem hlt).symm
  · have hx : (w₁.sites.push ⟨surface, c, l, target, false, none⟩)[i]? = some x := hx
    rw [Array.getElem?_push] at hx
    split at hx
    · cases hx
      rintro rfl
      exact Nat.not_lt.2 hl.new hk
    · exact h.vacant hk hw i x hx

/-! ## Realizations that succeed -/

/-- If the realization succeeds, no more has happened since `b` than may happen meanwhile, and its
result and the world it leaves are in `P`. -/
structure Completes (B C : List SiteId) (b w : World) (x : Realizing α)
    (P : α → World → Prop) : Prop where
  of_ok {a : α} {w' : World} : x.run.run w = .ok (.ok a) w' → Meanwhile B C b w' ∧ P a w'

namespace Completes

variable {b : World} {x : Realizing α} {f : α → Realizing β} {P P' : α → World → Prop}
  {Q : β → World → Prop} {held : List Entity}

theorem bind (hx : Completes B C b w x P)
    (hf : ∀ a w₁, Meanwhile B C b w₁ → P a w₁ → Completes B C b w₁ (f a) Q) :
    Completes B C b w (x >>= f) Q := by
  refine ⟨fun h => ?_⟩
  obtain ⟨a, w₁, h₁, h₂⟩ := ok_ebind.1 h
  obtain ⟨hm₁, hP⟩ := hx.of_ok h₁
  exact (hf a w₁ hm₁ hP).of_ok h₂

theorem pure (hw : Meanwhile B C b w) {a : α} (h : P a w) : Completes B C b w (pure a) P := by
  refine ⟨fun h' => ?_⟩
  obtain ⟨rfl, rfl⟩ := ok_epure.1 h'
  exact ⟨hw, h⟩

theorem mono (hx : Completes B C b w x P) (h : ∀ a w', P a w' → P' a w') :
    Completes B C b w x P' := ⟨fun hrun => (hx.of_ok hrun).imp_right (h _ _)⟩

/-- What has happened in the end since `b`, and since the realization began. -/
theorem since (hw : Meanwhile B C b w) (hx : Completes B C w w x P) :
    Completes B C b w x fun a w' => Meanwhile B C w w' ∧ P a w' :=
  ⟨fun h => ⟨hw.trans (hx.of_ok h).1, hx.of_ok h⟩⟩

theorem lift {y : Run α} (h : ∀ {a w'}, y.run w = .ok a w' → Meanwhile B C b w' ∧ P a w') :
    Completes B C b w (liftM y) P := ⟨fun hrun => h (ok_lift.1 hrun)⟩

theorem of_abides (hx : Abides B C x.run) (hw : w.Amid B C) :
    Completes B C w w x fun _ _ => True := ⟨fun hrun => ⟨hx.ok hrun hw, trivial⟩⟩

theorem pageStep {y : Run (Except PageError α)}
    (h : ∀ {a w'}, y.run w = .ok (.ok a) w' → Meanwhile B C w w') :
    Completes B C w w (pageStep y) fun _ _ => True :=
  ⟨fun hrun => ⟨h (ok_pageStep.1 hrun), trivial⟩⟩

theorem holding (hx : Completes B C (w.pinned held) (w.pinned held) x P)
    (h : ∀ a w', P a w' → P' a w'.unpinned) : Completes B C w w (realizingWith held x) P' := by
  refine ⟨fun hrun => ?_⟩
  obtain ⟨w₁, h₁, rfl⟩ := ok_realizingWith.1 hrun
  exact ⟨(hx.of_ok h₁).1.unpinned, h _ _ (hx.of_ok h₁).2⟩

theorem pinning (hx : Completes B C (w.pinned held) (w.pinned held) x fun _ _ => True) :
    Completes B C w w (realizingWith held x) fun _ _ => True :=
  hx.holding fun _ _ => id

theorem drafting {y : Realizing Teardown}
    (hy : Completes B C (w.pinned held) (w.pinned held) y
      fun m w' => (w.pinned held).Drafts m.children w') :
    Completes B C w w (realizingWith held y) fun m w' => w.Drafts m.children w' :=
  hy.holding fun _ _ hd => ⟨hd.new, hd.lt, hd.lacks⟩

/-- The record of a realization that has begun since is a new one, too. -/
theorem drafted {y : Realizing Teardown} (hw : Meanwhile B C b w)
    (hy : Completes B C w w y fun m w' => w.Drafts m.children w') :
    Completes B C b w y fun m w' => b.Drafts m.children w' :=
  ⟨fun h => ⟨hw.trans (hy.of_ok h).1, (hy.of_ok h).2.since hw.toPasses⟩⟩

/-- A realization whose record goes to a list that has not been emptied, and what follows. -/
theorem pushing {y : Realizing Teardown} {f : Realizing β}
    (hy : Completes B C b w y fun m w' => b.Drafts m.children w') (hl : b.Evades C l)
    (hf : ∀ w₁, Meanwhile B C b w₁ → Completes B C b w₁ f Q) :
    Completes B C b w (y >>= fun m => liftM (pushRecord l m) >>= fun _ => f) Q := by
  refine ⟨fun h => ?_⟩
  obtain ⟨m, w₁, h₁, h⟩ := ok_ebind.1 h
  obtain ⟨_, w₂, h₂, h₃⟩ := ok_ebind.1 h
  rw [ok_lift, run_pushRecord] at h₂
  cases h₂
  obtain ⟨hm, hd⟩ := hy.of_ok h₁
  exact (hf _ (hm.pushed hd hl)).of_ok h₃

end Completes

end LivePage
