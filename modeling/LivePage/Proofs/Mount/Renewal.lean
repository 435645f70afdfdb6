import LivePage.Proofs.Mount.Killing
import LivePage.Proofs.Mount.Realization

/-!
# How a place is renewed

Replacing the contents of a place kills the records of the old ones, realizes the new ones in a
fragment, puts that into place and adds its record to the list of the place (`ok_replaceContents`).
What is realized in between stands in the fragment and consists of new things (`World.Drafted`).
Putting it into place and adding the record leave the world in order (`World.Moves.sound`,
`World.Sound.pushed`).
-/

namespace LivePage

open LivePage.Script

variable {b w w' : World} {n q content : PageNode} {pg : PageId} {D : CellId → Prop} {m : Teardown}
  {l : RecordsId} {g x : Mounts} {e : Entity} {r : Reaction} {c : CellId} {k : Nat}
  {stale : List Nat} {p d : Nat} {s : SiteId}

/-! ## The steps -/

theorem ok_duringEmission {α : Type} {act : Realizing α} {a : α} :
    (duringEmission act).run w = .ok a w' ↔ act.run.run w = .ok (.ok a) w' := by
  rw [duringEmission, ok_bind]
  constructor
  · rintro ⟨e | a', w₁, h₁, h₂⟩
    · obtain ⟨_, w₂, -, h₂⟩ := ok_bind.1 h₂
      exact absurd h₂ not_ok_throw
    · obtain ⟨rfl, rfl⟩ := ok_pure.1 h₂
      exact h₁
  · exact fun h => ⟨.ok a, w', h, ok_pure.2 ⟨rfl, rfl⟩⟩

/-- The steps by which the contents of a place are replaced. -/
theorem ok_replaceContents {call : Respond} {site : Site} {v : Value} {u : Unit}
    (h : (replaceContents call site v).run w = .ok u w') :
    ∃ w₂ content w₃ node w₄ m w₅ w₆,
      (killAll call (w.recordsIn site.records)).run (w.taken site.records) = .ok ⟨⟩ w₂ ∧
      (createNode site.surface.page .fragment).run w₂ = .ok content w₃ ∧
      (childNode v).run w₃ = .ok node w₄ ∧
      (Node.realize call site.surface content node).run.run (w₄.pinned [.slot content]) =
        .ok (.ok m) w₅ ∧
      (site.target.put content).run (w₅.pinned m.holds) = .ok (.ok ()) w₆ ∧
      w' = w₆.unpinned.unpinned.pushed site.records m := by
  obtain ⟨ms, w₁, h₁, h⟩ := ok_bind.1 h
  rw [run_takeRecords] at h₁
  cases h₁
  obtain ⟨_, w₂, h₂, h⟩ := ok_bind.1 h
  obtain ⟨content, w₃, h₃, h⟩ := ok_bind.1 h
  obtain ⟨node, w₄, h₄, h⟩ := ok_bind.1 h
  obtain ⟨m, w₇, h₇, h⟩ := ok_bind.1 h
  rw [run_pushRecord] at h
  cases h
  obtain ⟨v₇, hv, rfl⟩ := ok_holding.1 h₇
  obtain ⟨m', w₅, h₅, k₅⟩ := ok_ebind.1 (ok_duringEmission.1 hv)
  obtain ⟨_, v₆, hv₆, k₆⟩ := ok_ebind.1 k₅
  obtain ⟨rfl, rfl⟩ := ok_epure.1 k₆
  obtain ⟨w₆, h₆, rfl⟩ := ok_realizingWith.1 hv₆
  exact ⟨w₂, content, w₃, node, w₄, m, w₅, w₆, h₂, h₃, h₄, h₅, ok_pageStep.1 h₆, rfl⟩

/-! ## New contents -/

/-- The trees `x` with the record `m` stand in a fragment of their own and are new. -/
structure World.Drafted (D : CellId → Prop) (content : PageNode) (b w : World) (m : Teardown)
    (x : Mounts) : Prop where
  built : Built D content b w
  pins : w.pins = [.slot content] :: b.pins
  fresh : ¬ b.Safe content
  slot : w.slot content = { content := .fragment, children := x.tops }
  occupied : w.Occupied content
  stand : x.Stand w content.page content.slot
  teardowns : x.teardowns content.page = [m]
  new {e : Entity} : x.Covers content.page e → b.New e
  nodup : x.slots.Nodup
  nodupLists : x.lists.Nodup
  owns {c : CellId} {key : Nat} {r : Reaction} : (key, r) ∈ (w.cell c).registry → r.onPage →
    (key, r) ∈ (b.cell c).registry ∨ x.Owns content.page c r

/-- An empty fragment has been created since `b`. -/
structure World.Blank (D : CellId → Prop) (content : PageNode) (b w : World) : Prop where
  built : Built D content b w
  pins : w.pins = b.pins
  fresh : ¬ b.Safe content
  slot : w.slot content = { content := .fragment }
  occupied : w.Occupied content
  registry (c : CellId) : (w.cell c).registry = (b.cell c).registry

theorem World.Creates.blank (hc : b.Creates pg .fragment content w) (hs : b.Sound) :
    World.Blank D content b w where
  built := (Built.refl hs).create hc
  pins := by
    obtain ⟨page, rfl⟩ := hc.eq
    rfl
  fresh := hc.fresh
  slot := hc.slot_self
  occupied := hc.occupied_self
  registry _ := by
    obtain ⟨page, rfl⟩ := hc.eq
    rfl

theorem World.Blank.quiet (h : World.Blank D content b w) (hq : Quiet w w') :
    World.Blank D content b w' where
  built := h.built.murmur hq.murmur
  pins := hq.pins.trans h.pins
  fresh := h.fresh
  slot := by
    rw [World.slot, hq.page]
    exact h.slot
  occupied := by
    rw [World.Occupied, hq.page]
    exact h.occupied
  registry c := by
    rw [hq.cell]
    exact h.registry c

/-- Realizing a node in an empty fragment drafts trees that are built like it. -/
theorem World.Blank.drafted {w₅ : World} {surface : Surface} {node : Node}
    (h : World.Blank D content b w) (hw : b.Wired) (ht : b.Tracks D)
    (hp : content.page = surface.page)
    (h₅ : (Node.realize (respond d) surface content node).run.run (w.pinned [.slot content]) =
      .ok (.ok m) w₅)
    (hn : w₅.NoSites D) :
    ∃ x, World.Drafted D content b w₅ m x ∧ Grows [node] x := by
  have hb : Built D content b (w.pinned [.slot content]) := h.built.pinned _
  have hsafe : (w.pinned [.slot content]).Safe content := World.safe_of_pinned (by simp) h.occupied
  have hr : World.Ready D surface content (w.pinned [.slot content]) :=
    ⟨hb.sound, hb.wired hw, hb.tracks ht, hsafe, hp.symm⟩
  obtain ⟨x, hg, hgrows⟩ := node.realizes d hr hn h₅
  have hpins : w₅.pins = [.slot content] :: b.pins := by
    have hev := (lives_realizeNode (respond_lives d) surface content node).ok h₅ hr.wired.reading
    rw [hev.pins, ← h.pins]
    rfl
  have hself := hg.self
  rw [show (w.pinned [.slot content]).slot content = _ from h.slot] at hself
  exact ⟨x, {
    built := hb.trans hg.built (.inl rfl)
    pins := hpins
    fresh := h.fresh
    slot := by simpa using hself.eq_of_type (by simp [Content.type])
    occupied := hg.built.occupied hsafe
    stand := hg.stand
    teardowns := hg.teardowns
    new := fun he => hb.new (hg.new he)
    nodup := hg.nodup
    nodupLists := hg.nodupLists
    owns := fun {c key r} hr hp => (hg.owns hr hp).imp_left fun hr => by
      rwa [← h.registry c] }, hgrows⟩

/-! ## Putting contents into place -/

namespace World.Moves

variable (h : w.Moves n stale content k w')
include h

theorem fixed : w.Fixed w' := by
  obtain ⟨page, rfl⟩ := h.eq
  exact (World.within_withPage w n.page page).toFixed

theorem evolves : Evolves w w' := by
  obtain ⟨page, rfl⟩ := h.eq
  exact evolves_pages ..

theorem cell (c : CellId) : w'.cell c = w.cell c := by
  obtain ⟨page, rfl⟩ := h.eq
  rfl

theorem recordsIn (l : RecordsId) : w'.recordsIn l = w.recordsIn l := by
  obtain ⟨page, rfl⟩ := h.eq
  rfl

/-- Subscriptions lead to what they led to. -/
theorem reaches (he : r.Reaches w' e) : r.Reaches w e := by
  obtain ⟨page, rfl⟩ := h.eq
  exact he.congr (by rfl) (by rfl) (by rfl)

theorem sound (hs : w.Sound) : w'.Sound where
  forest p := by
    by_cases hp : p = n.page
    · rw [hp]
      exact h.forest
    · obtain ⟨page, rfl⟩ := h.eq
      rw [World.page_withPage_of_ne hp]
      exact hs.forest p
  placed hr hp := by
    rw [h.cell] at hr
    have hpl := hs.placed hr hp
    exact hpl.mono h.fixed (fun _ => h.reaches) fun m hm => h.occupied.2 (hpl.exists_of_reaches hm)

end World.Moves

/-- A region has been told its parent. -/
theorem World.Sound.reparented (hs : w.Sound) (r : RegionId) (q : PageNode) :
    (w.reparented r q).Sound :=
  ((Built.refl (D := fun _ => True) (q := q) hs).regions (f := fun regions =>
    regions.modify r.index fun region => { region with parent := q }) fun i region h =>
      ⟨_, getElem?_modify_of_some _ h, by split <;> rfl⟩).sound

theorem World.fixed_reparented (w : World) (r : RegionId) (q : PageNode) :
    w.Fixed (w.reparented r q) :=
  ⟨fun hs => ⟨_, hs, rfl⟩, fun hr => ⟨_, getElem?_modify_of_some _ hr, by split <;> rfl⟩,
    Nat.le_refl _⟩

theorem World.evolves_reparented (w : World) (r : RegionId) (q : PageNode) :
    Evolves w (w.reparented r q) :=
  evolves_regions (f := fun regions => regions.modify r.index fun region =>
    { region with parent := q }) fun i region h =>
      ⟨_, getElem?_modify_of_some _ h, by split <;> rfl⟩

theorem Reaction.Reaches.of_reparented {i : RegionId} (he : r.Reaches (w.reparented i q) e) :
    r.Reaches w e := by
  cases r with
  | rebuild s =>
    refine Or.imp_right (World.Reaches.transfer (w := w.reparented i q)
      (fun site hs => ⟨site, hs, rfl⟩) (fun j region' _ _ hr => ?_) fun _ _ _ _ hm => hm) he
    have hr : (w.regions.modify i.index fun region => { region with parent := q })[j.index]? =
        some region' := hr
    rw [Array.getElem?_modify] at hr
    cases hj : w.regions[j.index]? with
    | none => simp [hj] at hr
    | some region =>
      refine ⟨region, rfl, ?_⟩
      rw [hj] at hr
      split at hr
      · cases hr
        rfl
      · cases hr
        rfl
  | _ => exact he

/-- Replacing the contents of a region that stands on a page moves the new contents there. -/
theorem moves_of_splice {region : Region} {i : RegionId} (hs : w.Sound)
    (hr : w.regions[i.index]? = some region) (hroot : (w.slot content).parent = none)
    (htype : (w.slot content).content.type = .fragment)
    (hp : (w.slot region.start).parent = some p)
    (h : (i.splice content).run w = .ok (.ok ()) w') :
    ∃ k, (w.reparented i ⟨region.start.page, p⟩).Moves ⟨region.start.page, p⟩
        ((w.page region.start.page).between region.start.slot region.finish.slot) content k w' ∧
      ((w.page region.start.page).detachAll ((w.page region.start.page).between region.start.slot
        region.finish.slot)).insertionIndex p (some region.finish.slot) = some k := by
  rcases (ok_splice hr (hs.forest _) hroot).1 h with ⟨hn, -⟩ | ⟨q, hq, hp', hfit, -, k, hk, rfl⟩
  · rw [hp] at hn
    cases hn
  obtain ⟨pg, j⟩ := q
  obtain rfl : pg = region.start.page := hq
  obtain rfl : p = j := Option.some.inj (hp.symm.trans hp')
  have hocc : w.Occupied ⟨region.start.page, p⟩ :=
    ((hs.forest _).up (show ((w.page _).slot region.start.slot).parent = some p from hp)).2.1
  exact ⟨k, World.Fits.moves (hs.reparented i _) hocc
    ⟨hfit.page, hfit.nodup, hfit.parent, hfit.container, hfit.notUp⟩ hroot htype k, hk⟩

/-- Replacing the children of a node moves the new ones there. -/
theorem moves_of_replaceChildren (hs : w.Sound) (ho : w.Occupied n)
    (hroot : (w.slot content).parent = none)
    (htype : (w.slot content).content.type = .fragment)
    (h : (n.replaceChildren content).run w = .ok (.ok ()) w') :
    w.Moves n (w.slot n).children content 0 w' := by
  obtain ⟨hfit, rfl⟩ :=
    (ok_replaceChildren (hs.forest _) hroot (World.lt_of_occupied ho)).1 h
  exact hfit.moves hs ho hroot htype 0

/-! ## Adding the record -/

/-- A record that is added leads to what its trees cover. -/
theorem Mounts.Stand.reaches_of_pushed (h : x.Stand w pg p) (ht : x.teardowns pg = [m])
    (he : r.Reaches (w.pushed l m) e) : r.Reaches w e ∨ x.Covers pg e := by
  cases r with
  | rebuild s =>
    rcases he with rfl | he
    · exact .inl (.inl rfl)
    suffices w.Reaches s e ∨ x.Covers pg e from this.imp_left .inr
    have hcases : ∀ {l' m'}, m' ∈ (w.pushed l m).recordsIn l' → m' ∈ w.recordsIn l' ∨ m' = m := by
      intro l' m' hm
      rw [recordsIn_pushed] at hm
      split at hm
      · exact (List.mem_append.1 hm).imp_right List.mem_singleton.1
      · exact .inl hm
    have hself : m.children ∈ x.lists ∧ ∀ n, m.element = some n → x.Covers pg (.slot n) :=
      Mounts.mem_of_teardowns (by simp [ht])
    induction he with
    | records hs => exact .inl (.records hs)
    | region hs ht => exact .inl (.region hs ht)
    | contents hs ht => exact .inl (.contents hs ht)
    | start hr hg ih =>
      cases hr with
      | region hs ht => exact .inl (.start (.region hs ht) hg)
    | finish hr hg ih =>
      cases hr with
      | region hs ht => exact .inl (.finish (.region hs ht) hg)
    | element hl hm hn ih =>
      rcases hcases hm with hm | rfl
      · rcases ih with ih | ih
        · exact .inl (.element ih hm hn)
        · exact .inr ((h.of_record ih hm).2 _ hn)
      · exact .inr (hself.2 _ hn)
    | nested hl hm ih =>
      rcases hcases hm with hm | rfl
      · rcases ih with ih | ih
        · exact .inl (.nested ih hm)
        · exact .inr (h.of_record ih hm).1
      · exact .inr hself.1
  | _ => exact .inl he

/-- Adding the record of trees that stand somewhere keeps the world in order. -/
theorem World.Sound.pushed (hs : w.Sound) (h : x.Stand w pg p) (ht : x.teardowns pg = [m])
    (l : RecordsId) : (w.pushed l m).Sound where
  forest := hs.forest
  placed {c key r} hr hp := by
    have hpl := hs.placed hr hp
    refine ⟨hp, ?_, fun {e} he => ?_⟩
    · exact hpl.follows
    · have hex : w.Exists e := by
        rcases h.reaches_of_pushed ht he with he | he
        · exact hpl.exists_of_reaches he
        · exact h.exists_of_covers hs he
      refine (w.fixed_pushed l m).exists_of_exists hex ?_
      rintro n rfl
      exact hex

/-! ## Putting the draft into place -/

/-- The trees `x` that were drafted in `content` have come to stand below `p`: one of the nodes `T`,
which those of `S` have left, or the fragment still. -/
structure World.Settles (T S : PageNode → Prop) (p : Nat) (content : PageNode) (x : Mounts)
    (w w' : World) : Prop where
  sound : w'.Sound
  evolves : Evolves w w'
  cell (c : CellId) : w'.cell c = w.cell c
  recordsIn (l : RecordsId) : w'.recordsIn l = w.recordsIn l
  sites : w'.sites = w.sites
  reaches {r : Reaction} {e : Entity} : r.Reaches w' e → r.Reaches w e
  occupied {a : PageNode} : w.Occupied a → w'.Occupied a
  other {a : PageNode} : ¬ T a → a ≠ content → ¬ x.Covers content.page (.slot a) →
    w'.slot a = w.slot a ∨ S a ∧ w'.slot a = { w.slot a with parent := none }
  stand : x.Stand w' content.page p

/-- The draft stays in its fragment. -/
theorem World.Sound.settles (hs : w.Sound) (hx : x.Stand w content.page content.slot)
    (T S : PageNode → Prop) : w.Settles T S content.slot content x w :=
  ⟨hs, .refl w, fun _ => rfl, fun _ => rfl, rfl, id, id, fun _ _ _ => .inl rfl, hx⟩

theorem World.Settles.unpinned {held : List Entity} {T S : PageNode → Prop}
    (hw : (w.pinned held).Settles T S p content x w') :
    w.Settles T S p content x w'.unpinned where
  sound := hw.sound.unpinned
  evolves := hw.evolves.unpinned
  cell := hw.cell
  recordsIn := hw.recordsIn
  sites := hw.sites
  reaches he := (hw.reaches (he.congr (by rfl) (by rfl) (by rfl))).congr (by rfl) (by rfl) (by rfl)
  occupied := hw.occupied
  other := hw.other
  stand := hw.stand.repin _

/-- Moving the draft below a node. -/
theorem World.Moves.settles {u : World} (hu : u = w ∨ ∃ i, u = w.reparented i n) (hs : w.Sound)
    (hx : x.Stand w content.page content.slot) (hnodup : x.slots.Nodup)
    (htops : (w.slot content).children = x.tops) (hm : u.Moves n stale content k w') :
    w.Settles (· = n) (fun a => a.page = n.page ∧ a.slot ∈ stale) n.slot content x w' := by
  have hus : u.Sound := by
    rcases hu with rfl | ⟨i, rfl⟩
    · exact hs
    · exact hs.reparented i n
  have hue : Evolves w u := by
    rcases hu with rfl | ⟨i, rfl⟩
    · exact .refl _
    · exact w.evolves_reparented i n
  have hslot : ∀ a, u.slot a = w.slot a := by
    rcases hu with rfl | ⟨i, rfl⟩ <;> exact fun _ => rfl
  have hocc : ∀ a, w.Occupied a → u.Occupied a := by
    rcases hu with rfl | ⟨i, rfl⟩ <;> exact fun _ h => h
  have hsites : u.sites = w.sites := by
    rcases hu with rfl | ⟨i, rfl⟩ <;> rfl
  have hrecords : ∀ l, u.recordsIn l = w.recordsIn l := by
    rcases hu with rfl | ⟨i, rfl⟩ <;> exact fun _ => rfl
  have hcell : ∀ c, u.cell c = w.cell c := by
    rcases hu with rfl | ⟨i, rfl⟩ <;> exact fun _ => rfl
  have hreaches : ∀ {r : Reaction} {e : Entity}, r.Reaches u e → r.Reaches w e := by
    rcases hu with rfl | ⟨i, rfl⟩
    · exact id
    · exact fun he => he.of_reparented
  refine ⟨hm.sound hus, hue.trans hm.evolves, fun c => (hm.cell c).trans (hcell c),
    fun l => (hm.recordsIn l).trans (hrecords l), ?_, fun he => hreaches (hm.reaches he),
    fun ho => hm.occupied.2 (hocc _ ho), fun {a} hT hc hx => ?_, ?_⟩
  · obtain ⟨page, rfl⟩ := hm.eq
    exact hsites
  · by_cases hst : a.page = n.page ∧ a.slot ∈ stale
    · refine .inr ⟨hst, ?_⟩
      have := hm.left hst.2
      rw [← hst.1] at this
      rw [this, hslot]
    · left
      rw [← hslot a]
      refine hm.other hT hc fun hp => ⟨fun hin => hx ?_, fun h => hst ⟨hp, h⟩⟩
      rw [hslot, htops] at hin
      exact ⟨hp.trans hm.page.symm, Mounts.tops_subset hin⟩
  · have hxu : x.Stand u content.page content.slot :=
      hx.frame (x := True) hue.fixed (fun i _ => by rw [hslot]; exact .refl _ _) fun l _ => hrecords l
    rw [hm.page] at hxu ⊢
    exact hxu.moves hus hnodup (by rw [hslot, htops]) hm

/-- The place with the list `l` has new contents, the trees `x`. -/
structure World.Renewed (D : CellId → Prop) (T S : PageNode → Prop) (pg : PageId) (p : Nat)
    (l : RecordsId) (m : Teardown) (x : Mounts) (b w' : World) : Prop where
  sound : w'.Sound
  evolves : Evolves b w'
  slot {a : PageNode} : b.Safe a → ¬ T a → ∃ s, (b.slot a).Alike (w'.Unmarked D a) s ∧
    (w'.slot a = s ∨ S a ∧ w'.slot a = { s with parent := none })
  occupied {a : PageNode} : b.Safe a → w'.Occupied a
  lists {k : RecordsId} : k ≠ l → k.index < b.records.size → w'.recordsIn k = b.recordsIn k
  list : l.index < b.records.size → w'.recordsIn l = b.recordsIn l ++ [m]
  sites {s : Nat} : s < b.sites.size → w'.sites[s]? = b.sites[s]?
  owns {c : CellId} {key : Nat} {r : Reaction} : (key, r) ∈ (w'.cell c).registry → r.onPage →
    (key, r) ∈ (b.cell c).registry ∨ x.Owns pg c r
  reaches {c : CellId} {r : Reaction} {e : Entity} : b.Placed c r → r.Reaches w' e →
    r.Reaches b e ∨ r.Reaches b (.records l) ∧ x.Covers pg e
  stand : x.Stand w' pg p
  new {e : Entity} : x.Covers pg e → b.New e

theorem World.Drafted.renewed {T S : PageNode → Prop} (h : World.Drafted D content b w m x)
    (hs : w.Settles T S p content x w') (hl : l.index < b.records.size) :
    World.Renewed D T S content.page p l m x b (w'.unpinned.pushed l m) := by
  have hfixed := w'.unpinned.fixed_pushed l m
  have hstand : x.Stand (w'.unpinned.pushed l m) content.page p := by
    refine (hs.stand.repin w'.pins.tail).frame (x := True) hfixed (fun _ _ => .refl _ _) fun k hk => ?_
    rw [recordsIn_pushed, if_neg]
    rintro ⟨rfl, -⟩
    exact Nat.not_lt.2 (h.new (e := .records k) hk) hl
  have hlt : l.index < w'.records.size :=
    Nat.lt_of_lt_of_le hl (Nat.le_trans h.built.evolves.records hs.evolves.records)
  have hpins : w'.pins = [.slot content] :: b.pins := hs.evolves.pins.trans h.pins
  have hev : Evolves b w'.unpinned := by
    have h₁ := h.built.evolves
    have h₂ := hs.evolves.repin b.pins
    have := h₁.trans h₂
    rw [World.unpinned, hpins]
    exact this
  refine {
    sound := ?_
    evolves := hev.trans { Evolves.refl _ with records := hfixed.size }
    slot := fun {a} ha hT => ?_
    occupied := fun ha => hs.occupied (h.built.occupied ha)
    lists := fun {k} hk hlt => ?_
    list := fun _ => ?_
    sites := fun hlt => ?_
    owns := fun {c key r} hr hp => ?_
    reaches := fun {c r e} hpl he => ?_
    stand := hstand
    new := h.new }
  · exact hs.sound.unpinned.pushed (hs.stand.repin _) h.teardowns l
  · have hac : a ≠ content := fun hac => h.fresh (hac ▸ ha)
    have hu : (w'.unpinned.pushed l m).Unmarked D a → w.Unmarked D a := fun hu c s hd hs' => by
      rw [← hs.cell c] at hs'
      exact hu c s hd hs'
    exact ⟨w.slot a, (h.built.slot ha hac).mono hu,
      hs.other hT hac fun hx => h.new hx ha⟩
  · rw [recordsIn_pushed, if_neg fun h => hk h.1]
    exact (hs.recordsIn k).trans (h.built.lists hlt)
  · rw [recordsIn_pushed, if_pos ⟨rfl, hlt⟩]
    exact congrArg (· ++ [m]) ((hs.recordsIn l).trans (h.built.lists hl))
  · exact (congrArg (·[_]?) hs.sites).trans (h.built.sites hlt)
  · refine h.owns ?_ hp
    rw [← hs.cell c]
    exact hr
  · have hback : ∀ {e}, r.Reaches w'.unpinned e → r.Reaches b e := fun he =>
      h.built.within.reaction_reaches_of hpl (hs.reaches (he.congr (by rfl) (by rfl) (by rfl)))
    by_cases hrl : r.Reaches w'.unpinned (.records l)
    · rcases (hs.stand.repin w'.pins.tail).reaches_of_pushed h.teardowns he with he | he
      · exact .inl (hback he)
      · exact .inr ⟨hback hrl, he⟩
    · exact .inl (hback (he.of_pushed hrl))

/-- Replacing the contents of a place, up to where the new ones are put. -/
structure Renewal (D : CellId → Prop) (K : Entity → Prop) (d : Nat) (site : Site) (v : Value)
    (content : PageNode) (w w₂ w₅ w₆ w' : World) (m : Teardown) (x : Mounts) : Prop where
  killed : (killAll (respond d) (w.recordsIn site.records)).run (w.taken site.records) =
    .ok ⟨⟩ w₂
  releases : Releases D K w w₂
  page : content.page = site.surface.page
  drafted : World.Drafted D content w₂ w₅ m x
  put : (site.target.put content).run (w₅.pinned m.holds) = .ok (.ok ()) w₆
  grows : ∃ u : World, Grows [u.nodeOf v] x
  result : w' = w₆.unpinned.unpinned.pushed site.records m

theorem ok_childNode {v : Value} {node : Node} (h : (childNode v).run w = .ok node w') :
    node = w.nodeOf v := by
  rw [childNode, ok_get_bind] at h
  split at h
  · obtain ⟨_, w₁, -, h⟩ := ok_bind.1 h
    exact (ok_pure.1 h).1
  · exact (ok_pure.1 h).1

/-- Contents are replaced in this way if killing the old ones only releases. -/
theorem exists_renewal {K : Entity → Prop} {site : Site} {v : Value} {u : Unit} (hs : w.Sound)
    (hw : w.Wired) (ht : w.Tracks D) (hp : site.surface.page.index < w.pages.size)
    (hn : w'.NoSites D)
    (hkill : ∀ {w₂}, (killAll (respond d) (w.recordsIn site.records)).run (w.taken site.records) =
      .ok ⟨⟩ w₂ → Releases D K w w₂)
    (h : (replaceContents (respond d) site v).run w = .ok u w') :
    ∃ content w₂ w₅ w₆ m x, Renewal D K d site v content w w₂ w₅ w₆ w' m x := by
  obtain ⟨w₂, content, w₃, node, w₄, m, w₅, w₆, h₂, h₃, h₄, h₅, h₆, rfl⟩ := ok_replaceContents h
  have hrel := hkill h₂
  have hw₂ := hw.evolves hrel.evolves
  have hread₃ := ((lives_createNode ..).ok h₃ hw₂.reading).reading hw₂.reading
  have hread₄ := (((reads_childNode v).ok h₄).evolves).reading hread₃
  have hread₅ := ((lives_realizeNode (respond_lives d) ..).ok h₅ hread₄).reading hread₄
  have hev : Evolves (w₅.pinned m.holds) w₆ := (lives_put ..).ok h₆ hread₅
  have hn₅ : (w₅.pinned m.holds).NoSites D :=
    World.NoSites.of_evolves (show w₆.NoSites D from hn) hev
  have hpage : content.page = site.surface.page := by
    have h₃' := h₃
    rw [run_createNode] at h₃'
    cases h₃'
    rfl
  have hblank : World.Blank D content w₂ w₃ :=
    (createNode_spec (hrel.sound hs) (by rwa [hrel.evolves.pages]) h₃).blank (hrel.sound hs)
  obtain ⟨x, hx, hgrows⟩ := (hblank.quiet ((reads_childNode v).ok h₄)).drafted hw₂
    (ht.evolves hrel.evolves) hpage h₅ hn₅
  exact ⟨content, w₂, w₅, w₆, m, x, h₂, hrel, hpage, hx, h₆,
    ⟨w₃, by rwa [← ok_childNode h₄]⟩, rfl⟩

end LivePage
