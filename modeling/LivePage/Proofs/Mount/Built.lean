import LivePage.Proofs.Mount.Coverage

/-!
# Building beside what is there

While nodes are realized below a page node `q`, what was there before stays: its nodes are spared by
sweeps and keep their places, lists of records and subscriptions stay, and nothing that was there
leads to what is new. `Built D q b w` says so of the world `b` that realization has started in and
the world `w` that it has come to. References that are attached meanwhile can change what the
observables in `D` hold, and attributes that are bound to those.
-/

namespace LivePage

variable {b w w' w'' : World} {pg : PageId} {q n : PageNode} {c d : CellId} {D : CellId → Prop}
  {r : Reaction} {e : Entity} {l : RecordsId} {p : PageId}

/-- The thing was not there, or nothing held it. -/
def World.New (b : World) : Entity → Prop
  | .slot n => ¬ b.Safe n
  | .records l => b.records.size ≤ l.index
  | .site s => b.sites.size ≤ s.index
  | .region _ | .cell _ | .boundary _ | .handler _ => True

/-- The place is not being rebuilt, and no value is waiting for it. -/
def Site.Rests (s : Site) : Prop := s.busy = false ∧ s.queued = none

/-- `w` comes from `b` by building below `q`. -/
structure Built (D : CellId → Prop) (q : PageNode) (b w : World) : Prop where
  evolves : Evolves b { w with pins := b.pins }
  pins : b.pins <:+ w.pins
  sound : w.Sound
  lists {l : RecordsId} : l.index < b.records.size → w.recordsIn l = b.recordsIn l
  sites {s : Nat} : s < b.sites.size → w.sites[s]? = b.sites[s]?
  rests {s : Nat} {site : Site} : b.sites.size ≤ s → w.sites[s]? = some site → site.Rests
  registry (c : CellId) : (b.cell c).registry <+: (w.cell c).registry
  held {c : CellId} : ¬ D c → (w.cell c).held = (b.cell c).held
  occupied {n : PageNode} : b.Safe n → w.Occupied n
  parent {n : PageNode} {i : Nat} : b.Safe n → (b.slot n).parent = some i →
    (w.slot n).parent = some i
  slot {n : PageNode} : b.Safe n → n ≠ q → (b.slot n).Alike (w.Unmarked D n) (w.slot n)
  reaches {c : CellId} {key : Nat} {r : Reaction} {e : Entity} : (key, r) ∈ (w.cell c).registry →
    r.Reaches w e → (key, r) ∈ (b.cell c).registry ∧ r.Reaches b e ∨ b.New e

theorem Reaction.Reaches.congr (hs : w'.sites = w.sites) (hr : w'.regions = w.regions)
    (hl : w'.records = w.records) (h : r.Reaches w e) : r.Reaches w' e := by
  cases r with
  | rebuild s =>
    refine h.imp_right (World.Reaches.transfer (fun site hu => ⟨site, by rwa [hs], rfl⟩)
      (fun r region _ _ hu => ⟨region, by rwa [hr], rfl⟩) fun l m _ _ hm => ?_)
    rwa [World.recordsIn, hl]
  | _ => exact h

theorem Evolves.repin (h : Evolves w w') (pins : List (List Entity)) :
    Evolves { w with pins := pins } { w' with pins := pins } :=
  { h with pins := rfl }

theorem Evolves.fixed (h : Evolves w w') : w.Fixed w' :=
  ⟨fun hs => h.sites _ _ hs, fun hr => h.regions _ _ hr, h.records⟩

theorem Reaction.Reaches.onPage (h : r.Reaches w e) : r.onPage := by
  cases r with
  | rebuild s => trivial
  | «attribute» e name source => trivial
  | styleProperty e property source => trivial
  | _ => exact h.elim

namespace Built

theorem refl (hs : b.Sound) : Built D q b b where
  evolves := .refl b
  pins := List.suffix_refl _
  sound := hs
  lists _ := rfl
  sites _ := rfl
  rests hs hsite := absurd (Array.getElem?_eq_some_iff.1 hsite).1 (Nat.not_lt.2 hs)
  registry _ := List.prefix_refl _
  held _ := rfl
  occupied hn := hn.occupied hs
  parent _ h := h
  slot _ _ := .refl _ _
  reaches hr he := .inl ⟨hr, he⟩

/-- What has been built while something was pinned. -/
theorem of_pinned {held : List Entity} (h : Built D q (b.pinned held) w) (hs : b.Sound) :
    Built D q b w.unpinned := by
  have hsafe : ∀ {n}, b.Safe n → (b.pinned held).Safe n := fun hn => hn.pinned hs held
  refine {
    evolves := h.evolves.repin b.pins
    pins := ?_
    sound := h.sound.unpinned
    lists := h.lists
    sites := h.sites
    rests := h.rests
    registry := h.registry
    held := h.held
    occupied := fun hn => h.occupied (hsafe hn)
    parent := fun hn => h.parent (hsafe hn)
    slot := fun hn => h.slot (hsafe hn)
    reaches := fun {c key r e} hr he => ?_ }
  · obtain ⟨pins, hp⟩ := h.pins
    show b.pins <:+ w.pins.tail
    rw [← hp]
    cases pins with
    | nil => exact List.suffix_refl _
    | cons x rest => exact ⟨rest ++ [held], by simp [World.pinned]⟩
  · rcases h.reaches hr (he.congr (by rfl) (by rfl) (by rfl)) with ⟨hr, he⟩ | he
    · exact .inl ⟨hr, he.congr (by rfl) (by rfl) (by rfl)⟩
    · right
      cases e with
      | slot n => exact fun hn => he (hsafe hn)
      | _ => exact he

section

variable (h : Built D q b w)
include h

theorem fixed : b.Fixed w := ⟨fun hs => h.evolves.sites _ _ hs, fun hr => h.evolves.regions _ _ hr,
  h.evolves.records⟩

theorem within : b.Within w := { h.fixed with lists := h.lists }

theorem unmarked (hu : w.Unmarked D n) : b.Unmarked D n := fun c s hc hs =>
  hu c s hc ((h.registry c).subset hs)

theorem pinned_subset (e : Entity) (he : e ∈ b.pins.flatten) : e ∈ w.pins.flatten := by
  obtain ⟨pins, hp⟩ := h.pins
  rw [← hp, List.flatten_append]
  exact List.mem_append_right _ he

theorem safe (hn : b.Safe n) : w.Safe n :=
  hn.within h.within h.evolves.names h.pinned_subset (fun c _ hs => (h.registry c).subset hs)
    (fun _ => h.occupied) fun _ _ => h.parent

theorem sites_size : b.sites.size ≤ w.sites.size := by
  refine Nat.le_of_not_lt fun hlt => ?_
  have hs := h.sites hlt
  rw [Array.getElem?_eq_none (Nat.le_refl _), Array.getElem?_eq_getElem hlt] at hs
  cases hs

theorem new (he : w.New e) : b.New e := by
  cases e with
  | slot n => exact fun hn => he (h.safe hn)
  | records l => exact Nat.le_trans h.evolves.records he
  | site s => exact Nat.le_trans h.sites_size he
  | _ => trivial

/-- What is above a safe node is safe, if `q` has stayed where it was. -/
theorem safe_of_up (hq : b.Safe q → (w.slot q).parent = (b.slot q).parent) (hn : b.Safe n) {a : Nat}
    (ha : (w.page n.page).Up n.slot a) : b.Safe ⟨n.page, a⟩ := by
  obtain ⟨pg, i⟩ := n
  obtain ⟨k, hk : (w.page pg).UpBy k i a⟩ := ha
  induction hk with
  | refl i => exact hn
  | @step i j a k hj _ ih =>
    refine ih (hn.up (.parent ?_))
    by_cases hqi : (⟨pg, i⟩ : PageNode) = q
    · subst hqi
      exact (hq hn).symm.trans hj
    · exact (h.slot hn hqi).parent.symm.trans hj

theorem keyed (hk : b.Keyed) : w.Keyed := h.evolves.keyed hk

theorem wired (hw : b.Wired) : w.Wired := (hw.evolves h.evolves).repin w.pins

theorem tracks (ht : b.Tracks D) : w.Tracks D := (ht.evolves h.evolves).repin w.pins

/-- What is built below another node does not concern the first one, if the other node is new. -/
theorem trans {q' : PageNode} (h' : Built D q' w w') (hq : q' = q ∨ ¬ b.Safe q') :
    Built D q b w' where
  evolves := h.evolves.trans (h'.evolves.repin b.pins)
  pins := h.pins.trans h'.pins
  sound := h'.sound
  lists hl := (h'.lists (Nat.lt_of_lt_of_le hl h.evolves.records)).trans (h.lists hl)
  sites hs := (h'.sites (Nat.lt_of_lt_of_le hs h.sites_size)).trans (h.sites hs)
  rests {s site} hs hsite := by
    by_cases hlt : s < w.sites.size
    · exact h.rests hs ((h'.sites hlt).symm.trans hsite)
    · exact h'.rests (Nat.le_of_not_lt hlt) hsite
  registry c := (h.registry c).trans (h'.registry c)
  held hc := (h'.held hc).trans (h.held hc)
  occupied hn := h'.occupied (h.safe hn)
  parent hn hp := h'.parent (h.safe hn) (h.parent hn hp)
  slot {n} hn hne := by
    refine ((h.slot hn hne).mono fun hu => h'.unmarked hu).trans (h'.slot (h.safe hn) ?_)
    rintro rfl
    exact hq.elim hne fun hq => hq hn
  reaches hr he := by
    rcases h'.reaches hr he with ⟨hr, he⟩ | he
    · exact h.reaches hr he
    · exact .inr (h.new he)

/-- Building below a new node is building below any other. -/
theorem elsewhere (hq : ¬ b.Safe q) (q' : PageNode) : Built D q' b w :=
  { h with slot := fun hn _ => h.slot hn fun he => hq (he ▸ hn) }

/-! ### Single changes -/

theorem repin {pins : List (List Entity)} (hp : b.pins <:+ pins) :
    Built D q b { w with pins := pins } :=
  { h with
    pins := hp
    sound := h.sound.repin pins
    reaches := fun hr he => h.reaches hr (he.congr (by rfl) (by rfl) (by rfl)) }

theorem pinned (held : List Entity) : Built D q b (w.pinned held) :=
  h.repin (h.pins.trans (List.suffix_cons _ _))

/-- Letting go what was pinned after `w`. -/
theorem unpinned {held : List Entity} (h' : Built D q b w') (hp : w'.pins = held :: w.pins) :
    Built D q b w'.unpinned := by
  refine h'.repin ?_
  rw [hp]
  exact h.pins

/-- A change that leaves pages, observables and places alone. -/
theorem within_step (hw : w.Within w') (hev : Evolves w w') (hcells : w'.cells = w.cells)
    (hpages : w'.pages = w.pages) (hsites : ∀ s < w.sites.size, w'.sites[s]? = w.sites[s]?)
    (hrests : ∀ s site, w.sites.size ≤ s → w'.sites[s]? = some site → site.Rests) :
    Built D q b w' := by
  have hcell : ∀ c, w'.cell c = w.cell c := fun c => by simp [World.cell, hcells]
  have hpage : ∀ p, w'.page p = w.page p := fun p => by simp [World.page, hpages]
  have hslot : ∀ n, w'.slot n = w.slot n := fun n => by rw [World.slot, hpage, World.slot]
  have hocc : ∀ n, w.Occupied n → w'.Occupied n := fun n hn => by rwa [World.Occupied, hpage]
  refine ⟨h.evolves.trans (hev.repin b.pins), hev.pins ▸ h.pins, ?_, fun hl => ?_, fun hs => ?_,
    fun {s site} hs hsite => ?_, fun c => by rw [hcell]; exact h.registry c, fun hc => by rw [hcell]; exact h.held hc,
    fun hn => hocc _ (h.occupied hn), fun hn hp => by rw [hslot]; exact h.parent hn hp,
    fun hn hne => ?_, fun {c key r e} hr he => ?_⟩
  · refine h.sound.within hw (fun n hn => hocc n (hn.occupied h.sound)) (fun p => ?_)
      fun c s hs _ => .inl (by rwa [hcell] at hs)
    rw [hpage]
    exact h.sound.forest p
  · exact (hw.lists (Nat.lt_of_lt_of_le hl h.evolves.records)).trans (h.lists hl)
  · exact (hsites _ (Nat.lt_of_lt_of_le hs h.sites_size)).trans (h.sites hs)
  · by_cases hlt : s < w.sites.size
    · exact h.rests hs ((hsites s hlt).symm.trans hsite)
    · exact hrests s site (Nat.le_of_not_lt hlt) hsite
  · rw [hslot]
    exact (h.slot hn hne).mono (World.unmarked_congr fun c => by rw [hcell]).1
  · rw [hcell] at hr
    exact h.reaches hr (hw.reaction_reaches_of (h.sound.placed hr he.onPage) he)

/-- A change of one page that keeps nodes where they are, apart from `q` and new ones. -/
theorem edit {page : Page} (hforest : page.Forest)
    (hocc : ∀ i, (w.page p).Occupied i → page.Occupied i)
    (hparent : ∀ i j, b.Safe ⟨p, i⟩ → (w.slot ⟨p, i⟩).parent = some j →
      (page.slot i).parent = some j)
    (hslot : ∀ i, b.Safe ⟨p, i⟩ → (⟨p, i⟩ : PageNode) ≠ q → page.slot i = w.slot ⟨p, i⟩) :
    Built D q b (w.withPage p page) := by
  have ho : ∀ n, n.page = p → w.Safe n → page.Occupied n.slot := by
    rintro n rfl hn
    exact hocc _ (hn.occupied h.sound)
  have hself : ∀ n, n.page = p → b.Safe n → (w.withPage p page).slot n = page.slot n.slot := by
    rintro n rfl hn
    exact World.slot_withPage_self (World.lt_of_occupied (h.occupied hn)) page n.slot
  refine { h with
    evolves := h.evolves.trans ((evolves_pages w p page).repin b.pins)
    sound := h.sound.withPage ho hforest
    occupied := fun hn => World.occupied_withPage h.sound ho (h.safe hn)
    parent := fun {n i} hn hp => ?_
    slot := fun {n} hn hne => ?_
    reaches := fun hr he => h.reaches hr (he.congr (by rfl) (by rfl) (by rfl)) }
  · by_cases hnp : n.page = p
    · rw [hself n hnp hn]
      subst hnp
      exact hparent _ _ hn (h.parent hn hp)
    · rw [World.slot_withPage_of_ne hnp]
      exact h.parent hn hp
  · by_cases hnp : n.page = p
    · rw [hself n hnp hn]
      subst hnp
      rw [hslot _ hn hne]
      exact h.slot hn hne
    · rw [World.slot_withPage_of_ne hnp]
      exact h.slot hn hne

theorem create {content : Content} (hc : w.Creates p content n w') : Built D q b w' := by
  obtain ⟨page, rfl⟩ := hc.eq
  refine { h with
    evolves := h.evolves.trans ((evolves_pages w p page).repin b.pins)
    sound := hc.sound
    occupied := fun hn => (hc.safe (h.safe hn)).occupied hc.sound
    parent := fun {n i} hn hp => ?_
    slot := fun {n} hn hne => ?_
    reaches := fun hr he => h.reaches hr (he.congr (by rfl) (by rfl) (by rfl)) }
  · rw [hc.slot_of_safe (h.safe hn)]
    exact h.parent hn hp
  · rw [hc.slot_of_safe (h.safe hn)]
    exact h.slot hn hne

theorem murmur (hm : Murmur D w w') : Built D q b w' := by
  have hocc : ∀ n, w.Occupied n → w'.Occupied n := fun n hn => (hm.page n.page).occupied.2 hn
  have halike : ∀ n, (w.slot n).Alike (w.Unmarked D n) (w'.slot n) := fun n =>
    (hm.page n.page).slot n.slot
  refine ⟨h.evolves.trans (hm.evolves.repin b.pins), hm.evolves.pins ▸ h.pins, ?_, fun hl => ?_,
    fun hs => by rw [hm.sites]; exact h.sites hs, fun hs hsite => h.rests hs (by rwa [← hm.sites]),
    fun c => by rw [hm.registry]; exact h.registry c,
    fun hc => (hm.held _ (.inl hc)).trans (h.held hc), fun hn => hocc _ (h.occupied hn),
    fun hn hp => (halike _).parent.trans (h.parent hn hp), fun {n} hn hne => ?_, fun hr he => ?_⟩
  · exact h.sound.within (World.within_of_eq hm.sites hm.regions hm.records)
      (fun n hn => hocc n (hn.occupied h.sound))
      (fun p => (hm.page p).forest (h.sound.forest p))
      fun c s hs _ => .inl (by rwa [hm.registry] at hs)
  · rw [World.recordsIn, hm.records]
    exact h.lists hl
  · have hu := (World.unmarked_congr (D := D) (n := n) hm.registry).1
    exact ((h.slot hn hne).mono hu).trans ((halike _).mono hu)
  · rw [hm.registry] at hr
    exact h.reaches hr (he.congr hm.sites.symm hm.regions.symm hm.records.symm)

theorem dresses (hd : Dresses n w w') (hn : n = q ∨ ¬ b.Safe n) : Built D q b w' := by
  have hocc : ∀ n, w.Occupied n → w'.Occupied n := fun n hn => (hd.page n.page).occupied.2 hn
  have halike : ∀ m, (w.slot m).Alike (m ≠ n) (w'.slot m) := fun m => (hd.page m.page).slot m.slot
  refine ⟨h.evolves.trans (hd.evolves.repin b.pins), hd.evolves.pins ▸ h.pins, ?_, fun hl => ?_,
    fun hs => by rw [hd.sites]; exact h.sites hs, fun hs hsite => h.rests hs (by rwa [← hd.sites]),
    fun c => by rw [hd.cell]; exact h.registry c,
    fun hc => by rw [hd.cell]; exact h.held hc, fun hn => hocc _ (h.occupied hn),
    fun hn hp => (halike _).parent.trans (h.parent hn hp), fun {m} hm hne => ?_, fun hr he => ?_⟩
  · exact h.sound.within (World.within_of_eq hd.sites hd.regions hd.records)
      (fun n hn => hocc n (hn.occupied h.sound))
      (fun p => (hd.page p).forest (h.sound.forest p))
      fun c s hs _ => .inl (by rwa [hd.cell] at hs)
  · rw [World.recordsIn, hd.records]
    exact h.lists hl
  · refine ((h.slot hm hne).mono (World.unmarked_congr fun c => by rw [hd.cell]).1).trans
      ((halike m).mono fun _ => ?_)
    rintro rfl
    exact hn.elim hne fun hn => hn hm
  · rw [hd.cell] at hr
    exact h.reaches hr (he.congr hd.sites.symm hd.regions.symm hd.records.symm)

theorem hold (hc : D c) (held : Held) :
    Built D q b (w.withCell c fun cell => { cell with held }) := by
  have hreg : ∀ d, ((w.withCell c fun cell => { cell with held }).cell d).registry =
      (w.cell d).registry := fun d => by
    rw [World.cell_withCell]
    split <;> rfl
  have hev : Evolves w (w.withCell c fun cell => { cell with held }) :=
    evolves_withCell (fun _ => rfl) fun _ => .refl _
  refine { h with
    evolves := h.evolves.trans (hev.repin b.pins)
    sound := ?_
    registry := fun d => by rw [hreg]; exact h.registry d
    held := fun {d} hd => ?_
    slot := fun hn hne => (h.slot hn hne).mono (World.unmarked_congr hreg).1
    reaches := fun hr he => ?_ }
  · have hw : w.Within (w.withCell c fun cell => { cell with held }) :=
      World.within_of_eq rfl rfl rfl
    exact h.sound.within hw (fun n hn => show w.Occupied n from hn.occupied h.sound)
      h.sound.forest fun d s hs _ => .inl (by rwa [hreg] at hs)
  · rw [World.cell_withCell, if_neg fun hdc : d = c ∧ d.index < w.cells.size => hd (hdc.1 ▸ hc)]
    exact h.held hd
  · rw [hreg] at hr
    exact h.reaches hr (he.congr (by rfl) (by rfl) (by rfl))

/-- A subscription that leads to new things only. -/
theorem subscribed (hk : w.Keyed) (hpl : w.Placed c r) (hnew : ∀ e, r.Reaches w e → b.New e) :
    Built D q b (w.subscribed c r) := by
  have hreg := World.registry_subscribed hk c (r := r)
  have hmem : ∀ {d s}, s ∈ ((w.subscribed c r).cell d).registry →
      s ∈ (w.cell d).registry ∨ d = c ∧ s = (w.nextKey, r) := by
    intro d s hs
    rw [hreg] at hs
    split at hs
    · next hd =>
      rcases List.mem_append.1 hs with hs | hs
      · exact .inl hs
      · exact .inr ⟨hd.1, List.mem_singleton.1 hs⟩
    · exact .inl hs
  have hgrow : ∀ d, (w.cell d).registry <+: ((w.subscribed c r).cell d).registry := by
    intro d
    rw [hreg]
    split
    · exact List.prefix_append _ _
    · exact List.prefix_refl _
  have hw : w.Within (w.subscribed c r) := World.within_of_eq rfl rfl rfl
  have hocc : ∀ n, w.Occupied n → (w.subscribed c r).Occupied n := fun n hn => hn
  refine { h with
    evolves := h.evolves.trans ((evolves_subscribed hpl.onPage hpl.follows).repin b.pins)
    sound := ?_
    registry := fun d => (h.registry d).trans (hgrow d)
    held := fun hd => (World.held_subscribed ..).trans (h.held hd)
    slot := fun hn hne => (h.slot hn hne).mono fun hu d s hd hs => hu d s hd ((hgrow d).subset hs)
    reaches := fun hs he => ?_ }
  · refine h.sound.within hw (fun n hn => hocc n (hn.occupied h.sound)) h.sound.forest
      fun d s hs _ => ?_
    rcases hmem hs with hs | ⟨rfl, rfl⟩
    · exact .inl hs
    · exact .inr (hw.placed hpl fun n he => hocc n (hpl.exists_of_reaches he))
  · rcases hmem hs with hs | ⟨-, hs⟩
    · exact h.reaches hs (he.congr (by rfl) (by rfl) (by rfl))
    · obtain rfl := congrArg Prod.snd hs
      exact .inr (hnew _ (he.congr (by rfl) (by rfl) (by rfl)))

end

end Built

/-! ## Lists of records -/

/-- The world with a record added to a list. -/
def World.pushed (w : World) (l : RecordsId) (m : Teardown) : World :=
  { w with records := w.records.modify l.index (· ++ [m]) }

theorem run_pushRecord (l : RecordsId) (m : Teardown) (w : World) :
    (pushRecord l m).run w = .ok ⟨⟩ (w.pushed l m) := rfl

theorem recordsIn_pushed (w : World) (l k : RecordsId) (m : Teardown) :
    (w.pushed l m).recordsIn k =
      if k = l ∧ k.index < w.records.size then w.recordsIn k ++ [m] else w.recordsIn k := by
  simp only [World.recordsIn, World.pushed, Array.getD_eq_getD_getElem?, Array.getElem?_modify]
  by_cases hk : k = l
  · subst hk
    by_cases hlt : k.index < w.records.size <;> simp [hlt]
  · have hne : l.index ≠ k.index := fun h => hk (by cases l; cases k; cases h; rfl)
    simp [hk, hne]

theorem World.fixed_pushed (w : World) (l : RecordsId) (m : Teardown) : w.Fixed (w.pushed l m) :=
  ⟨fun hs => ⟨_, hs, rfl⟩, fun hr => ⟨_, hr, rfl⟩, by simp [World.pushed]⟩

/-- A record that is added to a list does not matter to who does not lead there. -/
theorem Reaction.Reaches.of_pushed {m : Teardown} (h : ¬ r.Reaches w (.records l))
    (he : r.Reaches (w.pushed l m) e) : r.Reaches w e := by
  cases r with
  | rebuild s =>
    refine Or.imp_right (World.Reaches.transfer (w := w.pushed l m) (fun site hs => ⟨site, hs, rfl⟩)
      (fun _ region _ _ hg => ⟨region, hg, rfl⟩) fun k m' _ hk hm => ?_) he
    have hne : k ≠ l := by
      rintro rfl
      exact h (.inr hk)
    rwa [recordsIn_pushed, if_neg fun hkl => hne hkl.1] at hm
  | _ => exact he

/-- No subscription leads to the list. -/
def World.Unreached (w : World) (l : RecordsId) : Prop :=
  ∀ c key r, (key, r) ∈ (w.cell c).registry → ¬ r.Reaches w (.records l)

theorem Built.unreached (h : Built D q b w) (hl : l.index < b.records.size)
    (hu : b.Unreached l) : w.Unreached l := by
  intro c key r hr he
  rcases h.reaches hr he with ⟨hr, he⟩ | he
  · exact hu c key r hr he
  · exact absurd hl (Nat.not_lt.2 he)

theorem Built.pushRecord (h : Built D q b w) (hl : b.records.size ≤ l.index)
    (hu : w.Unreached l) (m : Teardown) : Built D q b (w.pushed l m) := by
  have hfixed := w.fixed_pushed l m
  have hev : Evolves w (w.pushed l m) := { Evolves.refl w with records := hfixed.size }
  refine { h with
    evolves := h.evolves.trans (hev.repin b.pins)
    sound := ⟨h.sound.forest, fun hr hp => ?_⟩
    lists := fun {k} hk => ?_
    reaches := fun hr he => h.reaches hr (he.of_pushed (hu _ _ _ hr)) }
  · have hpl := h.sound.placed hr hp
    exact hpl.mono hfixed (fun e => .of_pushed (hu _ _ _ hr)) fun n he => hpl.exists_of_reaches he
  · rw [recordsIn_pushed, if_neg]
    · exact h.lists hk
    · rintro ⟨rfl, -⟩
      exact Nat.not_lt.2 hl hk

/-- The world with a new empty list of records. -/
def World.withList (w : World) : World := { w with records := w.records.push [] }

theorem run_newRecords (w : World) :
    newRecords.run w = .ok ⟨w.records.size⟩ w.withList := rfl

theorem recordsIn_withList (w : World) (k : RecordsId) : w.withList.recordsIn k = w.recordsIn k := by
  simp only [World.recordsIn, World.withList, Array.getD_eq_getD_getElem?, Array.getElem?_push]
  split
  · next h => simp [h]
  · rfl

theorem Built.newRecords (h : Built D q b w) : Built D q b w.withList := by
  have hw : w.Within w.withList :=
    ⟨⟨fun hs => ⟨_, hs, rfl⟩, fun hr => ⟨_, hr, rfl⟩, by simp [World.withList]⟩,
      fun _ => recordsIn_withList w _⟩
  exact h.within_step hw { Evolves.refl w with records := hw.size } rfl rfl (fun _ _ => rfl)
    fun _ _ hs hsite => absurd (Array.getElem?_eq_some_iff.1 hsite).1 (Nat.not_lt.2 hs)

/-- A list that has just been made. -/
theorem World.Sound.unreached_withList (hs : w.Sound) : w.withList.Unreached ⟨w.records.size⟩ := by
  intro c key r hr he
  have hpl := hs.placed (show (key, r) ∈ (w.cell c).registry from hr) he.onPage
  have hw : w.Within w.withList :=
    ⟨⟨fun hs => ⟨_, hs, rfl⟩, fun hr => ⟨_, hr, rfl⟩, by simp [World.withList]⟩,
      fun _ => recordsIn_withList w _⟩
  exact Nat.lt_irrefl _ (hpl.exists_of_reaches (hw.reaction_reaches_of hpl he))

/-- A node that is created right after a list could have been created before it. -/
theorem World.Creates.of_withList {content : Content} (hs : w.Sound)
    (hc : w.withList.Creates p content n w') : ∃ u, w' = u.withList ∧ w.Creates p content n u := by
  obtain ⟨page, rfl⟩ := hc.eq
  have hsafe : ∀ {m}, w.Safe m → w.withList.Safe m := fun hm =>
    (Built.refl (D := fun _ => True) (q := n) hs).newRecords.safe hm
  have hocc : ∀ {m}, w.Safe m → (w.withPage p page).Occupied m := fun hm =>
    show (w.withList.withPage p page).Occupied _ from (hc.safe (hsafe hm)).occupied hc.sound
  have hslot : ∀ {m}, w.Safe m → (w.withPage p page).slot m = w.slot m := fun hm =>
    hc.slot_of_safe (hsafe hm)
  refine ⟨w.withPage p page, rfl, hc.page, ⟨page, rfl⟩, ?_, hc.slot_self, hc.occupied_self,
    fun hn => hc.fresh (hsafe hn), hslot, fun hm => ?_⟩
  · exact hs.within (World.within_withPage w p page) (fun _ hm => hocc hm) hc.sound.forest
      fun _ _ h _ => .inl h
  · exact hm.within (World.within_withPage w p page) rfl (fun _ h => h) (fun _ _ h => h)
      (fun _ hm => hocc hm) fun m q hm hq => by rwa [hslot hm]

/-! ## Regions and places -/

theorem Built.regions (h : Built D q b w) {f : Array Region → Array Region}
    (hf : ∀ (r : Nat) (region : Region), w.regions[r]? = some region →
      ∃ region', (f w.regions)[r]? = some region' ∧ region'.anchors = region.anchors) :
    Built D q b { w with regions := f w.regions } :=
  h.within_step ⟨⟨fun hs => ⟨_, hs, rfl⟩, fun hr => hf _ _ hr, Nat.le_refl _⟩, fun _ => rfl⟩
    (evolves_regions hf) rfl rfl (fun _ _ => rfl)
    fun _ _ hs hsite => absurd (Array.getElem?_eq_some_iff.1 hsite).1 (Nat.not_lt.2 hs)

/-- The world with a new place. -/
def World.withSite (w : World) (site : Site) : World := { w with sites := w.sites.push site }

theorem Built.withSite (h : Built D q b w) {site : Site} (hrests : site.Rests) :
    Built D q b (w.withSite site) := by
  have hs : ∀ (s : Nat) (x : Site), w.sites[s]? = some x → (w.withSite site).sites[s]? = some x :=
    fun _ _ => getElem?_push_of_some
  refine h.within_step ⟨⟨fun hx => ⟨_, hs _ _ hx, rfl⟩, fun hr => ⟨_, hr, rfl⟩, Nat.le_refl _⟩,
    fun _ => rfl⟩ (evolves_sites (f := (·.push site)) fun s x hx => ⟨x, hs s x hx, rfl⟩) rfl rfl ?_ ?_
  · intro s hlt
    rw [hs s _ (Array.getElem?_eq_getElem hlt), Array.getElem?_eq_getElem hlt]
  · intro s x hlt hx
    rw [World.withSite, Array.getElem?_push] at hx
    split at hx
    · cases hx
      exact hrests
    · exact absurd (Array.getElem?_eq_some_iff.1 hx).1 (Nat.not_lt.2 hlt)

theorem run_followAt (surface : Surface) (c : CellId) (l : RecordsId) (t : Target) (w : World) :
    (followAt surface c l t).run w = .ok ⟨⟩
      ((w.withSite { surface, source := c, records := l, target := t }).subscribed c
        (.rebuild ⟨w.sites.size⟩)) := rfl

theorem siteAt_withSite (w : World) (site : Site) :
    (w.withSite site).SiteAt ⟨w.sites.size⟩ site.surface.page site.source site.records
      site.target :=
  ⟨site, Array.getElem?_push_size .., rfl, rfl, rfl, rfl⟩

end LivePage
