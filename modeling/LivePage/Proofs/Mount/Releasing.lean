import LivePage.Proofs.Mount.Coverage

/-!
# What killing records releases

Killing a teardown record removes subscriptions, clears references, takes listeners off elements and
empties the lists of records below it, and does so for every record that is found there. It creates
nothing and moves no node. `Releases D K` says what stays, where `K` contains the lists and elements
that the record leads to.
-/

namespace LivePage

open LivePage.Script

variable {α : Type} {w w' w'' : World} {n : PageNode} {c : CellId} {m : Teardown} {l : RecordsId}
  {D : CellId → Prop} {K : Entity → Prop} {x : Prop} {E : Stop → Prop}

/-! ## Nodes up to listeners -/

/-- What a node is, apart from its listeners. -/
def Content.muted : Content → Content
  | .element e => .element { e with listeners := [] }
  | content => content

/-- A slot up to the listeners of its node. -/
def Slot.muted (s : Slot) : Slot := { s with content := s.content.muted }

/-! ## What records lead to -/

/-- The set contains what the record leads to at once. -/
def Teardown.Within (K : Entity → Prop) (m : Teardown) : Prop :=
  K (.records m.children) ∧ ∀ n, m.element = some n → K (.slot n)

/-- The set contains what the records of its lists lead to. -/
def World.RecordsWithin (K : Entity → Prop) (w : World) : Prop :=
  ∀ l m, K (.records l) → m ∈ w.recordsIn l → m.Within K

/-- Subscriptions, listeners and records have been removed, and references cleared; records and
listeners only within `K`. -/
structure Releases (D : CellId → Prop) (K : Entity → Prop) (w w' : World) : Prop where
  evolves : Evolves w w'
  registry (c : CellId) : (w'.cell c).registry = (w.cell c).registry ∨ (w'.cell c).registry = []
  held {c : CellId} : ¬ D c → (w'.cell c).held = (w.cell c).held
  ref {c : CellId} : (w.cell c).flavour = .ref →
    (w'.cell c).held = (w.cell c).held ∨ (w'.cell c).held = .absent
  page (p : PageId) : (w.page p).Shaped (w'.page p)
  slot {n : PageNode} : ¬ K (.slot n) → (w.slot n).Alike (w.Unmarked D n) (w'.slot n)
  muted {n : PageNode} : w.Unmarked D n → (w'.slot n).muted = (w.slot n).muted
  lists (l : RecordsId) : w'.recordsIn l = w.recordsIn l ∨ K (.records l) ∧ w'.recordsIn l = []
  records : w'.records.size = w.records.size
  regions : w'.regions = w.regions
  sites : w'.sites = w.sites

namespace Releases

theorem refl (w : World) : Releases D K w w :=
  ⟨.refl w, fun _ => .inl rfl, fun _ => rfl, fun _ => .inl rfl, fun _ => .refl _,
    fun _ => .refl _ _, fun _ => rfl, fun _ => .inl rfl, rfl, rfl, rfl⟩

section

variable (h : Releases D K w w')
include h

theorem registry_subset (c : CellId) {s : Nat × Reaction} (hs : s ∈ (w'.cell c).registry) :
    s ∈ (w.cell c).registry := by
  rcases h.registry c with hc | hc
  · rwa [hc] at hs
  · rw [hc] at hs
    cases hs

theorem unmarked (hn : w.Unmarked D n) : w'.Unmarked D n :=
  fun c s hc hs => hn c s hc (h.registry_subset c hs)

theorem recordsIn_subset (hm : m ∈ w'.recordsIn l) : m ∈ w.recordsIn l := by
  rcases h.lists l with hl | ⟨-, hl⟩
  · rwa [hl] at hm
  · rw [hl] at hm
    cases hm

theorem recordsWithin (hK : w.RecordsWithin K) : w'.RecordsWithin K :=
  fun l m hl hm => hK l m hl (h.recordsIn_subset hm)

theorem hears (hw : w.Hears D x) : w'.Hears D x where
  wired := hw.wired.evolves h.evolves
  tracks := hw.tracks.evolves h.evolves
  noSites s site hs := hw.noSites s site (by rwa [h.sites] at hs)
  noMarks hx c s hc hs := hw.noMarks hx c s hc (h.registry_subset c hs)

theorem trans (h' : Releases D K w' w'') : Releases D K w w'' where
  evolves := h.evolves.trans h'.evolves
  registry c := by
    rcases h'.registry c with hc | hc
    · rw [hc]
      exact h.registry c
    · exact .inr hc
  held hc := (h'.held hc).trans (h.held hc)
  ref hc := by
    rcases h'.ref ((h.evolves.flavour _).trans hc) with hc' | hc'
    · rw [hc']
      exact h.ref hc
    · exact .inr hc'
  page p := (h.page p).trans (h'.page p)
  slot hn := (h.slot hn).trans ((h'.slot hn).mono h.unmarked)
  muted hn := (h'.muted (h.unmarked hn)).trans (h.muted hn)
  lists l := by
    rcases h'.lists l with hl | hl
    · rw [hl]
      exact h.lists l
    · exact .inr hl
  records := h'.records.trans h.records
  regions := h'.regions.trans h.regions
  sites := h'.sites.trans h.sites

theorem mono {K' : Entity → Prop} (hK : ∀ e, K e → K' e) : Releases D K' w w' :=
  { h with
    slot := fun hn => h.slot fun hk => hn (hK _ hk)
    lists := fun l => (h.lists l).imp_right fun hl => ⟨hK _ hl.1, hl.2⟩ }

end

section

variable {g : Mounts} {r : Reaction} {e : Entity} (h : Releases D K w w')
include h

theorem fixed : w.Fixed w' :=
  ⟨fun hs => ⟨_, by rwa [h.sites], rfl⟩, fun hr => ⟨_, by rwa [h.regions], rfl⟩,
    Nat.le_of_eq h.records.symm⟩

theorem occupied : w'.Occupied n ↔ w.Occupied n := (h.page n.page).occupied

/-- Subscriptions lead to no more than before. -/
theorem reaches (he : r.Reaches w' e) : r.Reaches w e := by
  cases r with
  | rebuild s =>
    refine he.imp_right (World.Reaches.transfer (fun site hs => ⟨site, by rwa [← h.sites], rfl⟩)
      (fun _ region _ _ hr => ⟨region, by rwa [← h.regions], rfl⟩) fun _ _ _ _ => h.recordsIn_subset)
  | _ => exact he

theorem sound (hs : w.Sound) : w'.Sound where
  forest p := (h.page p).forest (hs.forest p)
  placed hr hp := by
    have hpl := hs.placed (h.registry_subset _ hr) hp
    exact hpl.mono h.fixed (fun _ => h.reaches) fun n hn => h.occupied.2 (hpl.exists_of_reaches hn)

/-- Trees that the records do not lead to keep standing. -/
theorem stand {pg : PageId} {q : Nat} (hg : g.Stand w pg q)
    (hslots : ∀ i ∈ g.slots, ¬ K (.slot ⟨pg, i⟩)) (hlists : ∀ l ∈ g.lists, ¬ K (.records l)) :
    g.Stand w' pg q := by
  refine hg.frame (x := False) h.fixed (fun i hi => (h.slot (hslots i hi)).mono False.elim)
    fun l hl => ?_
  rcases h.lists l with h | h
  · exact h
  · exact absurd h.1 (hlists l hl)

end

theorem unpinned {held : List Entity} (h : Releases D K (w.pinned held) w') :
    Releases D K w w'.unpinned :=
  ⟨h.evolves.unpinned, h.registry, h.held, h.ref, h.page, h.slot, h.muted, h.lists, h.records,
    h.regions, h.sites⟩

instance : IsPreorder World (Releases D K) where
  refl := .refl
  trans _ _ _ := .trans

end Releases

theorem Murmur.releases (h : Murmur D w w') : Releases D K w w' where
  evolves := h.evolves
  registry c := .inl (h.registry c)
  held hc := h.held _ (.inl hc)
  ref hc := .inl (h.held _ (.inr hc))
  page p := (h.page p).shaped
  slot {n} _ := (h.page n.page).slot n.slot
  muted {n} hn := congrArg Slot.muted (((h.page n.page).slot n.slot).eq hn)
  lists l := .inl (by rw [World.recordsIn, h.records, World.recordsIn])
  records := by rw [h.records]
  regions := h.regions
  sites := h.sites

/-! ## Single steps -/

/-- A change of one observable. -/
theorem releases_withCell {f : Cell → Cell} (hflavour : ∀ a, (f a).flavour = a.flavour)
    (hregistry : ∀ a, (f a).registry = a.registry ∨ (f a).registry = [])
    (hheld : ∀ a, (f a).held = a.held ∨ D c ∧ (f a).held = .absent) :
    Releases D K w (w.withCell c f) := by
  have hcell : ∀ d : CellId, ∀ P : Cell → Prop, P (w.cell d) → (d = c → P (f (w.cell d))) →
      P ((w.withCell c f).cell d) := by
    intro d P h1 h2
    rw [World.cell_withCell]
    split
    · next h => exact h2 h.1
    · exact h1
  have hev : Evolves w (w.withCell c f) := evolves_withCell hflavour fun a => by
    rcases hregistry a with h | h
    · rw [h]
    · rw [h]
      exact List.nil_sublist _
  refine ⟨hev, fun d => ?_, fun {d} hd => ?_, fun {d} _ => ?_, fun _ => .refl _, fun _ => .refl _ _,
    fun _ => rfl, fun _ => .inl rfl, rfl, rfl, rfl⟩
  · exact hcell d (fun a => a.registry = _ ∨ a.registry = []) (.inl rfl) fun _ => hregistry _
  · refine hcell d (fun a => a.held = _) rfl fun hdc => ?_
    rcases hheld (w.cell d) with h | ⟨h, -⟩
    · exact h
    · exact absurd (hdc ▸ h) hd
  · exact hcell d (fun a => a.held = _ ∨ a.held = .absent) (.inl rfl) fun _ =>
      (hheld _).imp_right And.right

theorem releases_unsubscribeAll (c : CellId) : Keeps (Releases D K) E (unsubscribeAll c) :=
  keeps_modify fun _ => releases_withCell (f := Cell.unsubscribeAll) (fun _ => rfl)
    (fun _ => .inr rfl) fun _ => .inl rfl

/-- Taking the first registration of a handler off a node. -/
theorem Page.slot_unlisten (p : Page) (i j : Nat) (type : String) (handler : HandlerId) :
    ((p.unlisten i type handler).slot j).muted = (p.slot j).muted ∧
      (j ≠ i → (p.unlisten i type handler).slot j = p.slot j) := by
  rw [unlisten, slot_modify]
  split
  · next h =>
    refine ⟨?_, fun hj => absurd h.1.symm hj⟩
    cases hc : (p.slot j).content <;> simp [Slot.muted, Content.muted, hc]
  · exact ⟨rfl, fun _ => rfl⟩

theorem run_unlisten (n : PageNode) (type : String) (handler : HandlerId) (w : World) :
    (n.unlisten type handler).run w =
      .ok ⟨⟩ (w.withPage n.page ((w.page n.page).unlisten n.slot type handler)) := rfl

theorem releases_unlisten (hn : K (.slot n)) (type : String) (handler : HandlerId) :
    Keeps (Releases D K) E (n.unlisten type handler) := by
  refine keeps_of_ok fun w => ⟨_, _, run_unlisten n type handler w, ?_⟩
  have hpage : ∀ p, (w.page p).Shaped ((w.withPage n.page
      ((w.page n.page).unlisten n.slot type handler)).page p) ∧ ∀ i,
      (((w.withPage n.page ((w.page n.page).unlisten n.slot type handler)).page p).slot i).muted =
        ((w.page p).slot i).muted ∧ ((⟨p, i⟩ : PageNode) ≠ n →
          ((w.withPage n.page ((w.page n.page).unlisten n.slot type handler)).page p).slot i =
            (w.page p).slot i) := by
    intro p
    by_cases hp : p = n.page
    · subst hp
      by_cases hlt : n.page.index < w.pages.size
      · rw [World.page_withPage_self hlt]
        refine ⟨Page.shaped_unlisten .., fun i => ?_⟩
        have := Page.slot_unlisten (w.page n.page) n.slot i type handler
        exact ⟨this.1, fun hi => this.2 fun he => hi (he ▸ rfl)⟩
      · have : w.withPage n.page ((w.page n.page).unlisten n.slot type handler) = w := by
          simp [World.withPage, Array.setIfInBounds, hlt]
        rw [this]
        exact ⟨.refl _, fun _ => ⟨rfl, fun _ => rfl⟩⟩
    · rw [World.page_withPage_of_ne hp]
      exact ⟨.refl _, fun _ => ⟨rfl, fun _ => rfl⟩⟩
  refine ⟨evolves_pages .., fun _ => .inl rfl, fun _ => rfl, fun _ => .inl rfl,
    fun p => (hpage p).1, fun {m} hm => ?_, fun {m} _ => ((hpage m.page).2 m.slot).1,
    fun _ => .inl rfl, rfl, rfl, rfl⟩
  have hne : m ≠ n := fun h => hm (h ▸ hn)
  rw [World.slot, World.slot, ((hpage m.page).2 m.slot).2 hne]
  exact .refl _ _

/-- The world with a list of records emptied. -/
def World.taken (w : World) (l : RecordsId) : World :=
  { w with records := w.records.setIfInBounds l.index [] }

theorem run_takeRecords (l : RecordsId) (w : World) :
    (takeRecords l).run w = .ok (w.recordsIn l) (w.taken l) := rfl

theorem recordsIn_taken (w : World) (l k : RecordsId) :
    (w.taken l).recordsIn k = if k = l then [] else w.recordsIn k := by
  simp only [World.recordsIn, World.taken, Array.getD_eq_getD_getElem?,
    Array.getElem?_setIfInBounds]
  by_cases hk : k = l
  · subst hk
    by_cases hlt : k.index < w.records.size <;> simp [hlt]
  · have hne : l.index ≠ k.index := fun h => hk (by cases l; cases k; cases h; rfl)
    simp [hk, hne]

theorem releases_taken (hl : K (.records l)) : Releases D K w (w.taken l) := by
  refine ⟨{ Evolves.refl w with records := by simp [World.taken] }, fun _ => .inl rfl,
    fun _ => rfl, fun _ => .inl rfl, fun _ => .refl _, fun _ => .refl _ _, fun _ => rfl,
    fun k => ?_, by simp [World.taken], rfl, rfl⟩
  rw [recordsIn_taken]
  split
  · next hk => exact .inr ⟨hk ▸ hl, rfl⟩
  · exact .inl rfl

/-! ## Killing -/

/-- Killing a reference clears it and removes its subscriptions. -/
theorem releases_killRef {d : Nat} (hw : w.Hears D x) (c : CellId) :
    KeepsAt (Releases D K) (fun e => x → e.calm) w (killRef (respond d) c) := by
  refine keepsAt_get_bind ?_
  split
  · next hf =>
    have hc : D c := hw.tracks.ofRef hf
    have hclear : Releases D K w (w.withCell c fun cell => { cell with held := .absent }) :=
      releases_withCell (fun _ => rfl) (fun _ => .inl rfl) fun _ => .inr ⟨hc, rfl⟩
    have hhold : KeepsAt (Releases D K) (fun e => x → e.calm) w (hold c .absent) := hclear
    refine KeepsAt.bind (hhold.bindAt fun _ w₁ h => ?_) fun _ => releases_unsubscribeAll c
    exact (murmurs d (h.hears hw) hc).mono (fun h => h.releases) id
  · exact fun _ => trivial

theorem releases_killRefs {d : Nat} (hw : w.Hears D x) (refs : List CellId) :
    KeepsAt (Releases D K) (fun e => x → e.calm) w (killRefs (respond d) refs) := by
  induction refs generalizing w with
  | nil => exact (keeps_pure _).start w
  | cons c rest ih =>
    refine KeepsAt.bindAt (.holding (releases_killRef (hw.pinned _) c) .unpinned) fun _ w₁ h => ?_
    exact ih (h.hears hw)

/-- Killing records releases what they lead to, if killing a record does so. -/
theorem releases_killAll {call : Respond}
    (hcall : ∀ {w m}, w.Hears D x → w.RecordsWithin K → m.Within K →
      KeepsAt (Releases D K) (fun e => x → e.calm) w (call (.kill m)))
    (hw : w.Hears D x) (hK : w.RecordsWithin K) {ms : List Teardown} (hms : ∀ m ∈ ms, m.Within K) :
    KeepsAt (Releases D K) (fun e => x → e.calm) w (killAll call ms) := by
  induction ms generalizing w with
  | nil => exact (keeps_pure _).start w
  | cons m rest ih =>
    obtain ⟨hm, hrest⟩ := List.forall_mem_cons.1 hms
    refine KeepsAt.bindAt (.holding (hcall (hw.pinned _) hK hm) .unpinned) fun _ w₁ h => ?_
    exact ih (h.hears hw) (h.recordsWithin hK) hrest

theorem releases_kill {d : Nat} (hw : w.Hears D x) (hK : w.RecordsWithin K) (hm : m.Within K) :
    KeepsAt (Releases D K) (fun e => x → e.calm) w (respond d (.kill m)) := by
  induction d generalizing w m with
  | zero => exact fun _ => trivial
  | succ d ih =>
    show KeepsAt _ _ w (m.kill (respond d))
    have hunsub : ∀ {w₁} (cs : List CellId), KeepsAt (Releases D K) (fun e => x → e.calm) w₁
        (cs.forM unsubscribeAll) := fun cs =>
      (keeps_forM fun c _ => releases_unsubscribeAll c).start _
    have hall : ∀ {w₁}, Releases D K w w₁ → KeepsAt (Releases D K) (fun e => x → e.calm) w₁
        (takeRecords m.children >>= fun ms => killAll (respond d) ms) := by
      intro w₁ h
      have htake : KeepsAt (fun _ v => v = w₁.taken m.children) (fun e => x → e.calm) w₁
          (takeRecords m.children) := rfl
      refine htake.seq fun ms w₂ hrun hw₂ => ?_
      rw [run_takeRecords] at hrun
      cases hrun
      have ht : Releases D K w₁ (w₁.taken m.children) := releases_taken hm.1
      have hK₁ := h.recordsWithin hK
      refine (releases_killAll (fun hw hK hm => ih hw hK hm) (ht.hears (h.hears hw))
        (ht.recordsWithin hK₁) fun m' hm' => hK₁ _ _ hm.1 hm').mono (fun h' => ht.trans h') id
    refine (hunsub _).bindAt fun _ w₁ h₁ => ?_
    refine (releases_killRefs (h₁.hears hw) m.refs).bindAt fun _ w₂ h₂ => ?_
    refine (hunsub _).bindAt fun _ w₃ h₃ => ?_
    have h₃ := (h₁.trans h₂).trans h₃
    split
    · next e he =>
      refine (keeps_forM fun l _ => releases_unlisten (hm.2 e he) _ _).start w₃ |>.bindAt
        fun _ w₄ h₄ => ?_
      exact hall (h₃.trans h₄)
    · exact hall h₃

end LivePage
