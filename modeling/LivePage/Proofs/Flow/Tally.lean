import LivePage.Proofs.Flow.Orderly
import Mathlib.Data.Set.Basic

/-!
# What a boundary is owed

While values are emitted, a boundary can wait for a registration whose value has come already: the
emission is under way and has not told it yet. The keys of such registrations are *due*. A `Tally`
compares the history of a boundary with the subscriptions of the world: outstanding are the
registrations whose value has not come, and those that are due. Each single change keeps the tally,
with a notice more in the history where the boundary is told something, and a key less among those
that are due where a value comes.
-/

namespace LivePage

open LivePage.Script

variable {L : String → Prop} {b d : BoundaryId} {c : CellId} {fallback : Held}
  {w₀ w w' w₁ : World} {es : History} {due due' : Set Nat} {key : Nat}

/-! ## Changes that a boundary does not take part in -/

theorem Describes.aside (h : Describes b fallback es w) (ha : Aside b w w') :
    Describes b fallback es w' where
  state := by rw [ha.boundary, h.state]
  content hs := by rw [ha.boundary, h.content hs]
  display := by rw [ha.boundary, ha.display, h.display]

/-- Nothing has changed about observables and boundaries. -/
theorem Aside.of_eq (hc : w'.cells = w.cells) (hb : w'.boundaries = w.boundaries) :
    Aside b w w' := by
  have hcell : ∀ c, w'.cell c = w.cell c := fun c => by simp [World.cell, hc]
  refine ⟨by simp [World.boundary, hb], by rw [hcell], fun c key => by rw [hcell], fun c => ?_⟩
  rw [hcell]
  exact id

theorem Aside.trans (h : Aside b w w') (h' : Aside b w' w₁) : Aside b w w₁ where
  boundary := h'.boundary.trans h.boundary
  display := by
    have hd := h'.display
    rw [h.boundary] at hd
    exact hd.trans h.display
  awaiting c key := (h'.awaiting c key).trans (h.awaiting c key)
  ok c hc := h'.ok c (h.ok c hc)

/-- Another boundary changes. -/
theorem aside_withBoundary (hne : b ≠ d) (f : Boundary → Boundary) :
    Aside b w (w.withBoundary d f) := by
  refine ⟨?_, rfl, fun _ _ => .rfl, fun _ => id⟩
  rw [World.boundary_withBoundary, if_neg fun h => hne h.1]

/-- An observable changes, but not what is registered with the boundary, nor its display. -/
theorem aside_withCell {f : Cell → Cell}
    (hheld : ∀ x, (w.boundary b).display = c → (f x).held = x.held)
    (hregistry : ∀ x key, (key, .awaited b) ∈ (f x).registry ↔ (key, .awaited b) ∈ x.registry)
    (hok : ∀ x, x.settlement.ok = true → (f x).settlement.ok = true) :
    Aside b w (w.withCell c f) := by
  refine ⟨rfl, ?_, fun d key => ?_, fun d => ?_⟩
  all_goals rw [World.cell_withCell]
  all_goals split
  · next h => exact hheld _ h.1
  · rfl
  · exact hregistry _ _
  · exact .rfl
  · exact hok _
  · exact id

/-- Another subscription is made. -/
theorem aside_subscribe {r : Reaction} (hr : r ≠ .awaited b) :
    Aside b w (w.withCell c (·.subscribe key r)) := by
  have hheld : ∀ x : Cell, (x.subscribe key r).held = x.held := fun x => by
    unfold Cell.subscribe
    split <;> rfl
  refine aside_withCell (fun x _ => hheld x) (fun x k => ?_) fun x => ?_
  · unfold Cell.subscribe
    split
    · exact .rfl
    · simp [Ne.symm hr]
  · simp [Cell.settlement]

theorem aside_subscribed {r : Reaction} (hr : r ≠ .awaited b) : Aside b w (w.subscribed c r) := by
  have hkey : Aside b w { w with nextKey := w.nextKey + 1 } := .of_eq rfl rfl
  exact hkey.trans (aside_subscribe hr)

/-- There is a new observable. -/
theorem aside_grown (hw : w.Orderly L) (hb : b.index < w.boundaries.size) {x : Cell}
    (hregistry : x.registry = []) : Aside b w (w.grown x) := by
  refine ⟨rfl, by rw [World.cell_grown_of_lt (hw.lt_display hb)], fun c key => ?_, fun c hc => ?_⟩
  · rw [World.cell_grown]
    split
    · next h => rw [hregistry, World.cell_of_size_le (Nat.le_of_eq h.symm)]; rfl
    · exact .rfl
  · exact (Endures.grown w x).ok hc

/-! ## Tallies -/

/-- The registrations with the boundary in a registry, or in a part of one. -/
def awaiting (b : BoundaryId) (registry : List (Nat × Reaction)) : Set Nat :=
  {key | (key, .awaited b) ∈ registry}

/-- The boundary has come to `w` with the history `es`. Outstanding are the registrations whose
value has not come, and those that are due to be told. -/
structure Tally (b : BoundaryId) (fallback : Held) (w₀ : World) (due : Set Nat) (es : History)
    (w : World) : Prop where
  course : Course b fallback w₀ es w
  known : b.index < w.boundaries.size
  nodup : es.outstanding.Nodup
  owed (key : Nat) : key ∈ es.outstanding ↔ ∃ c, (key, .awaited b) ∈ (w.cell c).registry ∧
    ((w.cell c).settlement.ok = false ∨ key ∈ due)
  came {key : Nat} : key ∈ due → ∃ c, (key, .awaited b) ∈ (w.cell c).registry ∧
    (w.cell c).settlement.ok = true

namespace Tally

/-- A boundary that was just made. -/
theorem fresh (h : w.Fresh b fallback) : Tally b fallback w ∅ [] w where
  course := .start h.describes
  known := h.known
  nodup := .nil
  owed key := ⟨nofun, fun ⟨c, hc, _⟩ => absurd hc (h.unawaited c key)⟩
  came := nofun

/-- A change that the boundary does not take part in, where values come for the registrations that
become due. -/
theorem aside (h : Tally b fallback w₀ due es w) (ha : Aside b w w')
    (hsize : w.boundaries.size ≤ w'.boundaries.size)
    (howed : ∀ c key, (key, .awaited b) ∈ (w.cell c).registry →
      ((w'.cell c).settlement.ok = false ∨ key ∈ due' ↔
        (w.cell c).settlement.ok = false ∨ key ∈ due))
    (hcame : ∀ key ∈ due', ∃ c, (key, .awaited b) ∈ (w.cell c).registry ∧
      (w'.cell c).settlement.ok = true) : Tally b fallback w₀ due' es w' where
  course := .aside h.course ha (h.course.describes.aside ha)
  known := Nat.lt_of_lt_of_le h.known hsize
  nodup := h.nodup
  owed key := by
    rw [h.owed]
    refine exists_congr fun c => ?_
    rw [ha.awaiting]
    exact and_congr_right fun hc => (howed c key hc).symm
  came hk := by
    obtain ⟨c, hc, hok⟩ := hcame _ hk
    exact ⟨c, (ha.awaiting c _).2 hc, hok⟩

/-- A change that the boundary does not take part in, and in which no value comes. -/
theorem still (h : Tally b fallback w₀ due es w) (ha : Aside b w w')
    (hsize : w.boundaries.size ≤ w'.boundaries.size)
    (hok : ∀ c, c.index < w.cells.size → (w'.cell c).settlement.ok = (w.cell c).settlement.ok) :
    Tally b fallback w₀ due es w' := by
  refine h.aside ha hsize (fun c key hc => by rw [hok c (World.lt_of_registry hc)]) fun key hk => ?_
  obtain ⟨c, hc, hcame⟩ := h.came hk
  exact ⟨c, hc, by rw [hok c (World.lt_of_registry hc), hcame]⟩

end Tally

/-! ## A value is awaited -/

/-- The world after a value was registered that had not come. -/
def World.counting (w : World) (b : BoundaryId) (c : CellId) : World :=
  (w.withBoundary b Boundary.register).subscribed c (.awaited b)

theorem run_awaitIn (b : BoundaryId) (c : CellId) (w : World) :
    (awaitIn b c).run w = .ok (.deferred (.pending c))
      (if (w.cell c).settlement.ok then w else w.counting b c) := by
  cases hok : (w.cell c).settlement.ok with
  | true => simp [awaitIn, hok]
  | false =>
    simp only [awaitIn, EStateM.run_bind, EStateM.run_get, hok]
    rfl

theorem Boundary.display_register (x : Boundary) : x.register.display = x.display := by
  unfold Boundary.register
  split <;> rfl

theorem Boundary.content_register (x : Boundary) : x.register.content = x.content := by
  unfold Boundary.register
  split <;> rfl

theorem World.settlement_subscribed (w : World) (c d : CellId) (r : Reaction) :
    ((w.subscribed c r).cell d).settlement = (w.cell d).settlement := by
  rw [World.subscribed, World.cell_withCell]
  split
  · simp only [Cell.settlement, Cell.flavour_subscribe]
    rfl
  · rfl

namespace World.Orderly

theorem counting (hw : w.Orderly L) (hc : (w.cell c).Waits) (hb : b.index < w.boundaries.size) :
    (w.counting b c).Orderly L :=
  (hw.withBoundary Boundary.display_register).subscribed
    ⟨hc, by rwa [World.size_withBoundary]⟩

end World.Orderly

theorem Endures.withBoundary (w : World) (b : BoundaryId) (f : Boundary → Boundary) :
    Endures w (w.withBoundary b f) :=
  ⟨Nat.le_refl _, Nat.le_of_eq (World.size_withBoundary ..).symm, fun _ => rfl, id, id⟩

theorem Endures.subscribed (w : World) (c : CellId) (r : Reaction) :
    Endures w (w.subscribed c r) := by
  have hkey : Endures w { w with nextKey := w.nextKey + 1 } := .of_eq rfl rfl
  exact hkey.trans (.subscribe ..)

theorem Endures.counting (w : World) (b : BoundaryId) (c : CellId) : Endures w (w.counting b c) :=
  (Endures.withBoundary ..).trans (.subscribed ..)

theorem Describes.counted (h : Describes b fallback es w) (hb : b.index < w.boundaries.size)
    (key : Nat) : Describes b fallback (.counted key :: es) (w.counting b c) := by
  have hboundary : (w.counting b c).boundary b = (w.boundary b).register := by
    change (w.withBoundary b Boundary.register).boundary b = _
    rw [World.boundary_withBoundary, if_pos ⟨rfl, hb⟩]
  refine ⟨?_, fun hs => ?_, ?_⟩
  · rw [hboundary]
    have hstate := h.state
    change _ = if es.settled then BoundaryState.settled else .pending (es.outstanding.length + 1)
    unfold Boundary.register
    split at hstate
    · next hs => simp [hstate, hs]
    · next hs => simp [hstate, hs]
  · rw [hboundary, Boundary.content_register]
    exact h.content hs
  · rw [hboundary, Boundary.display_register]
    change ((World.subscribed _ c _).cell _).held = _
    rw [World.held_subscribed]
    exact h.display

theorem World.mem_registry_counting (hw : w.Keyed) (hc : c.index < w.cells.size) {e : CellId}
    {s : Nat × Reaction} : s ∈ ((w.counting b c).cell e).registry ↔
      s ∈ (w.cell e).registry ∨ e = c ∧ s = (w.nextKey, .awaited b) := by
  have hregistry : ((w.counting b c).cell e).registry =
      if e = c ∧ e.index < w.cells.size then (w.cell e).registry ++ [(w.nextKey, .awaited b)]
      else (w.cell e).registry :=
    World.registry_subscribed (w := w.withBoundary b Boundary.register) hw c e _
  rw [hregistry]
  by_cases he : e = c
  · subst he
    simp [hc]
  · simp [he]

theorem World.settlement_counting (w : World) (b : BoundaryId) (c e : CellId) :
    ((w.counting b c).cell e).settlement = (w.cell e).settlement := settlement_subscribed ..

theorem Tally.counted (h : Tally b fallback w₀ due es w) (hw : w.Orderly L)
    (hc : (w.cell c).Waits) (hok : (w.cell c).settlement.ok = false) :
    Tally b fallback w₀ due (.counted w.nextKey :: es) (w.counting b c) := by
  have hmem : ∀ {e s}, s ∈ ((w.counting b c).cell e).registry ↔
      s ∈ (w.cell e).registry ∨ e = c ∧ s = (w.nextKey, .awaited b) :=
    World.mem_registry_counting hw.keyed (World.lt_of_waits hc)
  have hendures := Endures.counting w b c
  have hrun : (awaitIn b c).run w = .ok (.deferred (.pending c)) (w.counting b c) := by
    rw [run_awaitIn, hok]
    rfl
  refine ⟨.noticed h.course (.counted hok hrun) trivial (h.course.describes.counted h.known _),
    Nat.lt_of_lt_of_le h.known hendures.boundaries, List.nodup_cons.2 ⟨fun hk => ?_, h.nodup⟩,
    fun k => ?_, fun hk => ?_⟩
  · -- the key of the registration is new
    obtain ⟨e, he, -⟩ := (h.owed _).1 hk
    exact Nat.lt_irrefl _ ((hw.keyed e).2 _ (List.mem_map.2 ⟨_, he, rfl⟩))
  · change k ∈ w.nextKey :: es.outstanding ↔ _
    rw [List.mem_cons, h.owed]
    simp only [hmem, World.settlement_counting]
    constructor
    · rintro (rfl | ⟨e, he, hk⟩)
      · exact ⟨c, .inr ⟨rfl, rfl⟩, .inl hok⟩
      · exact ⟨e, .inl he, hk⟩
    · rintro ⟨e, he | ⟨-, he⟩, hk⟩
      · exact .inr ⟨e, he, hk⟩
      · exact .inl (Prod.mk.inj he).1
  · obtain ⟨e, he, hcame⟩ := h.came hk
    exact ⟨e, hendures.registry he, by rw [World.settlement_counting, hcame]⟩

/-! ## A value comes -/

/-- The boundary has settled, or it settles and its display changes, or it goes on waiting. -/
theorem World.arrived_cases (w : World) (b : BoundaryId) :
    (w.boundary b).state = .settled ∧ w.arrived b = w ∨
    (∃ k content, (w.boundary b).state = .pending k ∧ k - 1 = 0 ∧
      (w.boundary b).content = some content ∧ w.arrived b = w.showing b content) ∨
    ∃ k, (w.boundary b).state = .pending k ∧ (k - 1 = 0 → (w.boundary b).content = none) ∧
      w.arrived b = w.withBoundary b (Boundary.waitFor (k - 1)) := by
  unfold World.arrived
  split
  · next hs => exact .inl ⟨hs, rfl⟩
  · next k hs =>
    split
    · next content hk hcontent => exact .inr (.inl ⟨k, content, hs, hk, hcontent, rfl⟩)
    · next hnot =>
      refine .inr (.inr ⟨k, hs, fun hk => ?_, rfl⟩)
      cases hcontent : (w.boundary b).content with
      | none => rfl
      | some content => exact absurd hcontent (hnot _ hk)

/-- What holds of each thing that can become of a boundary holds of the one that does. -/
theorem World.arrived_induction {P : World → Prop} {w : World} {b : BoundaryId} (settled : P w)
    (settles : ∀ content, P (w.showing b content))
    (waits : ∀ left, P (w.withBoundary b (Boundary.waitFor left))) : P (w.arrived b) := by
  obtain ⟨-, h⟩ | ⟨k, content, -, -, -, h⟩ | ⟨k, -, -, h⟩ := w.arrived_cases b
  all_goals rw [h]
  · exact settled
  · exact settles content
  · exact waits (k - 1)

/-- Holding something else leaves subscriptions and settlements as they are. -/
theorem World.hold_eq (w : World) (c d : CellId) (held : Held) :
    ((w.withCell d fun cell => { cell with held }).cell c).registry = (w.cell c).registry ∧
      ((w.withCell d fun cell => { cell with held }).cell c).settlement =
        (w.cell c).settlement := by
  rw [World.cell_withCell]
  split <;> exact ⟨rfl, rfl⟩

theorem World.arrived_eq (w : World) (b : BoundaryId) (c : CellId) :
    ((w.arrived b).cell c).registry = (w.cell c).registry ∧
      ((w.arrived b).cell c).settlement = (w.cell c).settlement :=
  arrived_induction (P := fun w' => (w'.cell c).registry = (w.cell c).registry ∧
      (w'.cell c).settlement = (w.cell c).settlement) ⟨rfl, rfl⟩
    (fun content => (w.withBoundary b Boundary.settle).hold_eq c _ (.value (.node content)))
    fun _ => ⟨rfl, rfl⟩

theorem World.Orderly.arrived (hw : w.Orderly L) (b : BoundaryId) : (w.arrived b).Orderly L := by
  refine arrived_induction hw (fun content => ?_) fun left => ?_
  · have hsettled : (w.withBoundary b Boundary.settle).Orderly L := hw.withBoundary fun _ => rfl
    exact hsettled.withCell (f := fun cell => { cell with held := .value (.node content) })
      (fun _ => rfl) (fun _ => rfl) hw.settled
  · exact hw.withBoundary (f := Boundary.waitFor left) fun _ => rfl

theorem Endures.arrived (w : World) (b : BoundaryId) : Endures w (w.arrived b) := by
  refine World.arrived_induction (.refl w) (fun content => ?_) fun left => withBoundary ..
  exact (withBoundary ..).trans (withCell (fun _ _ => id) (fun _ => rfl) fun _ => id)

/-- A value comes for another boundary. -/
theorem aside_arrived (hw : w.Orderly L) (hne : b ≠ d) (hb : b.index < w.boundaries.size)
    (hd : d.index < w.boundaries.size) : Aside b w (w.arrived d) := by
  refine World.arrived_induction (.of_eq rfl rfl) (fun content => ?_)
    fun left => aside_withBoundary hne _
  have hboundary := aside_withBoundary (w := w) hne Boundary.settle
  refine hboundary.trans (aside_withCell (fun x he => ?_) (fun _ _ => .rfl) fun _ => id)
  rw [hboundary.boundary] at he
  exact absurd (hw.own hb hd he) hne

/-- A boundary that has settled has a history in which it has. -/
theorem Describes.of_settled (h : Describes b fallback es w)
    (hs : (w.boundary b).state = .settled) : es.settled = true := by
  have hstate := h.state
  rw [hs] at hstate
  split at hstate
  · assumption
  · cases hstate

/-- A boundary that waits has not settled in its history, and waits for what is outstanding. -/
theorem Describes.of_pending {k : Nat} (h : Describes b fallback es w)
    (hs : (w.boundary b).state = .pending k) :
    es.settled = false ∧ k = es.outstanding.length := by
  have hstate := h.state
  rw [hs] at hstate
  split at hstate
  · cases hstate
  · next hn => exact ⟨by simpa using hn, BoundaryState.pending.inj hstate⟩

/-- The value of a registration is the last one that the content waits for. -/
theorem describes_showing {content : Node} (hw : w.Orderly L)
    (hb : b.index < w.boundaries.size) (hs : es.settled = false)
    (hcompletes : es.completes key = true) (hcontent : es.content = some content) :
    Describes b fallback (.came key :: es) (w.showing b content) := by
  refine ⟨?_, fun hn => ?_, ?_⟩
  · change ((w.withBoundary b _).boundary b).state = _
    rw [World.boundary_withBoundary, if_pos ⟨rfl, hb⟩]
    simp [History.settled, hcompletes, Boundary.settle]
  · simp [History.settled, hcompletes] at hn
  · change ((World.withCell _ _ _).cell ((w.withBoundary b _).boundary b).display).held = _
    rw [World.display_withBoundary _ _ _ (f := Boundary.settle) fun _ => rfl, World.cell_withCell,
      if_pos ⟨rfl, hw.lt_display hb⟩]
    simp [History.display, History.updates, hcompletes, hs, hcontent]

/-- The value of a registration that was outstanding is not the last one, or there is no content. -/
theorem Describes.lessened (h : Describes b fallback es w) (hb : b.index < w.boundaries.size)
    (hkey : key ∈ es.outstanding) (hs : es.settled = false)
    (hcompletes : es.completes key = false) :
    Describes b fallback (.came key :: es)
      (w.withBoundary b (Boundary.waitFor (es.outstanding.length - 1))) := by
  have hlength : (es.outstanding.erase key).length = es.outstanding.length - 1 :=
    List.length_erase_of_mem hkey
  have hsettled : History.settled (.came key :: es) = false := by
    simp [History.settled, hcompletes, hs]
  refine ⟨?_, fun _ => ?_, ?_⟩
  · rw [World.boundary_withBoundary, if_pos ⟨rfl, hb⟩, hsettled]
    simp [Boundary.waitFor, History.outstanding, hlength]
  · rw [World.boundary_withBoundary, if_pos ⟨rfl, hb⟩]
    exact h.content hs
  · rw [World.display_withBoundary _ _ _ (f := Boundary.waitFor _) fun _ => rfl]
    simp only [History.display, History.updates, hcompletes, Bool.and_false]
    exact h.display

theorem Describes.came (h : Describes b fallback es w) (hw : w.Orderly L)
    (hb : b.index < w.boundaries.size) (hkey : key ∈ es.outstanding) :
    Describes b fallback (.came key :: es) (w.arrived b) := by
  have hlength : (es.outstanding.erase key).length = es.outstanding.length - 1 :=
    List.length_erase_of_mem hkey
  obtain ⟨hs, he⟩ | ⟨k, content, hs, hk, hcontent, he⟩ | ⟨k, hs, hnone, he⟩ := w.arrived_cases b
  all_goals rw [he]
  · -- a boundary that has settled does not change
    have hsettled := h.of_settled hs
    refine ⟨?_, fun hn => ?_, ?_⟩
    · simp [h.state, History.settled, hsettled]
    · simp [History.settled, hsettled] at hn
    · simp [h.display, History.display, History.updates, hsettled]
  · obtain ⟨hsettled, rfl⟩ := h.of_pending hs
    have hgiven := h.content hsettled
    rw [hcontent] at hgiven
    have hempty : es.outstanding.erase key = [] := List.length_eq_zero_iff.1 (by omega)
    have hcompletes : es.completes key = true := by simp [History.completes, ← hgiven, hempty]
    exact describes_showing hw hb hsettled hcompletes hgiven.symm
  · obtain ⟨hsettled, rfl⟩ := h.of_pending hs
    have hgiven := h.content hsettled
    refine h.lessened hb hkey hsettled ?_
    by_cases hk : es.outstanding.length - 1 = 0
    · simp [History.completes, ← hgiven, hnone hk]
    · have hne : es.outstanding.erase key ≠ [] := fun hempty => by
        rw [hempty, List.length_nil] at hlength
        omega
      simp [History.completes, hne]

theorem Tally.arrived (h : Tally b fallback w₀ (insert key due) es w) (hw : w.Orderly L)
    (hkey : key ∉ due) (hreg : (key, .awaited b) ∈ (w.cell c).registry)
    (hok : (w.cell c).settlement.ok = true) :
    Tally b fallback w₀ due (.came key :: es) (w.arrived b) := by
  have hmem : key ∈ es.outstanding := (h.owed key).2 ⟨c, hreg, .inr (Set.mem_insert ..)⟩
  refine ⟨.noticed h.course (.came hreg hok) hmem (h.course.describes.came hw h.known hmem),
    Nat.lt_of_lt_of_le h.known (Endures.arrived w b).boundaries, h.nodup.erase key, fun k => ?_,
    fun hk => ?_⟩
  · change k ∈ es.outstanding.erase key ↔ _
    rw [h.nodup.mem_erase_iff, h.owed]
    simp only [World.arrived_eq, Set.mem_insert_iff]
    constructor
    · rintro ⟨hne, e, he, hk⟩
      exact ⟨e, he, hk.imp_right (·.resolve_left hne)⟩
    · rintro ⟨e, he, hk⟩
      refine ⟨?_, e, he, hk.imp_right .inr⟩
      rintro rfl
      obtain rfl := hw.single hreg he
      rcases hk with hk | hk
      · rw [hok] at hk
        cases hk
      · exact hkey hk
  · obtain ⟨e, he, hcame⟩ := h.came (Set.mem_insert_of_mem key hk)
    exact ⟨e, by rwa [(w.arrived_eq b e).1], by rwa [(w.arrived_eq b e).2]⟩

/-! ## The content is given -/

/-- What becomes of a boundary in this state once its content is known: it settles if it waits for
nothing. -/
def BoundaryState.finish (content : Node) : BoundaryState → Boundary → Boundary
  | .settled, x | .pending 0, x => { x with state := .settled }
  | .pending _, x => { x with content := some content }

/-- The world after a boundary was given its content. -/
def World.finishing (w : World) (b : BoundaryId) (content : Node) : World :=
  w.withBoundary b ((w.boundary b).state.finish content)

@[simp] theorem BoundaryState.display_finish (content : Node) (s : BoundaryState) (x : Boundary) :
    (s.finish content x).display = x.display := by
  unfold BoundaryState.finish
  split <;> rfl

/-- The node that a boundary gives for its content: the content itself if it waits for nothing, else
a fragment that carries what the display holds and follows it. -/
def World.givenNode (w : World) (b : BoundaryId) (content : Node) : Node :=
  match (w.boundary b).state with
  | .settled | .pending 0 => content
  | .pending _ =>
    fragmentOf (w.heldNode (w.boundary b).display) (some (w.boundary b).display)

theorem run_finishBoundary (b : BoundaryId) (content : Node) (w : World) :
    (finishBoundary b content).run w = .ok (w.givenNode b content) (w.finishing b content) := by
  simp only [finishBoundary, EStateM.run_bind, EStateM.run_get, World.finishing, World.givenNode]
  split
  · next hs =>
    rw [hs]
    rfl
  · next hs =>
    rw [hs]
    rfl
  · next k hk hs =>
    rw [hs]
    cases k with
    | zero => exact absurd rfl hk
    | succ k => rfl

/-- A boundary gives its content itself only if it waits for nothing when it is told. Else the node
carries the fallback, also when it is used after the boundary has settled. -/
theorem Describes.givenNode {n : Node} (h : Describes b (.value (.node n)) es w) (content : Node) :
    w.givenNode b content =
      if es.settled || es.outstanding.isEmpty then content
      else fragmentOf n (some (w.boundary b).display) := by
  rw [World.givenNode, h.state]
  cases hs : es.settled with
  | true => rfl
  | false =>
    cases hk : es.outstanding with
    | nil => rfl
    | cons key keys =>
      have hheld : (w.cell (w.boundary b).display).held = .value (.node n) := by
        rw [h.display, History.display, History.updates_of_unsettled hs]
      simp [World.heldNode, hheld]

theorem Describes.finished (h : Describes b fallback es w) (hb : b.index < w.boundaries.size)
    (content : Node) : Describes b fallback (.finished content :: es) (w.finishing b content) := by
  have hboundary : (w.finishing b content).boundary b =
      (w.boundary b).state.finish content (w.boundary b) := by
    rw [World.finishing, World.boundary_withBoundary, if_pos ⟨rfl, hb⟩]
  refine ⟨?_, fun hs => ?_, ?_⟩
  · rw [hboundary, h.state]
    cases hs : es.settled <;> cases hn : es.outstanding <;>
      simp [BoundaryState.finish, History.settled, History.outstanding, h.state, hs, hn]
  · simp only [History.settled, Bool.or_eq_false_iff] at hs
    rw [hboundary, h.state, hs.1]
    cases hn : es.outstanding with
    | nil => simp [hn] at hs
    | cons key keys => rfl
  · rw [hboundary, BoundaryState.display_finish]
    exact h.display

theorem Tally.finished (h : Tally b fallback w₀ due es w) (content : Node) :
    Tally b fallback w₀ due (.finished content :: es) (w.finishing b content) where
  course := .noticed h.course (.finished (run_finishBoundary b content w)) trivial
    (h.course.describes.finished h.known content)
  known := by
    rw [World.finishing, World.size_withBoundary]
    exact h.known
  nodup := h.nodup
  owed := h.owed
  came := h.came

/-! ## Nothing is passed over -/

/-- What a boundary is told makes it as its longer history says. -/
theorem Notices.describes {e : Notice} (h : Notices b w e w') (hd : Describes b fallback es w)
    (hw : w.Orderly L) (hb : b.index < w.boundaries.size) (hdue : e.Due es) :
    Describes b fallback (e :: es) w' := by
  cases h with
  | counted hwaiting hrun =>
    rw [run_awaitIn, hwaiting] at hrun
    cases hrun
    exact hd.counted hb _
  | came => exact hd.came hw hb hdue
  | finished hrun =>
    rw [run_finishBoundary] at hrun
    cases hrun
    exact hd.finished hb _

/-- With each notice the boundary waits for one value more or less, has settled, or knows its
content. -/
theorem Describes.heeds (hd : Describes b fallback es w) (hw : w.Orderly L)
    (hb : b.index < w.boundaries.size) : w.Heeds b es := by
  intro hs e w' h hdue honce hsame
  have hd' := h.describes hd hw hb hdue
  have hstate := hd'.state
  rw [hsame, hd.state, hs] at hstate
  have hs' : History.settled (e :: es) = false := by
    cases h' : History.settled (e :: es) with
    | false => rfl
    | true => simp [h'] at hstate
  have hlength : es.outstanding.length = (History.outstanding (e :: es)).length := by
    simpa [hs'] using hstate
  cases e with
  | counted key => simp [History.outstanding] at hlength
  | came key =>
    have hpos := List.length_pos_of_mem hdue
    rw [History.outstanding, List.length_erase_of_mem hdue] at hlength
    omega
  | finished n =>
    have hcontent := hd'.content hs'
    rw [hsame, hd.content hs, honce n rfl] at hcontent
    cases hcontent

/-! ## A value is resolved -/

/-- The world in which a value has come, before anybody is told. -/
def World.resolving (w : World) (c : CellId) : World :=
  w.withCell c (·.modifySettlement fun s => { s with settled := true, ok := true })

@[simp] theorem World.registry_resolving (w : World) (c d : CellId) :
    ((w.resolving c).cell d).registry = (w.cell d).registry := by
  rw [World.resolving, World.cell_withCell]
  split
  · exact Cell.registry_modifySettlement ..
  · rfl

theorem World.ok_resolving (hc : (w.cell c).Waits) :
    ((w.resolving c).cell c).settlement.ok = true := by
  rw [World.resolving, World.cell_withCell, if_pos ⟨rfl, World.lt_of_waits hc⟩,
    hc.settlement_modifySettlement]

theorem Cell.ok_resolved {x : Cell} (h : x.settlement.ok = true) :
    (x.modifySettlement fun s => { s with settled := true, ok := true }).settlement.ok = true := by
  obtain h' | h' := x.settlement_modifySettlement fun s => { s with settled := true, ok := true }
  all_goals rw [h']
  exact h

theorem Endures.resolving (w : World) (c : CellId) : Endures w (w.resolving c) :=
  .withCell (fun x s hs => by rwa [Cell.registry_modifySettlement]) (Cell.still_modifySettlement _)
    fun _ => Cell.ok_resolved

theorem World.Orderly.resolving (hw : w.Orderly L) (hc : (w.cell c).Waits) :
    (w.resolving c).Orderly L := by
  refine hw.withCell (Cell.registry_modifySettlement _) (Cell.still_modifySettlement _) fun _ => ?_
  rw [hc.settlement_modifySettlement]

/-- A value that has come is due for every registration with the boundary. -/
theorem Tally.resolved (h : Tally b fallback w₀ due es w) (hw : w.Orderly L)
    (hc : (w.cell c).Waits) (hok : (w.cell c).settlement.ok = false) :
    Tally b fallback w₀ (due ∪ awaiting b (w.cell c).registry) es (w.resolving c) := by
  have hokc := World.ok_resolving hc
  have hother : ∀ {e}, e ≠ c → (w.resolving c).cell e = w.cell e := fun he => by
    rw [World.resolving, World.cell_withCell, if_neg fun h => he h.1]
  refine h.aside ?_ (Nat.le_refl _) (fun e key he => ?_) fun key hk => ?_
  · exact aside_withCell (fun x _ => Cell.held_modifySettlement ..)
      (fun x key => by rw [Cell.registry_modifySettlement]) fun _ => Cell.ok_resolved
  · by_cases hec : e = c
    · subst hec
      have hdue : key ∈ awaiting b (w.cell e).registry := he
      simp [hokc, hok, hdue]
    · have hdue : key ∉ awaiting b (w.cell c).registry := fun hk => hec (hw.single he hk)
      simp [hother hec, hdue]
  · rcases hk with hk | hk
    · obtain ⟨e, he, hcame⟩ := h.came hk
      refine ⟨e, he, ?_⟩
      by_cases hec : e = c
      · rw [hec, hokc]
      · rw [hother hec, hcame]
    · exact ⟨c, hk, hokc⟩

end LivePage
