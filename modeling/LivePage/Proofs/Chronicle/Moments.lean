import LivePage.Proofs.Chronicle.Basic
import LivePage.Proofs.Chronicle.Holders

/-!
# Moments of chronicles

What happens from one moment of a chronicle to the next is a single change or nothing at all
(`Chronicle.elapses`), so what a chronicle does to subscriptions is proved change by change. The
programs of a world and its pages know their subscriptions apart (`World.Parted`): no program has
the key of a subscription that does something to a page. Hence such a subscription goes only when
all subscriptions of its observable are removed (`Elapses.registered`), and comes only by being made
(`Elapses.made`). And an observable holds what it was assigned last (`Elapses.held`).
-/

namespace LivePage

open LivePage.Script

variable {w w' w₁ : World} {c d : CellId} {key : Nat} {r : Reaction} {move : Move}
  {ms ms' : List Moment} {es : List Episode}

/-! ## From moment to moment -/

/-- It lasts, and other things happen during it. -/
def Move.Lasts : Move → Prop
  | .emission _ | .told .. | .realized _ | .failed | .killed _ => True
  | _ => False

/-- The moments lead from one world to the other: what begins, and the end of what lasts, changes
nothing but pins. -/
inductive Elapses : List Moment → World → World → Prop where
  | still {w : World} (pins : List (List Entity)) : Elapses [] w { w with pins }
  | mark {w w' : World} {move : Move} {ended : Bool} {ms : List Moment}
      (pins : List (List Entity)) : (ended = true → move.Lasts) → Elapses ms { w with pins } w' →
      Elapses (⟨move, ended, { w with pins }⟩ :: ms) w w'
  | change {w w₁ w' : World} {move : Move} {ms : List Moment} (pins : List (List Entity)) :
      move.Changes { w with pins } w₁ → Elapses ms w₁ w' → Elapses (⟨move, true, w₁⟩ :: ms) w w'

/-- The world after the moments: that of the last one, whatever is pinned. -/
def After (ms : List Moment) (w w' : World) : Prop :=
  ∃ pins, w' = { (ms.getLast?.map (·.world)).getD w with pins }

theorem Move.Spans.lasts (h : move.Spans es w w') : move.Lasts := by
  cases move <;> first | exact trivial | exact h.elim

/-- A change spares observables, or concerns one of them and nothing else, or subscribes. -/
theorem Move.Changes.form (h : move.Changes w w') :
    Spares w w' ∨ (∃ d f, w' = w.withCell d f) ∨ ∃ d k r, move = .subscribed d k r := by
  cases move with
  | other => exact .inl h
  | assigned | cleared => exact .inr (.inl ⟨_, _, h⟩)
  | resubscribed | unsubscribed => exact .inr (.inl ⟨_, _, h.2⟩)
  | subscribed => exact .inr (.inr ⟨_, _, _, rfl⟩)
  | _ => exact h.elim

namespace Elapses

theorem refl (w : World) : Elapses [] w w := .still w.pins

theorem of_repin {pins : List (List Entity)} (h : Elapses ms { w with pins } w') :
    Elapses ms w w' := by
  generalize hv : ({ w with pins } : World) = v at h
  cases h with
  | still pins' =>
    subst hv
    exact .still pins'
  | mark pins' hm h =>
    subst hv
    exact .mark (w := w) pins' hm h
  | change pins' hm h =>
    subst hv
    exact .change (w := w) pins' hm h

theorem append (h : Elapses ms w w₁) (h' : Elapses ms' w₁ w') : Elapses (ms ++ ms') w w' := by
  induction h with
  | still pins => exact h'.of_repin
  | mark pins hm _ ih => exact .mark pins hm (ih h')
  | change pins hm _ ih => exact .change pins hm (ih h')

theorem repin (h : Elapses ms w w') (pins : List (List Entity)) :
    Elapses ms w { w' with pins } := by
  rw [← List.append_nil ms]
  exact h.append (.still pins)

theorem after (h : Elapses ms w w') : After ms w w' := by
  induction h with
  | still pins => exact ⟨pins, rfl⟩
  | @mark w w' move ended ms pins _ _ ih =>
    obtain ⟨pins', rfl⟩ := ih
    refine ⟨pins', ?_⟩
    cases hms : ms.getLast? with
    | none => simp [List.getLast?_eq_none_iff.1 hms]
    | some x => simp [List.getLast?_cons, hms]
  | @change w w₁ w' move ms pins _ _ ih =>
    obtain ⟨pins', rfl⟩ := ih
    refine ⟨pins', ?_⟩
    cases hms : ms.getLast? with
    | none => simp [List.getLast?_eq_none_iff.1 hms]
    | some x => simp [List.getLast?_cons, hms]

theorem split (h : Elapses (ms ++ ms') w w') : ∃ w₁, Elapses ms w w₁ ∧ Elapses ms' w₁ w' := by
  induction ms generalizing w with
  | nil => exact ⟨w, .refl w, h⟩
  | cons x rest ih =>
    cases h with
    | mark pins hm h =>
      obtain ⟨w₁, h, h'⟩ := ih h
      exact ⟨w₁, .mark pins hm h, h'⟩
    | change pins hm h =>
      obtain ⟨w₁, h, h'⟩ := ih h
      exact ⟨w₁, .change pins hm h, h'⟩

/-- What is pinned at the start does not matter. -/
theorem pinning (h : Elapses ms w w') (pins : List (List Entity)) :
    Elapses ms { w with pins } w' := by
  have hback : Elapses ms { ({ w with pins } : World) with pins := w.pins } w' := h
  exact hback.of_repin

/-- Moments that come first lead to the world after them. -/
theorem of_after (h : Elapses (ms ++ ms') w w') {v : World} (hv : After ms w v) :
    Elapses ms w v ∧ Elapses ms' v w' := by
  obtain ⟨w₁, h, h'⟩ := h.split
  obtain ⟨pins, rfl⟩ := h.after
  obtain ⟨pins', rfl⟩ := hv
  exact ⟨h.repin pins', h'.of_repin.pinning pins'⟩

end Elapses

/-- The moments of a chronicle lead from its start to its end. -/
theorem Chronicle.elapses (h : Chronicle es w w') : Elapses (Episode.momentsOf es) w w' := by
  induction h with
  | still pins => exact .still pins
  | @change w w₁ w' move es pins hm _ ih =>
    rw [Episode.momentsOf_cons]
    refine .mark pins nofun ?_
    have hsame : move.Changes { ({ w with pins } : World) with pins } w₁ := hm
    exact .change pins hsame ih
  | @during w w₁ w' move inner es pins hs _ _ ihinner ih =>
    rw [Episode.momentsOf_cons]
    refine .mark pins nofun (ihinner.append ?_)
    exact Elapses.mark w₁.pins (fun _ => hs.lasts) ih

/-! ## Programs and pages know their subscriptions apart -/

/-- No program knows the key of a subscription that does something to a page. -/
structure World.Parted (w : World) : Prop where
  keyed : w.Keyed
  following : w.Following
  known {key : Nat} : w.names.Knows key →
    key < w.nextKey ∧ ∀ {c r}, (key, r) ∈ (w.cell c).registry → ¬ r.onPage
  subscribers : ∀ e ∈ w.names.subscribers, ¬ e.2.2.onPage

theorem World.parted_empty : World.Parted {} := by
  have hcell : ∀ c, ({} : World).cell c = default := fun c => World.cell_of_size_le (Nat.zero_le _)
  refine ⟨fun c => ?_, fun {c key r} h => ?_, fun {key} h => ?_, by simp⟩
  · rw [hcell]
    exact ⟨List.nodup_nil, fun _ h => nomatch h⟩
  · rw [hcell] at h
    cases h
  · rcases h with ⟨e, he, -⟩ | ⟨e, he, -⟩ <;> cases he

/-- The observable's subscriptions are all removed at this moment. -/
def Moment.Clears (c : CellId) (x : Moment) : Prop := x.ended = true ∧ x.move = .cleared c

section

variable (hw : w.Parted)
include hw

theorem World.Parted.repin (pins : List (List Entity)) : ({ w with pins } : World).Parted :=
  ⟨hw.keyed, hw.following, hw.known, hw.subscribers⟩

/-- A single change keeps the subscriptions of pages, unless it removes them all. -/
theorem Move.Changes.registered (h : move.Changes w w') (hr : r.onPage)
    (hreg : (key, r) ∈ (w.cell c).registry) (hne : move ≠ .cleared c) :
    (key, r) ∈ (w'.cell c).registry := by
  cases move with
  | other => rwa [Spares.registry h]
  | assigned d held =>
    obtain rfl : w' = w.assigned d held := h
    rwa [World.registry_assigned]
  | subscribed d k r' =>
    obtain ⟨-, -, names, rfl, -⟩ := h
    show (key, r) ∈ ((w.subscribed d r').cell c).registry
    rw [World.registry_subscribed hw.keyed]
    split
    · exact List.mem_append_left _ hreg
    · exact hreg
  | resubscribed d k r' =>
    obtain ⟨-, rfl⟩ := h
    rw [World.cell_withCell]
    split
    · unfold Cell.subscribe
      split
      · exact hreg
      · exact List.mem_append_left _ hreg
    · exact hreg
  | unsubscribed d k =>
    obtain ⟨hk, rfl⟩ := h
    rw [World.cell_withCell]
    split
    · refine List.mem_filter.2 ⟨hreg, decide_eq_true fun he : key = k => ?_⟩
      exact (hw.known hk).2 (he ▸ hreg) hr
    · exact hreg
  | cleared d =>
    obtain rfl : w' = w.withCell d Cell.unsubscribeAll := h
    rw [World.cell_withCell, if_neg fun hd => hne (by rw [hd.1])]
    exact hreg
  | _ => exact h.elim

/-- A single change makes no subscription of a page but by subscribing it. -/
theorem Move.Changes.made (h : move.Changes w w') (hr : r.onPage)
    (hreg : (key, r) ∈ (w'.cell c).registry) :
    (key, r) ∈ (w.cell c).registry ∧ move ≠ .cleared c ∨ move = .subscribed c key r := by
  cases move with
  | other =>
    rw [Spares.registry h] at hreg
    exact .inl ⟨hreg, nofun⟩
  | assigned d held =>
    obtain rfl : w' = w.assigned d held := h
    rw [World.registry_assigned] at hreg
    exact .inl ⟨hreg, nofun⟩
  | subscribed d k r' =>
    obtain ⟨rfl, -, names, rfl, -⟩ := h
    replace hreg : (key, r) ∈ ((w.subscribed d r').cell c).registry := hreg
    rw [World.registry_subscribed hw.keyed] at hreg
    split at hreg
    · next hc =>
      rcases List.mem_append.1 hreg with hreg | hreg
      · exact .inl ⟨hreg, nofun⟩
      · cases List.mem_singleton.1 hreg
        exact .inr (by rw [hc.1])
    · exact .inl ⟨hreg, nofun⟩
  | resubscribed d k r' =>
    obtain ⟨⟨name, hname⟩, rfl⟩ := h
    rw [World.cell_withCell] at hreg
    split at hreg
    · rcases Cell.mem_subscribe hreg with hreg | he
      · exact .inl ⟨hreg, nofun⟩
      · cases he
        exact absurd hr (hw.subscribers _ hname)
    · exact .inl ⟨hreg, nofun⟩
  | unsubscribed d k =>
    obtain ⟨-, rfl⟩ := h
    rw [World.cell_withCell] at hreg
    split at hreg
    · exact .inl ⟨(List.mem_filter.1 hreg).1, nofun⟩
    · exact .inl ⟨hreg, nofun⟩
  | cleared d =>
    obtain rfl : w' = w.withCell d Cell.unsubscribeAll := h
    rw [World.cell_withCell] at hreg
    split at hreg
    · cases hreg
    · next hd =>
      refine .inl ⟨hreg, fun he => hd ?_⟩
      cases he
      exact ⟨rfl, World.lt_of_registry hreg⟩
  | _ => exact h.elim

omit hw in
theorem Move.Changes.follows (h : move.Changes w w') (hf : w.Follows c r) : w'.Follows c r := by
  have hsites : ∀ {s : Nat} {site : Site}, w.sites[s]? = some site →
      ∃ site', w'.sites[s]? = some site' ∧ site'.source = site.source := by
    intro s site hs
    rcases h.form with hspares | ⟨d, f, rfl⟩ | ⟨d, k, r', rfl⟩
    · exact hspares.source hs
    · exact ⟨site, hs, rfl⟩
    · obtain ⟨-, -, names, rfl, -⟩ := h
      exact ⟨site, hs, rfl⟩
  cases r with
  | rebuild s =>
    obtain ⟨site, hs, rfl⟩ := hf
    exact hsites hs
  | _ => exact hf

theorem Move.Changes.keyed (h : move.Changes w w') : w'.Keyed := by
  cases move with
  | other =>
    intro c
    have hkeys : (w'.cell c).keys = (w.cell c).keys := congrArg (List.map _) (Spares.registry h c)
    rw [hkeys, Spares.nextKey h]
    exact hw.keyed c
  | assigned d held =>
    obtain rfl : w' = w.assigned d held := h
    exact (evolves_withCell (w := w) (c := d) (f := fun cell => { cell with held })
      (fun _ => rfl) fun _ => .refl _).keyed hw.keyed
  | subscribed d k r' =>
    obtain ⟨-, -, names, rfl, -⟩ := h
    exact hw.keyed.subscribed d r'
  | resubscribed d k r' =>
    obtain ⟨⟨name, hname⟩, rfl⟩ := h
    have hlt : k < w.nextKey := (hw.known (.inl ⟨_, hname, rfl⟩)).1
    intro c
    obtain ⟨hn, hall⟩ := hw.keyed c
    rw [World.cell_withCell]
    split
    · rw [Cell.keys_subscribe]
      split
      · exact ⟨hn, hall⟩
      · next hnot =>
        refine ⟨by simpa [List.nodup_append] using ⟨hn, fun x hx hxk => hnot (hxk ▸ hx)⟩, ?_⟩
        exact List.forall_mem_append.2 ⟨hall, fun x hx => (List.mem_singleton.1 hx) ▸ hlt⟩
    · exact ⟨hn, hall⟩
  | unsubscribed d k =>
    obtain ⟨-, rfl⟩ := h
    exact (evolves_withCell (w := w) (c := d) (f := (·.unsubscribe k)) (fun _ => rfl)
      fun _ => List.filter_sublist).keyed hw.keyed
  | cleared d =>
    obtain rfl : w' = w.withCell d Cell.unsubscribeAll := h
    exact (evolves_withCell (w := w) (c := d) (f := Cell.unsubscribeAll) (fun _ => rfl)
      fun _ => List.nil_sublist _).keyed hw.keyed
  | _ => exact h.elim

omit hw in
/-- A key that a program knows was known before, or is the new one of what the program
subscribes. -/
theorem Move.Changes.known (h : move.Changes w w') (hk : w'.names.Knows key) :
    w.names.Knows key ∨ ∃ c r, move = .subscribed c key r ∧ ¬ r.onPage := by
  rcases h.form with hspares | ⟨d, f, rfl⟩ | ⟨d, k, r, rfl⟩
  · refine .inl (hk.imp ?_ ?_)
    · exact fun ⟨e, he, hkey⟩ => ⟨e, hspares.subscribers e he, hkey⟩
    · exact fun ⟨e, he, hkey⟩ => ⟨e, hspares.watches e he, hkey⟩
  · exact .inl hk
  · obtain ⟨-, -, names, rfl, he⟩ := h
    rcases hk with ⟨e, hmem, rfl⟩ | ⟨e, hmem, rfl⟩
    · rcases he.subscribers e hmem with hold | ⟨hnew, hr⟩
      · exact .inl (.inl ⟨e, hold, rfl⟩)
      · exact .inr ⟨d, r, by rw [hnew], hr⟩
    · rcases he.watches e hmem with hold | ⟨hnew, hr⟩
      · exact .inl (.inr ⟨e, hold, rfl⟩)
      · exact .inr ⟨d, r, by rw [hnew], hr⟩

omit hw in
theorem Move.Changes.nextKey_le (h : move.Changes w w') : w.nextKey ≤ w'.nextKey := by
  rcases h.form with hspares | ⟨d, f, rfl⟩ | ⟨d, k, r, rfl⟩
  · exact Nat.le_of_eq hspares.nextKey.symm
  · exact Nat.le_refl _
  · obtain ⟨-, -, names, rfl, -⟩ := h
    exact Nat.le_succ _

theorem Move.Changes.parted (h : move.Changes w w') : w'.Parted where
  keyed := h.keyed hw
  following := fun {c key r} hreg hr => by
    rcases h.made hw hr hreg with ⟨hold, -⟩ | rfl
    · exact h.follows (hw.following hold hr)
    · exact h.follows (h.2.1 hr)
  known := fun {key} hk => by
    rcases h.known hk with hold | ⟨c, r, rfl, hr⟩
    · obtain ⟨hlt, hapart⟩ := hw.known hold
      refine ⟨Nat.lt_of_lt_of_le hlt h.nextKey_le, fun {c r} hreg hr => ?_⟩
      rcases h.made hw hr hreg with ⟨hreg, -⟩ | rfl
      · exact hapart hreg hr
      · exact Nat.lt_irrefl _ (h.1 ▸ hlt)
    · refine ⟨?_, fun {c' r'} hreg hr' => ?_⟩
      · obtain ⟨rfl, -, names, rfl, -⟩ := h
        exact Nat.lt_succ_self _
      · rcases h.made hw hr' hreg with ⟨hreg, -⟩ | he
        · have hlt := (hw.keyed c').2 key (List.mem_map.2 ⟨_, hreg, rfl⟩)
          exact Nat.lt_irrefl _ (h.1 ▸ hlt)
        · cases he
          exact hr hr'
  subscribers := fun e he => by
    rcases h.form with hspares | ⟨d, f, rfl⟩ | ⟨d, k, r, rfl⟩
    · exact hw.subscribers e (hspares.subscribers e he)
    · exact hw.subscribers e he
    · obtain ⟨-, -, names, rfl, hnames⟩ := h
      rcases hnames.subscribers e he with hold | ⟨hnew, hr⟩
      · exact hw.subscribers e hold
      · rwa [hnew]

end

namespace Elapses

theorem parted (h : Elapses ms w w') (hw : w.Parted) : w'.Parted := by
  induction h with
  | still pins => exact hw.repin pins
  | mark pins _ _ ih => exact ih (hw.repin pins)
  | change pins hm _ ih => exact ih (hm.parted (hw.repin pins))

/-- A subscription of a page stays as long as nobody removes all subscriptions of its observable. -/
theorem registered (h : Elapses ms w w') (hw : w.Parted) (hr : r.onPage)
    (hreg : (key, r) ∈ (w.cell c).registry) (hms : ∀ x ∈ ms, ¬ x.Clears c) :
    (key, r) ∈ (w'.cell c).registry := by
  induction h with
  | still pins => exact hreg
  | mark pins _ _ ih => exact ih (hw.repin pins) hreg fun x hx => hms x (List.mem_cons_of_mem _ hx)
  | change pins hm _ ih =>
    have hne := fun he => hms _ List.mem_cons_self ⟨rfl, he⟩
    exact ih (hm.parted (hw.repin pins)) (hm.registered (hw.repin pins) hr hreg hne)
      fun x hx => hms x (List.mem_cons_of_mem _ hx)

/-- A subscription of a page was there before, or has been made; since then nobody has removed all
subscriptions of its observable. -/
theorem made (h : Elapses ms w w') (hw : w.Parted) (hr : r.onPage)
    (hreg : (key, r) ∈ (w'.cell c).registry) :
    ((key, r) ∈ (w.cell c).registry ∧ ∀ x ∈ ms, ¬ x.Clears c) ∨
      ∃ before u after, ms = before ++ ⟨.subscribed c key r, true, u⟩ :: after ∧
        ∀ x ∈ after, ¬ x.Clears c := by
  induction h with
  | still pins => exact .inl ⟨hreg, by simp⟩
  | @mark w w' move ended ms pins hm _ ih =>
    rcases ih (hw.repin pins) hreg with ⟨hold, hms⟩ | ⟨before, u, after, rfl, hafter⟩
    · refine .inl ⟨hold, List.forall_mem_cons.2 ⟨fun ⟨he, hc⟩ => ?_, hms⟩⟩
      have := hm he
      rw [show move = .cleared c from hc] at this
      exact this
    · exact .inr ⟨_ :: before, u, after, rfl, hafter⟩
  | @change w w₁ w' move ms pins hm _ ih =>
    rcases ih (hm.parted (hw.repin pins)) hreg with ⟨hold, hms⟩ | ⟨before, u, after, rfl, hafter⟩
    · rcases hm.made (hw.repin pins) hr hold with ⟨hold, hne⟩ | rfl
      · exact .inl ⟨hold, List.forall_mem_cons.2 ⟨fun ⟨_, hc⟩ => hne hc, hms⟩⟩
      · exact .inr ⟨[], w₁, ms, rfl, hms⟩
    · exact .inr ⟨_ :: before, u, after, rfl, hafter⟩

end Elapses

/-! ## What observables hold -/

/-- What the observable is assigned at this moment. -/
def Moment.assigns (c : CellId) : Moment → Option Held
  | ⟨.assigned d held, true, _⟩ => if d = c then some held else none
  | _ => none

/-- What the observable was assigned last. -/
def lastAssigned (c : CellId) : List Moment → Option Held
  | [] => none
  | x :: rest => (lastAssigned c rest).or (x.assigns c)

theorem Moment.assigns_of_lasts {ended : Bool} (h : ended = true → move.Lasts) :
    (⟨move, ended, w⟩ : Moment).assigns c = none := by
  cases ended with
  | false => cases move <;> rfl
  | true =>
    have hlasts := h rfl
    cases move <;> first | rfl | exact hlasts.elim

theorem Move.Changes.held (h : move.Changes w w') (hc : c.index < w.cells.size) :
    (w'.cell c).held = ((⟨move, true, w'⟩ : Moment).assigns c).getD (w.cell c).held := by
  cases move with
  | other => exact Spares.held h hc
  | assigned d held =>
    obtain rfl : w' = w.assigned d held := h
    simp only [Moment.assigns]
    split
    · next hd => exact hd ▸ World.held_assigned (hd ▸ hc) held
    · next hd => exact World.held_assigned_of_ne (Ne.symm hd) held
  | subscribed d k r =>
    obtain ⟨-, -, names, rfl, -⟩ := h
    exact World.held_subscribed ..
  | resubscribed d k r =>
    obtain ⟨-, rfl⟩ := h
    rw [World.cell_withCell]
    split
    · unfold Cell.subscribe
      split <;> rfl
    · rfl
  | unsubscribed d k =>
    obtain ⟨-, rfl⟩ := h
    rw [World.cell_withCell]
    split <;> rfl
  | cleared d =>
    obtain rfl : w' = w.withCell d Cell.unsubscribeAll := h
    rw [World.cell_withCell]
    split <;> rfl
  | _ => exact h.elim

theorem Move.Changes.size_le (h : move.Changes w w') : w.cells.size ≤ w'.cells.size := by
  rcases h.form with hspares | ⟨d, f, rfl⟩ | ⟨d, k, r, rfl⟩
  · exact hspares.size
  · simp [World.withCell]
  · obtain ⟨-, -, names, rfl, -⟩ := h
    simp [World.subscribed, World.withCell]

/-- An observable holds what it was assigned last, whoever assigned it: a reference, for instance,
holds the element to which it was attached last, unless a teardown came after that, of whatever
record. -/
theorem Elapses.held (h : Elapses ms w w') (hc : c.index < w.cells.size) :
    (w'.cell c).held = (lastAssigned c ms).getD (w.cell c).held := by
  induction h with
  | still pins => rfl
  | mark pins hm _ ih =>
    rw [ih hc, lastAssigned, Moment.assigns_of_lasts hm, Option.or_none]
    rfl
  | @change w w₁ w' move ms pins hm _ ih =>
    rw [ih (Nat.lt_of_lt_of_le hc hm.size_le), lastAssigned, hm.held hc]
    cases lastAssigned c ms <;> rfl

end LivePage
