import LivePage.Proofs.Run.Murmur

/-!
# What an emission does, step by step

An emission calls the subscriptions that are registered when their turn comes. Those that do nothing
to a page log, compute and assign, and start emissions of their own. So whatever relation these
single steps keep, emissions keep, provided that the subscriptions that do something to a page keep
it: `Carries` collects what has to be known of the relation, and `Carries.react` is the step from
one depth to the next. The first use of it are the emissions that no place follows (`murmurs`).
-/

namespace LivePage

open LivePage.Script

variable {α : Type} {w w' : World} {c d : CellId} {D : CellId → Prop} {I : World → Prop}
  {R : World → World → Prop} {E : Stop → Prop} {call : Respond} {x : Prop}

/-! ## Handing a value on -/

/-- The subscription of a key does not change while an observable is emitted. -/
theorem Evolves.registered_of_key (h : Evolves w w') (hk : w.Keyed) {key : Nat} {r : Reaction}
    (hr : (key, r) ∈ (w.cell c).registry) (hkey : (w'.cell c).isSubscribed key) :
    (key, r) ∈ (w'.cell c).registry := by
  obtain ⟨hn, hlt⟩ := hk c
  have hold : key ∈ (w.cell c).keys := List.mem_map.2 ⟨_, hr, rfl⟩
  obtain ⟨⟨k, r'⟩, hr', hkk⟩ := List.mem_map.1 (Cell.isSubscribed_eq_true.1 hkey)
  obtain rfl : k = key := hkk
  have hr'' : (k, r') ∈ (w.cell c).registry := by
    rcases h.registry _ _ hr' with h | ⟨h, -⟩
    · exact h
    · exact absurd (hlt _ hold) (Nat.not_lt.2 h)
  obtain h := List.inj_on_of_nodup_map hn hr hr'' rfl
  rwa [h]

/-- What the steps of an emission of observables in `D` keep, as long as `I` holds. -/
structure Carries (D : CellId → Prop) (I : World → Prop) (R : World → World → Prop)
    (E : Stop → Prop) : Prop where
  wired {w : World} : I w → w.Wired
  tracks {w : World} : I w → w.Tracks D
  step {w w' : World} : R w w' → I w → I w'
  pinned {w : World} (held : List Entity) : I w → I (w.pinned held)
  evolves {w w' : World} : R w w' → Evolves w w'
  quiet {w w' : World} : Quiet w w' → R w w'
  unpinned {w w' : World} {held : List Entity} : R (w.pinned held) w' → R w w'.unpinned
  hold {w : World} {c : CellId} (held : Held) : D c → (w.cell c).flavour ≠ .ref →
    R w (w.withCell c fun cell => { cell with held })
  boundary (w : World) (b : BoundaryId) (f : Boundary → Boundary) :
    (∀ x, (f x).display = x.display) → R w { w with boundaries := w.boundaries.modify b.index f }
  calm {e : Stop} : e.calm → E e

/-- The subscriptions of observables in `D` keep `R`; what they hold is pinned while they run. -/
def Answers (D : CellId → Prop) (I : World → Prop) (R : World → World → Prop) (E : Stop → Prop)
    (call : Respond) : Prop :=
  ∀ {w c key r} (held : Held), I w → D c → (key, r) ∈ (w.cell c).registry →
    (∀ e ∈ w.reactionHolds r, e ∈ w.pins.flatten) → KeepsAt R E w (call (.react r held))

namespace Carries

variable [IsPreorder World R] (hR : Carries D I R E)
include hR

theorem reads {x : Run α} (h : Reads x) : Keeps R E x := h.mono hR.quiet hR.calm

theorem notify (ha : Answers D I R E call) {w₀ : World} (hI : I w₀) (hc : D c) (held : Held)
    (snapshot : List (Nat × Reaction)) (hsub : ∀ s ∈ snapshot, s ∈ (w₀.cell c).registry)
    (h : R w₀ w) : KeepsAt R E w (LivePage.notify call c held snapshot) := by
  induction snapshot generalizing w with
  | nil => exact (keeps_pure _).start w
  | cons s rest ih =>
    obtain ⟨key, r⟩ := s
    have ih := fun {w} => ih (w := w) fun s hs => hsub s (List.mem_cons_of_mem _ hs)
    refine keepsAt_get_bind ?_
    dsimp only
    split
    · next hkey =>
      have hr := (hR.evolves h).registered_of_key (hR.wired hI).keyed
        (hsub _ List.mem_cons_self) hkey
      refine KeepsAt.bindAt (.holding ?_ hR.unpinned) fun _ w₁ h₁ => ih (IsTrans.trans _ _ _ h h₁)
      refine ha held (hR.pinned _ (hR.step h hI)) hc hr fun e he => ?_
      exact List.mem_append_left _ (List.mem_append_left _ he)
    · exact ih h

theorem emit (ha : Answers D I R E call) (hI : I w) (hc : D c) :
    KeepsAt R E w (LivePage.emit call c) :=
  keepsAt_get_bind <| .holding (hR.notify ha (hR.pinned _ hI) hc _ _ (fun _ h => h) (refl _))
    hR.unpinned

theorem holdAndEmit (ha : Answers D I R E call) (hI : I w) (hc : D c)
    (hf : (w.cell c).flavour ≠ .ref) (held : Held) :
    KeepsAt R E w (LivePage.holdAndEmit call c held) := by
  have hhold : KeepsAt R E w (LivePage.hold c held) := hR.hold held hc hf
  exact hhold.bindAt fun _ w₁ h => hR.emit ha (hR.step h hI) hc

/-! ## Computing and assigning -/

theorem regenerate (hc : call.Lives) (ha : Answers D I R E call) (hI : I w) (hd : D d)
    (hf : (w.cell d).flavour ≠ .ref) (g : Generator) (sources : List Held) :
    KeepsAt R E w (LivePage.regenerate call d g sources) := by
  refine ((hR.reads (reads_generator hc.reads g sources)).start w).bindAt fun held w₁ h => ?_
  exact hR.holdAndEmit ha (hR.step h hI) hd (by rwa [(hR.evolves h).flavour]) held

theorem whileAlive {act : Run Unit} {cells : List CellId}
    (h : ∀ held, KeepsAt R E (w.pinned held) act) : KeepsAt R E w (LivePage.whileAlive cells act) := by
  refine keepsAt_get_bind ?_
  split
  · exact .holding (h _) hR.unpinned
  · exact (keeps_pure _).start w

theorem updateState (hc : call.Lives) (ha : Answers D I R E call) (hI : I w) (hd : D d)
    (hf : (w.cell d).flavour ≠ .ref) (candidate : Held) :
    KeepsAt R E w (LivePage.updateState call d candidate) := by
  refine keepsAt_get_bind ?_
  refine ((hR.reads (reads_allAccept hc.reads _ _ _)).start w).bindAt fun b w₁ h => ?_
  split
  · refine KeepsAt.bind ?_ fun _ => keeps_pure _
    exact hR.holdAndEmit ha (hR.step h hI) hd (by rwa [(hR.evolves h).flavour]) candidate
  · exact (keeps_pure _).start w₁

theorem arrive (hc : call.Lives) (ha : Answers D I R E call) (hI : I w) {b : BoundaryId}
    (hd : D (w.boundary b).display) (hf : (w.cell (w.boundary b).display).flavour ≠ .ref) :
    KeepsAt R E w (b.arrive call) := by
  refine keepsAt_get_bind ?_
  dsimp only
  split
  · exact (keeps_pure _).start w
  · split
    · next content _ _ =>
      have hmod : KeepsAt R E w (modifyBoundary b fun boundary =>
          { boundary with state := .settled, content := none }) :=
        hR.boundary w b _ fun _ => rfl
      refine hmod.bindAt fun _ w₁ h => KeepsAt.bind ?_ fun _ => keeps_pure _
      exact hR.updateState hc ha (hR.step h hI) hd (by rwa [(hR.evolves h).flavour]) _
    · exact hR.boundary w b _ fun _ => rfl

/-! ## From one depth to the next -/

/-- A subscription that does nothing to a page keeps what emissions at the depth below keep. -/
theorem react (hc : call.Lives) (ha : Answers D I R E call) (hI : I w) {key : Nat} {r : Reaction}
    (hd : D c) (hr : (key, r) ∈ (w.cell c).registry) (hp : ¬ r.onPage) (held : Held) :
    KeepsAt R E w (r.run call held) := by
  have hfed : ∀ {d}, w.Feeds r d → D d ∧ (w.cell d).flavour ≠ .ref := fun hf =>
    ⟨(hR.tracks hI).feeds hd hr hf, (hR.wired hI).unfed hr hf⟩
  have hreg : ∀ {d} (g : Generator) (sources : List Held) (pins : List Entity), w.Feeds r d →
      KeepsAt R E (w.pinned pins) (LivePage.regenerate call d g sources) :=
    fun g sources pins hf =>
      hR.regenerate hc ha (hR.pinned pins hI) (hfed hf).1 (hfed hf).2 g sources
  have hcall : ∀ {w₁} (program : CallbackId), R w w₁ → KeepsAt R E w₁ (program.run call) :=
    fun program h => (reads_callback hc.perform (hR.wired (hR.step h hI)).reading program).mono
      hR.quiet hR.calm
  cases r with
  | subscriber name program | watch name program =>
    exact keepsAt_get_bind <| ((hR.reads (reads_log _)).start w).bindAt fun _ _ h => hcall _ h
  | derive target g => exact hR.whileAlive fun pins => hreg g _ pins rfl
  | combineFirst target second g =>
    exact hR.whileAlive fun pins => keepsAt_get_bind (hreg g _ pins rfl)
  | combineSecond target first g =>
    exact hR.whileAlive fun pins => keepsAt_get_bind (hreg g _ pins rfl)
  | combineAll target sources g =>
    exact hR.whileAlive fun pins => keepsAt_get_bind (hreg g _ pins rfl)
  | recompute target g => exact hR.whileAlive fun pins => hreg g _ pins rfl
  | rebuild s => exact absurd trivial hp
  | «attribute» e name source => exact absurd trivial hp
  | styleProperty e property source => exact absurd trivial hp
  | awaited b =>
    show KeepsAt R E w (b.onAwaited call held)
    unfold BoundaryId.onAwaited
    split
    · exact hR.arrive hc ha hI (hfed rfl).1 (hfed rfl).2
    · exact (keeps_pure _).start w

end Carries

/-! ## Murmurs -/

theorem carries_murmur : Carries D (World.Hears D x) (Murmur D) fun e => x → e.calm where
  wired h := h.wired
  tracks h := h.tracks
  step h := h.hears
  pinned held h := h.pinned held
  evolves h := h.evolves
  quiet h := h.murmur
  unpinned h := h.unpinned
  hold held hc hf := murmur_hold hc hf held
  boundary w b f hf := ⟨evolves_boundary w b hf, fun _ => rfl, fun _ _ => rfl,
    fun _ => .refl _ _, rfl, rfl, rfl, rfl⟩
  calm h _ := h

theorem dresses_duringEmission {n : PageNode} {act : Realizing α}
    (h : Keeps (Dresses n) (fun _ => True) act.run) :
    Keeps (Dresses n) (fun _ => True) (duringEmission act) := by
  refine h.bind fun r => ?_
  split
  · exact keeps_pure _
  · exact ((reads_log _).dresses fun _ => trivial).bind fun _ => keeps_throw trivial

/-- What a subscription to an attribute or a style property does. -/
theorem dresses_react (call : Respond) {r : Reaction} {n : PageNode} (hr : r.Marks n)
    (held : Held) : Keeps (Dresses n) (fun _ => True) (r.run call held) := by
  cases r with
  | «attribute» e name source =>
    cases hr
    exact keeps_get.bind fun _ => dresses_duringEmission (dresses_putAttribute (fun _ => trivial) ..)
  | styleProperty e property source =>
    cases hr
    exact keeps_get.bind fun _ => dresses_duringEmission (dresses_putProperty ..)
  | _ => exact hr.elim

/-- At every depth, subscriptions to observables that no place follows only murmur. -/
theorem answers_murmur (n : Nat) :
    Answers D (World.Hears D x) (Murmur D) (fun e => x → e.calm) (respond n) := by
  induction n with
  | zero => exact fun _ _ _ _ _ _ => trivial
  | succ n ih =>
    intro w c key r held hI hd hr _
    show KeepsAt _ _ w (r.run (respond n) held)
    by_cases hp : r.onPage
    · have hx : ¬ x := fun hx => hI.noMarks hx c _ hd hr hp
      have hmarks : ∀ e, r.Marks e →
          KeepsAt (Murmur D) (fun e => x → e.calm) w (r.run (respond n) held) := fun e he =>
        ((dresses_react _ he held).start w).mono (fun h => h.murmur fun hu => hu c _ hd hr he)
          fun _ hx' => absurd hx' hx
      cases r with
      | rebuild s =>
        obtain ⟨site, hs, rfl⟩ := hI.wired.follows hr hp
        exact absurd hd (hI.noSites _ _ hs)
      | «attribute» e name source => exact hmarks e rfl
      | styleProperty e property source => exact hmarks e rfl
      | _ => exact hp.elim
    · exact carries_murmur.react (respond_lives n) ih hI hd hr hp held

/-- An emission of an observable that no place follows only murmurs. -/
theorem murmurs (n : Nat) (hw : w.Hears D x) (hc : D c) :
    KeepsAt (Murmur D) (fun e => x → e.calm) w (emit (respond n) c) :=
  carries_murmur.emit (answers_murmur n) hw hc

end LivePage
