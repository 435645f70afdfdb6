import LivePage.Proofs.Run.Emission
import LivePage.Proofs.World.Ownership

/-!
# Networks of derived observables

States, and observables derived from them and from each other. A derived observable is *consistent*
if it holds what its generator gives for the values that its sources hold now. Emissions go depth
first and tell every subscription on the spot, so on the way a derived observable can hold something
that was computed from half of the new values; and where ways to it join, it is computed more than
once.

The argument goes by one emission at a time. What is derived was made after its sources, so an
emission never changes the observable that is emitted, nor an older one; so what it hands on is what
its observable holds. `Settles k X` is what comes of such a run: nothing below number `k` has
changed, what was consistent still is, and so are the derived observables in `X`. An emission
settles all that is derived from its observable (`settles_emit`): a recomputed one is consistent from
the moment it is assigned, and what its own value makes inconsistent is put right by its own
emission.
-/

namespace LivePage

open LivePage.Script

/-- Which values an observable may hold. -/
abbrev Typing := CellId → Held → Prop

/-! ## Generators as functions -/

/-- Handed the values of the sources, the generator gives this function of them. -/
def Generator.Computes (T : Typing) (g : Generator) (sources : List CellId)
    (value : List Held → Held) : Prop :=
  ∀ (depth : Nat) (w w' : World) (inputs : List Held) (out : Held), List.Forall₂ T sources inputs →
    (g.run (respond depth) inputs).run w = .ok out w' → out = value inputs

/-- Reading the sources by itself, the generator gives this function of their values. -/
def Generator.Looks (T : Typing) (g : Generator) (sources : List CellId)
    (value : List Held → Held) : Prop :=
  ∀ (depth : Nat) (w w' : World) (out : Held), (∀ c ∈ sources, T c (w.cell c).held) →
    (g.run (respond depth) []).run w = .ok out w' →
    out = value (sources.map fun c => (w.cell c).held)

/-! ## Networks -/

structure Derivation where
  target : CellId
  sources : List CellId
  /-- The generator as a function of the values of the sources. -/
  value : List Held → Held

namespace Derivation

/-- What the sources hold now. -/
def inputs (d : Derivation) (w : World) : List Held := d.sources.map fun c => (w.cell c).held

def Consistent (d : Derivation) (w : World) : Prop :=
  (w.cell d.target).held = d.value (d.inputs w)

/-- A subscription to `c` that computes the target anew. -/
def ToldBy (T : Typing) (d : Derivation) (c : CellId) : Reaction → Prop
  | .derive target g => target = d.target ∧ d.sources = [c] ∧ g.Computes T d.sources d.value
  | .combineFirst target second g =>
    target = d.target ∧ d.sources = [c, second] ∧ g.Computes T d.sources d.value
  | .combineSecond target first g =>
    target = d.target ∧ d.sources = [first, c] ∧ g.Computes T d.sources d.value
  | .combineAll target sources g =>
    target = d.target ∧ d.sources = sources ∧ g.Computes T d.sources d.value
  | .recompute target g => target = d.target ∧ g.Looks T d.sources d.value
  | _ => False

end Derivation

/-- A subscription that runs a program. -/
def Reaction.Watches : Reaction → Prop
  | .subscriber .. | .watch .. => True
  | _ => False

structure Network where
  states : List CellId
  derived : List Derivation

namespace Network

def cells (N : Network) : List CellId := N.states ++ N.derived.map (·.target)

/-- The observables of the network are there and hold values of their types, what is derived is
younger than its sources, and the subscriptions to them compute what is derived, or run programs
that read and log. -/
structure Laid (T : Typing) (N : Network) (w : World) : Prop where
  reading : w.Reading
  keyed : w.Keyed
  bound {c : CellId} : c ∈ N.cells → c.index < w.cells.size
  typed {c : CellId} : c ∈ N.cells → T c (w.cell c).held
  known {c : CellId} {s : Nat × Reaction} : c ∈ N.cells → s ∈ (w.cell c).registry →
    s.2.Watches ∨ ∃ d ∈ N.derived, c ∈ d.sources ∧ d.ToldBy T c s.2
  sources {d : Derivation} {c : CellId} : d ∈ N.derived → c ∈ d.sources → c ∈ N.cells
  earlier {d : Derivation} {c : CellId} : d ∈ N.derived → c ∈ d.sources →
    c.index < d.target.index
  targets {d d' : Derivation} : d ∈ N.derived → d' ∈ N.derived → d.target = d'.target → d = d'
  states {c : CellId} {d : Derivation} : c ∈ N.states → d ∈ N.derived → d.target ≠ c
  typing {d : Derivation} {inputs : List Held} : d ∈ N.derived →
    List.Forall₂ T d.sources inputs → T d.target (d.value inputs)

/-- Everything in the network is kept alive by a name, and what is derived is told by each of its
sources. -/
structure Stands (T : Typing) (N : Network) (w : World) : Prop extends Laid T N w where
  named {c : CellId} : c ∈ N.cells → ∃ name, (name, c) ∈ w.names.observables
  told {d : Derivation} {c : CellId} : d ∈ N.derived → c ∈ d.sources →
    ∃ s ∈ (w.cell c).registry, d.ToldBy T c s.2

/-- All that is derived agrees with its sources. -/
def AtRest (N : Network) (w : World) : Prop := ∀ d ∈ N.derived, d.Consistent w

/-- Below number `k` nothing has changed, what was consistent still is, and so is what is in `X`. -/
structure Settles (T : Typing) (N : Network) (k : Nat) (X : Derivation → Prop)
    (w w' : World) : Prop where
  stands : N.Stands T w'
  registry (c : CellId) : (w'.cell c).registry = (w.cell c).registry
  below {c : CellId} : c.index < k → (w'.cell c).held = (w.cell c).held
  settled {d : Derivation} : d ∈ N.derived → d.Consistent w ∨ X d → d.Consistent w'

end Network

section

variable {T : Typing} {N : Network} {w w' w'' : World} {c : CellId} {d : Derivation}
  {k : Nat} {X Y : Derivation → Prop} {n : Nat}

theorem Derivation.target_mem (hd : d ∈ N.derived) : d.target ∈ N.cells :=
  List.mem_append_right _ (List.mem_map.2 ⟨d, hd, rfl⟩)

theorem Network.mem_states (hc : c ∈ N.states) : c ∈ N.cells := List.mem_append_left _ hc

theorem Derivation.inputs_congr (h : ∀ c ∈ d.sources, (w'.cell c).held = (w.cell c).held) :
    d.inputs w' = d.inputs w := List.map_congr_left h

theorem Derivation.consistent_congr (h : ∀ c ∈ d.sources, (w'.cell c).held = (w.cell c).held)
    (ht : (w'.cell d.target).held = (w.cell d.target).held) :
    d.Consistent w' ↔ d.Consistent w := by
  rw [Derivation.Consistent, Derivation.Consistent, Derivation.inputs_congr h, ht]

namespace Network

theorem Laid.inputs_typed (hw : N.Laid T w) (hd : ∀ c ∈ d.sources, c ∈ N.cells) :
    List.Forall₂ T d.sources (d.inputs w) := by
  rw [Derivation.inputs, List.forall₂_map_right_iff, List.forall₂_same]
  exact fun c hc => hw.typed (hd c hc)

theorem Stands.alive (hw : N.Stands T w) (hc : c ∈ N.cells) : w.isAlive (.cell c) = true := by
  obtain ⟨name, hn⟩ := hw.named hc
  have hroot : Entity.cell c ∈ World.namesHold w.names := by
    simp only [World.namesHold, List.mem_append, List.mem_map]
    exact .inl (.inl (.inl (.inl (.inl (.inl (.inl ⟨(name, c), hn, rfl⟩))))))
  have : Entity.cell c ∈ w.heldEntities := 
    World.heldEntities_of_root (List.mem_append_left _ (List.mem_append_left _ hroot))
  simpa [World.isAlive] using this

theorem Stands.repin (hw : N.Stands T w) (pins : List (List Entity)) :
    N.Stands T { w with pins := pins } :=
  { hw with }

theorem Settles.trans (h : N.Settles T k X w w') (h' : N.Settles T k Y w' w'') :
    N.Settles T k (fun d => X d ∨ Y d) w w'' where
  stands := h'.stands
  registry c := (h'.registry c).trans (h.registry c)
  below hc := (h'.below hc).trans (h.below hc)
  settled hd hX := by
    rcases hX with hd' | hX | hY
    · exact h'.settled hd (.inl (h.settled hd (.inl hd')))
    · exact h'.settled hd (.inl (h.settled hd (.inr hX)))
    · exact h'.settled hd (.inr hY)

theorem Settles.mono (h : N.Settles T k X w w') (hX : ∀ d ∈ N.derived, Y d → X d) :
    N.Settles T k Y w w' :=
  { h with settled := fun hd hY => h.settled hd (hY.imp_right (hX _ hd)) }

theorem Settles.unpinned {held : List Entity} (h : N.Settles T k X (w.pinned held) w') :
    N.Settles T k X w w'.unpinned :=
  ⟨h.stands.repin _, h.registry, h.below, h.settled⟩

theorem Stands.of_cells (hw : N.Stands T w) (hreading : w'.Reading) (hcells : w'.cells = w.cells)
    (hkey : w'.nextKey = w.nextKey) (hnames : w'.names = w.names) : N.Stands T w' := by
  have hcell : ∀ c, w'.cell c = w.cell c := fun c => by simp [World.cell, hcells]
  exact {
    hw with
    reading := hreading
    keyed := fun c => by rw [hcell, hkey]; exact hw.keyed c
    bound := fun hc => by rw [hcells]; exact hw.bound hc
    named := fun hc => by rw [hnames]; exact hw.named hc
    typed := fun hc => by rw [hcell]; exact hw.typed hc
    known := fun hc hs => hw.known hc (by rwa [hcell] at hs)
    told := fun hd hc => by rw [hcell]; exact hw.told hd hc }

theorem Stands.quiet (hw : N.Stands T w) (h : Quiet w w') : N.Stands T w' :=
  hw.of_cells (h.evolves.reading hw.reading) h.cells h.nextKey h.names

theorem Settles.of_cells (hw : N.Stands T w') (hcells : w'.cells = w.cells) :
    N.Settles T k (fun _ => False) w w' := by
  have hcell : ∀ c, w'.cell c = w.cell c := fun c => by simp [World.cell, hcells]
  refine ⟨hw, fun c => by rw [hcell], fun _ => by rw [hcell], fun {d} _ hX => ?_⟩
  rcases hX with hX | hX
  · rwa [Derivation.consistent_congr (w := w) (fun c _ => by rw [hcell]) (by rw [hcell])]
  · exact hX.elim

theorem Stands.settles_quiet (hw : N.Stands T w) (h : Quiet w w') :
    N.Settles T k (fun _ => False) w w' :=
  .of_cells (hw.quiet h) h.cells

/-- Assigning a value of the right type. -/
theorem Stands.withHeld (hw : N.Stands T w) {held : Held} (ht : c ∈ N.cells → T c held) :
    N.Stands T (w.withCell c fun cell => { cell with held }) := by
  have hregistry : ∀ d, ((w.withCell c fun cell => { cell with held }).cell d).registry =
      (w.cell d).registry := by
    intro d
    rw [World.cell_withCell]
    split <;> rfl
  exact {
    hw with
    reading := hw.reading
    keyed := fun d => by
      unfold Cell.keys
      rw [hregistry]
      exact hw.keyed d
    bound := fun hd => by
      rw [World.withCell, Array.size_modify]
      exact hw.bound hd
    typed := fun {d} hd => by
      rw [World.cell_withCell]
      split
      · next h =>
        obtain ⟨rfl, -⟩ := h
        exact ht hd
      · exact hw.typed hd
    known := fun hd hs => hw.known hd (by rwa [hregistry] at hs)
    told := fun hd hc => by rw [hregistry]; exact hw.told hd hc }

end Network

/-! ## Emissions settle what is derived -/

/-- A subscription in a network settles what it computes. -/
def Respond.SettlesNetwork (T : Typing) (N : Network) (call : Respond) : Prop :=
  ∀ {w : World} {c : CellId} {key : Nat} {r : Reaction}, N.Stands T w → c ∈ N.cells →
    (key, r) ∈ (w.cell c).registry →
    KeepsAt (N.Settles T (c.index + 1) fun d => d.ToldBy T c r) Stop.calm w
      (call (.react r (w.cell c).held))

variable {call : Respond}

theorem settles_notify (hcall : call.SettlesNetwork T N) (hw : N.Stands T w) (hc : c ∈ N.cells)
    (snapshot : List (Nat × Reaction)) (hsub : ∀ s ∈ snapshot, s ∈ (w.cell c).registry) :
    KeepsAt (N.Settles T (c.index + 1) fun d => ∃ s ∈ snapshot, d.ToldBy T c s.2) Stop.calm w
      (notify call c (w.cell c).held snapshot) := by
  induction snapshot generalizing w with
  | nil =>
    have hstay : N.Settles T (c.index + 1) (fun _ => False) w w := .of_cells hw rfl
    refine (hstay.mono ?_ : N.Settles T (c.index + 1) _ w w)
    rintro d - ⟨s, hs, -⟩
    cases hs
  | cons s rest ih =>
    obtain ⟨key, r⟩ := s
    have hr : (key, r) ∈ (w.cell c).registry := hsub _ List.mem_cons_self
    have hkey : (w.cell c).isSubscribed key = true := by
      rw [Cell.isSubscribed_eq_true]
      exact List.mem_map.2 ⟨_, hr, rfl⟩
    refine keepsAt_get_bind ?_
    rw [if_pos hkey]
    have hreact : ∀ held, KeepsAt (N.Settles T (c.index + 1) fun d => d.ToldBy T c r) Stop.calm w
        (holding held (call (.react r (w.cell c).held))) := fun held =>
      KeepsAt.holding (hcall (hw.repin _) hc hr) Network.Settles.unpinned
    refine (hreact _).seq fun _ w₁ _ h => ?_
    have hheld : (w₁.cell c).held = (w.cell c).held := h.below (Nat.lt_succ_self _)
    have hrest : ∀ s ∈ rest, s ∈ (w₁.cell c).registry := fun s hs => by
      rw [h.registry]
      exact hsub s (List.mem_cons_of_mem _ hs)
    have := ih h.stands hrest
    rw [hheld] at this
    refine this.mono (fun h' => (h.trans h').mono ?_) id
    rintro d - ⟨s, hs, ht⟩
    rcases List.mem_cons.1 hs with rfl | hs
    · exact .inl ht
    · exact .inr ⟨s, hs, ht⟩

/-- An emission settles what is derived from its observable. -/
theorem settles_emit (hcall : call.SettlesNetwork T N) (hw : N.Stands T w) (hc : c ∈ N.cells) :
    KeepsAt (N.Settles T (c.index + 1) fun d => c ∈ d.sources) Stop.calm w (emit call c) := by
  have hpinned : ∀ pins, KeepsAt (N.Settles T (c.index + 1) fun d => c ∈ d.sources) Stop.calm
      (w.pinned pins) (notify call c (w.cell c).held (w.cell c).registry) := by
    intro pins
    refine (settles_notify hcall (hw.repin _) hc _ fun s hs => hs).mono (fun h => h.mono ?_) id
    exact fun d hd hsource => hw.told hd hsource
  exact keepsAt_get_bind ((hpinned _).holding Network.Settles.unpinned)

/-- Assigning an observable makes nothing inconsistent but what is derived from it. -/
theorem Derivation.Consistent.withHeld {held : Held} (h : d.Consistent w) (hne : d.target ≠ c)
    (hsource : c ∉ d.sources) : d.Consistent (w.withCell c fun cell => { cell with held }) := by
  have hsame : ∀ e : CellId, e ≠ c →
      ((w.withCell c fun cell => { cell with held }).cell e).held = (w.cell e).held := by
    intro e he
    rw [World.cell_withCell, if_neg fun h => he h.1]
  rwa [Derivation.consistent_congr (fun e he => hsame e fun h => hsource (h ▸ he)) (hsame _ hne)]

/-- Assigning what the sources say and emitting it settles the observable itself, if it is derived,
and what is derived from it. -/
theorem settles_holdAndEmit (hcall : call.SettlesNetwork T N) (hw : N.Stands T w)
    (hc : c ∈ N.cells) {held : Held} (ht : T c held)
    (hvalue : ∀ d ∈ N.derived, d.target = c → held = d.value (d.inputs w)) :
    KeepsAt (N.Settles T c.index fun d => c ∈ d.sources ∨ d.target = c) Stop.calm w
      (holdAndEmit call c held) := by
  have hassign : KeepsAt (fun _ w₁ => w₁ = w.withCell c fun cell => { cell with held })
      Stop.calm w (hold c held) := rfl
  refine hassign.seq fun _ w₁ _ hw₁ => ?_
  subst hw₁
  have hother : ∀ e : CellId, e ≠ c →
      ((w.withCell c fun cell => { cell with held }).cell e).held = (w.cell e).held := by
    intro e he
    rw [World.cell_withCell, if_neg fun h => he h.1]
  refine (settles_emit hcall (hw.withHeld fun _ => ht) hc).mono (fun {w'} h => ?_) id
  refine ⟨h.stands, fun e => ?_, fun {e} he => ?_, fun {d} hd hX => ?_⟩
  · rw [h.registry, World.cell_withCell]
    split <;> rfl
  · rw [h.below (Nat.lt_succ_of_lt he), hother e fun hec => Nat.lt_irrefl _ (hec ▸ he)]
  · by_cases hsource : c ∈ d.sources
    · exact h.settled hd (.inr hsource)
    · refine h.settled hd (.inl ?_)
      by_cases htarget : d.target = c
      · have hinputs : d.inputs (w.withCell c fun cell => { cell with held }) = d.inputs w :=
          Derivation.inputs_congr fun e he => hother e fun h => hsource (h ▸ he)
        rw [Derivation.Consistent, hinputs, htarget, World.cell_withCell, if_pos ⟨rfl, hw.bound hc⟩]
        exact hvalue d hd htarget
      · have : d.Consistent w := by
          rcases hX with hX | hX | hX
          · exact hX
          · exact absurd hX hsource
          · exact absurd hX htarget
        exact this.withHeld htarget hsource

theorem settles_regenerate (hreads : call.Reads) (hcall : call.SettlesNetwork T N)
    (hw : N.Stands T w) (hd : d ∈ N.derived) {g : Generator} {inputs : List Held}
    (hg : ∀ out w', (g.run call inputs).run w = .ok out w' → out = d.value (d.inputs w)) :
    KeepsAt (N.Settles T d.target.index (· = d)) Stop.calm w
      (regenerate call d.target g inputs) := by
  refine ((reads_generator hreads g inputs).start w).seq fun out w₁ hrun hq => ?_
  have hcell : ∀ c, (w₁.cell c).held = (w.cell c).held := fun c => by rw [hq.cell]
  have hinputs : d.inputs w₁ = d.inputs w := Derivation.inputs_congr fun c _ => hcell c
  have hout : out = d.value (d.inputs w₁) := by
    rw [hg out w₁ hrun, hinputs]
  have hw₁ : N.Stands T w₁ := hw.quiet hq
  have htyped : T d.target out := by
    rw [hout]
    exact hw.typing hd (hw₁.inputs_typed fun e => hw.sources hd)
  have hvalue : ∀ d' ∈ N.derived, d'.target = d.target → out = d'.value (d'.inputs w₁) := by
    intro d' hd' htarget
    rw [hw.targets hd' hd htarget]
    exact hout
  refine (settles_holdAndEmit hcall hw₁ (Derivation.target_mem hd) htyped hvalue).mono
    (fun h => ?_) id
  have := (hw.settles_quiet (k := d.target.index) hq).trans h
  refine this.mono ?_
  rintro d' - rfl
  exact .inr (.inr rfl)

/-- The subscriptions of a derived observable ask for the targets and sources to be alive, which
they are. -/
theorem settles_whileAlive (hw : N.Stands T w) {cells : List CellId}
    (halive : ∀ c ∈ cells, c ∈ N.cells) {act : Run Unit}
    (h : ∀ pins, KeepsAt (N.Settles T k X) Stop.calm (w.pinned pins) act) :
    KeepsAt (N.Settles T k X) Stop.calm w (whileAlive cells act) := by
  refine keepsAt_get_bind ?_
  rw [if_pos]
  · exact (h _).holding Network.Settles.unpinned
  · rw [List.all_eq_true]
    exact fun c hc => hw.alive (halive c hc)

theorem Network.Settles.below_mono {j : Nat} (h : N.Settles T k X w w') (hj : j ≤ k) :
    N.Settles T j X w w' :=
  { h with below := fun hc => h.below (Nat.lt_of_lt_of_le hc hj) }

theorem Derivation.toldBy_unique {d d' : Derivation} {r : Reaction} (h : d.ToldBy T c r)
    (h' : d'.ToldBy T c r) : d.target = d'.target := by
  cases r with
  | derive | combineFirst | combineSecond | combineAll | recompute => exact h.1.symm.trans h'.1
  | _ => exact h.elim

/-- A program that is called back only reads and logs. -/
theorem quiet_watches (hlives : call.Lives) (hw : w.Reading) {r : Reaction} (hr : r.Watches)
    (held : Held) : KeepsAt Quiet Stop.calm w (r.run call held) := by
  have hcall : ∀ {w₁} (program : CallbackId), Quiet w w₁ →
      KeepsAt Quiet Stop.calm w₁ (program.run call) := fun program h =>
    reads_callback hlives.perform (h.evolves.reading hw) program
  cases r with
  | subscriber name program | watch name program =>
    exact keepsAt_get_bind (((reads_log _).start w).bindAt fun _ _ h => hcall _ h)
  | _ => exact hr.elim

/-- A subscription that computes the target anew settles it: it hands on what the sources hold. -/
theorem settles_told (hreads : call.Reads) (hcall : call.SettlesNetwork T N) {n : Nat}
    (hn : call = respond n) (hw : N.Stands T w) (hd : d ∈ N.derived) {r : Reaction}
    (htold : d.ToldBy T c r) :
    KeepsAt (N.Settles T d.target.index (· = d)) Stop.calm w (r.run call (w.cell c).held) := by
  subst hn
  have htarget : d.target ∈ N.cells := Derivation.target_mem hd
  have hsources : ∀ e ∈ d.sources, e ∈ N.cells := fun e he => hw.sources hd he
  have hcomputes : ∀ {g : Generator}, g.Computes T d.sources d.value →
      ∀ pins out w', (g.run (respond n) (d.inputs w)).run (w.pinned pins) = .ok out w' →
        out = d.value (d.inputs w) := fun hg pins out w' =>
    hg n _ w' _ out (hw.inputs_typed hsources)
  have hregenerate : ∀ {g : Generator} (pins : List Entity), g.Computes T d.sources d.value →
      KeepsAt (N.Settles T d.target.index (· = d)) Stop.calm (w.pinned pins)
        (regenerate (respond n) d.target g (d.inputs w)) := fun pins hg =>
    settles_regenerate hreads hcall (hw.repin _) hd (hcomputes hg pins)
  cases r with
  | derive target g =>
    obtain ⟨rfl, hs, hg⟩ := htold
    have hinputs : d.inputs w = [(w.cell c).held] := by rw [Derivation.inputs, hs]; rfl
    refine settles_whileAlive hw (by simpa using htarget) fun pins => ?_
    have := hregenerate pins hg
    rwa [hinputs] at this
  | combineFirst target second g =>
    obtain ⟨rfl, hs, hg⟩ := htold
    have hinputs : d.inputs w = [(w.cell c).held, (w.cell second).held] := by
      rw [Derivation.inputs, hs]
      rfl
    refine settles_whileAlive hw ?_ fun pins => keepsAt_get_bind ?_
    · simpa using ⟨htarget, hsources second (by simp [hs])⟩
    · have := hregenerate pins hg
      rwa [hinputs] at this
  | combineSecond target first g =>
    obtain ⟨rfl, hs, hg⟩ := htold
    have hinputs : d.inputs w = [(w.cell first).held, (w.cell c).held] := by
      rw [Derivation.inputs, hs]
      rfl
    refine settles_whileAlive hw ?_ fun pins => keepsAt_get_bind ?_
    · simpa using ⟨htarget, hsources first (by simp [hs])⟩
    · have := hregenerate pins hg
      rwa [hinputs] at this
  | combineAll target sources g =>
    obtain ⟨rfl, rfl, hg⟩ := htold
    refine settles_whileAlive hw ?_ fun pins => keepsAt_get_bind (hregenerate pins hg)
    rintro e he
    rcases List.mem_cons.1 he with rfl | he
    · exact htarget
    · exact hsources e he
  | recompute target g =>
    obtain ⟨rfl, hg⟩ := htold
    refine settles_whileAlive hw (by simpa using htarget) fun pins => ?_
    exact settles_regenerate hreads hcall (hw.repin _) hd fun out w' hrun =>
      hg n _ w' out (fun e he => hw.typed (hsources e he)) hrun
  | _ => exact htold.elim

theorem settlesNetwork (n : Nat) : (respond n).SettlesNetwork T N := by
  induction n with
  | zero => exact fun _ _ _ => trivial
  | succ n ih =>
    intro w c key r hw hc hr
    show KeepsAt _ _ w (r.run (respond n) (w.cell c).held)
    rcases hw.known hc hr with hwatch | ⟨d, hd, hsource, htold⟩
    · refine (quiet_watches (respond_lives n) hw.reading hwatch _).mono (fun h => ?_) id
      refine (hw.settles_quiet h).mono fun d _ htold => ?_
      cases r with
      | subscriber | watch => exact htold
      | _ => exact hwatch.elim
    · have hlater : c.index + 1 ≤ d.target.index := hw.earlier hd hsource
      refine (settles_told (respond_lives n).reads ih rfl hw hd htold).mono (fun h => ?_) id
      refine (h.below_mono hlater).mono fun d' hd' htold' => ?_
      exact hw.targets hd' hd (Derivation.toldBy_unique htold' htold)

end

end LivePage
