import LivePage.Proofs.Network.Generators

/-!
# Networks as they are made

States are made, observables are derived from what is there already, programs subscribe, and states
are updated, in any order. After each such action the network stands and is at rest.
-/

namespace LivePage

open LivePage.Script

variable {T : Typing} {N : Network} {w w' w'' : World} {c : CellId} {d : Derivation} {n : Nat}

/-! ## New observables -/

namespace Network

def addState (N : Network) (c : CellId) : Network := { N with states := N.states ++ [c] }

def derive (N : Network) (d : Derivation) : Network := { N with derived := N.derived ++ [d] }

theorem mem_cells_addState {c e : CellId} :
    e ∈ (N.addState c).cells ↔ e ∈ N.cells ∨ e = c := by
  simp only [cells, addState, List.mem_append, List.mem_singleton]
  tauto

theorem mem_cells_derive {e : CellId} :
    e ∈ (N.derive d).cells ↔ e ∈ N.cells ∨ e = d.target := by
  simp only [cells, derive, List.map_append, List.mem_append, List.map_cons, List.map_nil,
    List.mem_singleton, or_assoc]

theorem mem_derive {e : Derivation} : e ∈ (N.derive d).derived ↔ e ∈ N.derived ∨ e = d := by
  simp [derive]

/-- The number of the next observable is not that of one in the network. -/
theorem Laid.index_ne (hw : N.Laid T w) (hc : c ∈ N.cells) : c.index ≠ w.cells.size :=
  Nat.ne_of_lt (hw.bound hc)

theorem Laid.addState (hw : N.Laid T w) {x : Cell} (hx : x.registry = [])
    (ht : T ⟨w.cells.size⟩ x.held) : (N.addState ⟨w.cells.size⟩).Laid T (w.grown x) := by
  have hold : ∀ {c}, c ∈ N.cells → (w.grown x).cell c = w.cell c := fun hc =>
    World.cell_grown_of_lt (hw.bound hc)
  have hnew : (w.grown x).cell ⟨w.cells.size⟩ = x := by rw [World.cell_grown, if_pos rfl]
  have hsize : (w.grown x).cells.size = w.cells.size + 1 := Array.size_push ..
  refine {
    reading := hw.reading
    keyed := hw.keyed.grown hx
    bound := fun hc => ?_
    typed := fun hc => ?_
    known := fun {c s} hc hs => ?_
    sources := fun hd hc => mem_cells_addState.2 (.inl (hw.sources hd hc))
    earlier := hw.earlier
    targets := hw.targets
    states := fun {c d} hc hd => ?_
    typing := hw.typing }
  · rcases mem_cells_addState.1 hc with hc | rfl
    · rw [hsize]
      exact Nat.lt_succ_of_lt (hw.bound hc)
    · rw [hsize]
      exact Nat.lt_succ_self _
  · rcases mem_cells_addState.1 hc with hc | rfl
    · rw [hold hc]
      exact hw.typed hc
    · rw [hnew]
      exact ht
  · rcases mem_cells_addState.1 hc with hc | rfl
    · rw [hold hc] at hs
      exact hw.known hc hs
    · rw [hnew, hx] at hs
      cases hs
  · rcases List.mem_append.1 hc with hc | hc
    · exact hw.states hc hd
    · rw [List.mem_singleton.1 hc]
      intro h
      exact hw.index_ne (Derivation.target_mem hd) (congrArg CellId.index h)

theorem Laid.derive (hw : N.Laid T w) {x : Cell} (hx : x.registry = [])
    (htarget : d.target = ⟨w.cells.size⟩) (hsources : ∀ c ∈ d.sources, c ∈ N.cells)
    (ht : T d.target x.held)
    (htyping : ∀ inputs, List.Forall₂ T d.sources inputs → T d.target (d.value inputs)) :
    (N.derive d).Laid T (w.grown x) := by
  have hold : ∀ {c}, c ∈ N.cells → (w.grown x).cell c = w.cell c := fun hc =>
    World.cell_grown_of_lt (hw.bound hc)
  have hnew : (w.grown x).cell d.target = x := by
    rw [World.cell_grown, if_pos (by rw [htarget])]
  have hsize : (w.grown x).cells.size = w.cells.size + 1 := Array.size_push ..
  have hindex : d.target.index = w.cells.size := by rw [htarget]
  have hfresh : ∀ {e : Derivation}, e ∈ N.derived → e.target ≠ d.target := fun he h =>
    hw.index_ne (Derivation.target_mem he) ((congrArg CellId.index h).trans hindex)
  refine {
    reading := hw.reading
    keyed := hw.keyed.grown hx
    bound := fun hc => ?_
    typed := fun hc => ?_
    known := fun {c s} hc hs => ?_
    sources := fun {e c} he hc => ?_
    earlier := fun {e c} he hc => ?_
    targets := fun {e e'} he he' h => ?_
    states := fun {c e} hc he => ?_
    typing := fun {e inputs} he => ?_ }
  · rw [hsize]
    rcases mem_cells_derive.1 hc with hc | rfl
    · exact Nat.lt_succ_of_lt (hw.bound hc)
    · exact Nat.lt_succ_of_le (Nat.le_of_eq hindex)
  · rcases mem_cells_derive.1 hc with hc | rfl
    · rw [hold hc]
      exact hw.typed hc
    · rw [hnew]
      exact ht
  · rcases mem_cells_derive.1 hc with hc | rfl
    · rw [hold hc] at hs
      refine (hw.known hc hs).imp_right ?_
      rintro ⟨e, he, hce, htold⟩
      exact ⟨e, mem_derive.2 (.inl he), hce, htold⟩
    · rw [hnew, hx] at hs
      cases hs
  · refine mem_cells_derive.2 (.inl ?_)
    rcases mem_derive.1 he with he | rfl
    · exact hw.sources he hc
    · exact hsources c hc
  · rcases mem_derive.1 he with he | rfl
    · exact hw.earlier he hc
    · rw [hindex]
      exact hw.bound (hsources c hc)
  · rcases mem_derive.1 he with he | hed <;> rcases mem_derive.1 he' with he' | hed'
    · exact hw.targets he he' h
    · exact absurd (h.trans (by rw [hed'])) (hfresh he)
    · exact absurd (h.symm.trans (by rw [hed])) (hfresh he')
    · rw [hed, hed']
  · rcases mem_derive.1 he with he | rfl
    · exact hw.states hc he
    · intro h
      exact hw.index_ne (mem_states hc) ((congrArg CellId.index h).symm.trans hindex)
  · rcases mem_derive.1 he with he | rfl
    · exact hw.typing he
    · exact htyping inputs

end Network

/-! ## New subscriptions -/

/-- Nothing has happened but that there are more subscriptions. -/
structure Listens (w w' : World) : Prop where
  size : w'.cells.size = w.cells.size
  held (c : CellId) : (w'.cell c).held = (w.cell c).held
  registry (c : CellId) : ∀ s ∈ (w.cell c).registry, s ∈ (w'.cell c).registry
  names : w'.names = w.names

theorem Listens.refl (w : World) : Listens w w := ⟨rfl, fun _ => rfl, fun _ _ h => h, rfl⟩

theorem Listens.trans (h : Listens w w') (h' : Listens w' w'') : Listens w w'' :=
  ⟨h'.size.trans h.size, fun c => (h'.held c).trans (h.held c),
    fun c s hs => h'.registry c s (h.registry c s hs), h'.names.trans h.names⟩

theorem listens_subscribed (hk : w.Keyed) (c : CellId) (r : Reaction) :
    Listens w (w.subscribed c r) where
  size := by simp [World.subscribed, World.withCell]
  held e := World.held_subscribed w c e r
  registry e s hs := by
    rw [World.registry_subscribed hk]
    split
    · exact List.mem_append_left _ hs
    · exact hs
  names := rfl

namespace Network

theorem Laid.subscribed (hw : N.Laid T w) {r : Reaction}
    (hr : r.Watches ∨ ∃ d ∈ N.derived, c ∈ d.sources ∧ d.ToldBy T c r) :
    N.Laid T (w.subscribed c r) :=
  have hl := listens_subscribed hw.keyed c r
  { hw with
    reading := hw.reading
    keyed := hw.keyed.subscribed c r
    bound := fun hc => by rw [hl.size]; exact hw.bound hc
    typed := fun hc => by rw [hl.held]; exact hw.typed hc
    known := fun {e s} he hs => by
      rw [World.registry_subscribed hw.keyed] at hs
      split at hs
      · next h =>
        rcases List.mem_append.1 hs with hs | hs
        · exact hw.known he hs
        · rw [List.mem_singleton.1 hs, h.1]
          exact hr
      · exact hw.known he hs }

/-- A subscription by which a source tells what is derived. -/
theorem Laid.told_subscribed (hw : N.Laid T w) (hd : d ∈ N.derived) {r : Reaction}
    (hc : c ∈ d.sources) (htold : d.ToldBy T c r) :
    N.Laid T (w.subscribed c r) ∧ Listens w (w.subscribed c r) ∧
      ∃ s ∈ ((w.subscribed c r).cell c).registry, d.ToldBy T c s.2 := by
  refine ⟨hw.subscribed (.inr ⟨d, hd, hc, htold⟩), listens_subscribed hw.keyed c r,
    (w.nextKey, r), ?_, htold⟩
  rw [World.registry_subscribed hw.keyed, if_pos ⟨rfl, hw.bound (hw.sources hd hc)⟩]
  exact List.mem_append_right _ List.mem_cons_self

/-- After the subscriptions of one kind to some sources, each of these tells what is derived. -/
theorem Laid.subscribeToAll (hw : N.Laid T w) (hd : d ∈ N.derived) {r : Reaction}
    {sources : List CellId} (hsources : ∀ c ∈ sources, c ∈ d.sources ∧ d.ToldBy T c r)
    (h : (subscribeToAll r sources).run w = .ok ⟨⟩ w') :
    N.Laid T w' ∧ Listens w w' ∧
      ∀ c ∈ sources, ∃ s ∈ (w'.cell c).registry, d.ToldBy T c s.2 := by
  induction sources generalizing w with
  | nil =>
    obtain ⟨-, rfl⟩ := ok_pure.1 h
    exact ⟨hw, .refl _, by simp⟩
  | cons c rest ih =>
    obtain ⟨key, w₁, hsub, h⟩ := ok_bind.1 h
    rw [run_subscribe] at hsub
    cases hsub
    obtain ⟨hc, htold⟩ := hsources c (by simp)
    obtain ⟨hw₁, hl₁, s, hs, hsd⟩ := hw.told_subscribed hd hc htold
    obtain ⟨hw', hl, hall⟩ := ih hw₁ (fun e he => hsources e (by simp [he])) h
    refine ⟨hw', hl₁.trans hl, fun e he => ?_⟩
    rcases List.mem_cons.1 he with rfl | he
    · exact ⟨s, hl.registry _ _ hs, hsd⟩
    · exact hall e he

end Network

/-! ## Names -/

/-- Nothing goes by the name yet. -/
def World.Unnamed (w : World) (as : String) : Prop :=
  as ∉ w.names.observables.map Prod.fst

namespace Network

theorem Laid.calling (hw : N.Laid T w) (as : String) (c : CellId) :
    N.Laid T (w.calling as c) :=
  { hw with }

theorem named_calling {as : String} (h : w.Unnamed as) {e : CellId}
    (he : e = c ∨ ∃ name, (name, e) ∈ w.names.observables) :
    ∃ name, (name, e) ∈ (w.calling as c).names.observables := by
  show ∃ name, (name, e) ∈ Entries.set as c w.names.observables
  rw [Entries.set_of_notMem h]
  rcases he with rfl | ⟨name, hn⟩
  · exact ⟨as, by simp⟩
  · exact ⟨name, by simp [hn]⟩

/-! ## Deriving -/

/-- What has to be known of something that is derived next. -/
structure Fits (T : Typing) (N : Network) (w : World) (d : Derivation) : Prop where
  target : d.target = ⟨w.cells.size⟩
  sources {c : CellId} : c ∈ d.sources → c ∈ N.cells
  typing {inputs : List Held} : List.Forall₂ T d.sources inputs → T d.target (d.value inputs)

/-- The world once the new observable is there. -/
def derivedWorld (w : World) (type : ValueType) (out : Held) : World :=
  w.grown { flavour := .derived, type, held := out }

theorem run_newDerived (type : ValueType) (out : Held) (w : World) :
    (newDerived type out).run w = .ok ⟨w.cells.size⟩ (derivedWorld w type out) := rfl

theorem Stands.laid_derived (hw : N.Stands T w) (hf : N.Fits T w d) (hq : Quiet w w')
    (type : ValueType) : (N.derive d).Laid T (derivedWorld w' type (d.value (d.inputs w))) := by
  have hsize : w'.cells.size = w.cells.size := by rw [hq.cells]
  refine (hw.quiet hq).toLaid.derive rfl (by rw [hsize]; exact hf.target) (fun c => hf.sources) ?_
    fun inputs => hf.typing
  exact hf.typing (hw.inputs_typed fun c => hf.sources)

/-- By this run the observable `c` has been made as `d` says, and its sources tell it. -/
def Derives (T : Typing) (N : Network) (d : Derivation) (w : World) (c : CellId) (w' : World) :
    Prop :=
  c = d.target ∧ (N.derive d).Laid T w' ∧
    (∃ w₁ type, Quiet w w₁ ∧ Listens (derivedWorld w₁ type (d.value (d.inputs w))) w') ∧
    ∀ c ∈ d.sources, ∃ s ∈ (w'.cell c).registry, d.ToldBy T c s.2

/-- What is derived stands and is at rest once it has its name. -/
theorem Stands.derived (hw : N.Stands T w) (hrest : N.AtRest w) (hf : N.Fits T w d)
    {as : String} (has : w.Unnamed as) (h : N.Derives T d w c w') :
    (N.derive d).Stands T (w'.calling as c) ∧ (N.derive d).AtRest (w'.calling as c) := by
  obtain ⟨rfl, hlaid, ⟨w₁, type, hq, hl⟩, htold⟩ := h
  have hsize : w₁.cells.size = w.cells.size := by rw [hq.cells]
  have hcell : ∀ {c}, c ∈ N.cells →
      (derivedWorld w₁ type (d.value (d.inputs w))).cell c = w.cell c := fun {c} hc => by
    rw [derivedWorld, World.cell_grown_of_lt (by rw [hsize]; exact hw.bound hc), hq.cell]
  have hheld : ∀ {c}, c ∈ N.cells → (w'.cell c).held = (w.cell c).held := fun hc => by
    rw [hl.held, hcell hc]
  have hnames : w'.names = w.names := hl.names.trans hq.names
  have hunnamed : w'.Unnamed as := by rwa [World.Unnamed, hnames]
  constructor
  · refine ⟨hlaid.calling as d.target, fun {e} he => ?_, fun {e c} he hc => ?_⟩
    · refine named_calling hunnamed ?_
      rw [hnames]
      exact (mem_cells_derive.1 he).symm.imp_right hw.named
    · rcases mem_derive.1 he with he | rfl
      · obtain ⟨s, hs, ht⟩ := hw.told he hc
        refine ⟨s, hl.registry c s ?_, ht⟩
        rwa [hcell (hw.sources he hc)]
      · exact htold c hc
  · intro e he
    show e.Consistent w'
    rcases mem_derive.1 he with he | rfl
    · rw [Derivation.consistent_congr (w := w) (fun c hc => hheld (hw.sources he hc))
        (hheld (Derivation.target_mem he))]
      exact hrest e he
    · have hinputs : e.inputs w' = e.inputs w :=
        Derivation.inputs_congr fun c hc => hheld (hf.sources hc)
      have hindex : e.target.index = w₁.cells.size := by rw [hf.target, hsize]
      rw [Derivation.Consistent, hl.held, derivedWorld, World.cell_grown, if_pos hindex, hinputs]

theorem Stands.derives_one (hw : N.Stands T w) (hf : N.Fits T w d) {type : ValueType}
    {source : CellId} {g : Generator} (hs : d.sources = [source])
    (hg : g.Computes T d.sources d.value)
    (h : (deriveFrom (respond n) type source g).run w = .ok c w') : N.Derives T d w c w' := by
  obtain ⟨out, w₁, hrun, h⟩ := ok_bind.1 (ok_get_bind.1 h)
  have hq : Quiet w w₁ := (reads_generator (respond_reads n) g _).ok hrun
  have hinputs : d.inputs w = [(w.cell source).held] := by rw [Derivation.inputs, hs]; rfl
  rw [← hinputs] at hrun
  obtain rfl := hg n w w₁ _ out (hw.inputs_typed fun c => hf.sources) hrun
  have htarget : (⟨w₁.cells.size⟩ : CellId) = d.target := by rw [hf.target, hq.cells]
  obtain ⟨target, w₂, hnew, h⟩ := ok_bind.1 h
  rw [run_newDerived] at hnew
  cases hnew
  obtain ⟨key, w₃, hsub, h⟩ := ok_bind.1 h
  rw [run_subscribe] at hsub
  cases hsub
  obtain ⟨rfl, rfl⟩ := ok_pure.1 h
  have hmem : source ∈ d.sources := by simp [hs]
  obtain ⟨hlaid, hl, htold⟩ := (hw.laid_derived hf hq type).told_subscribed
    (mem_derive.2 (.inr rfl)) hmem (r := .derive ⟨w₁.cells.size⟩ g) ⟨htarget, hs, hg⟩
  refine ⟨htarget, hlaid, ⟨w₁, type, hq, hl⟩, ?_⟩
  rw [hs]
  simpa using htold

theorem Stands.derives_two (hw : N.Stands T w) (hf : N.Fits T w d) {type : ValueType}
    {first second : CellId} {g : Generator} (hs : d.sources = [first, second])
    (hg : g.Computes T d.sources d.value)
    (h : (deriveFromTwo (respond n) type first second g).run w = .ok c w') :
    N.Derives T d w c w' := by
  obtain ⟨out, w₁, hrun, h⟩ := ok_bind.1 (ok_get_bind.1 h)
  have hq : Quiet w w₁ := (reads_generator (respond_reads n) g _).ok hrun
  have hinputs : d.inputs w = [(w.cell first).held, (w.cell second).held] := by
    rw [Derivation.inputs, hs]
    rfl
  rw [← hinputs] at hrun
  obtain rfl := hg n w w₁ _ out (hw.inputs_typed fun c => hf.sources) hrun
  have htarget : (⟨w₁.cells.size⟩ : CellId) = d.target := by rw [hf.target, hq.cells]
  obtain ⟨target, w₂, hnew, h⟩ := ok_bind.1 h
  rw [run_newDerived] at hnew
  cases hnew
  obtain ⟨key, w₃, hsub, h⟩ := ok_bind.1 h
  rw [run_subscribe] at hsub
  cases hsub
  obtain ⟨key', w₄, hsub, h⟩ := ok_bind.1 h
  rw [run_subscribe] at hsub
  cases hsub
  obtain ⟨rfl, rfl⟩ := ok_pure.1 h
  have hd : d ∈ (N.derive d).derived := mem_derive.2 (.inr rfl)
  have hfirst : first ∈ d.sources := by simp [hs]
  have hsecond : second ∈ d.sources := by simp [hs]
  obtain ⟨hlaid₁, hl₁, s, hmem, htold⟩ := (hw.laid_derived hf hq type).told_subscribed hd hfirst
    (r := .combineFirst ⟨w₁.cells.size⟩ second g) ⟨htarget, hs, hg⟩
  obtain ⟨hlaid, hl, htold'⟩ := hlaid₁.told_subscribed hd hsecond
    (r := .combineSecond ⟨w₁.cells.size⟩ first g) ⟨htarget, hs, hg⟩
  refine ⟨htarget, hlaid, ⟨w₁, type, hq, hl₁.trans hl⟩, fun c hc => ?_⟩
  rw [hs] at hc
  rcases List.mem_cons.1 hc with rfl | hc
  · exact ⟨s, hl.registry _ _ hmem, htold⟩
  · rw [List.mem_singleton.1 hc]
    exact htold'

/-- What is made before the sources are subscribed to, when all are in the same way. -/
theorem Stands.derives_each (hw : N.Stands T w) (hf : N.Fits T w d) {type : ValueType}
    {w₁ : World} (hq : Quiet w w₁) {r : CellId → Reaction}
    (hr : ∀ c ∈ d.sources, d.ToldBy T c (r d.target))
    (h : (do
      let target ← newDerived type (d.value (d.inputs w))
      LivePage.subscribeToAll (r target) d.sources
      return target : Run CellId).run w₁ = .ok c w') : N.Derives T d w c w' := by
  have htarget : (⟨w₁.cells.size⟩ : CellId) = d.target := by rw [hf.target, hq.cells]
  obtain ⟨target, w₂, hnew, h⟩ := ok_bind.1 h
  rw [run_newDerived] at hnew
  cases hnew
  obtain ⟨⟨⟩, w₃, hsub, h⟩ := ok_bind.1 h
  obtain ⟨rfl, rfl⟩ := ok_pure.1 h
  rw [htarget] at hsub
  obtain ⟨hlaid, hl, htold⟩ := (hw.laid_derived hf hq type).subscribeToAll
    (mem_derive.2 (.inr rfl)) (fun c hc => ⟨hc, hr c hc⟩) hsub
  exact ⟨htarget, hlaid, ⟨w₁, type, hq, hl⟩, htold⟩

theorem Stands.derives_all (hw : N.Stands T w) (hf : N.Fits T w d) {type : ValueType}
    {g : Generator} (hg : g.Computes T d.sources d.value)
    (h : (deriveFromAll (respond n) type d.sources g).run w = .ok c w') :
    N.Derives T d w c w' := by
  obtain ⟨out, w₁, hrun, h⟩ := ok_bind.1 (ok_get_bind.1 h)
  have hq : Quiet w w₁ := (reads_generator (respond_reads n) g _).ok hrun
  obtain rfl := hg n w w₁ _ out (hw.inputs_typed fun c => hf.sources) hrun
  exact hw.derives_each hf hq (r := fun target => .combineAll target d.sources g)
    (fun c _ => ⟨rfl, rfl, hg⟩) h

theorem Stands.derives_any (hw : N.Stands T w) (hf : N.Fits T w d) {type : ValueType}
    {g : Generator} (hg : g.Looks T d.sources d.value)
    (h : (deriveFromAny (respond n) type d.sources g).run w = .ok c w') :
    N.Derives T d w c w' := by
  obtain ⟨out, w₁, hrun, h⟩ := ok_bind.1 h
  have hq : Quiet w w₁ := (reads_generator (respond_reads n) g _).ok hrun
  obtain rfl := hg n w w₁ out (fun c hc => hw.typed (hf.sources hc)) hrun
  exact hw.derives_each hf hq (r := fun target => .recompute target g) (fun c _ => ⟨rfl, hg⟩) h

/-! ## Actions -/

/-- What is done to a network: making a state or something derived, under a name; subscribing a
program, with or without regard to the type; updating a state. -/
inductive Action where
  | state (as : String) (checkers : List Checker) (type : ValueType) (held : Held)
  | one (as : String) (type : ValueType) (source : CellId) (g : Generator)
  | two (as : String) (type : ValueType) (first second : CellId) (g : Generator)
  | all (as : String) (type : ValueType) (sources : List CellId) (g : Generator)
  | any (as : String) (type : ValueType) (sources : List CellId) (g : Generator)
  | text (as : String) (segments : List String) (sources : List CellId)
  | subscribe (c : CellId) (typed : Bool) (handler : String) (acts : List Step) (times : Nat)
  | update (c : CellId) (held : Held)

/-- Names what an operation makes. -/
def making (as : String) (make : Run CellId) : Run Unit := do
  let c ← make
  nameCell as c

def Action.perform (call : Respond) : Action → Run Unit
  | .state as checkers type held => making as (newCell (.state checkers) type held)
  | .one as type source g => making as (deriveFrom call type source g)
  | .two as type first second g => making as (deriveFromTwo call type first second g)
  | .all as type sources g => making as (deriveFromAll call type sources g)
  | .any as type sources g => making as (deriveFromAny call type sources g)
  | .text as segments sources => making as (deriveText call segments (sources.map .observable))
  | .subscribe c typed handler acts times => do
    let program ← newCallback acts times
    let _ ← LivePage.subscribe c
      (if typed then .subscriber handler program else .watch handler program)
  | .update c held => do
    let _ ← updateState call c held

/-- The action fits the network, which becomes `N'` by it: names are new, values have their types,
generators are functions of the sources, and programs only read and log. -/
inductive Allows (T : Typing) (N : Network) (w : World) : Action → Network → Prop where
  | state {as : String} {checkers : List Checker} {type : ValueType} {held : Held} :
      w.Unnamed as → T ⟨w.cells.size⟩ held →
      Allows T N w (.state as checkers type held) (N.addState ⟨w.cells.size⟩)
  | one {as : String} {type : ValueType} {d : Derivation} {source : CellId} {g : Generator} :
      w.Unnamed as → N.Fits T w d → d.sources = [source] → g.Computes T d.sources d.value →
      Allows T N w (.one as type source g) (N.derive d)
  | two {as : String} {type : ValueType} {d : Derivation} {first second : CellId}
      {g : Generator} :
      w.Unnamed as → N.Fits T w d → d.sources = [first, second] →
      g.Computes T d.sources d.value →
      Allows T N w (.two as type first second g) (N.derive d)
  | all {as : String} {type : ValueType} {d : Derivation} {g : Generator} :
      w.Unnamed as → N.Fits T w d → g.Computes T d.sources d.value →
      Allows T N w (.all as type d.sources g) (N.derive d)
  | any {as : String} {type : ValueType} {d : Derivation} {g : Generator} :
      w.Unnamed as → N.Fits T w d → g.Looks T d.sources d.value →
      Allows T N w (.any as type d.sources g) (N.derive d)
  | text {as : String} {segments : List String} {d : Derivation} :
      w.Unnamed as → N.Fits T w d →
      d.value = (fun inputs => .value (.str (interleaved segments inputs))) →
      (∀ c ∈ d.sources, ∀ held, T c held → ∃ x, held = .value (.scalar x)) →
      Allows T N w (.text as segments d.sources) (N.derive d)
  | subscribe {c : CellId} {typed : Bool} {handler : String} {acts : List Step} {times : Nat} :
      ReadsOnly acts → Allows T N w (.subscribe c typed handler acts times) N
  | update {c : CellId} {held : Held} : c ∈ N.states → T c held → Allows T N w (.update c held) N

theorem deriveText_observables (call : Respond) (segments : List String)
    (sources : List CellId) :
    deriveText call segments (sources.map .observable) =
      deriveFromAny call .str sources (.template segments (sources.map .observable)) := by
  simp only [deriveText, List.filterMap_map, Function.comp_def, List.filterMap_some]

/-! ## What actions do -/

theorem Stands.addState (hw : N.Stands T w) (hrest : N.AtRest w) {as : String} {x : Cell}
    (hx : x.registry = []) (has : w.Unnamed as) (ht : T ⟨w.cells.size⟩ x.held) :
    (N.addState ⟨w.cells.size⟩).Stands T ((w.grown x).calling as ⟨w.cells.size⟩) ∧
      (N.addState ⟨w.cells.size⟩).AtRest ((w.grown x).calling as ⟨w.cells.size⟩) := by
  have hcell : ∀ {c}, c ∈ N.cells → (w.grown x).cell c = w.cell c := fun hc =>
    World.cell_grown_of_lt (hw.bound hc)
  constructor
  · refine ⟨(hw.toLaid.addState hx ht).calling as _, fun {e} he => ?_, fun {e c} he hc => ?_⟩
    · exact named_calling (w := w.grown x) has ((mem_cells_addState.1 he).symm.imp_right hw.named)
    · show ∃ s ∈ ((w.grown x).cell c).registry, e.ToldBy T c s.2
      rw [hcell (hw.sources he hc)]
      exact hw.told he hc
  · intro e he
    show e.Consistent (w.grown x)
    rw [Derivation.consistent_congr (w := w) (fun c hc => by rw [hcell (hw.sources he hc)])
      (by rw [hcell (Derivation.target_mem he)])]
    exact hrest e he

/-- An update of a state settles the network again. -/
theorem Stands.update (hw : N.Stands T w) (hrest : N.AtRest w) (hc : c ∈ N.states) {held : Held}
    (ht : T c held) :
    KeepsAt (fun _ w' => N.Stands T w' ∧ N.AtRest w') Stop.calm w
      (updateState (respond n) c held) := by
  refine keepsAt_get_bind ?_
  refine ((reads_allAccept (respond_reads n) _ _ _).start w).seq fun b w₁ _ hq => ?_
  have hw₁ := hw.quiet hq
  have hrest₁ : N.AtRest w₁ := fun d hd =>
    (hw.settles_quiet (k := 0) hq).settled hd (.inl (hrest d hd))
  cases b with
  | false => exact ⟨hw₁, hrest₁⟩
  | true =>
    have hsettle := settles_holdAndEmit (settlesNetwork n) hw₁ (mem_states hc) ht
      fun d hd htarget => absurd htarget (hw.states hc hd)
    refine hsettle.seq fun _ w₂ _ h => ?_
    exact ⟨h.stands, fun d hd => h.settled hd (.inl (hrest₁ d hd))⟩

theorem Stands.subscribe (hw : N.Stands T w) (hrest : N.AtRest w) {typed : Bool}
    {handler : String} {acts : List Step} {times : Nat} (hacts : ReadsOnly acts)
    {call : Respond}
    (h : ((Action.subscribe c typed handler acts times).perform call).run w = .ok ⟨⟩ w') :
    N.Stands T w' ∧ N.AtRest w' := by
  obtain ⟨program, w₁, hnew, h⟩ := ok_bind.1 h
  cases hnew
  obtain ⟨key, w₂, hsub, h⟩ := ok_bind.1 h
  rw [run_subscribe] at hsub
  cases hsub
  obtain ⟨-, rfl⟩ := ok_pure.1 h
  have hreading : ({ w with callbacks := w.callbacks.push ⟨acts, times⟩ } : World).Reading := by
    intro acts' hmem
    simp only [Array.map_push, Array.mem_push] at hmem
    rcases hmem with hmem | rfl
    · exact hw.reading acts' hmem
    · exact hacts
  have hw₁ : N.Stands T { w with callbacks := w.callbacks.push ⟨acts, times⟩ } :=
    hw.of_cells hreading rfl rfl rfl
  have hwatches : ∀ program : CallbackId,
      (if typed then Reaction.subscriber handler program else .watch handler program).Watches := by
    intro program
    cases typed <;> trivial
  have hl := listens_subscribed hw₁.keyed c
    (if typed then Reaction.subscriber handler ⟨w.callbacks.size⟩ else .watch handler ⟨w.callbacks.size⟩)
  refine ⟨⟨hw₁.toLaid.subscribed (.inl (hwatches _)), fun he => ?_, fun he hc => ?_⟩,
    fun d hd => ?_⟩
  · rw [hl.names]
    exact hw₁.named he
  · obtain ⟨s, hs, htold⟩ := hw₁.told he hc
    exact ⟨s, hl.registry _ _ hs, htold⟩
  · rw [Derivation.consistent_congr (w := w) (fun e _ => hl.held e) (hl.held _)]
    exact hrest d hd

/-- One action. -/
theorem Stands.perform (hw : N.Stands T w) (hrest : N.AtRest w) {a : Action} {N' : Network}
    (ha : N.Allows T w a N') (h : (a.perform (respond n)).run w = .ok ⟨⟩ w') :
    N'.Stands T w' ∧ N'.AtRest w' := by
  have hmaking : ∀ {as : String} {make : Run CellId} {d : Derivation},
      (making as make).run w = .ok ⟨⟩ w' → w.Unnamed as → N.Fits T w d →
      (∀ {c w₁}, make.run w = .ok c w₁ → N.Derives T d w c w₁) →
      (N.derive d).Stands T w' ∧ (N.derive d).AtRest w' := by
    intro as make d h has hf hmake
    obtain ⟨c, w₁, hrun, hname⟩ := ok_bind.1 h
    rw [run_nameCell] at hname
    cases hname
    exact hw.derived hrest hf has (hmake hrun)
  cases ha with
  | @state as checkers type held has ht =>
    cases h
    exact hw.addState hrest rfl has ht
  | one has hf hs hg => exact hmaking h has hf fun hrun => hw.derives_one hf hs hg hrun
  | two has hf hs hg => exact hmaking h has hf fun hrun => hw.derives_two hf hs hg hrun
  | all has hf hg => exact hmaking h has hf fun hrun => hw.derives_all hf hg hrun
  | any has hf hg => exact hmaking h has hf fun hrun => hw.derives_any hf hg hrun
  | @text as segments d has hf hv hscalar =>
    refine hmaking h has hf fun hrun => ?_
    have hg := looks_template segments hscalar
    rw [← hv] at hg
    rw [deriveText_observables] at hrun
    exact hw.derives_any hf hg hrun
  | subscribe hacts => exact hw.subscribe hrest hacts h
  | update hc ht =>
    obtain ⟨b, w₁, hrun, h⟩ := ok_bind.1 h
    obtain ⟨-, rfl⟩ := ok_pure.1 h
    exact (hw.update hrest hc ht).ok hrun

/-- The networks and worlds that actions lead to, from a world whose callbacks only read and log. -/
inductive Reached (T : Typing) : Network → World → Prop where
  | start {w : World} : w.Reading → w.Keyed → Reached T ⟨[], []⟩ w
  | perform {N N' : Network} {w w' : World} {a : Action} {n : Nat} : Reached T N w →
      N.Allows T w a N' → (a.perform (respond n)).run w = .ok ⟨⟩ w' → Reached T N' w'

theorem Reached.stands (h : N.Reached T w) : N.Stands T w ∧ N.AtRest w := by
  induction h with
  | start hr hk =>
    refine ⟨⟨⟨hr, hk, ?_, ?_, ?_, ?_, ?_, ?_, ?_, ?_⟩, ?_, ?_⟩, ?_⟩ <;> simp [cells, AtRest]
  | perform _ ha hrun ih => exact ih.1.perform ih.2 ha hrun

/-- Whatever has been made and updated before: when an update of a state returns, everything that is
derived holds what its generator gives for the values that its sources hold then. -/
theorem Reached.consistent_after_update (h : N.Reached T w) (hc : c ∈ N.states) {held : Held}
    (ht : T c held) {b : Bool} (hrun : (updateState (respond n) c held).run w = .ok b w')
    (hd : d ∈ N.derived) : (w'.cell d.target).held = d.value (d.inputs w') :=
  ((h.stands.1.update h.stands.2 hc ht).ok hrun).2 d hd

/-! ### Two ways from a number to a sum -/

/-- The world that a run leaves. -/
def ends {α : Type} (x : Run α) (w : World) : World :=
  match x.run w with
  | .ok _ w' | .error _ w' => w'

def returns {α : Type} [DecidableEq α] (x : Run α) (a : α) (w : World) : Bool :=
  match x.run w with
  | .ok b _ => decide (b = a)
  | .error .. => false

theorem run_of_returns {α : Type} [DecidableEq α] {x : Run α} {a : α}
    (h : returns x a w = true) : x.run w = .ok a (ends x w) := by
  unfold returns at h
  unfold ends
  split at h
  · next hx => rw [hx, of_decide_eq_true h]
  · contradiction

def number : Action := .state "number" [] .any (.value (.scalar (.int 1)))

def next : Derivation :=
  ⟨⟨1⟩, [⟨0⟩], fun inputs => .value (((Entries.get? "v0" (inputContext inputs)).getD .empty).add
    (.scalar (.int 1)))⟩

def sum : Derivation :=
  ⟨⟨2⟩, [⟨0⟩, ⟨1⟩], fun inputs =>
    .value (((Entries.get? "v0" (inputContext inputs)).getD .empty).add
      ((Entries.get? "v1" (inputContext inputs)).getD .empty))⟩

theorem sum_value (i j : Int64) :
    sum.value [.value (.scalar (.int i)), .value (.scalar (.int j))] =
      .value (.scalar (.int (i + j))) := by
  have h0 : "v" ++ toString 0 = "v0" := by decide
  have h1 : "v" ++ toString 1 = "v1" := by decide
  have hc : inputContext [.value (.scalar (.int i)), .value (.scalar (.int j))] =
      [("v0", .scalar (.int i)), ("v1", .scalar (.int j))] := by
    simp [inputContext, ← h0, ← h1]
  simp [sum, hc, Entries.get?, Value.add]

def shown : Derivation :=
  ⟨⟨3⟩, [⟨2⟩], fun inputs => .value (.str (interleaved ["sum: ", ""] inputs))⟩

/-- A number, what comes after it, the sum of both, and a text that shows the sum. -/
def sumActions : List Action :=
  [number,
    .one "next" .any ⟨0⟩ (.program (.add (.var "v0") (.scalar (.int 1))) none .any),
    .two "sum" .any ⟨0⟩ ⟨1⟩ (.program (.add (.var "v0") (.var "v1")) none .any),
    .text "shown" ["sum: ", ""] [⟨2⟩]]

def sumWorld (k : Nat) : World :=
  (sumActions.take k).foldl (fun w a => ends (a.perform (respond 8)) w) {}

/-- Numbers, and one text. -/
def sumTypes : Typing := fun c held =>
  if c = ⟨3⟩ then ∃ s, held = .value (.scalar (.str s))
  else ∃ i, held = .value (.scalar (.int i))

def sumNetwork : Network := ⟨[⟨0⟩], [next, sum, shown]⟩

theorem reached_sumNetwork : sumNetwork.Reached sumTypes (sumWorld 4) := by
  have h0 : Network.Reached sumTypes ⟨[], []⟩ {} :=
    .start (by simp [World.Reading]) fun c => ⟨List.Pairwise.nil, fun k hk => by cases hk⟩
  have hnumber : ∀ c : CellId, c ≠ ⟨3⟩ → ∀ held, sumTypes c held →
      ∃ i, held = .value (.scalar (.int i)) := by
    intro c hc held h
    rwa [sumTypes, if_neg hc] at h
  have hvalues : ∀ c : CellId, c ≠ ⟨3⟩ → ∀ held, sumTypes c held → ∃ v, held = .value v := by
    intro c hc held h
    obtain ⟨i, rfl⟩ := hnumber c hc held h
    exact ⟨_, rfl⟩
  have h1 : Network.Reached sumTypes ⟨[⟨0⟩], []⟩ (sumWorld 1) :=
    h0.perform (n := 8) (a := number) (.state (by unfold World.Unnamed; decide) ⟨1, rfl⟩)
      (run_of_returns (by decide +kernel))
  have hfits : Network.Fits sumTypes ⟨[⟨0⟩], []⟩ (sumWorld 1) next := by
    refine ⟨by decide +kernel, by simp [next, cells], fun {inputs} h => ?_⟩
    cases h with
    | cons hx hrest =>
      cases hrest
      obtain ⟨i, rfl⟩ := hnumber ⟨0⟩ (by decide) _ hx
      exact ⟨_, rfl⟩
  have h2 : Network.Reached sumTypes ⟨[⟨0⟩], [next]⟩ (sumWorld 2) :=
    h1.perform (n := 8) (.one (by unfold World.Unnamed; decide +kernel) hfits rfl
      (computes_program (.add (.var "v0") (.scalar _)) (by simpa [next] using hvalues ⟨0⟩ (by decide))))
      (run_of_returns (by decide +kernel))
  have hfits : Network.Fits sumTypes ⟨[⟨0⟩], [next]⟩ (sumWorld 2) sum := by
    refine ⟨by decide +kernel, by simp [next, sum, cells], fun {inputs} h => ?_⟩
    cases h with
    | cons hx hrest =>
      cases hrest with
      | cons hy hrest =>
        cases hrest
        obtain ⟨i, rfl⟩ := hnumber ⟨0⟩ (by decide) _ hx
        obtain ⟨j, rfl⟩ := hnumber ⟨1⟩ (by decide) _ hy
        exact ⟨i + j, sum_value i j⟩
  have h3 : Network.Reached sumTypes ⟨[⟨0⟩], [next, sum]⟩ (sumWorld 3) := by
    refine h2.perform (n := 8) (.two (by unfold World.Unnamed; decide +kernel) hfits rfl
      (computes_program (.add (.var "v0") (.var "v1")) ?_)) (run_of_returns (by decide +kernel))
    simp only [sum, List.mem_cons, List.not_mem_nil, or_false]
    rintro c (rfl | rfl)
    · exact hvalues _ (by decide)
    · exact hvalues _ (by decide)
  have hfits : Network.Fits sumTypes ⟨[⟨0⟩], [next, sum]⟩ (sumWorld 3) shown :=
    ⟨by decide +kernel, by simp [next, sum, shown, cells], fun _ => ⟨_, rfl⟩⟩
  refine h3.perform (n := 8) (.text (by unfold World.Unnamed; decide +kernel) hfits rfl ?_)
    (run_of_returns (by decide +kernel))
  intro c hc held h
  obtain rfl : c = ⟨2⟩ := by simpa [shown] using hc
  obtain ⟨i, rfl⟩ := hnumber _ (by decide) held h
  exact ⟨_, rfl⟩

/-- An update of the number brings what comes after it, the sum and the text along. -/
theorem consistent_after_update_of_sum :
    ∃ w', (updateState (respond 8) ⟨0⟩ (.value (.scalar (.int 5)))).run (sumWorld 4) =
        .ok true w' ∧
      ∀ d ∈ sumNetwork.derived, (w'.cell d.target).held = d.value (d.inputs w') := by
  have hrun : (updateState (respond 8) ⟨0⟩ (.value (.scalar (.int 5)))).run (sumWorld 4) =
      .ok true (ends (updateState (respond 8) ⟨0⟩ (.value (.scalar (.int 5)))) (sumWorld 4)) :=
    run_of_returns (by decide +kernel)
  exact ⟨_, hrun, fun d hd =>
    reached_sumNetwork.consistent_after_update (List.mem_singleton_self _) ⟨5, rfl⟩ hrun hd⟩

end Network

end LivePage
