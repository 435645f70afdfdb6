import LivePage.Proofs.Flow.Tally

/-!
# Emissions pay what is due

While a value is handed to the subscriptions of its observable, programs can run that await, resolve
and reject other values, in emissions of their own. Each emission tells the registrations that it
has found at its start, whatever else happens meanwhile: it pays what was due at its start, and
leaves what is due to emissions around it. `Account.Pays` says so of two worlds, and is kept by
composition; the lemmas below are one for each operation that such programs can call, with the
depth of their calls left open.
-/

namespace LivePage

open LivePage.Script

/-- A boundary that is followed from a world on, with the names that stand for values that come
later. -/
structure Account where
  names : String → Prop
  boundary : BoundaryId
  fallback : Held
  start : World

variable {α β ε : Type} {A : Account} {w w' w₁ : World} {b : BoundaryId} {c d : CellId} {key : Nat}
  {r : Reaction} {held : Held} {D D' : Set Nat} {call : Respond}

/-! ## What is paid between two worlds -/

/-- From `w` to `w'` everything stays in order, and the registrations in `D`, which were due in `w`
besides any others, have been told. -/
structure Account.Pays (A : Account) (D : Set Nat) (w w' : World) : Prop where
  orderly : w'.Orderly A.names
  endures : Endures w w'
  tally {due : Set Nat} {es : History} : (∀ key ∈ D, key ∉ due) →
    Tally A.boundary A.fallback A.start (due ∪ D) es w →
    ∃ es', Tally A.boundary A.fallback A.start due es' w'

namespace Account.Pays

/-- Nothing is due and nothing happens. -/
theorem refl (hw : w.Orderly A.names) : A.Pays ∅ w w :=
  ⟨hw, .refl w, fun _ h => ⟨_, by rwa [Set.union_empty] at h⟩⟩

theorem trans (h : A.Pays D w w') (h' : A.Pays D' w' w₁) (hd : ∀ key ∈ D, key ∉ D') :
    A.Pays (D ∪ D') w w₁ where
  orderly := h'.orderly
  endures := h.endures.trans h'.endures
  tally {due es} hdue ht := by
    have hunion : due ∪ (D ∪ D') = due ∪ D' ∪ D := by
      rw [Set.union_assoc, Set.union_comm D' D]
    rw [hunion] at ht
    obtain ⟨es₁, h₁⟩ := h.tally
      (fun key hk hn => hn.elim (hdue key (.inl hk)) (hd key hk)) ht
    exact h'.tally (fun key hk => hdue key (.inr hk)) h₁

theorem trans_empty (h : A.Pays ∅ w w') (h' : A.Pays D w' w₁) : A.Pays D w w₁ := by
  have := h.trans h' fun _ hk => hk.elim
  rwa [Set.empty_union] at this

/-- The boundary may be told something, but no value comes. -/
theorem noticed (hw : w'.Orderly A.names) (hg : Endures w w')
    (h : ∀ due es, Tally A.boundary A.fallback A.start due es w →
      ∃ es', Tally A.boundary A.fallback A.start due es' w') : A.Pays ∅ w w' :=
  ⟨hw, hg, fun {due es} _ ht => h due es (by rwa [Set.union_empty] at ht)⟩

/-- A change that the boundary does not take part in, and in which no value comes. -/
theorem still (hw : w'.Orderly A.names) (hg : Endures w w')
    (ha : A.boundary.index < w.boundaries.size → Aside A.boundary w w')
    (hok : ∀ c, c.index < w.cells.size → (w'.cell c).settlement.ok = (w.cell c).settlement.ok) :
    A.Pays ∅ w w' :=
  noticed hw hg fun _ es h => ⟨es, h.still (ha h.known) hg.boundaries hok⟩

/-- Nothing has changed about observables and boundaries. -/
theorem of_eq (hw : w'.Orderly A.names) (hc : w'.cells = w.cells)
    (hb : w'.boundaries = w.boundaries) : A.Pays ∅ w w' :=
  still hw (.of_eq hc hb) (fun _ => .of_eq hc hb) fun c _ => by simp [World.cell, hc]

theorem unpinned {pins : List Entity} (h : A.Pays D (w.pinned pins) w') :
    A.Pays D w w'.unpinned := by
  have hpinned : ∀ {due es}, Tally A.boundary A.fallback A.start due es w →
      Tally A.boundary A.fallback A.start due es (w.pinned pins) :=
    fun ht => ht.still (.of_eq rfl rfl) (Nat.le_refl _) fun _ _ => rfl
  have hendures : Endures w w'.unpinned := ⟨h.endures.cells, h.endures.boundaries, h.endures.still,
    h.endures.registry, h.endures.ok⟩
  refine ⟨h.orderly.repin _, hendures, fun hdue ht => ?_⟩
  obtain ⟨es, h'⟩ := h.tally hdue (hpinned ht)
  exact ⟨es, h'.still (.of_eq rfl rfl) (Nat.le_refl _) fun _ _ => rfl⟩

end Account.Pays

/-! ## Runs that pay -/

/-- From `w` on, the run pays what is due in `D`. -/
abbrev Account.PaysAt (A : Account) (D : Set Nat) (w : World) (x : Run α) : Prop :=
  KeepsAt (A.Pays D) (fun _ => True) w x

/-- From every orderly world on, the run leaves nothing due that was not due before. -/
abbrev Account.Steady (A : Account) (x : Run α) : Prop :=
  Keeps (fun w w' => w.Orderly A.names → A.Pays ∅ w w') (fun _ => True) x

instance : IsPreorder World fun w w' => w.Orderly A.names → A.Pays ∅ w w' where
  refl _ hw := .refl hw
  trans _ _ _ h h' hw := (h hw).trans_empty (h' (h hw).orderly)

namespace Account

theorem Steady.paysAt {x : Run α} (h : A.Steady x) (hw : w.Orderly A.names) : A.PaysAt ∅ w x :=
  (h.start w).mono (fun h => h hw) id

theorem steady_of_paysAt {x : Run α} (h : ∀ w, w.Orderly A.names → A.PaysAt ∅ w x) :
    A.Steady x := by
  refine ⟨fun w => ?_⟩
  by_cases hw : w.Orderly A.names
  · exact (h w hw).mono (fun h _ => h) id
  · unfold KeepsAt
    split
    · exact fun h => absurd h hw
    · trivial

/-- What is due is paid by two runs, one after the other. -/
theorem PaysAt.bind {x : Run α} {f : α → Run β} (hx : A.PaysAt D w x)
    (hd : ∀ key ∈ D, key ∉ D') (hf : ∀ a w₁, A.Pays D w w₁ → A.PaysAt D' w₁ (f a)) :
    A.PaysAt (D ∪ D') w (x >>= f) :=
  KeepsAt.seq hx fun a w₁ _ h => (hf a w₁ h).mono (fun h' => h.trans h' hd) id

theorem PaysAt.before {x : Run α} {f : α → Run β} (hx : A.PaysAt ∅ w x)
    (hf : ∀ a w₁, A.Pays ∅ w w₁ → A.PaysAt D w₁ (f a)) : A.PaysAt D w (x >>= f) :=
  KeepsAt.seq hx fun a w₁ _ h => (hf a w₁ h).mono (fun h' => h.trans_empty h') id

theorem PaysAt.holding {x : Run α} {pins : List Entity} (h : A.PaysAt D (w.pinned pins) x) :
    A.PaysAt D w (holding pins x) :=
  KeepsAt.holding h fun h => h.unpinned

theorem paysAt_pure (hw : w.Orderly A.names) (a : α) : A.PaysAt ∅ w (pure a : Run α) := .refl hw

theorem steady_reads {x : Run α} (h : Reads x) : A.Steady x :=
  h.mono (fun h hw => .of_eq (hw.quiet h) h.cells h.boundaries) fun _ => trivial

/-- A change of names. -/
theorem steady_modifyNames {f : Names → Names}
    (h : ∀ w : World, w.Orderly A.names → ({ w with names := f w.names } : World).Orderly A.names) :
    A.Steady (modifyNames f) :=
  keeps_modify fun w hw => .of_eq (h w hw) rfl rfl

end Account

/-! ## Registrations that are due -/

@[simp] theorem awaiting_nil (b : BoundaryId) : awaiting b [] = ∅ := by
  simp [awaiting]

theorem awaiting_cons (b : BoundaryId) (s : Nat × Reaction) (rest : List (Nat × Reaction)) :
    awaiting b (s :: rest) = awaiting b [s] ∪ awaiting b rest := by
  ext key
  simp [awaiting]

theorem awaiting_of_ne (h : r ≠ .awaited b) (key : Nat) : awaiting b [(key, r)] = ∅ := by
  ext k
  simp [awaiting, Ne.symm h]

theorem awaiting_awaited (b : BoundaryId) (key : Nat) : awaiting b [(key, .awaited b)] = {key} := by
  ext k
  simp [awaiting]

/-- Nothing is registered with a boundary at an observable that waits for no result. -/
theorem World.Orderly.awaiting_eq (hw : w.Orderly A.names) (h : ¬ (w.cell c).Waits)
    (b : BoundaryId) : awaiting b (w.cell c).registry = ∅ := by
  ext key
  exact ⟨fun hk => h (hw.admits hk).1, nofun⟩

/-! ## Emissions -/

/-- A value that comes later is there when it is emitted. -/
def World.Backed (w : World) (c : CellId) (held : Held) : Prop :=
  (w.cell c).Waits → held.isPresent = true ∧ (w.cell c).settlement.ok = true

theorem World.Backed.endures (h : w.Backed c held) (hc : c.index < w.cells.size)
    (hg : Endures w w') : w'.Backed c held := by
  intro hwaits
  obtain ⟨hpresent, hok⟩ := h ((hg.still hc).symm.trans hwaits)
  exact ⟨hpresent, hg.ok hok⟩

namespace Account

theorem paysAt_hold (hw : w.Orderly A.names) (hf : (w.cell c).flavour ≠ .state []) (held : Held) :
    A.PaysAt ∅ w (LivePage.hold c held) := by
  have horderly : (w.withCell c fun cell => { cell with held }).Orderly A.names :=
    hw.withCell (fun _ => rfl) (fun _ => rfl) hw.settled
  have hpays : A.Pays ∅ w (w.withCell c fun cell => { cell with held }) := by
    refine .still horderly (.withCell (fun _ _ => id) (fun _ => rfl) fun _ => id) (fun hb => ?_)
      fun d _ => by rw [(w.hold_eq d c held).2]
    refine aside_withCell (fun x hd => ?_) (fun _ _ => .rfl) fun _ => id
    exact absurd (hd ▸ hw.display hb) hf
  exact hpays

theorem paysAt_whileAlive {act : Run Unit} {cells : List CellId} (hw : w.Orderly A.names)
    (h : ∀ pins, A.PaysAt ∅ (w.pinned pins) act) :
    A.PaysAt ∅ w (LivePage.whileAlive cells act) := by
  refine keepsAt_get_bind ?_
  split
  · exact PaysAt.holding (h _)
  · exact paysAt_pure hw _

end Account

/-- Programs and subscriptions at the depth below pay what is due. -/
structure Account.Served (A : Account) (call : Respond) : Prop where
  reads : call.Reads
  perform {acts : List Step} : (∀ s ∈ acts, s.Awaits A.names) → A.Steady (call (.perform acts))
  react {w : World} {c : CellId} {key : Nat} {r : Reaction} {held : Held} : w.Orderly A.names →
    (key, r) ∈ (w.cell c).registry → w.Backed c held →
    A.PaysAt (awaiting A.boundary [(key, r)]) w (call (.react r held))

namespace Account.Served

variable (hcall : A.Served call)
include hcall

theorem notify (snapshot : List (Nat × Reaction)) (hw : w.Orderly A.names)
    (hn : (snapshot.map (·.1)).Nodup) (hsub : ∀ s ∈ snapshot, s ∈ (w.cell c).registry)
    (hbacked : w.Backed c held) :
    A.PaysAt (awaiting A.boundary snapshot) w (LivePage.notify call c held snapshot) := by
  induction snapshot generalizing w with
  | nil =>
    rw [awaiting_nil]
    exact paysAt_pure hw _
  | cons s rest ih =>
    -- nothing is unsubscribed meanwhile, so every entry of the snapshot is told in its turn
    obtain ⟨key, r⟩ := s
    have hr : (key, r) ∈ (w.cell c).registry := hsub _ List.mem_cons_self
    have hkey : (w.cell c).isSubscribed key = true :=
      Cell.isSubscribed_eq_true.2 (List.mem_map.2 ⟨_, hr, rfl⟩)
    obtain ⟨hnot, hn⟩ := List.nodup_cons.1 hn
    have hapart : ∀ k ∈ awaiting A.boundary [(key, r)], k ∉ awaiting A.boundary rest := by
      intro k hk hrest
      obtain ⟨rfl, -⟩ := Prod.mk.inj (List.mem_singleton.1 hk)
      exact hnot (List.mem_map.2 ⟨_, hrest, rfl⟩)
    refine keepsAt_get_bind ?_
    rw [if_pos hkey, awaiting_cons]
    have hreact : ∀ pins, A.PaysAt (awaiting A.boundary [(key, r)]) w
        (holding pins (call (.react r held))) :=
      fun pins => PaysAt.holding (hcall.react (hw.pinned pins) hr hbacked)
    refine PaysAt.bind (hreact _) hapart fun _ w₁ h => ?_
    exact ih h.orderly hn (fun s hs => h.endures.registry (hsub s (List.mem_cons_of_mem _ hs)))
      (hbacked.endures (World.lt_of_registry hr) h.endures)

theorem emit (hw : w.Orderly A.names) (hbacked : w.Backed c (w.cell c).held) :
    A.PaysAt (awaiting A.boundary (w.cell c).registry) w (LivePage.emit call c) :=
  keepsAt_get_bind <| PaysAt.holding <|
    hcall.notify _ (hw.pinned _) (hw.keyed c).1 (fun _ h => h) hbacked

/-- An observable that waits for no result has no registrations to tell. -/
theorem emit_other (hw : w.Orderly A.names) (h : ¬ (w.cell c).Waits) :
    A.PaysAt ∅ w (LivePage.emit call c) := by
  have := hcall.emit (c := c) hw fun hwaits => absurd hwaits h
  rwa [hw.awaiting_eq h] at this

theorem holdAndEmit (hw : w.Orderly A.names) (hf : (w.cell c).flavour = .derived) (held : Held) :
    A.PaysAt ∅ w (LivePage.holdAndEmit call c held) := by
  refine PaysAt.before (paysAt_hold hw (by rw [hf]; nofun) held) fun _ w₁ h => ?_
  refine hcall.emit_other h.orderly fun hwaits => ?_
  rw [Cell.Waits, h.endures.derived hf] at hwaits
  cases hwaits

theorem regenerate (hw : w.Orderly A.names) (hf : (w.cell d).flavour = .derived) (g : Generator)
    (sources : List Held) : A.PaysAt ∅ w (LivePage.regenerate call d g sources) :=
  PaysAt.before ((steady_reads (reads_generator hcall.reads g sources)).paysAt hw) fun held _ h =>
    hcall.holdAndEmit h.orderly (h.endures.derived hf) held

theorem callback (program : CallbackId) : A.Steady (program.run call) := by
  refine steady_of_paysAt fun w hw => keepsAt_get_bind ?_
  split
  · next acts remaining hget =>
    have hquiet := quiet_counted hget
    have hset : A.PaysAt ∅ w (set { w with
        callbacks := w.callbacks.setIfInBounds program.index ⟨acts, remaining⟩ } : Run PUnit) :=
      .of_eq (hw.quiet hquiet) hquiet.cells hquiet.boundaries
    exact PaysAt.before hset fun _ w₁ h =>
      (hcall.perform (hw.acts acts (acts_mem hget))).paysAt h.orderly
  · exact paysAt_pure hw _

end Account.Served

/-! ## Values that come -/

/-- A display accepts every update. -/
theorem run_updateState (h : (w.cell c).flavour = .state []) (call : Respond) (held : Held) :
    (updateState call c held).run w =
      (emit call c >>= fun _ => pure true).run (w.withCell c fun cell => { cell with held }) := by
  have hcheckers : (w.cell c).checkers = [] := by rw [Cell.checkers, h]
  rw [updateState, EStateM.run_bind, EStateM.run_get]
  dsimp only
  rw [hcheckers, allAccept, pure_bind, if_pos rfl, holdAndEmit, bind_assoc]
  rfl

/-- A boundary that is told that a value has come changes first. If it has settled now, it then
tells those that follow its display. -/
theorem run_arrive (hd : (w.cell (w.boundary b).display).flavour = .state []) (call : Respond) :
    (b.arrive call).run w = .ok ⟨⟩ (w.arrived b) ∨
      (b.arrive call).run w =
        (emit call (w.boundary b).display >>= fun _ => pure ⟨⟩).run (w.arrived b) := by
  obtain ⟨hs, he⟩ | ⟨k, content, hs, hk, hcontent, he⟩ | ⟨k, hs, hnone, he⟩ := w.arrived_cases b
  all_goals
    rw [he, BoundaryId.arrive, EStateM.run_bind, EStateM.run_get]
    dsimp only
    rw [hs]
    dsimp only
  · exact .inl rfl
  · refine .inr ?_
    simp only [hk, hcontent]
    have hsettle : (modifyBoundary b fun boundary =>
        { boundary with state := .settled, content := none }).run w =
          .ok ⟨⟩ (w.withBoundary b Boundary.settle) := rfl
    rw [EStateM.run_bind, hsettle]
    dsimp only
    rw [World.showing, EStateM.run_bind,
      run_updateState (w := w.withBoundary b Boundary.settle) hd, EStateM.run_bind,
      EStateM.run_bind]
    cases EStateM.run (emit call (w.boundary b).display) _ with
    | ok _ w₁ => rfl
    | error e w₁ => rfl
  · refine .inl ?_
    split
    · next hk hcontent => exact absurd (hcontent.symm.trans (hnone hk)) nofun
    · rfl

namespace Account

theorem Pays.trans_right (h : A.Pays D w w') (h' : A.Pays ∅ w' w₁) : A.Pays D w w₁ := by
  have := h.trans h' fun _ _ hk => hk
  rwa [Set.union_empty] at this

theorem PaysAt.after {x : Run α} {f : α → Run β} (hx : A.PaysAt D w x)
    (hf : ∀ a w₁, A.Pays D w w₁ → A.PaysAt ∅ w₁ (f a)) : A.PaysAt D w (x >>= f) :=
  KeepsAt.seq hx fun a w₁ _ h => (hf a w₁ h).mono (fun h' => h.trans_right h') id

/-- The boundary is told that a value has come that is due. -/
theorem pays_arrived (hw : w.Orderly A.names)
    (hr : (key, .awaited A.boundary) ∈ (w.cell c).registry)
    (hok : (w.cell c).settlement.ok = true) : A.Pays {key} w (w.arrived A.boundary) where
  orderly := hw.arrived _
  endures := .arrived ..
  tally hdue ht := by
    rw [Set.union_singleton] at ht
    exact ⟨_, ht.arrived hw (hdue key rfl) hr hok⟩

/-- Another boundary is told that a value has come. -/
theorem pays_arrived_other (hw : w.Orderly A.names) (hne : A.boundary ≠ b)
    (hb : b.index < w.boundaries.size) : A.Pays ∅ w (w.arrived b) :=
  .still (hw.arrived _) (.arrived ..) (fun hA => aside_arrived hw hne hA hb)
    fun c _ => by rw [(w.arrived_eq b c).2]

/-- A value comes, and those that are registered for it are told. -/
theorem Pays.resolving (hw : w.Orderly A.names) (hc : (w.cell c).Waits)
    (hok : (w.cell c).settlement.ok = false)
    (h : A.Pays (awaiting A.boundary (w.cell c).registry) (w.resolving c) w') : A.Pays ∅ w w' where
  orderly := h.orderly
  endures := (Endures.resolving w c).trans h.endures
  tally {due es} _ ht := by
    rw [Set.union_empty] at ht
    refine h.tally (fun key hk hdue => ?_) (ht.resolved hw hc hok)
    obtain ⟨d, hd, hcame⟩ := ht.came hdue
    rw [hw.single hd hk, hok] at hcame
    cases hcame

theorem steady_modifySettlement {f : Settlement → Settlement} (hok : ∀ s, (f s).ok = s.ok)
    (hsettled : ∀ s, s.settled = true → (f s).settled = true) (c : CellId) :
    A.Steady (modifyCell c (·.modifySettlement f)) := by
  have hsame : ∀ x : Cell, (x.modifySettlement f).settlement.ok = x.settlement.ok := fun x => by
    obtain h | h := x.settlement_modifySettlement f
    all_goals rw [h]
    exact hok _
  refine keeps_modify fun w hw => ?_
  have horderly : (w.withCell c (·.modifySettlement f)).Orderly A.names := by
    refine hw.withCell (Cell.registry_modifySettlement f) (Cell.still_modifySettlement f) ?_
    intro h
    rw [hsame] at h
    obtain h' | h' := (w.cell c).settlement_modifySettlement f
    all_goals rw [h']
    · exact hsettled _ (hw.settled h)
    · exact hw.settled h
  refine .still horderly (.withCell (fun x s hs => by rwa [Cell.registry_modifySettlement])
    (Cell.still_modifySettlement f) fun x hx => by rwa [hsame]) (fun _ => ?_) fun d _ => ?_
  · exact aside_withCell (fun x _ => Cell.held_modifySettlement ..)
      (fun x key => by rw [Cell.registry_modifySettlement]) fun x hx => by rwa [hsame]
  · change ((w.withCell c _).cell d).settlement.ok = _
    rw [World.cell_withCell]
    split
    · exact hsame _
    · rfl

namespace Served

variable (hcall : A.Served call)
include hcall

theorem arrive (hw : w.Orderly A.names) (hb : b.index < w.boundaries.size)
    (hp : A.Pays D w (w.arrived b)) : A.PaysAt D w (b.arrive call) := by
  have hstate := (Endures.arrived w b).state (hw.display hb)
  have hemit : A.PaysAt ∅ (w.arrived b)
      (LivePage.emit call (w.boundary b).display >>= fun _ => pure PUnit.unit) := by
    refine PaysAt.before (hcall.emit_other hp.orderly fun hwaits => ?_) fun _ w₁ h =>
      paysAt_pure h.orderly _
    rw [Cell.Waits, hstate] at hwaits
    cases hwaits
  have hpays : KeepsAt (fun _ => A.Pays D w) (fun _ => True) (w.arrived b)
      (LivePage.emit call (w.boundary b).display >>= fun _ => pure PUnit.unit) :=
    hemit.mono (fun h => hp.trans_right h) id
  unfold PaysAt KeepsAt
  obtain h | h := run_arrive (hw.display hb) call
  all_goals rw [h]
  · exact hp
  · exact hpays

/-- Whatever a subscription does, it tells the boundary if it is one of its registrations. -/
theorem runs (hw : w.Orderly A.names) (hr : (key, r) ∈ (w.cell c).registry)
    (hbacked : w.Backed c held) :
    A.PaysAt (awaiting A.boundary [(key, r)]) w (r.run call held) := by
  have hf := hw.admits hr
  have hderived : ∀ {target : CellId} {g : Generator} {sources : List Held} (pins : List Entity),
      (w.cell target).flavour = .derived →
      A.PaysAt ∅ (w.pinned pins) (LivePage.regenerate call target g sources) :=
    fun pins ht => hcall.regenerate (hw.pinned pins) ht _ _
  have hother : (∀ b, r ≠ .awaited b) → awaiting A.boundary [(key, r)] = ∅ :=
    fun h => awaiting_of_ne (h _) key
  cases r with
  | awaited b =>
    obtain ⟨hpresent, hok⟩ := hbacked hf.1
    change A.PaysAt _ w (b.onAwaited call held)
    rw [BoundaryId.onAwaited, if_pos hpresent]
    by_cases hne : A.boundary = b
    · subst hne
      rw [awaiting_awaited]
      exact hcall.arrive hw hf.2 (pays_arrived hw hr hok)
    · rw [awaiting_of_ne fun h => hne (Reaction.awaited.inj h).symm]
      exact hcall.arrive hw hf.2 (pays_arrived_other hw hne hf.2)
  | rebuild | «attribute» | styleProperty => exact hf.elim
  | subscriber name program | watch name program =>
    rw [hother nofun]
    exact keepsAt_get_bind <|
      Steady.paysAt ((steady_reads (reads_log _)).bind fun _ => hcall.callback _) hw
  | derive target g =>
    rw [hother nofun]
    exact paysAt_whileAlive hw fun pins => hderived pins hf
  | combineFirst target second g | combineSecond target second g | combineAll target second g =>
    rw [hother nofun]
    exact paysAt_whileAlive hw fun pins => keepsAt_get_bind (hderived pins hf)
  | recompute target g =>
    rw [hother nofun]
    exact paysAt_whileAlive hw fun pins => hderived pins hf

/-! ## Settling -/

theorem runOnEither (c : CellId) : A.Steady (LivePage.runOnEither call c) := by
  refine keeps_get_bind fun w => ?_
  split
  · exact ((steady_reads (reads_log _)).bind fun _ => hcall.callback _).start w
  · exact (keeps_pure _).start w

theorem runOnFailure (c : CellId) (message : String) :
    A.Steady (LivePage.runOnFailure call c message) := by
  refine keeps_get_bind fun w => ?_
  split
  · exact ((steady_reads (reads_log _)).bind fun _ => hcall.callback _).start w
  · exact (keeps_pure _).start w

theorem reject (c : CellId) (message : String) : A.Steady (LivePage.reject call c message) := by
  refine keeps_get_bind fun w => ?_
  split
  · exact (keeps_pure _).start w
  · refine Keeps.start (Keeps.bind ?_ fun _ =>
      (hcall.runOnFailure c message).bind fun _ => hcall.runOnEither c) w
    exact steady_modifySettlement (f := fun s => { s with settled := true }) (fun _ => rfl)
      (fun _ _ => rfl) c

/-- An emission of a value that has come tells all its registrations. -/
theorem holdAndEmit_value (hw : w.Orderly A.names) (hc : (w.cell c).Waits)
    (hok : (w.cell c).settlement.ok = true) (v : Value) :
    A.PaysAt (awaiting A.boundary (w.cell c).registry) w
      (LivePage.holdAndEmit call c (.value v)) := by
  have hhold : A.PaysAt ∅ w (LivePage.hold c (.value v)) :=
    paysAt_hold hw (fun h => by rw [Cell.Waits, h] at hc; cases hc) _
  refine KeepsAt.seq hhold fun a w₁ hrun h => ?_
  obtain rfl : w.withCell c (fun cell => { cell with held := .value v }) = w₁ := by
    cases hrun
    rfl
  have hheld : ((w.withCell c fun cell => { cell with held := .value v }).cell c).held =
      .value v := by
    rw [World.cell_withCell, if_pos ⟨rfl, World.lt_of_waits hc⟩]
  have hemit := hcall.emit (c := c) h.orderly fun _ => by
    rw [hheld, (w.hold_eq c c (.value v)).2]
    exact ⟨rfl, hok⟩
  rw [(w.hold_eq c c (.value v)).1] at hemit
  exact hemit.mono (fun h' => h.trans_empty h') id

theorem resolve (hw : w.Orderly A.names) (hc : (w.cell c).Waits) (v : Value) :
    A.PaysAt ∅ w (LivePage.resolve call c v) := by
  refine keepsAt_get_bind ?_
  split
  · exact paysAt_pure hw _
  · next hunsettled =>
    have hok : (w.cell c).settlement.ok = false := by
      cases h : (w.cell c).settlement.ok with
      | false => rfl
      | true => exact absurd (hw.settled h) hunsettled
    have hset : KeepsAt (fun w w' => w' = w.resolving c) (fun _ => True) w
        (modifyCell c (·.modifySettlement fun s => { s with settled := true, ok := true })) := rfl
    refine KeepsAt.seq hset fun _ w₁ _ h => ?_
    subst h
    -- from here on the value is due at all its registrations, and the emission pays them
    have hemit := hcall.holdAndEmit_value (hw.resolving hc) ((Endures.resolving w c).waits hc)
      (World.ok_resolving hc) v
    rw [World.registry_resolving] at hemit
    exact (PaysAt.after hemit fun _ w₁ h => (hcall.runOnEither c).paysAt h.orderly).mono
      (fun h => h.resolving hw hc hok) id

end Served

end Account

end LivePage
