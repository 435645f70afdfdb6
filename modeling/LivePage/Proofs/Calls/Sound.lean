import LivePage.Proofs.Calls.Traced
import LivePage.Proofs.Run.Telling

/-!
# Records are true

What is recorded of a run of a program leads from the world in which it begins to the one in which
it ends. Each operation is followed along its definition and its record at once; that subscriptions
and programs are recorded truly at one depth makes it so for the operations one level above.
-/

namespace LivePage

open LivePage.Script

variable {α β ε : Type} {N : Naming} {n : Nat} {w w' w₁ u u' : World} {c d : CellId}
  {f : Cell → Cell} {ds ds' : List Deed}

/-! ## Deeds in other worlds -/

/-- What deeds lead to depends on observables only. -/
theorem Leads.congr (h : Leads ds w w') (hs : w.cells = u.cells) (hf : u'.cells = w'.cells) :
    Leads ds u u' := by
  have hlast : Leads ds w u' := by
    have := Leads.seq h (.still hf)
    rwa [List.append_nil] at this
  exact Leads.seq (.still hs) hlast

theorem moves_bare (c : CellId) :
    Moves (fun _ => True) c fun x y => y.flavour.bare = x.flavour.bare where
  refl _ := rfl
  changed _ _ hb := hb
  updated _ _ _ := rfl
  derived _ _ := rfl
  fulfilled _ _ _ := Cell.bare_modifySettlement ..
  failed _ _ _ := Cell.bare_modifySettlement ..

/-- What holds from each moment to the next holds from the first to the last. -/
theorem Path.related {R : Cell → Cell → Prop} {us : List World} (hR : ∀ x, R x x)
    (ht : ∀ x y z, R x y → R y z → R x z) (h : Path c R w us w') : R (w.cell c) (w'.cell c) := by
  induction h with
  | done h =>
    rw [h]
    exact hR _
  | next h _ ih => exact ht _ _ _ h ih

/-- Observables keep their sorts. -/
theorem Leads.bare (h : Leads ds w w') (c : CellId) :
    (w'.cell c).flavour.bare = (w.cell c).flavour.bare :=
  Path.related (R := fun x y => y.flavour.bare = x.flavour.bare) (fun _ => rfl)
    (fun _ _ _ h h' => h'.trans h) ((moves_bare c).path h fun _ _ => trivial)

theorem Delivers.start {held : Held} {snapshot : List (Nat × Reaction)}
    (h : Delivers c held snapshot ds w) (hs : w.cells = u.cells) :
    Delivers c held snapshot ds u := by
  induction h generalizing u with
  | done => exact .done
  | told hs' hk hf h _ =>
    rw [World.cell_congr hs] at hk
    exact .told (hs'.trans hs) hk hf h
  | gone hk _ ih =>
    rw [World.cell_congr hs] at hk
    exact .gone hk (ih hs)

/-! ## True records -/

/-- However the run ends well from `w` on, this is what has happened, and nobody was told of
anything but by an emission. -/
def RecordsAt (N : Naming) (w : World) (x : Run α) (ds : List Deed) : Prop :=
  ∀ a w', x.run w = .ok a w' → w'.Traced N ∧ Leads ds w w' ∧ Untold ds

namespace RecordsAt

theorem reads {x : Run α} (hx : Reads x) (hw : w.Traced N) : RecordsAt N w x [] := by
  intro a w' h
  have hq := hx.ok h
  exact ⟨hw.quiet hq, .still hq.cells, untold_nil⟩

theorem pure (hw : w.Traced N) (a : α) : RecordsAt N w (pure a) [] := reads (keeps_pure a) hw

theorem get_bind {g : World → Run α} (h : RecordsAt N w (g w) ds) :
    RecordsAt N w (get >>= g) ds :=
  fun a w' hrun => h a w' (ok_get_bind.1 hrun)

theorem seq {x : Run α} {g : α → Run β} (hx : RecordsAt N w x ds)
    (hg : ∀ a w₁, x.run w = .ok a w₁ → w₁.Traced N → RecordsAt N w₁ (g a) ds') :
    RecordsAt N w (x >>= g) (ds ++ ds') := by
  intro b w' h
  obtain ⟨a, w₁, hxw, h⟩ := ok_bind.1 h
  obtain ⟨hw₁, hl, hu⟩ := hx a w₁ hxw
  obtain ⟨hw', hl', hu'⟩ := hg a w₁ hxw hw₁ b w' h
  exact ⟨hw', hl.seq hl', untold_append hu hu'⟩

/-- A run that comes to nothing after what is recorded. -/
theorem ending {x : Run α} {g : α → Run β} (hx : RecordsAt N w x ds)
    (hg : ∀ a w₁, x.run w = .ok a w₁ → w₁.Traced N → RecordsAt N w₁ (g a) []) :
    RecordsAt N w (x >>= g) ds := by
  have := hx.seq hg
  rwa [List.append_nil] at this

theorem seq_after {x : Run α} {g : α → Run β} {next : α → Record} (hx : RecordsAt N w x ds)
    (hg : ∀ a w₁, x.run w = .ok a w₁ → w₁.Traced N → RecordsAt N w₁ (g a) (next a w₁)) :
    RecordsAt N w (x >>= g) (ds ++ Record.after x next w) := by
  intro b w' h
  obtain ⟨a, w₁, hxw, h⟩ := ok_bind.1 h
  obtain ⟨hw₁, hl, hu⟩ := hx a w₁ hxw
  obtain ⟨hw', hl', hu'⟩ := hg a w₁ hxw hw₁ b w' h
  rw [Record.after, hxw]
  exact ⟨hw', hl.seq hl', untold_append hu hu'⟩

/-- A run that comes to nothing before what is recorded. -/
theorem after {x : Run α} {g : α → Run β} {next : α → Record} (hx : RecordsAt N w x [])
    (hg : ∀ a w₁, x.run w = .ok a w₁ → w₁.Traced N → RecordsAt N w₁ (g a) (next a w₁)) :
    RecordsAt N w (x >>= g) (Record.after x next w) :=
  hx.seq_after hg

theorem holding {x : Run α} {held : List Entity} (h : RecordsAt N (w.pinned held) x ds) :
    RecordsAt N w (holding held x) ds := by
  intro a w' hrun
  obtain ⟨w₁, hx, rfl⟩ := ok_holding.1 hrun
  obtain ⟨hw₁, hl, hu⟩ := h a w₁ hx
  exact ⟨hw₁.unpinned, hl.congr rfl rfl, hu⟩

/-! ### Steps -/

theorem lift {x : Run α} (hx : RecordsAt N w x ds) :
    RecordsAt N w (liftM x : ExceptT ε Run α).run ds := by
  intro r w' h
  obtain ⟨a, -, hx'⟩ := ended_lift h
  exact hx a w' hx'

theorem eending {x : ExceptT ε Run α} {g : α → ExceptT ε Run β} (hx : RecordsAt N w x.run ds)
    (hg : ∀ a w₁, w₁.Traced N → RecordsAt N w₁ (g a).run []) :
    RecordsAt N w (x >>= g).run ds := by
  rw [ExceptT.run_bind]
  refine hx.ending fun r w₁ _ hw₁ => ?_
  cases r with
  | ok a => exact hg a w₁ hw₁
  | error e => exact pure hw₁ _

theorem afterStep {x : Answering α} {g : α → Answering β} {next : α → Record}
    (hx : RecordsAt N w x.run [])
    (hg : ∀ a w₁, x.run.run w = .ok (.ok a) w₁ → w₁.Traced N →
      RecordsAt N w₁ (g a).run (next a w₁)) :
    RecordsAt N w (x >>= g).run (Record.afterStep x next w) := by
  rw [ExceptT.run_bind]
  refine hx.after fun r w₁ hrun hw₁ => ?_
  cases r with
  | ok a => exact hg a w₁ hrun hw₁
  | error e => exact pure hw₁ _

theorem lift_after {x : Run α} {g : α → Answering β} {next : α → Record}
    (hx : RecordsAt N w x [])
    (hg : ∀ a w₁, x.run w = .ok a w₁ → w₁.Traced N → RecordsAt N w₁ (g a).run (next a w₁)) :
    RecordsAt N w ((liftM x : Answering α) >>= g).run (Record.after x next w) := by
  rw [ExceptT.run_bind, ExceptT.run_liftM, map_eq_pure_bind, bind_assoc]
  simp only [pure_bind]
  exact hx.after hg

theorem silently {act : Run Unit} (h : RecordsAt N w act ds) :
    RecordsAt N w (silently act).run ds :=
  h.lift.eending fun _ _ hw₁ => pure hw₁ _

theorem eget_bind {g : World → Answering α} (h : RecordsAt N w (g w).run ds) :
    RecordsAt N w ((liftM (get : Run World) : Answering World) >>= g).run ds := by
  intro r w' hrun
  rw [ExceptT.run_bind, ExceptT.run_liftM, map_eq_pure_bind, bind_assoc] at hrun
  simp only [pure_bind] at hrun
  exact h r w' (ok_get_bind.1 hrun)

/-- The observable of a name, for which it stands now. -/
theorem onCell {name : String} {act : CellId → Answering Report} {inner : CellId → Record}
    (hw : w.Traced N)
    (h : ∀ c, Entries.get? name w.names.observables = some c →
      RecordsAt N (w.pinned [.cell c]) (act c).run (inner c (w.pinned [.cell c]))) :
    RecordsAt N w (withCell name act).run (Record.onCell name inner w) := by
  have hcell : RecordsAt N w (stepCell name).run [] := .reads (reads_lookup name).lift hw
  refine hcell.afterStep fun c w₁ hrun hw₁ => ?_
  have hlookup := ok_lift.1 hrun
  rw [lookupCell, lookup, ok_get_bind] at hlookup
  split at hlookup
  · next hget =>
    obtain ⟨rfl, rfl⟩ := ok_pure.1 hlookup
    exact .holding (h c hget)
  · exact absurd hlookup not_ok_unknown

end RecordsAt

/-! ## Single changes -/

theorem Record.change_eq (act : Act) (c : CellId) (f : Cell → Cell) (w : World) :
    Record.change act c f w = [⟨act, w, [], w.withCell c f⟩] := rfl

theorem recordsAt_change {act : Act} (ha : act.change? = some (c, f))
    (hb : (f (w.cell c)).flavour.bare = (w.cell c).flavour.bare)
    (ht : (w.withCell c f).Traced N) :
    RecordsAt N w (modifyCell c f) (Record.change act c f w) := by
  intro _ w' h
  rw [run_modifyCell] at h
  cases h
  rw [Record.change_eq]
  refine ⟨ht, .changed ha hb rfl, untold_singleton ?_⟩
  cases act <;> first | exact id | cases ha

theorem World.withCell_withCell (w : World) (c : CellId) (f g : Cell → Cell) :
    (w.withCell c f).withCell c g = w.withCell c fun x => g (f x) := by
  have hcells : (w.cells.modify c.index f).modify c.index g =
      w.cells.modify c.index fun x => g (f x) := by
    refine Array.ext_getElem? fun i => ?_
    simp only [Array.getElem?_modify]
    split
    · rw [Option.map_map]
      rfl
    · rfl
  simp only [World.withCell, hcells]

/-! ## Programs -/

/-- At this depth, what is recorded of subscriptions and programs is true. -/
structure Faithful (N : Naming) (n : Nat) : Prop where
  react {w : World} {r : Reaction} (held : Held) : w.Traced N → w.Calls r →
    RecordsAt N w (respond n (.react r held)) (recorded n (.react r held) w)
  perform {w : World} {acts : List Step} : w.Traced N → (∀ s ∈ acts, s.Traced N) →
    RecordsAt N w (respond n (.perform acts)) (recorded n (.perform acts) w)

section

variable (hn : Faithful N n)
include hn

theorem recordsAt_program (hw : w.Traced N) (p : CallbackId) :
    RecordsAt N w (p.run (respond n)) (Recorder.program (recorded n) p w) := by
  refine .get_bind ?_
  unfold Recorder.program
  rcases hget : w.callbacks[p.index]? with _ | ⟨acts, _ | remaining⟩
  · exact .pure hw _
  · exact .pure hw _
  · have hq := quiet_counted hget
    intro a w' h
    obtain ⟨hw', hl, hu⟩ := hn.perform (hw.quiet hq) (hw.acts acts (acts_mem hget)) a w' h
    exact ⟨hw', hl.congr hq.cells rfl, hu⟩

/-! ## Emissions -/

/-- Those are told that are registered when their turn comes. -/
theorem ok_notify {held : Held} {snapshot : List (Nat × Reaction)} (hw : w.Traced N)
    (hs : ∀ s ∈ snapshot, w.Calls s.2)
    (h : (notify (respond n) c held snapshot).run w = .ok ⟨⟩ w') :
    w'.Traced N ∧
      Delivers c held snapshot (Recorder.turns (respond n) (recorded n) c held snapshot w) w ∧
      Leads (Recorder.turns (respond n) (recorded n) c held snapshot w) w w' := by
  induction snapshot generalizing w with
  | nil =>
    obtain ⟨-, rfl⟩ := ok_pure.1 h
    exact ⟨hw, .done, .still rfl⟩
  | cons s rest ih =>
    obtain ⟨key, r⟩ := s
    have hrest : ∀ s ∈ rest, w.Calls s.2 := fun s hs' => hs s (List.mem_cons_of_mem _ hs')
    rw [notify, ok_get_bind] at h
    split at h
    · next hkey =>
      obtain ⟨⟨⟩, w₁, hturn, h⟩ := ok_bind.1 h
      have hreact := RecordsAt.holding (hn.react held (hw.pinned
        (((key, r) :: rest).flatMap fun s => w.reactionHolds s.2)) (hs _ List.mem_cons_self))
      obtain ⟨hw₁, hl, hu⟩ := hreact _ _ hturn
      obtain ⟨hw', hd, hl'⟩ := ih hw₁ (fun s hs' => (hrest s hs').mono hl.bare) h
      simp only [Recorder.turns, if_pos hkey, Record.deed, hturn]
      exact ⟨hw', .told rfl (Cell.isSubscribed_eq_true.1 hkey) rfl hd, .seq (.told hl hu) hl'⟩
    · next hkey =>
      obtain ⟨hw', hd, hl⟩ := ih hw hrest h
      simp only [Recorder.turns, if_neg hkey]
      exact ⟨hw', .gone (fun hk => hkey (Cell.isSubscribed_eq_true.2 hk)) hd, hl⟩

theorem ok_emission (hw : w.Traced N) (h : (emit (respond n) c).run w = .ok ⟨⟩ w') :
    w'.Traced N ∧
      Delivers c (w.cell c).held (w.cell c).registry
        (Recorder.emission (respond n) (recorded n) c w) w ∧
      Leads (Recorder.emission (respond n) (recorded n) c w) w w' := by
  rw [emit, ok_get_bind] at h
  obtain ⟨w₁, hnotify, rfl⟩ := ok_holding.1 h
  obtain ⟨hw₁, hd, hl⟩ := ok_notify hn (hw.pinned _) (fun s hs => hw.tells hs) hnotify
  exact ⟨hw₁.unpinned, hd.start rfl, hl.congr rfl rfl⟩

theorem recordsAt_emit (hw : w.Traced N) :
    RecordsAt N w (emit (respond n) c) (Recorder.emit (respond n) (recorded n) c w) := by
  intro _ w' h
  obtain ⟨hw', hd, hl⟩ := ok_emission hn hw h
  simp only [Recorder.emit, Record.deed, h]
  exact ⟨hw', .emitted hd hl, untold_singleton id⟩

theorem ok_holdAndEmit {held : Held} (hw : w.Traced N)
    (h : (holdAndEmit (respond n) c held).run w = .ok ⟨⟩ w') :
    ∃ told, w'.Traced N ∧
      Delivers c ((w.assigned c held).cell c).held ((w.assigned c held).cell c).registry told
        (w.assigned c held) ∧
      Leads told (w.assigned c held) w' ∧
      Recorder.assignment (respond n) (recorded n) c held w =
        [⟨.assign c held, w, [], w.assigned c held⟩,
          ⟨.emission c, w.assigned c held, told, w'⟩] := by
  have hhold : (hold c held).run w = .ok ⟨⟩ (w.assigned c held) := rfl
  rw [holdAndEmit, EStateM.run_bind, hhold] at h
  have hassigned : (w.assigned c held).Traced N := hw.withCell rfl (.refl _)
  obtain ⟨hw', hd, hl⟩ := ok_emission hn hassigned h
  refine ⟨_, hw', hd, hl, ?_⟩
  simp only [Recorder.assignment, Record.deed, hhold, h]
  rfl

/-! ## States -/

omit hn in
theorem ok_allAccept {current candidate : Value} {checkers : List Checker} {b : Bool}
    (hw : w.Traced N) (next : Record)
    (h : (allAccept (respond n) current candidate checkers).run w = .ok b w') :
    ∃ asks, w'.Traced N ∧ Vets current candidate checkers asks b w w' ∧
      Recorder.asks (respond n) current candidate next checkers w =
        asks ++ if b then next w' else [] := by
  induction checkers generalizing w with
  | nil =>
    obtain ⟨rfl, rfl⟩ := ok_pure.1 h
    exact ⟨[], hw, .passed, rfl⟩
  | cons checker rest ih =>
    obtain ⟨accepts, w₁, hask, h⟩ := ok_bind.1 h
    have hw₁ := hw.quiet (quiet_ask hask)
    simp only [Recorder.asks, Record.deed, hask]
    split at h
    · next ha =>
      subst ha
      obtain ⟨asks, hw', hv, he⟩ := ih hw₁ h
      exact ⟨_, hw', .accepted hask hv, congrArg (List.cons _) he⟩
    · next ha =>
      obtain rfl := Bool.eq_false_iff.2 ha
      obtain ⟨rfl, rfl⟩ := ok_pure.1 h
      exact ⟨_, hw₁, .refused hask, rfl⟩

theorem recordsAt_update (hw : w.Traced N) (hc : (w.cell c).IsState) (candidate : Held) :
    RecordsAt N w (updateState (respond n) c candidate)
      (Recorder.update (respond n) (recorded n) c candidate w) := by
  intro b w' hrun
  have h := hrun
  rw [updateState, ok_get_bind] at h
  obtain ⟨accepted, w₁, hall, h⟩ := ok_bind.1 h
  obtain ⟨asks, hw₁, hv, he⟩ :=
    ok_allAccept hw (Recorder.assignment (respond n) (recorded n) c candidate) hall
  simp only [Recorder.update, Record.deed, hrun, he]
  split at h
  · next ha =>
    subst ha
    obtain ⟨⟨⟩, w₂, hemit, h⟩ := ok_bind.1 h
    obtain ⟨rfl, rfl⟩ := ok_pure.1 h
    obtain ⟨told, hw', hd, hl, he'⟩ := ok_holdAndEmit hn hw₁ hemit
    rw [if_pos rfl, he']
    exact ⟨hw', .updated hc hv rfl hd hl, untold_singleton id⟩
  · next ha =>
    obtain rfl := Bool.eq_false_iff.2 ha
    obtain ⟨rfl, rfl⟩ := ok_pure.1 h
    rw [if_neg (by simp), List.append_nil]
    exact ⟨hw₁, .refused hv, untold_singleton id⟩

/-! ## Results that come later -/

omit hn in
/-- Runs what is registered for an outcome after an entry is logged. -/
def runHook (call : Respond) (c : CellId) (hook : Hook) (entry : String → Report) : Run Unit := do
  match ((← get).cell c).settlement.hook hook with
  | some (name, p) => do
    logEntry (entry name)
    p.run call
  | none => pure ()

omit hn in
theorem runOnEither_eq (call : Respond) (c : CellId) :
    runOnEither call c =
      runHook call c .either fun name => .object [("finally", .text name)] := rfl

omit hn in
theorem runOnFailure_eq (call : Respond) (c : CellId) (message : String) :
    runOnFailure call c message = runHook call c .failure fun name =>
      .object [("catch", .text name), ("message", .text message)] := rfl

theorem ok_runHook {hook : Hook} {entry : String → Report} (hw : w.Traced N) (next : Record)
    (h : (runHook (respond n) c hook entry).run w = .ok ⟨⟩ w') :
    ∃ inner, w'.Traced N ∧ Leads inner w w' ∧ Untold inner ∧
      ((w.cell c).settlement.hook hook = none → inner = []) ∧
      Recorder.outcome (recorded n) c hook (runHook (respond n) c hook entry) entry next w =
        hookDeeds c hook ((w.cell c).settlement.hook hook) w inner w' ++ next w' := by
  have hrun := h
  rw [runHook, ok_get_bind] at h
  unfold Recorder.outcome
  split at h
  · next name p hhook =>
    have hprogram := RecordsAt.after (.reads (reads_log (entry name)) hw) fun _ w₁ _ hw₁ =>
      recordsAt_program hn hw₁ p
    obtain ⟨hw', hl, hu⟩ := hprogram _ _ h
    simp only [hhook, Record.deed, hrun]
    exact ⟨_, hw', hl, hu, nofun, rfl⟩
  · next hhook =>
    obtain ⟨-, rfl⟩ := ok_pure.1 h
    simp only [hhook, Record.after, hrun]
    exact ⟨[], hw, .still rfl, untold_nil, fun _ => rfl, rfl⟩

omit hn in
theorem run_fulfilling (c : CellId) (v : Value) (w : World) :
    (Recorder.fulfilling c v).run w = .ok ⟨⟩ (w.withCell c (Cell.fulfil v)) :=
  congrArg (EStateM.Result.ok PUnit.unit) (World.withCell_withCell w c
    (·.modifySettlement fun s => { s with settled := true, ok := true })
    fun cell => { cell with held := .value v })

theorem recordsAt_resolve (hw : w.Traced N) (hc : (w.cell c).Waits) (v : Value) :
    RecordsAt N w (resolve (respond n) c v) (Recorder.resolve (respond n) (recorded n) c v w) := by
  intro _ w' hrun
  have h := hrun
  rw [resolve, ok_get_bind] at h
  simp only [Recorder.resolve, Record.deed, hrun]
  split at h
  · next hs =>
    obtain ⟨-, rfl⟩ := ok_pure.1 h
    rw [if_pos hs]
    exact ⟨hw, .late (.inl ⟨v, rfl⟩) hs rfl, untold_singleton id⟩
  · next hs =>
    replace h : ((Recorder.fulfilling c v >>= fun _ => emit (respond n) c) >>= fun _ =>
        runOnEither (respond n) c).run w = .ok ⟨⟩ w' := by
      simpa only [Recorder.fulfilling, holdAndEmit, bind_assoc] using h
    obtain ⟨⟨⟩, w₂, hemit, h⟩ := ok_bind.1 h
    rw [EStateM.run_bind, run_fulfilling] at hemit
    have hfulfilled : (w.withCell c (Cell.fulfil v)).Traced N :=
      hw.withCell (by simp [Cell.fulfil]) (by simp [Cell.fulfil])
    obtain ⟨hw₂, hd, ht⟩ := ok_emission hn hfulfilled hemit
    rw [runOnEither_eq] at h
    obtain ⟨last, hw', hl, hu, hnone, he⟩ := ok_runHook hn hw₂ Record.nothing h
    rw [if_neg hs, run_fulfilling]
    simp only [hemit, Recorder.either, runOnEither_eq, he, Record.nothing, List.append_nil]
    exact ⟨hw', .resolved hc (Bool.eq_false_iff.2 hs) rfl hd ht hnone hl hu,
      untold_singleton id⟩

theorem recordsAt_reject (hw : w.Traced N) (hc : (w.cell c).Waits) (message : String) :
    RecordsAt N w (reject (respond n) c message)
      (Recorder.reject (respond n) (recorded n) c message w) := by
  intro _ w' hrun
  have h := hrun
  rw [reject, ok_get_bind] at h
  simp only [Recorder.reject, Record.deed, hrun]
  split at h
  · next hs =>
    obtain ⟨-, rfl⟩ := ok_pure.1 h
    rw [if_pos hs]
    exact ⟨hw, .late (.inr ⟨message, rfl⟩) hs rfl, untold_singleton id⟩
  · next hs =>
    obtain ⟨⟨⟩, w₁, hfail, h⟩ := ok_bind.1 h
    change (modifyCell c Cell.fail).run w = _ at hfail
    rw [run_modifyCell] at hfail
    cases hfail
    rw [runOnEither_eq, runOnFailure_eq] at h
    obtain ⟨⟨⟩, w₂, hcatch, h⟩ := ok_bind.1 h
    have hfailed : (w.withCell c Cell.fail).Traced N :=
      hw.withCell (by simp [Cell.fail]) (by simp [Cell.fail])
    obtain ⟨failed, hw₂, ht, hu, hnone, he⟩ := ok_runHook hn hfailed
      (Recorder.either (respond n) (recorded n) c) hcatch
    obtain ⟨last, hw', hl, hu', hnone', he'⟩ := ok_runHook hn hw₂ Record.nothing h
    rw [if_neg hs, run_modifyCell]
    simp only [runOnFailure_eq, he]
    simp only [Recorder.either, runOnEither_eq, he', Record.nothing, List.append_nil]
    exact ⟨hw', .rejected hc (Bool.eq_false_iff.2 hs) rfl hnone ht hu hnone' hl hu',
      untold_singleton id⟩

omit hn in
theorem recordsAt_eraseTask (hw : w.Traced N) (name : String) :
    RecordsAt N w (modifyTasks (Entries.erase name)) [] := by
  intro _ w' h
  obtain rfl := ok_modify.1 h
  refine ⟨hw.withNames rfl hw.subscribers fun {other t} hn => ?_, .still rfl,
    untold_nil⟩
  rw [Entries.get?_erase] at hn
  split at hn
  · cases hn
  · exact hw.tasks hn

omit hn in
theorem recordsAt_waitTask (hw : w.Traced N) {t : Task} (ht : (w.cell t.later).Waits)
    (name : String) : RecordsAt N w (modifyTasks (Entries.set name t)) [] := by
  intro _ w' h
  obtain rfl := ok_modify.1 h
  refine ⟨hw.withNames rfl hw.subscribers fun {other t'} hn => ?_, .still rfl,
    untold_nil⟩
  rw [Entries.get?_set] at hn
  split at hn
  · cases hn
    exact ht
  · exact hw.tasks hn

theorem recordsAt_poll (hw : w.Traced N) {t : Task} (ht : (w.cell t.later).Waits) (name : String) :
    RecordsAt N w (t.poll (respond n) name)
      (Recorder.poll (respond n) (recorded n) name t w) := by
  obtain ⟨later, polls, outcome⟩ := t
  cases polls with
  | succ k =>
    have hwait := recordsAt_waitTask hw (t := ⟨later, k, outcome⟩) ht name
    exact hwait.ending fun _ _ _ hw₁ => .pure hw₁ _
  | zero =>
    have herase := recordsAt_eraseTask hw name
    unfold Task.poll Recorder.poll
    cases outcome with
    | ok v =>
      refine herase.after fun _ w₁ hrun hw₁ => ?_
      obtain rfl := ok_modify.1 hrun
      have hsettle := recordsAt_resolve hn (hw₁.pinned (.cell later :: v.holds)) ht v
      exact hsettle.holding.ending fun _ _ _ hw₂ => .pure hw₂ _
    | error message =>
      refine herase.after fun _ w₁ hrun hw₁ => ?_
      obtain rfl := ok_modify.1 hrun
      have hsettle := recordsAt_reject hn (hw₁.pinned [.cell later]) ht message
      exact hsettle.holding.ending fun _ _ _ hw₂ => .pure hw₂ _

/-! ## Subscriptions that are told -/

theorem recordsAt_regeneration (hw : w.Traced N) {cells : List CellId} {target : CellId}
    (ht : (w.cell target).flavour = .derived) (g : Generator) (sources : World → List Held) :
    RecordsAt N w (whileAlive cells (do regenerate (respond n) target g (sources (← get))))
      (Recorder.regeneration (respond n) (recorded n) cells target g sources w) := by
  refine .get_bind ?_
  unfold Recorder.regeneration
  split
  · refine .holding (.get_bind ?_)
    have hg : Reads (g.run (respond n) (sources (w.pinned (cells.map .cell)))) :=
      reads_generator (respond_reads n) g _
    refine RecordsAt.after (.reads hg (hw.pinned (cells.map .cell))) fun held w₁ hrun hw₁ => ?_
    intro _ w' h
    obtain ⟨told, hw', hd, hl, he⟩ := ok_holdAndEmit hn hw₁ h
    rw [he]
    have hcell := (hg.ok hrun).cell target
    exact ⟨hw', .derived (by rw [hcell]; exact ht) rfl hd hl,
      untold_append (untold_singleton id) (untold_singleton id)⟩
  · exact .pure hw _

theorem recordsAt_reaction (hw : w.Traced N) {r : Reaction} (hr : w.Calls r) (held : Held) :
    RecordsAt N w (r.run (respond n) held)
      (Recorder.reaction (respond n) (recorded n) held r w) := by
  cases r with
  | subscriber name p | watch name p =>
    exact .get_bind (.after (.reads (reads_log _) hw) fun _ _ _ hw₁ => recordsAt_program hn hw₁ p)
  | derive target g => exact recordsAt_regeneration hn hw hr g _
  | combineFirst target second g => exact recordsAt_regeneration hn hw hr g _
  | combineSecond target first g => exact recordsAt_regeneration hn hw hr g _
  | combineAll target sources g => exact recordsAt_regeneration hn hw hr g _
  | recompute target g => exact recordsAt_regeneration hn hw hr g _
  | awaited | rebuild | «attribute» | styleProperty => exact hr.elim

/-! ## Steps -/

omit hn in
theorem Cell.IsState.flavour {x : Cell} (h : x.IsState) :
    ∃ checkers, x.flavour = .state checkers := by
  unfold Cell.IsState at h
  cases hx : x.flavour <;> rw [hx] at h <;> first | exact ⟨_, rfl⟩ | cases h

omit hn in
theorem reads_stepChange (c : CellId) (change : Change) :
    Reads (stepChange (respond n) c change).run := by
  have heval : ∀ current, Reads (change.eval (respond n) current).run := by
    intro current
    cases change with
    | value e => exact reads_evalExpr (respond_reads n) [] e
    | compute e => exact (reads_calledExpr (respond_reads n) _ e).lift
  exact keeps_get.lift.ebind fun _ => Keeps.ebind (reads_answering (heval _)) fun _ =>
    keeps_get.lift.ebind fun _ => keeps_epure _

omit hn in
theorem recordsAt_count (hw : w.Traced N) (c : CellId) :
    RecordsAt N w (do return .count (← subscriberCount c) : Answering Report).run [] := by
  have hread : Reads (do return .count (← subscriberCount c) : Answering Report).run :=
    Keeps.ebind (Keeps.lift (keeps_get.bind fun _ => keeps_pure _)) fun _ => keeps_epure _
  exact .reads hread hw

omit hn in
theorem recordsAt_modifyNames {f : Names → Names}
    (h : ({ w with names := f w.names } : World).Traced N) :
    RecordsAt N w (modifyNames f) [] := by
  intro _ w' hrun
  obtain rfl := ok_modify.1 hrun
  exact ⟨h, .still rfl, untold_nil⟩

omit hn in
theorem recordsAt_subscriberKey (hw : w.Traced N) (handler : String) :
    RecordsAt N w (subscriberKey handler).run [] :=
  .reads (Keeps.ebind (reads_lookup handler).lift fun _ => keeps_epure _) hw

omit hn in
theorem recordsAt_unsubscribe (hw : w.Traced N) (c : CellId) (key : Nat) :
    RecordsAt N w (modifyCell c (·.unsubscribe key))
      (Record.change (.unsubscribe c key) c (·.unsubscribe key) w) :=
  recordsAt_change rfl rfl (hw.withCell rfl List.filter_sublist)

omit hn in
theorem recordsAt_newCallback (hw : w.Traced N) {acts : List Step} (times : Nat)
    (h : ∀ s ∈ acts, s.Traced N) : RecordsAt N w (newCallback acts times) [] := by
  intro _ w' hrun
  cases hrun
  exact ⟨hw.called times h, .still rfl, untold_nil⟩

omit hn in
/-- What comes after a new subscription. -/
theorem recordsAt_subscribe (hw : w.Traced N) {r : Reaction} (hr : w.Calls r)
    {g : Nat → Answering α}
    (hg : (w.subscribed c r).Traced N → RecordsAt N (w.subscribed c r) (g w.nextKey).run []) :
    RecordsAt N w ((liftM (subscribe c r) : Answering Nat) >>= g).run
      (Record.deed (.subscribe c · r) (subscribe c r) Record.nothing
        (fun _ => Record.nothing) w) := by
  intro a w' hrun
  rw [ExceptT.run_bind, ExceptT.run_liftM, map_eq_pure_bind, bind_assoc] at hrun
  simp only [pure_bind] at hrun
  rw [EStateM.run_bind, run_subscribe] at hrun
  obtain ⟨hw', hl, -⟩ := hg (hw.subscribed hr) a w' hrun
  have hchanged : Leads [⟨.subscribe c w.nextKey r, w, [], w.subscribed c r⟩] w
      (w.subscribed c r) := .changed rfl (by simp) rfl
  exact ⟨hw', hchanged.seq hl, untold_singleton id⟩

omit hn in
theorem recordsAt_register (hw : w.Traced N) (hook : Hook) {acts : List Step} (times : Nat)
    (h : ∀ s ∈ acts, s.Traced N) (c : CellId) (handler : String) :
    RecordsAt N w (do
      let p ← newCallback acts times
      silently (modifyCell c (·.modifySettlement (·.withHook (handler, p) hook))) :
        Answering Report).run
      (Record.after (newCallback acts times) (fun p => Record.change (.register c hook (handler, p))
        c (·.modifySettlement (·.withHook (handler, p) hook))) w) := by
  refine RecordsAt.lift_after (recordsAt_newCallback hw times h) fun p w₁ _ hw₁ => ?_
  refine RecordsAt.silently (recordsAt_change rfl (by simp) ?_)
  exact hw₁.withCell (by simp) (by simp)

omit hn in
theorem recordsAt_stepSubscribe (hw : w.Traced N) (handler : String) {acts : List Step}
    (times : Nat) (h : ∀ s ∈ acts, s.Traced N) (c : CellId) :
    RecordsAt N w (stepSubscribe handler acts times c).run
      (match Entries.get? handler w.names.subscribers with
      | some (key, r) => Record.change (.subscribe c key r) c (·.subscribe key r) w
      | none => Record.after (newCallback acts times) (fun p =>
          Record.deed (.subscribe c · (.subscriber handler p))
            (subscribe c (.subscriber handler p)) Record.nothing fun _ => Record.nothing) w) := by
  refine .eget_bind ?_
  rcases hget : Entries.get? handler w.names.subscribers with _ | ⟨key, r⟩
  · refine RecordsAt.lift_after (recordsAt_newCallback hw times h) fun p w₁ _ hw₁ => ?_
    refine recordsAt_subscribe hw₁ (r := .subscriber handler p) trivial fun hw₂ => ?_
    refine (recordsAt_modifyNames (hw₂.withNames rfl ?_ hw₂.tasks)).lift.eending fun _ _ hw₃ =>
      recordsAt_count hw₃ c
    intro name key r hn
    rw [Entries.get?_set] at hn
    split at hn
    · cases hn
      exact ⟨Nat.lt_succ_self _, trivial⟩
    · exact hw₂.subscribers hn
  · obtain ⟨hkey, hr⟩ := hw.subscribers hget
    have hact : (Act.subscribe c key r).change? = some (c, (·.subscribe key r)) := rfl
    have hsubscribe := recordsAt_change hact (by simp) (hw.subscribe hkey hr.tells)
    exact hsubscribe.lift.eending fun _ _ hw₁ => recordsAt_count hw₁ c

theorem recordsAt_step {step : Step} (h : step.Traced N) (hw : w.Traced N) :
    RecordsAt N w (stepAnswer (respond n) step).run
      (Recorder.step (respond n) (recorded n) step w) := by
  cases h with
  | reads h hnothing =>
    rw [hnothing]
    exact .reads (h n) hw
  | set =>
    refine .onCell hw fun c _ => ?_
    refine RecordsAt.afterStep (.reads (reads_stepChange c _) (hw.pinned _)) fun held w₁ _ hw₁ => ?_
    exact RecordsAt.silently (recordsAt_change rfl rfl (hw₁.withCell rfl (.refl _)))
  | setValue =>
    refine .onCell hw fun c _ => ?_
    refine RecordsAt.afterStep (.reads (reads_stepChange c _) (hw.pinned _)) fun held w₁ _ hw₁ => ?_
    exact RecordsAt.silently (recordsAt_change rfl rfl (hw₁.withCell rfl (.refl _)))
  | emit => exact .onCell hw fun c _ => RecordsAt.silently (recordsAt_emit hn (hw.pinned _))
  | unsubscribe =>
    refine .onCell hw fun c _ => ?_
    refine RecordsAt.afterStep (recordsAt_subscriberKey (hw.pinned _) _) fun key w₁ _ hw₁ => ?_
    exact (recordsAt_unsubscribe hw₁ c key).lift.eending fun _ _ hw₂ => recordsAt_count hw₂ c
  | unsubscribeAll =>
    refine .onCell hw fun c _ => RecordsAt.silently ?_
    exact recordsAt_change rfl rfl ((hw.pinned _).withCell rfl (List.nil_sublist _))
  | cancel =>
    refine RecordsAt.lift_after (.reads (reads_lookup _) hw) fun ⟨c, key⟩ w₁ _ hw₁ => ?_
    refine (recordsAt_unsubscribe hw₁ c key).lift.eending fun _ w₂ hw₂ => .silently ?_
    exact recordsAt_modifyNames (hw₂.withNames rfl hw₂.subscribers hw₂.tasks)
  | @poll task =>
    refine RecordsAt.lift_after (.reads (reads_lookup _) hw) fun t w₁ hrun hw₁ => ?_
    rw [lookup, ok_get_bind] at hrun
    split at hrun
    · next hget =>
      obtain ⟨rfl, rfl⟩ := ok_pure.1 hrun
      exact (recordsAt_poll hn hw (hw.tasks hget) task).lift.eending fun _ _ hw₂ => .pure hw₂ _
    · exact absurd hrun not_ok_unknown
  | @update _ change h =>
    refine .onCell hw fun c hget => ?_
    have hreads := reads_stepChange (n := n) c change
    refine RecordsAt.afterStep (.reads hreads (hw.pinned _)) fun held w₁ hrun hw₁ => .eget_bind ?_
    have hc : (w₁.cell c).IsState := by
      rw [Cell.IsState, (hreads.ok hrun).cell]
      exact hw.states h hget
    obtain ⟨checkers, hflavour⟩ := hc.flavour
    simp only [hflavour]
    exact (recordsAt_update hn hw₁ hc held).lift.eending fun _ _ hw₂ => .pure hw₂ _
  | flip h =>
    refine .onCell hw fun c hget => .eget_bind ?_
    have hupdate := recordsAt_update hn (hw.pinned [.cell c]) (hw.states h hget)
    exact (hupdate _).lift.eending fun _ _ hw₁ => .pure hw₁ _
  | push h =>
    refine .onCell hw fun c hget => .eget_bind ?_
    have hupdate := recordsAt_update hn (hw.pinned [.cell c]) (hw.states h hget)
    exact (hupdate _).lift.eending fun _ _ hw₁ => .pure hw₁ _
  | @addChecker _ checker h =>
    refine .onCell hw fun c hget => ?_
    have hb : (((w.pinned [.cell c]).cell c).addChecker checker).flavour.bare =
        ((w.pinned [.cell c]).cell c).flavour.bare := (hw.states h hget).symm
    have hact : (Act.addChecker c checker).change? = some (c, (·.addChecker checker)) := rfl
    have hchange := recordsAt_change hact hb ((hw.pinned _).withCell hb (.refl _))
    refine hchange.lift.eending fun _ _ hw₁ => ?_
    exact .reads (keeps_get.lift.ebind fun _ => keeps_epure _) hw₁
  | subscribe h => exact .onCell hw fun c _ => recordsAt_stepSubscribe (hw.pinned _) _ _ h c
  | watch h =>
    refine .onCell hw fun c _ => ?_
    refine RecordsAt.lift_after (recordsAt_newCallback (hw.pinned _) _ h) fun p w₁ _ hw₁ => ?_
    refine recordsAt_subscribe hw₁ (r := .watch _ p) trivial fun hw₂ => .silently ?_
    exact recordsAt_modifyNames (hw₂.withNames rfl hw₂.subscribers hw₂.tasks)
  | @resolve _ value h =>
    refine .onCell hw fun c hget => ?_
    have hreads : Reads (stepValue (respond n) value).run :=
      reads_answering (reads_evalExpr (respond_reads n) [] value)
    refine RecordsAt.afterStep (.reads hreads (hw.pinned _)) fun v w₁ hrun hw₁ => .silently ?_
    have hc : (w₁.cell c).Waits := by
      rw [Cell.Waits, (hreads.ok hrun).cell]
      exact hw.laters h hget
    exact recordsAt_resolve hn hw₁ hc v
  | reject h =>
    exact .onCell hw fun c hget =>
      RecordsAt.silently (recordsAt_reject hn (hw.pinned _) (hw.laters h hget) _)
  | onCatch hc h =>
    exact .onCell hw fun c _ => recordsAt_register (hw.pinned _) .failure _ h c _
  | onFinally hc h =>
    exact .onCell hw fun c _ => recordsAt_register (hw.pinned _) .either _ h c _

theorem recordsAt_perform {steps : List Step} (hw : w.Traced N) (h : ∀ s ∈ steps, s.Traced N) :
    RecordsAt N w (performAll (respond n) steps)
      (Recorder.perform (respond n) (recorded n) steps w) := by
  induction steps generalizing w with
  | nil => exact .pure hw _
  | cons step rest ih =>
    have hstep : RecordsAt N w (reported (stepAnswer (respond n) step))
        (Recorder.step (respond n) (recorded n) step w) := by
      refine (recordsAt_step hn (h step List.mem_cons_self) hw).ending fun r w₁ _ hw₁ => ?_
      cases r <;> exact .pure hw₁ _
    refine hstep.seq_after fun r w₁ _ hw₁ => ?_
    exact RecordsAt.after (.reads (reads_log _) hw₁) fun _ w₂ _ hw₂ =>
      ih hw₂ fun s hs => h s (List.mem_cons_of_mem _ hs)

end

/-- What is recorded of subscriptions and programs is true at every depth. -/
theorem faithful (N : Naming) (n : Nat) : Faithful N n := by
  induction n with
  | zero => exact ⟨fun _ _ _ _ _ h => absurd h not_ok_throw, fun _ _ _ _ h => absurd h not_ok_throw⟩
  | succ n ih =>
    exact ⟨fun held hw hr => recordsAt_reaction ih hw hr held,
      fun hw h => recordsAt_perform ih hw h⟩

end LivePage
