import LivePage.Proofs.Store.Agreement

/-!
# Updates from within updates

Those who are told of a store may update it again, or its fields, and those whom they tell may do so
in turn. When the store tells its own subscriptions, and when a field is updated, all fields agree
with the record already; so whoever leaves things in agreement if he finds them so can be told
(`Mends`). Only a subscription to a field has to keep still: while the store brings its fields up to
date, those whose turn is still to come will get their part of the record that the update began
with, whatever has become of it since.
-/

namespace LivePage

open LivePage.Script

variable {K : Schema} {S c : CellId} {w w' : World} {n : String} {held : Held} {r : Value}
  {known : Entries CellId} {call : Respond} {E : Stop → Prop} {I P : World → Prop}
  {Q R : Reaction → Prop}

namespace Schema

/-- The store agrees with its fields, and those in `known` are among them. -/
structure Agreement (K : Schema) (S : CellId) (known : Entries CellId) (w : World) : Prop where
  sound : K.Sound S w
  inStep : K.InStep S w
  known {e : String × CellId} : e ∈ known → e ∈ w.fieldsOf S

theorem Agreement.spares (h : K.Agreement S known w) (hs : K.Spares S w w') :
    K.Agreement S known w' :=
  ⟨hs.sound, h.inStep.spares hs, fun he => (hs.kept (h.known he)).1⟩

theorem Agreement.mono (h : K.Agreement S known w) {fewer : Entries CellId}
    (hk : ∀ e ∈ fewer, e ∈ known) : K.Agreement S fewer w :=
  { h with known := fun he => h.known (hk _ he) }

theorem Syncing.agreement (h : K.Syncing S r known [] w) : K.Agreement S known w :=
  ⟨h.sound, h.inStep, h.known⟩

/-- Whoever is told of the store leaves it in agreement with its fields if he finds it so, and
whoever is told of a field leaves both alone. -/
structure Mends (K : Schema) (S : CellId) (call : Respond) (E : Stop → Prop) (I : World → Prop)
    (Q R : Reaction → Prop) : Prop extends FieldsIdle K S call E I Q where
  store {w : World} : I w → K.Sound S w → ∀ s ∈ (w.cell S).registry, R s.2
  agrees {w : World} {known : Entries CellId} {r : Reaction} (held : Held) : I w →
    K.Agreement S known w → R r →
    KeepsAt (fun _ w' => I w' ∧ K.Agreement S known w') E w (call (.react r held))

theorem Mends.telling (hM : K.Mends S call E I Q R) (hP : ∀ {w}, K.Agreement S known w → P w) :
    Telling call E R (fun w => I w ∧ K.Agreement S known w) P where
  repin pins hw := ⟨hM.repin pins hw.1, hw.2.spares (hw.2.sound.spares_of_cells rfl rfl)⟩
  implies hw := hP hw.2
  react held hw hr := hM.agrees held hw.1 hw.2 hr

theorem Mends.fieldTelling (hM : K.Mends S call E I Q R) :
    Telling call E Q (fun w => I w ∧ K.Agreement S known w) (K.InStep S) where
  repin pins hw := ⟨hM.repin pins hw.1, hw.2.spares (hw.2.sound.spares_of_cells rfl rfl)⟩
  implies hw := hw.2.inStep
  react held hw hr := (hM.spares held hw.1 hw.2.sound hr).mono
    (fun h => ⟨h.1, hw.2.spares h.2⟩) id

/-- However its subscriptions update it or its fields meanwhile, after an update of the store all
fields agree with it. -/
theorem Mends.updateStore (hM : K.Mends S call E I Q R) (hw : I w) (h : K.Sound S w)
    (hr : K.Record r) :
    KeepsAt (fun w w' => I w' ∧ K.Agreement S (w.fieldsOf S) w') E w
      (LivePage.updateStore call S (.value r)) := by
  have htelling : Telling call E R (fun w' => I w' ∧ K.Agreement S (w.fieldsOf S) w')
    (fun _ => True) := hM.telling fun _ => trivial
  have hemit : ∀ w', I w' → K.Syncing S r (w.fieldsOf S) [] w' →
      KeepsAt (Announced call (fun w' => I w' ∧ K.Agreement S (w.fieldsOf S) w') (fun _ => True)
        [(S, .value r)]) E w' (emit call S) := by
    intro w' hw' h'
    have htold := htelling.emit ⟨hw', h'.agreement⟩ h'.sound.keys (hM.store hw' h'.sound)
    rwa [h'.store] at htold
  exact (hM.toFieldsIdle.updateStore hw h hr (fun _ => trivial) hemit).mono Announced.holds id

/-- Nor can an update of a field bring the others out of step. -/
theorem Mends.updateField (hM : K.Mends S call E I Q R) (hw : I w) (h : K.Sound S w)
    (hs : K.InStep S w) (hc : (n, c) ∈ w.fieldsOf S) (ht : K.Takes n held) :
    KeepsAt (fun w w' => I w' ∧ K.Agreement S (w.fieldsOf S) w') E w
      (LivePage.updateField call c S (K.part n) held) := by
  have htelling : Telling call E R (fun w' => I w' ∧ K.Agreement S (w.fieldsOf S) w')
    (K.InStep S) := hM.telling Agreement.inStep
  refine keepsAt_hold_bind (keepsAt_get_bind ((hM.writeBack hw h hs hc ht htelling
    (fun hw' h' => ⟨hw', h'.agreement⟩) (hM.store hw h)).seq fun _ w₂ _ h₂ => ?_))
  have hc₂ := h₂.holds.2.known hc
  exact (hM.fieldTelling.emit h₂.holds (h₂.holds.2.sound.fieldKeys hc₂)
    (hM.fields h₂.holds.1 h₂.holds.2.sound hc₂)).mono Announced.holds id

/-! ## Runs that keep agreement -/

/-- The run leaves the store in agreement with its fields if it finds it so. -/
def Tends (K : Schema) (S : CellId) (E : Stop → Prop) (I : World → Prop) (x : Run Unit) : Prop :=
  ∀ {w known}, I w → K.Agreement S known w →
    KeepsAt (fun _ w' => I w' ∧ K.Agreement S known w') E w x

theorem Tends.seq {x y : Run Unit} (hx : K.Tends S E I x) (hy : K.Tends S E I y) :
    K.Tends S E I (x >>= fun _ => y) :=
  fun hw h => (hx hw h).seq fun _ _ _ h₁ => hy h₁.1 h₁.2

theorem Mends.tends_updateStore (hM : K.Mends S call E I Q R) (hr : K.Record r) :
    K.Tends S E I (LivePage.updateStore call S (.value r)) := fun hw h =>
  (hM.updateStore hw h.sound hr).mono (fun h' => ⟨h'.1, h'.2.mono fun _ he => h.known he⟩) id

theorem Mends.tends_updateField (hM : K.Mends S call E I Q R)
    (hc : ∀ w, I w → (n, c) ∈ w.fieldsOf S) (ht : K.Takes n held) :
    K.Tends S E I (LivePage.updateField call c S (K.part n) held) := fun hw h =>
  (hM.updateField hw h.sound h.inStep (hc _ hw) ht).mono
    (fun h' => ⟨h'.1, h'.2.mono fun _ he => h.known he⟩) id

end Schema

/-! ## At every depth -/

/-- The subscription runs one of these programs. -/
def Reaction.Runs (F : CallbackId → Prop) : Reaction → Prop
  | .subscriber _ program | .watch _ program => F program
  | _ => False

namespace Schema

/-- The steps of the programs are those in `A`, and all subscriptions run programs, those to fields
only programs in `F`. -/
structure Programmed (A : Array (List Step)) (F : CallbackId → Prop) (S : CellId) (w : World) :
    Prop where
  acts : w.callbacks.map (·.acts) = A
  fields {n : String} {c : CellId} : (n, c) ∈ w.fieldsOf S →
    ∀ s ∈ (w.cell c).registry, s.2.Runs F
  store : ∀ s ∈ (w.cell S).registry, s.2.Runs fun _ => True

variable {A : Array (List Step)} {F : CallbackId → Prop} {call : Respond}

theorem Programmed.quiet (h : Programmed A F S w) (hq : Quiet w w') : Programmed A F S w' := by
  refine ⟨hq.acts.trans h.acts, fun hc => ?_, ?_⟩
  · rw [World.fieldsOf, hq.cell] at hc
    rw [hq.cell]
    exact h.fields hc
  · rw [hq.cell]
    exact h.store

theorem Programmed.adding (h : Programmed A F S w) (hs : K.Sound S w)
    (hn : n ∉ (w.fieldsOf S).map (·.1)) : Programmed A F S (K.adding S n w) := by
  refine ⟨h.acts, fun hc => ?_, ?_⟩
  · rcases hs.mem_adding hn hc with ⟨hc, he⟩ | ⟨-, he⟩
    · rw [he]
      exact h.fields hc
    · rw [he]
      exact fun _ h => absurd h List.not_mem_nil
  · rw [hs.cell_adding]
    exact h.store

/-- What does not depend on quiet changes and is kept by the steps of a program is kept by a
subscription that runs it. -/
theorem Programmed.runs {J : World → Prop} {G : CallbackId → Prop} {r : Reaction} {k : Nat}
    (hE : ∀ e : Stop, e.calm → E e) (hJ : ∀ {w}, J w → Programmed A F S w)
    (hquiet : ∀ {w w'}, J w → Quiet w w' → J w')
    (hsteps : ∀ j < k, ∀ program, G program → ∀ acts, A[program.index]? = some acts → ∀ w, J w →
      KeepsAt (fun _ w' => J w') E w (performAll (respond j) acts))
    (hr : r.Runs G) (held : Held) (hw : J w) :
    KeepsAt (fun _ w' => J w') E w (respond k (.react r held)) := by
  cases k with
  | zero => exact hE _ trivial
  | succ k =>
    have hprogram : ∀ {program w₁}, G program → J w₁ →
        KeepsAt (fun _ w' => J w') E w₁ (program.run (respond k)) := by
      intro program w₁ hp hw₁
      refine keepsAt_get_bind ?_
      split
      · next acts remaining hget =>
        have hacts : A[program.index]? = some acts := by
          rw [← (hJ hw₁).acts, Array.getElem?_map, hget]
          rfl
        have hcount := keepsAt_set (E := E) (quiet_counted hget)
        refine hcount.seq fun _ w₂ _ hq => ?_
        cases k with
        | zero => exact hE _ trivial
        | succ j => exact hsteps j (by omega) program hp acts hacts w₂ (hquiet hw₁ hq)
      · exact hw₁
    cases r with
    | subscriber name program | watch name program =>
      refine keepsAt_get_bind ((((reads_log _).start w).mono id fun he => hE _ he).seq
        fun _ w₁ _ hq => hprogram hr (hquiet hw hq))
    | _ => exact hr.elim

/-- Programs for the store that keep agreement as long as those do that they call for, and programs
for fields that only read and log, can be nested to any depth. -/
theorem mends_respond (hE : ∀ e : Stop, e.calm → E e)
    (hF : ∀ program, F program → ∀ acts, A[program.index]? = some acts → ReadsOnly acts)
    (hA : ∀ acts ∈ A, ∀ k, K.Mends S (respond k) E (Programmed A F S) (Reaction.Runs F)
      (Reaction.Runs fun _ => True) → K.Tends S E (Programmed A F S) (performAll (respond k) acts))
    (k : Nat) :
    K.Mends S (respond k) E (Programmed A F S) (Reaction.Runs F)
      (Reaction.Runs fun _ => True) := by
  induction k using Nat.strongRecOn with
  | ind k ih =>
    refine ⟨⟨fun pins h => ⟨h.acts, h.fields, h.store⟩, ?_, fun h hs hn => h.adding hs hn,
      fun h _ hc => h.fields hc, ?_⟩, fun h _ => h.store, ?_⟩
    · intro w c held h _ _
      refine ⟨h.acts, fun hc => ?_, ?_⟩
      · rw [World.registry_assigned]
        exact h.fields (by simpa using hc)
      · rw [World.registry_assigned]
        exact h.store
    · intro w r held h hs hr
      refine Programmed.runs (J := fun w' => Programmed A F S w' ∧ K.Spares S w w') hE (·.1)
        (fun h hq => ⟨h.1.quiet hq, h.2.trans (h.2.sound.spares_of_cells hq.names hq.cells)⟩)
        ?_ hr held ⟨h, .refl hs⟩
      intro j _ program hp acts hacts w₁ h₁
      refine ((hF program hp acts hacts j).start w₁).mono (fun hq => ?_) fun he => hE _ he
      exact ⟨h₁.1.quiet hq, h₁.2.trans (h₁.2.sound.spares_of_cells hq.names hq.cells)⟩
    · intro w known r held h hs hr
      refine Programmed.runs (J := fun w' => Programmed A F S w' ∧ K.Agreement S known w') hE (·.1)
        (fun h hq => ⟨h.1.quiet hq, h.2.spares (h.2.sound.spares_of_cells hq.names hq.cells)⟩)
        ?_ hr held ⟨h, hs⟩
      exact fun j hj program _ acts hacts w₁ h₁ =>
        hA acts (Array.mem_of_getElem? hacts) j (ih j hj) h₁.1 h₁.2

end Schema

end LivePage
