import LivePage.Proofs.Network.Basic
import LivePage.Proofs.Store.Basic

/-!
# A store agrees with its fields

An update of a store brings field after field up to date, and on the way the fields whose turn is
still to come hold parts of the old record: `Syncing` says so. An update of a field writes the
record before anybody is told, so all fields agree with it throughout. If nobody who is told of a
store or its fields updates one of them (`Idle`), then both operations end in agreement, and tell
those whom they should in the right order (`Idle.updateStore`, `Idle.updateField`); so after any
number of operations the store agrees with its fields (`Reached.sound`).
-/

namespace LivePage

open LivePage.Script

variable {K : Schema} {S c : CellId} {w w' : World} {n : String} {held : Held} {r : Value}
  {known todo : Entries CellId} {call : Respond} {E : Stop → Prop} {I P : World → Prop}
  {Q : Reaction → Prop}

namespace Schema

/-! ## On the way -/

/-- The store holds the record `r`, and so does every field in its part, apart from those in `todo`.
The fields in `known` are still there. -/
structure Syncing (K : Schema) (S : CellId) (r : Value) (known todo : Entries CellId)
    (w : World) : Prop where
  sound : K.Sound S w
  store : (w.cell S).held = .value r
  known {e : String × CellId} : e ∈ known → e ∈ w.fieldsOf S
  synced {n : String} {c : CellId} : (n, c) ∈ w.fieldsOf S → (n, c) ∉ todo →
    (w.cell c).held = K.get n r

namespace Syncing

variable (h : K.Syncing S r known todo w)
include h

theorem content : w.content S = r := World.content_of_held h.store

theorem record : K.Record r := by
  rw [← h.content]
  exact h.sound.content.1

theorem spares (hs : K.Spares S w w') : K.Syncing S r known todo w' where
  sound := hs.sound
  store := hs.store.trans h.store
  known he := (hs.kept (h.known he)).1
  synced {n c} hc hn := by
    by_cases hc' : (n, c) ∈ w.fieldsOf S
    · rw [(hs.kept hc').2]
      exact h.synced hc' hn
    · rw [hs.fresh hc hc', hs.content, h.content]

theorem repin (pins : List (List Entity)) : K.Syncing S r known todo { w with pins } :=
  h.spares (h.sound.spares_of_cells rfl rfl)

end Syncing

/-- With nothing left to do, all fields agree with the store. -/
theorem Syncing.inStep (h : K.Syncing S r known [] w) : K.InStep S w := fun n c hc => by
  rw [h.content]
  exact h.synced hc List.not_mem_nil

/-- Bringing the next field up to date. -/
theorem Syncing.next (h : K.Syncing S r known ((n, c) :: todo) w) (hc : (n, c) ∈ known) :
    K.Syncing S r known todo (w.assigned c (K.get n r)) where
  sound := h.sound.assigned fun hS => absurd hS (h.sound.ne (h.known hc))
  store := by
    rw [World.held_assigned_of_ne (h.sound.ne (h.known hc)).symm]
    exact h.store
  known he := by simpa using h.known he
  synced {m d} hd hn := by
    rw [World.fieldsOf_assigned] at hd
    by_cases hdc : d = c
    · subst hdc
      rw [World.held_assigned (h.sound.field_lt hd), h.sound.cell_unique hd (h.known hc)]
    · rw [World.held_assigned_of_ne hdc]
      refine h.synced hd fun hmem => ?_
      rcases List.mem_cons.1 hmem with he | hmem
      · cases he
        exact hdc rfl
      · exact hn hmem

/-- Assigning a record to the store leaves all fields to be brought up to date. -/
theorem Sound.syncing (h : K.Sound S w) (hr : K.Record r) :
    K.Syncing S r (w.fieldsOf S) (w.fieldsOf S) (w.assigned S (.value r)) where
  sound := h.assigned fun _ => ⟨r, hr, rfl⟩
  store := World.held_assigned h.lt _
  known he := by simpa using he
  synced hc hn := absurd (by simpa using hc) hn

/-- Assigning a field and then writing it to the store. -/
theorem InStep.written (hs : K.InStep S w) (h : K.Sound S w) (hc : (n, c) ∈ w.fieldsOf S)
    (ht : K.Takes n held) :
    K.Syncing S (K.set n held (w.content S)) (w.fieldsOf S) []
      ((w.assigned c held).assigned S (.value (K.set n held (w.content S)))) := by
  have hr := h.content.1
  have hc₁ : K.Sound S (w.assigned c held) := h.assigned fun hS => absurd hS (h.ne hc)
  refine ⟨hc₁.assigned fun _ => ⟨_, K.record_set hr ht, rfl⟩, World.held_assigned hc₁.lt _,
    fun he => by simpa using he, fun {m d} hd _ => ?_⟩
  rw [World.fieldsOf_assigned, World.fieldsOf_assigned] at hd
  rw [World.held_assigned_of_ne (h.ne hd)]
  by_cases hdc : d = c
  · subst hdc
    rw [World.held_assigned (h.field_lt hd), h.cell_unique hd hc, K.get_set hr ht]
  · have hne : n ≠ m := by
      rintro rfl
      exact hdc (h.name_unique hd hc)
    rw [World.held_assigned_of_ne hdc, hs m d hd, K.get_set_of_ne hne hr ht]

end Schema

/-! ## New fields -/

/-- The world with one more field of a store. -/
def World.withNewField (w : World) (S : CellId) (n : String) (part : Part) (type : ValueType)
    (held : Held) : World :=
  (w.grown { flavour := .field S part, type, held }).withCell S fun cell =>
    { cell with flavour := .store ⟨(w.cell S).fields.synced ++ [⟨w.cells.size⟩],
      Entries.set n ⟨w.cells.size⟩ (w.cell S).fields.named⟩ }

section

variable {part : Part} {type : ValueType}

theorem World.cell_withNewField_new (h : S.index < w.cells.size) :
    (w.withNewField S n part type held).cell ⟨w.cells.size⟩ =
      { flavour := .field S part, type, held } := by
  rw [withNewField, cell_withCell, if_neg, cell_grown, if_pos rfl]
  rintro ⟨rfl, -⟩
  exact Nat.lt_irrefl _ h

theorem World.cell_withNewField_store (h : S.index < w.cells.size) :
    (w.withNewField S n part type held).cell S =
      { w.cell S with flavour := .store ⟨(w.cell S).fields.synced ++ [⟨w.cells.size⟩],
        Entries.set n ⟨w.cells.size⟩ (w.cell S).fields.named⟩ } := by
  rw [withNewField, cell_withCell, if_pos, cell_grown_of_lt h]
  refine ⟨rfl, ?_⟩
  rw [grown, Array.size_push]
  exact Nat.lt_succ_of_lt h

theorem World.cell_withNewField_of_ne {d : CellId} (hd : d.index < w.cells.size) (hS : d ≠ S) :
    (w.withNewField S n part type held).cell d = w.cell d := by
  rw [withNewField, cell_withCell, if_neg fun h => hS h.1, cell_grown_of_lt hd]

end

namespace Schema

/-- The world once the field of a new name is there. -/
def adding (K : Schema) (S : CellId) (n : String) (w : World) : World :=
  w.withNewField S n (K.part n) (K.type n) (K.get n (w.content S))

section

variable (h : K.Sound S w)
include h

theorem Sound.cell_adding :
    (K.adding S n w).cell S = { w.cell S with
      flavour := .store ⟨(w.cell S).fields.synced ++ [⟨w.cells.size⟩],
        Entries.set n ⟨w.cells.size⟩ (w.cell S).fields.named⟩ } :=
  World.cell_withNewField_store h.lt

variable (hn : n ∉ (w.fieldsOf S).map (·.1))
include hn

theorem Sound.fieldsOf_adding :
    (K.adding S n w).fieldsOf S = w.fieldsOf S ++ [(n, ⟨w.cells.size⟩)] := by
  rw [World.fieldsOf, h.cell_adding]
  exact Entries.set_of_notMem hn

/-- The other fields are as they were. -/
theorem Sound.mem_adding {m : String} {d : CellId} (hd : (m, d) ∈ (K.adding S n w).fieldsOf S) :
    (m, d) ∈ w.fieldsOf S ∧ (K.adding S n w).cell d = w.cell d ∨
      m = n ∧ (K.adding S n w).cell d =
        ⟨.field S (K.part n), K.type n, K.get n (w.content S), []⟩ := by
  rw [h.fieldsOf_adding hn] at hd
  rcases List.mem_append.1 hd with hd | hd
  · exact .inl ⟨hd, World.cell_withNewField_of_ne (h.field_lt hd) (h.ne hd)⟩
  · cases List.mem_singleton.1 hd
    exact .inr ⟨rfl, World.cell_withNewField_new h.lt⟩

theorem Sound.sound_adding : K.Sound S (K.adding S n w) := by
  have hfresh : (⟨w.cells.size⟩ : CellId) ∉ (w.fieldsOf S).map (·.2) := by
    intro hmem
    obtain ⟨⟨m, d⟩, hd, rfl⟩ := List.mem_map.1 hmem
    exact Nat.lt_irrefl _ (h.field_lt hd)
  have hfields := h.fieldsOf_adding hn
  constructor
  · exact h.known
  · rw [h.cell_adding]
    rfl
  · rw [hfields, h.cell_adding, List.map_append]
    exact congrArg (· ++ _) h.synced
  · rw [h.cell_adding]
    exact h.record
  · rw [hfields, List.map_append]
    exact h.names.append (List.nodup_singleton _) (List.disjoint_singleton.2 hn)
  · rw [hfields, List.map_append]
    exact h.cells.append (List.nodup_singleton _) (List.disjoint_singleton.2 hfresh)
  · intro m d hd
    rcases h.mem_adding hn hd with ⟨hd, he⟩ | ⟨rfl, he⟩
    · rw [he]
      exact h.field hd
    · rw [he]
      exact ⟨rfl, rfl⟩
  · rw [h.cell_adding]
    exact h.keys
  · intro m d hd
    rcases h.mem_adding hn hd with ⟨hd, he⟩ | ⟨-, he⟩
    · rw [he]
      exact h.fieldKeys hd
    · rw [he]
      exact List.nodup_nil

/-- A field of a new name holds its part of the record from the beginning. -/
theorem Sound.adding : K.Spares S w (K.adding S n w) := by
  have hheld : ((K.adding S n w).cell S).held = (w.cell S).held := by rw [h.cell_adding]
  refine ⟨h.sound_adding hn, hheld, fun hd => ?_, fun hd hd' => ?_⟩
  · rw [h.fieldsOf_adding hn, Schema.adding,
      World.cell_withNewField_of_ne (h.field_lt hd) (h.ne hd)]
    exact ⟨List.mem_append_left _ hd, rfl⟩
  · rcases h.mem_adding hn hd with ⟨hd, -⟩ | ⟨rfl, he⟩
    · exact absurd hd hd'
    · rw [he, World.content_congr hheld]

end

/-! ## Subscriptions that update nothing -/

/-- Nobody who is told of a field updates it, another one or the store. `I` is what is kept of the
world meanwhile, and `Q` holds of the subscriptions to fields. -/
structure FieldsIdle (K : Schema) (S : CellId) (call : Respond) (E : Stop → Prop)
    (I : World → Prop) (Q : Reaction → Prop) : Prop where
  repin {w : World} (pins : List (List Entity)) : I w → I { w with pins }
  assigned {w : World} {c : CellId} (held : Held) : I w → K.Sound S w →
    (c = S ∨ ∃ n, (n, c) ∈ w.fieldsOf S) → I (w.assigned c held)
  made {w : World} {n : String} : I w → K.Sound S w → n ∉ (w.fieldsOf S).map (·.1) →
    I (K.adding S n w)
  fields {w : World} {n : String} {c : CellId} : I w → K.Sound S w → (n, c) ∈ w.fieldsOf S →
    ∀ s ∈ (w.cell c).registry, Q s.2
  spares {w : World} {r : Reaction} (held : Held) : I w → K.Sound S w → Q r →
    KeepsAt (fun w w' => I w' ∧ K.Spares S w w') E w (call (.react r held))

/-- Nor does anybody who is told of the store. -/
structure Idle (K : Schema) (S : CellId) (call : Respond) (E : Stop → Prop) (I : World → Prop)
    (Q : Reaction → Prop) : Prop extends FieldsIdle K S call E I Q where
  store {w : World} : I w → K.Sound S w → ∀ s ∈ (w.cell S).registry, Q s.2

/-- What holds on the way is kept by everybody who is told something. -/
theorem FieldsIdle.telling (hI : K.FieldsIdle S call E I Q)
    (hP : ∀ {w}, K.Syncing S r known todo w → P w) :
    Telling call E Q (fun w => I w ∧ K.Syncing S r known todo w) P where
  repin pins hw := ⟨hI.repin pins hw.1, hw.2.repin pins⟩
  implies hw := hP hw.2
  react held hw hr := (hI.spares held hw.1 hw.2.sound hr).mono
    (fun h => ⟨h.1, hw.2.spares h.2⟩) id

/-! ## Updates of the store -/

/-- A field is emitted once it is up to date. -/
theorem FieldsIdle.syncField (hI : K.FieldsIdle S call E I Q)
    (hP : ∀ {w}, K.Syncing S r known todo w → P w) (hw : I w)
    (h : K.Syncing S r known ((n, c) :: todo) w) (hc : (n, c) ∈ known) :
    KeepsAt (Announced call (fun w => I w ∧ K.Syncing S r known todo w) P [(c, K.get n r)]) E w
      (LivePage.syncField call r c) := by
  have hfield := h.known hc
  refine keepsAt_get_bind ?_
  rw [if_pos (h.sound.field_alive hfield), (h.sound.field hfield).1]
  dsimp only
  rw [(h.sound.field hfield).2, K.fieldHeld_eq w h.record]
  refine (hI.telling hP).holding ((hI.telling hP).holdAndEmit (K.get n r)
    ⟨hI.assigned _ (hI.repin _ hw) (h.repin _).sound (.inr ⟨n, hfield⟩), (h.repin _).next hc⟩
    (h.sound.field_lt hfield) (h.sound.fieldKeys hfield) ?_)
  exact hI.fields (hI.repin _ hw) (h.repin _).sound hfield

theorem FieldsIdle.syncFields (hI : K.FieldsIdle S call E I Q)
    (hP : ∀ {todo w}, K.Syncing S r known todo w → P w) (hw : I w)
    (h : K.Syncing S r known todo w) (htodo : ∀ e ∈ todo, e ∈ known) :
    KeepsAt (Announced call (fun w => I w ∧ K.Syncing S r known [] w) P
      (todo.map fun e => (e.2, K.get e.1 r))) E w
      (LivePage.syncFields call r (todo.map (·.2))) := by
  induction todo generalizing w with
  | nil => exact ⟨⟨hw, h⟩, .done⟩
  | cons e rest ih =>
    refine Announced.seq (hI.syncField hP hw h (htodo e List.mem_cons_self)) fun _ w₁ h₁ => ?_
    exact ih h₁.1 h₁.2 fun e he => htodo e (List.mem_cons_of_mem _ he)

/-- An update of the store emits each field when it is up to date, and then the store. -/
theorem FieldsIdle.updateStore (hI : K.FieldsIdle S call E I Q) (hw : I w) (h : K.Sound S w)
    (hr : K.Record r) (hP : ∀ {todo w'}, K.Syncing S r (w.fieldsOf S) todo w' → P w')
    {J : World → Prop} {es : List (CellId × Held)}
    (hemit : ∀ w', I w' → K.Syncing S r (w.fieldsOf S) [] w' →
      KeepsAt (Announced call J P es) E w' (emit call S)) :
    KeepsAt (Announced call J P ((w.fieldsOf S).map (fun e => (e.2, K.get e.1 r)) ++ es)) E w
      (LivePage.updateStore call S (.value r)) := by
  have h₁ := h.syncing hr
  have hw₁ : I (w.assigned S (.value r)) := hI.assigned _ hw h (.inl rfl)
  refine Announced.assigning (keepsAt_get_bind ?_)
  rw [h₁.content, h₁.sound.synced, World.fieldsOf_assigned]
  refine Announced.seq (J := fun w' => I w' ∧ K.Syncing S r (w.fieldsOf S) [] w')
    ((hI.telling hP).holding ?_) fun _ w₂ hw₂ => hemit w₂ hw₂.1 hw₂.2
  exact hI.syncFields hP (hI.repin _ hw₁) (h₁.repin _) fun _ he => he

/-- If nobody updates anything meanwhile, it ends in agreement. -/
theorem Idle.updateStore (hI : K.Idle S call E I Q) (hw : I w) (h : K.Sound S w)
    (hr : K.Record r) :
    KeepsAt (Announced call (fun w' => I w' ∧ K.Syncing S r (w.fieldsOf S) [] w')
      (fun w' => (w'.cell S).held = .value r)
      ((w.fieldsOf S).map (fun e => (e.2, K.get e.1 r)) ++ [(S, .value r)])) E w
      (LivePage.updateStore call S (.value r)) := by
  have hheld : ∀ {todo w'}, K.Syncing S r (w.fieldsOf S) todo w' → (w'.cell S).held = .value r :=
    fun h => h.store
  refine hI.toFieldsIdle.updateStore hw h hr hheld fun w' hw' h' => ?_
  have hemit := (hI.telling hheld).emit ⟨hw', h'⟩ h'.sound.keys (hI.store hw' h'.sound)
  rwa [h'.store] at hemit

/-! ## Updates of a field -/

/-- What is written back to the store from a field that was assigned is in agreement with all fields
before anybody is told. -/
theorem FieldsIdle.writeBack (hI : K.FieldsIdle S call E I Q) (hw : I w) (h : K.Sound S w)
    (hs : K.InStep S w) (hc : (n, c) ∈ w.fieldsOf S) (ht : K.Takes n held) {R : Reaction → Prop}
    {J : World → Prop} (hJ : Telling call E R J P)
    (hwritten : ∀ {w'}, I w' → K.Syncing S (K.set n held (w.content S)) (w.fieldsOf S) [] w' → J w')
    (hR : ∀ s ∈ (w.cell S).registry, R s.2) :
    KeepsAt (Announced call J P [(S, .value (K.set n held (w.content S)))]) E (w.assigned c held)
      (LivePage.writeBack call S (K.part n) ((w.assigned c held).shown held)) := by
  have hw₁ : I (w.assigned c held) := hI.assigned _ hw h (.inr ⟨n, hc⟩)
  have h₁ : K.Sound S (w.assigned c held) := h.assigned fun hS => absurd hS (h.ne hc)
  have hcontent : (w.assigned c held).content S = w.content S :=
    World.content_congr (World.held_assigned_of_ne (h.ne hc).symm held)
  refine keepsAt_get_bind ?_
  rw [if_pos h₁.alive, K.write_eq _ ht, hcontent]
  refine hJ.holding (hJ.holdAndEmit _ (hwritten ?_ ((hs.written h hc ht).repin _)) h₁.lt h₁.keys ?_)
  · exact hI.assigned _ (hI.repin _ hw₁) (h₁.repin _) (.inl rfl)
  · intro s hs
    exact hR s (by rwa [← World.registry_assigned (w := w) c S held])

/-- Writing a field to the record tells the subscriptions of the store, when all fields agree with
it already, and then those of the field. -/
theorem Idle.updateField (hI : K.Idle S call E I Q) (hw : I w) (h : K.Sound S w)
    (hs : K.InStep S w) (hc : (n, c) ∈ w.fieldsOf S) (ht : K.Takes n held) :
    KeepsAt (Announced call
      (fun w' => I w' ∧ K.Syncing S (K.set n held (w.content S)) (w.fieldsOf S) [] w')
      (K.InStep S) [(S, .value (K.set n held (w.content S))), (c, held)]) E w
      (LivePage.updateField call c S (K.part n) held) := by
  have htelling : Telling call E Q
      (fun w' => I w' ∧ K.Syncing S (K.set n held (w.content S)) (w.fieldsOf S) [] w')
      (K.InStep S) := hI.telling Syncing.inStep
  have hwrite := hI.writeBack hw h hs hc ht htelling (fun hw' h' => ⟨hw', h'⟩) (hI.store hw h)
  refine Announced.assigning (keepsAt_get_bind (Announced.seq hwrite fun _ w₂ hw₂ => ?_))
  have hc₂ := hw₂.2.known hc
  have hemit := htelling.emit hw₂ (hw₂.2.sound.fieldKeys hc₂) (hI.fields hw₂.1 hw₂.2.sound hc₂)
  rwa [hw₂.2.synced hc₂ List.not_mem_nil, K.get_set h.content.1 ht] at hemit

/-! ## Asking for a field -/

/-- A name stands for one field, which is made when it is asked for first. -/
theorem Sound.storeField (h : K.Sound S w) (n : String) :
    (∃ c, (n, c) ∈ w.fieldsOf S ∧
        (LivePage.storeField S n (K.part n) (K.type n)).run w = .ok c w) ∨
      n ∉ (w.fieldsOf S).map (·.1) ∧
        (LivePage.storeField S n (K.part n) (K.type n)).run w =
          .ok ⟨w.cells.size⟩ (K.adding S n w) := by
  rw [LivePage.storeField, EStateM.run_bind, EStateM.run_get]
  dsimp only
  cases hget : Entries.get? n (w.cell S).fields.named with
  | some c =>
    have hc : (n, c) ∈ w.fieldsOf S := Entries.mem_of_get? hget
    refine .inl ⟨c, hc, ?_⟩
    rw [Option.filter_some, if_pos (by simpa using (h.field hc).2)]
    rfl
  | none =>
    refine .inr ⟨Entries.notMem_of_get? hget, ?_⟩
    rw [Option.filter_none, Schema.adding, ← K.fieldHeld_eq w h.content.1]
    rfl

/-- What comes of asking for a field. -/
theorem Idle.storeField (hI : K.Idle S call E I Q) (hw : I w) (h : K.Sound S w) (n : String) :
    ∃ c w', (LivePage.storeField S n (K.part n) (K.type n)).run w = .ok c w' ∧ I w' ∧
      K.Spares S w w' ∧ ((n, c) ∈ w.fieldsOf S ∧ w' = w ∨
        n ∉ (w.fieldsOf S).map (·.1) ∧ w'.fieldsOf S = w.fieldsOf S ++ [(n, c)]) := by
  rcases h.storeField n with ⟨c, hc, hrun⟩ | ⟨hn, hrun⟩
  · exact ⟨c, w, hrun, hw, .refl h, .inl ⟨hc, rfl⟩⟩
  · exact ⟨_, _, hrun, hI.made hw h hn, h.adding hn, .inr ⟨hn, h.fieldsOf_adding hn⟩⟩

/-! ## Subscriptions that read and log -/

/-- All subscriptions run programs, which only read and log. -/
structure Watched (w : World) : Prop where
  reading : w.Reading
  watches (c : CellId) : ∀ s ∈ (w.cell c).registry, s.2.Watches

theorem Watched.subscribed (h : Watched w) (c : CellId) {r : Reaction} (hr : r.Watches) :
    Watched (w.subscribed c r) := by
  refine ⟨h.reading, fun d s hs => ?_⟩
  rw [World.subscribed, World.cell_withCell] at hs
  split at hs
  · rcases Cell.mem_subscribe hs with hs | rfl
    · exact h.watches d s hs
    · exact hr
  · exact h.watches d s hs

theorem Watched.grown (h : Watched w) {x : Cell} (hx : x.registry = []) :
    Watched (w.grown x) := by
  refine ⟨h.reading, fun d s hs => ?_⟩
  rw [World.cell_grown] at hs
  split at hs
  · rw [hx] at hs
    cases hs
  · exact h.watches d s hs

theorem Watched.withNewField (h : Watched w) (S : CellId) (n : String) (part : Part)
    (type : ValueType) (held : Held) : Watched (w.withNewField S n part type held) := by
  refine ⟨h.reading, fun d s hs => ?_⟩
  have hgrown := h.grown (x := { flavour := .field S part, type, held }) rfl
  rw [World.withNewField, World.cell_withCell] at hs
  split at hs <;> exact hgrown.watches d s hs

/-- Programs that only read and log update nothing, at whatever depth. -/
theorem idle_watched (k : Nat) :
    K.Idle S (respond k) Stop.calm Watched Reaction.Watches where
  repin _ h := ⟨h.reading, h.watches⟩
  assigned held h _ _ := ⟨h.reading, fun d => by
    rw [World.registry_assigned]
    exact h.watches d⟩
  made h _ _ := h.withNewField ..
  fields h _ _ := h.watches _
  store h _ := h.watches _
  spares {w r} held h hs hr := by
    have hquiet : KeepsAt Quiet Stop.calm w (respond k (.react r held)) := by
      cases k with
      | zero => trivial
      | succ k => exact quiet_watches (respond_lives k) h.reading hr held
    refine hquiet.mono (fun hq => ⟨⟨hq.evolves.reading h.reading, fun d => ?_⟩,
      hs.spares_of_cells hq.names hq.cells⟩) id
    rw [hq.cell]
    exact h.watches d

/-! ## Any number of operations -/

/-- The worlds that a program comes to that makes a store, updates it and its fields and asks for
fields, and spares them in between. -/
inductive Reached (K : Schema) (S : CellId) (call : Respond) (I : World → Prop) : World → Prop where
  | made {w w₁ w' : World} {as : String} {type : ValueType} {r : Value} : K.Record r →
      (newCell (.store {}) type (.value r)).run w = .ok S w₁ →
      (nameCell as S).run w₁ = .ok ⟨⟩ w' → I w' → Reached K S call I w'
  | updated {w w' : World} {r : Value} : Reached K S call I w → K.Record r →
      (LivePage.updateStore call S (.value r)).run w = .ok ⟨⟩ w' → Reached K S call I w'
  | written {w w' : World} {n : String} {c : CellId} {held : Held} : Reached K S call I w →
      (n, c) ∈ w.fieldsOf S → K.Takes n held →
      (LivePage.updateField call c S (K.part n) held).run w = .ok ⟨⟩ w' → Reached K S call I w'
  | asked {w w' : World} {n : String} {c : CellId} : Reached K S call I w →
      (LivePage.storeField S n (K.part n) (K.type n)).run w = .ok c w' → Reached K S call I w'
  | meanwhile {w w' : World} : Reached K S call I w → I w' → K.Spares S w w' →
      Reached K S call I w'

/-- A new store has no fields. -/
theorem sound_made {w₁ : World} {as : String} {type : ValueType} (hr : K.Record r)
    (hnew : (newCell (.store {}) type (.value r)).run w = .ok S w₁)
    (hname : (nameCell as S).run w₁ = .ok ⟨⟩ w') : K.Sound S w' ∧ w'.fieldsOf S = [] := by
  have hgrown : (newCell (.store {}) type (.value r)).run w =
      .ok ⟨w.cells.size⟩ (w.grown { flavour := .store {}, type, held := .value r }) := rfl
  cases hnew.symm.trans hgrown
  cases hname.symm.trans (run_nameCell ..)
  have hcell : ((w.grown { flavour := .store {}, type, held := .value r }).calling as
      ⟨w.cells.size⟩).cell ⟨w.cells.size⟩ =
        { flavour := .store {}, type, held := .value r } := by
    show (w.grown _).cell _ = _
    rw [World.cell_grown, if_pos rfl]
  have hfields : ((w.grown { flavour := .store {}, type, held := .value r }).calling as
      ⟨w.cells.size⟩).fieldsOf ⟨w.cells.size⟩ = [] := by
    rw [World.fieldsOf, hcell]
    rfl
  refine ⟨⟨?_, ?_, ?_, ?_, ?_, ?_, ?_, ?_, ?_⟩, hfields⟩
  · simp only [World.namesHold, List.mem_append, List.mem_map]
    exact .inl (.inl (.inl (.inl (.inl (.inl (.inl ⟨_, Entries.mem_set as _ _, rfl⟩))))))
  · rw [hcell]
    rfl
  · rw [hcell, hfields]
    rfl
  · rw [hcell]
    exact ⟨r, hr, rfl⟩
  · rw [hfields]
    exact List.nodup_nil
  · rw [hfields]
    exact List.nodup_nil
  · rw [hfields]
    exact fun h => absurd h List.not_mem_nil
  · rw [hcell]
    exact List.nodup_nil
  · rw [hfields]
    exact fun h => absurd h List.not_mem_nil

/-- Whatever was done before, the store agrees with its fields. -/
theorem Reached.sound (hI : K.Idle S call E I Q) (h : K.Reached S call I w) :
    I w ∧ K.Sound S w ∧ K.InStep S w := by
  induction h with
  | made hr hnew hname hw =>
    obtain ⟨hs, hfields⟩ := sound_made hr hnew hname
    exact ⟨hw, hs, fun n c hc => absurd (hfields ▸ hc) List.not_mem_nil⟩
  | updated _ hr hrun ih =>
    obtain ⟨hw, hs⟩ := ((hI.updateStore ih.1 ih.2.1 hr).ok hrun).holds
    exact ⟨hw, hs.sound, hs.inStep⟩
  | written _ hc ht hrun ih =>
    obtain ⟨hw, hs⟩ := ((hI.updateField ih.1 ih.2.1 ih.2.2 hc ht).ok hrun).holds
    exact ⟨hw, hs.sound, hs.inStep⟩
  | @asked w w' n c _ hrun ih =>
    obtain ⟨c', w'', hrun', hw, hs, -⟩ := hI.storeField ih.1 ih.2.1 n
    cases hrun.symm.trans hrun'
    exact ⟨hw, hs.sound, ih.2.2.spares hs⟩
  | meanwhile _ hw hs ih => exact ⟨hw, hs.sound, ih.2.2.spares hs⟩

/-- After any number of operations each field of a store holds its part of the record, and so it is
after the next one. An update of the store tells the subscriptions of each field once, in the order
in which the fields were made, and then those of the store. An update of a field tells those of the
store, then those of the field and nobody else, and meanwhile all fields agree with the record.
Asking for a field tells nobody. -/
theorem Reached.in_step_and_told (hI : K.Idle S call E I Q) (h : K.Reached S call I w) :
    K.InStep S w ∧
    (∀ r, K.Record r → KeepsAt (Announced call
      (fun w' => (w'.cell S).held = .value r ∧ K.InStep S w')
      (fun w' => (w'.cell S).held = .value r)
      ((w.fieldsOf S).map (fun e => (e.2, K.get e.1 r)) ++ [(S, .value r)])) E w
        (LivePage.updateStore call S (.value r))) ∧
    (∀ n c held, (n, c) ∈ w.fieldsOf S → K.Takes n held → KeepsAt (Announced call
      (fun w' => (w'.cell S).held = .value (K.set n held (w.content S)) ∧ K.InStep S w')
      (K.InStep S) [(S, .value (K.set n held (w.content S))), (c, held)]) E w
        (LivePage.updateField call c S (K.part n) held)) ∧
    ∀ n, ∃ c w', (LivePage.storeField S n (K.part n) (K.type n)).run w = .ok c w' ∧
      K.InStep S w' ∧ ((n, c) ∈ w.fieldsOf S ∧ w' = w ∨
        n ∉ (w.fieldsOf S).map (·.1) ∧ w'.fieldsOf S = w.fieldsOf S ++ [(n, c)]) := by
  obtain ⟨hw, hs, hstep⟩ := h.sound hI
  refine ⟨hstep, fun r hr => ?_, fun n c held hc ht => ?_, fun n => ?_⟩
  · exact (hI.updateStore hw hs hr).mono
      (fun h => ⟨⟨h.holds.2.store, h.holds.2.inStep⟩, h.announces⟩) id
  · exact (hI.updateField hw hs hstep hc ht).mono
      (fun h => ⟨⟨h.holds.2.store, h.holds.2.inStep⟩, h.announces⟩) id
  · obtain ⟨c, w', hrun, -, hspares, hcase⟩ := hI.storeField hw hs n
    exact ⟨c, w', hrun, hstep.spares hspares, hcase⟩

/-! ### A profile with two fields -/

/-- Records by the names of their fields, which hold values of any type. -/
def byName : Schema where
  Record r := ∃ fields, r = .record fields
  part := .named
  type _ := .any
  Takes _ held := ∃ v, held = .value v
  get n r := .value (r.field n)
  set n held r := match held with
    | .value v => r.withField n v
    | .element _ | .absent => r
  fieldHeld_eq _ _ := rfl
  write_eq _ h := by
    obtain ⟨v, rfl⟩ := h
    rfl
  record_set hr h := by
    obtain ⟨v, rfl⟩ := h
    obtain ⟨fields, rfl⟩ := hr
    exact ⟨_, rfl⟩
  get_set hr h := by
    obtain ⟨v, rfl⟩ := h
    obtain ⟨fields, rfl⟩ := hr
    simp [Value.withField, Value.field]
  get_set_of_ne hne hr h := by
    obtain ⟨v, rfl⟩ := h
    obtain ⟨fields, rfl⟩ := hr
    simp [Value.withField, Value.field, hne]

def profile (name : String) (age : Int64) : Value :=
  .record [("name", .str name), ("age", .scalar (.int age))]

/-- A store of a profile. -/
def newProfile : World :=
  (World.grown {} { flavour := .store {}, type := .any, held := .value (profile "Ada" 36) }).calling
    "profile" ⟨0⟩

/-- A new field of it, which is watched. -/
def withWatchedField (w : World) (n : String) : World :=
  (byName.adding ⟨0⟩ n w).subscribed ⟨w.cells.size⟩ (.watch n ⟨0⟩)

/-- A profile that is watched, with two fields that are watched. -/
def profileWorld : World :=
  withWatchedField
    (withWatchedField (newProfile.subscribed ⟨0⟩ (.watch "profile" ⟨0⟩)) "name") "age"

theorem reached_newProfile : byName.Reached ⟨0⟩ (respond 8) Watched newProfile := by
  have hempty : Watched {} := ⟨by simp [World.Reading], fun c s hs => by
    rw [World.cell_of_size_le (Nat.zero_le _)] at hs
    cases hs⟩
  have hgrown : Watched newProfile := ⟨hempty.reading, (hempty.grown rfl).watches⟩
  exact .made (w := {}) ⟨_, rfl⟩ rfl rfl hgrown

/-- A new subscription to the store or to a field leaves them alone. -/
theorem Reached.watched (h : byName.Reached ⟨0⟩ (respond 8) Watched w)
    (hkey : w.nextKey ∉ (w.cell c).keys) (as : String) (program : CallbackId) :
    byName.Reached ⟨0⟩ (respond 8) Watched (w.subscribed c (.watch as program)) := by
  obtain ⟨hw, hs, -⟩ := h.sound (idle_watched 8)
  exact h.meanwhile (hw.subscribed c trivial) (.subscribed hs hkey _)

theorem reached_withWatchedField (h : byName.Reached ⟨0⟩ (respond 8) Watched w)
    (hn : n ∉ (w.fieldsOf ⟨0⟩).map (·.1)) :
    byName.Reached ⟨0⟩ (respond 8) Watched (withWatchedField w n) := by
  obtain ⟨-, hs, -⟩ := h.sound (idle_watched 8)
  rcases hs.storeField n with ⟨c, hc, -⟩ | ⟨-, hrun⟩
  · exact absurd (List.mem_map_of_mem hc) hn
  · refine (h.asked hrun).watched ?_ n ⟨0⟩
    rw [adding, World.cell_withNewField_new hs.lt]
    exact List.not_mem_nil

theorem reached_profileWorld : byName.Reached ⟨0⟩ (respond 8) Watched profileWorld := by
  have h := reached_newProfile.watched (c := ⟨0⟩) (by decide) "profile" ⟨0⟩
  have hname := reached_withWatchedField (n := "name") h (by decide)
  exact reached_withWatchedField hname (by decide)

/-- An update of the age tells those who watch the profile, and then those who watch the age. -/
theorem in_step_and_told_of_profile :
    ∃ w', (updateField (respond 8) ⟨2⟩ ⟨0⟩ (byName.part "age") (.value (.scalar (.int 37)))).run
        profileWorld = .ok ⟨⟩ w' ∧
      ((w'.cell ⟨0⟩).held = .value (profile "Ada" 37) ∧ byName.InStep ⟨0⟩ w') ∧
      Announces (respond 8) (byName.InStep ⟨0⟩)
        [(⟨0⟩, .value (profile "Ada" 37)), (⟨2⟩, .value (.scalar (.int 37)))] profileWorld w' := by
  have hrun := run_of_ended (x := updateField (respond 8) ⟨2⟩ ⟨0⟩ (byName.part "age")
    (.value (.scalar (.int 37)))) (w := profileWorld) (by decide +kernel)
  have h := ((reached_profileWorld.in_step_and_told (idle_watched 8)).2.2.1 "age" ⟨2⟩
    (.value (.scalar (.int 37))) (by decide +kernel) ⟨_, rfl⟩).ok hrun
  exact ⟨_, hrun, h.holds, h.announces⟩

end Schema

end LivePage
