import LivePage.Observable.Fields
import LivePage.Proofs.Run.Telling
import LivePage.Proofs.World.Ownership

/-!
# Stores and their fields

A `Schema` says which records a store holds and which field is made under each name: how the field
reads the record, how it writes it, and that these two belong together. A store is `Sound` if what
it knows of its fields is so; it is in step with them if each one holds its part of the record
(`InStep`). Whoever leaves alone what the store and its fields hold `Spares` them: new fields may be
made meanwhile, and subscriptions may come and go.
-/

namespace LivePage

open LivePage.Script

/-- Which records a store holds, and which field is made under each name. -/
structure Schema where
  Record : Value → Prop
  part : String → Part
  type : String → ValueType
  /-- What a field can be updated to. -/
  Takes : String → Held → Prop
  /-- What a field holds for a record. -/
  get : String → Value → Held
  /-- The record with a field set. -/
  set : String → Held → Value → Value
  fieldHeld_eq {n : String} {r : Value} (w : World) : Record r →
    fieldHeld w (type n) (part n) r = get n r
  write_eq {n : String} {held : Held} {r : Value} (w : World) : Takes n held →
    (part n).write (w.shown held) r = set n held r
  record_set {n : String} {held : Held} {r : Value} : Record r → Takes n held →
    Record (set n held r)
  get_set {n : String} {held : Held} {r : Value} : Record r → Takes n held →
    get n (set n held r) = held
  get_set_of_ne {n m : String} {held : Held} {r : Value} : n ≠ m → Record r → Takes n held →
    get m (set n held r) = get m r

/-- The fields of a store by their names, in the order in which they were made. -/
def World.fieldsOf (w : World) (S : CellId) : Entries CellId := (w.cell S).fields.named

variable {K : Schema} {S c : CellId} {w w' w'' : World} {n : String} {held : Held} {r : Value}

namespace Schema

/-- Somebody knows the store, it holds a record, and its fields are the observables that it knows
by different names. -/
structure Sound (K : Schema) (S : CellId) (w : World) : Prop where
  known : .cell S ∈ World.namesHold w.names
  flavour : (w.cell S).flavour = .store (w.cell S).fields
  synced : (w.cell S).fields.synced = (w.fieldsOf S).map (·.2)
  record : ∃ r, K.Record r ∧ (w.cell S).held = .value r
  names : ((w.fieldsOf S).map (·.1)).Nodup
  cells : ((w.fieldsOf S).map (·.2)).Nodup
  field {n : String} {c : CellId} : (n, c) ∈ w.fieldsOf S →
    (w.cell c).flavour = .field S (K.part n) ∧ (w.cell c).type = K.type n
  keys : (w.cell S).keys.Nodup
  fieldKeys {n : String} {c : CellId} : (n, c) ∈ w.fieldsOf S → (w.cell c).keys.Nodup

/-- Each field of the store holds its part of the record. -/
def InStep (K : Schema) (S : CellId) (w : World) : Prop :=
  ∀ n c, (n, c) ∈ w.fieldsOf S → (w.cell c).held = K.get n (w.content S)

/-- What the store and its fields hold has been left alone. A new field holds its part of the
record. -/
structure Spares (K : Schema) (S : CellId) (w w' : World) : Prop where
  sound : K.Sound S w'
  store : (w'.cell S).held = (w.cell S).held
  kept {n : String} {c : CellId} : (n, c) ∈ w.fieldsOf S →
    (n, c) ∈ w'.fieldsOf S ∧ (w'.cell c).held = (w.cell c).held
  fresh {n : String} {c : CellId} : (n, c) ∈ w'.fieldsOf S → (n, c) ∉ w.fieldsOf S →
    (w'.cell c).held = K.get n (w'.content S)

end Schema

theorem World.content_of_held (h : (w.cell c).held = .value r) : w.content c = r := by
  rw [content, h]

theorem World.content_congr (h : (w'.cell c).held = (w.cell c).held) :
    w'.content c = w.content c := by
  rw [content, content, h]

@[simp] theorem Cell.type_subscribe (cell : Cell) (key : Nat) (r : Reaction) :
    (cell.subscribe key r).type = cell.type := by
  unfold subscribe
  split <;> rfl

namespace Schema

/-! ## Sound stores -/

namespace Sound

variable (h : K.Sound S w)
include h

theorem lt : S.index < w.cells.size := World.lt_of_flavour (by simp [h.flavour])

theorem field_lt (hc : (n, c) ∈ w.fieldsOf S) : c.index < w.cells.size :=
  World.lt_of_flavour (by simp [(h.field hc).1])

theorem ne (hc : (n, c) ∈ w.fieldsOf S) : c ≠ S := by
  rintro rfl
  have := (h.field hc).1.symm.trans h.flavour
  cases this

theorem content : K.Record (w.content S) ∧ (w.cell S).held = .value (w.content S) := by
  obtain ⟨r, hr, hheld⟩ := h.record
  rw [World.content_of_held hheld]
  exact ⟨hr, hheld⟩

/-- A name stands for one field. -/
theorem name_unique {d : CellId} (hc : (n, c) ∈ w.fieldsOf S) (hd : (n, d) ∈ w.fieldsOf S) :
    c = d := by
  have := List.inj_on_of_nodup_map h.names hc hd rfl
  cases this
  rfl

/-- A field stands under one name. -/
theorem cell_unique {m : String} (hc : (n, c) ∈ w.fieldsOf S) (hd : (m, c) ∈ w.fieldsOf S) :
    n = m := by
  have := List.inj_on_of_nodup_map h.cells hc hd rfl
  cases this
  rfl

theorem root : Entity.cell S ∈ w.roots :=
  List.mem_append_left _ (List.mem_append_left _ h.known)

theorem alive : w.isAlive (.cell S) = true := by
  simpa [World.isAlive] using World.heldEntities_of_root h.root

/-- The store keeps its fields alive. -/
theorem field_alive (hc : (n, c) ∈ w.fieldsOf S) : w.isAlive (.cell c) = true := by
  have howner : Entity.cell S ∈ w.owners := by
    simp only [World.owners, List.mem_append, List.mem_map, List.mem_range]
    exact .inl (.inl (.inl (.inl (.inl ⟨S.index, h.lt, rfl⟩))))
  have hholds : Entity.cell c ∈ w.holds (.cell S) := by
    simp only [World.holds, h.flavour, List.mem_append, List.mem_map]
    exact .inr ⟨(n, c), hc, rfl⟩
  have hheld : Entity.cell c ∈ w.heldEntities :=
    World.heldEntities_of_closed (K := (· = .cell S)) (by rintro _ rfl; exact howner)
      (by rintro _ rfl; exact .inl h.root) rfl hholds
  simpa [World.isAlive] using hheld

end Sound

/-! ## Leaving a store alone -/

/-- Whatever happens to subscriptions leaves the store alone. -/
theorem Sound.spares (h : K.Sound S w) (hnames : w'.names = w.names)
    (hflavour : ∀ d, (w'.cell d).flavour = (w.cell d).flavour)
    (htype : ∀ d, (w'.cell d).type = (w.cell d).type)
    (hheld : ∀ d, (w'.cell d).held = (w.cell d).held)
    (hkeys : ∀ d, (w.cell d).keys.Nodup → (w'.cell d).keys.Nodup) : K.Spares S w w' := by
  have hfields : (w'.cell S).fields = (w.cell S).fields := by
    rw [Cell.fields, Cell.fields, hflavour]
  have hnamed : w'.fieldsOf S = w.fieldsOf S := congrArg Fields.named hfields
  refine ⟨⟨?_, ?_, ?_, ?_, ?_, ?_, fun hc => ?_, hkeys S h.keys, fun hc => ?_⟩, hheld S,
    fun hc => ⟨hnamed.symm ▸ hc, hheld _⟩, fun hc hc' => absurd (hnamed ▸ hc) hc'⟩
  · rw [hnames]
    exact h.known
  · rw [hflavour, hfields]
    exact h.flavour
  · rw [hfields, hnamed]
    exact h.synced
  · rw [hheld]
    exact h.record
  · rw [hnamed]
    exact h.names
  · rw [hnamed]
    exact h.cells
  · rw [hflavour, htype]
    exact h.field (hnamed ▸ hc)
  · exact hkeys _ (h.fieldKeys (hnamed ▸ hc))

/-- Only the observables and the names matter. -/
theorem Sound.spares_of_cells (h : K.Sound S w) (hnames : w'.names = w.names)
    (hcells : w'.cells = w.cells) : K.Spares S w w' := by
  have hcell : ∀ d, w'.cell d = w.cell d := fun d => by simp [World.cell, hcells]
  exact h.spares hnames (fun d => by rw [hcell]) (fun d => by rw [hcell])
    (fun d => by rw [hcell]) fun d => by rw [hcell]; exact id

/-- What is pinned does not matter. -/
theorem Sound.repin (h : K.Sound S w) (pins : List (List Entity)) :
    K.Sound S { w with pins } := by
  have hspares : K.Spares S w { w with pins } := h.spares_of_cells rfl rfl
  exact hspares.sound

namespace Spares

theorem refl (h : K.Sound S w) : K.Spares S w w := h.spares_of_cells rfl rfl

/-- A new subscription leaves the store alone. -/
theorem subscribed (h : K.Sound S w) (hkey : w.nextKey ∉ (w.cell c).keys) (r : Reaction) :
    K.Spares S w (w.subscribed c r) := by
  have hcell : ∀ d, (w.subscribed c r).cell d = w.cell d ∨
      d = c ∧ (w.subscribed c r).cell d = (w.cell d).subscribe w.nextKey r := by
    intro d
    rw [World.subscribed, World.cell_withCell]
    split
    · next hd => exact .inr ⟨hd.1, rfl⟩
    · exact .inl rfl
  refine h.spares rfl (fun d => ?_) (fun d => ?_) (fun d => World.held_subscribed ..) fun d hd => ?_
  · rcases hcell d with hd | ⟨-, hd⟩
    · rw [hd]
    · rw [hd, Cell.flavour_subscribe]
  · rcases hcell d with hd | ⟨-, hd⟩
    · rw [hd]
    · rw [hd, Cell.type_subscribe]
  · rcases hcell d with hd' | ⟨rfl, hd'⟩
    · rwa [hd']
    · rw [hd', Cell.keys_subscribe, if_neg hkey]
      exact hd.append (List.nodup_singleton _) (List.disjoint_singleton.2 hkey)

theorem content (h : K.Spares S w w') : w'.content S = w.content S := World.content_congr h.store

theorem trans (h : K.Spares S w w') (h' : K.Spares S w' w'') : K.Spares S w w'' where
  sound := h'.sound
  store := h'.store.trans h.store
  kept hc := ⟨(h'.kept (h.kept hc).1).1, (h'.kept (h.kept hc).1).2.trans (h.kept hc).2⟩
  fresh {n c} hc hn := by
    by_cases hc' : (n, c) ∈ w'.fieldsOf S
    · rw [(h'.kept hc').2, h.fresh hc' hn, h'.content]
    · exact h'.fresh hc hc'

end Spares

theorem InStep.spares (hs : K.InStep S w) (h : K.Spares S w w') : K.InStep S w' := by
  intro n c hc
  by_cases hc' : (n, c) ∈ w.fieldsOf S
  · rw [(h.kept hc').2, hs n c hc', h.content]
  · exact h.fresh hc hc'

/-! ## Assigning a store or a field -/

end Schema

@[simp] theorem World.fieldsOf_assigned (w : World) (c S : CellId) (held : Held) :
    (w.assigned c held).fieldsOf S = w.fieldsOf S := by
  simp only [fieldsOf, Cell.fields, flavour_assigned]

@[simp] theorem World.fields_assigned (w : World) (c S : CellId) (held : Held) :
    ((w.assigned c held).cell S).fields = (w.cell S).fields := by
  simp only [Cell.fields, flavour_assigned]

/-- What is assigned to the store itself has to be a record. -/
theorem Schema.Sound.assigned (h : K.Sound S w)
    (hr : c = S → ∃ r, K.Record r ∧ held = .value r) : K.Sound S (w.assigned c held) where
  known := h.known
  flavour := by simpa using h.flavour
  synced := by simpa using h.synced
  record := by
    by_cases hc : S = c
    · subst hc
      rw [World.held_assigned h.lt]
      exact hr rfl
    · rw [World.held_assigned_of_ne hc]
      exact h.record
  names := by simpa using h.names
  cells := by simpa using h.cells
  field hc := by simpa using h.field (by simpa using hc)
  keys := by simpa [Cell.keys] using h.keys
  fieldKeys hc := by simpa [Cell.keys] using h.fieldKeys (by simpa using hc)

end LivePage
