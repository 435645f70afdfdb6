import LivePage.World.Request
import LivePage.Script.Shown

/-!
# Observables

An observable holds a value and an ordered registry of subscriptions. A subscription is known by
its key: one that is already there keeps its place when it is made again, and one that is not
there can be removed without effect. Assigning a value tells nobody; see `Observable.Emission`.
-/

namespace LivePage

open LivePage.Script

/-- The value that an observable of a type takes from a given one. -/
def Script.ValueType.conform (w : World) : ValueType → Value → Held
  | .any, v | .node, v => .value v
  | .bool, v => .value (.bool v.isTrue)
  | .str, v => .value (.str (w.textOf v))
  | .list, .list items => .value (.list items)
  | .list, _ => .value (.list [])
  | .opt, v => if v.isEmpty then .absent else .value v

/-! ## Registries -/

namespace Cell

/-- Is there a subscription of this key? -/
def isSubscribed (cell : Cell) (key : Nat) : Bool := cell.registry.any fun s => s.1 = key

/-- Adds a subscription at the end, unless its key is there already. -/
def subscribe (key : Nat) (r : Reaction) (cell : Cell) : Cell :=
  if cell.isSubscribed key then cell else { cell with registry := cell.registry ++ [(key, r)] }

/-- Removes the subscription of a key. -/
def unsubscribe (key : Nat) (cell : Cell) : Cell :=
  { cell with registry := cell.registry.filter fun s => s.1 ≠ key }

/-- Removes all subscriptions. -/
def unsubscribeAll (cell : Cell) : Cell := { cell with registry := [] }

/-- The keys of the subscriptions in order. -/
def keys (cell : Cell) : List Nat := cell.registry.map (·.1)

@[simp] theorem isSubscribed_eq_true {cell : Cell} {key : Nat} :
    cell.isSubscribed key = true ↔ key ∈ cell.keys := by
  simp [isSubscribed, keys]

/-- A new key comes last, and a known one keeps its place. -/
@[simp] theorem keys_subscribe (cell : Cell) (key : Nat) (r : Reaction) :
    (cell.subscribe key r).keys = if key ∈ cell.keys then cell.keys else cell.keys ++ [key] := by
  simp only [← isSubscribed_eq_true]
  unfold subscribe
  split <;> simp [keys]

@[simp] theorem keys_unsubscribe (cell : Cell) (key : Nat) :
    (cell.unsubscribe key).keys = cell.keys.filter (· ≠ key) := by
  simp [unsubscribe, keys, List.filter_map, Function.comp_def]

@[simp] theorem keys_unsubscribeAll (cell : Cell) : cell.unsubscribeAll.keys = [] := rfl

end Cell

/-! ## Observables in the world -/

/-- Changes an observable. -/
def modifyCell (c : CellId) (f : Cell → Cell) : Run Unit :=
  modify fun w => { w with cells := w.cells.modify c.index f }

/-- Makes a new observable without subscriptions. -/
def newCell (flavour : Flavour) (type : ValueType) (held : Held) : Run CellId := do
  let w ← get
  set { w with cells := w.cells.push { flavour, type, held } }
  return ⟨w.cells.size⟩

/-- Assigns what an observable holds, and tells nobody. -/
def hold (c : CellId) (held : Held) : Run Unit := modifyCell c fun cell => { cell with held }

/-- A key that no subscription has had. -/
def newKey : Run Nat := do
  let w ← get
  set { w with nextKey := w.nextKey + 1 }
  return w.nextKey

/-- Subscribes under a new key, which is returned. -/
def subscribe (c : CellId) (r : Reaction) : Run Nat := do
  let key ← newKey
  modifyCell c (·.subscribe key r)
  return key

/-! ## Programs that are called back -/

/-- Registers a program that runs its steps on its first `times` calls. -/
def newCallback (acts : List Step) (times : Nat) : Run CallbackId := do
  let w ← get
  set { w with callbacks := w.callbacks.push ⟨acts, times⟩ }
  return ⟨w.callbacks.size⟩

/-- Calls a program. The call is counted before the steps run, so a call from within them is the
next one. -/
def CallbackId.run (call : Respond) (program : CallbackId) : Run Unit := do
  let w ← get
  match w.callbacks[program.index]? with
  | some ⟨acts, remaining + 1⟩ => do
    set { w with callbacks := w.callbacks.setIfInBounds program.index ⟨acts, remaining⟩ }
    call (.perform acts)
  | _ => pure ()

end LivePage
