import LivePage.Observable.Emission
import LivePage.Script.Eval

/-!
# Stores

A store holds a whole record. A field of it is an observable of its own that follows a part of
the record and is followed by it. An update of the store first brings every field that was ever
made up to date, in the order in which they were made, each with an emission of its own, and then
emits the store; an update of a field writes the record, emits the store and then the field, and
leaves the other fields alone.

A name stands for the field that was made for it last. Asking for it again with the same type
gives the same field; with another type it makes a new one, which takes its place.
-/

namespace LivePage

open LivePage.Script

/-- The part of a record that stands under a name. -/
def Part.named (name : String) : Part := ⟨Value.field name, fun v record => record.withField name v⟩

/-- The fields of an observable; only stores have some. -/
def Cell.fields (cell : Cell) : Fields :=
  match cell.flavour with
  | .store fields => fields
  | _ => {}

/-- What a field of a type holds for a record. -/
def fieldHeld (w : World) (type : ValueType) (part : Part) (record : Value) : Held :=
  type.conform w (part.read record)

/-- Brings a field up to date with a record, and emits it. -/
def syncField (call : Respond) (record : Value) (c : CellId) : Run Unit := do
  let w ← get
  if w.isAlive (.cell c) then
    match (w.cell c).flavour with
    | .field _ part =>
      holding [.cell c] (holdAndEmit call c (fieldHeld w (w.cell c).type part record))
    | _ => pure ()
  else pure ()

/-- Brings fields up to date in order. -/
def syncFields (call : Respond) (record : Value) : List CellId → Run Unit
  | [] => pure ()
  | c :: rest => do
    syncField call record c
    syncFields call record rest

/-- Assigns the record of a store, brings its fields up to date and emits it. The fields follow
the record given here, also if one of them changes the store meanwhile. -/
def updateStore (call : Respond) (c : CellId) (held : Held) : Run Unit := do
  hold c held
  let w ← get
  holding held.holds (syncFields call (w.content c) (w.cell c).fields.synced)
  emit call c

/-- Writes a field back into the record of its store, if the store is alive, and emits the
store. -/
def writeBack (call : Respond) (store : CellId) (part : Part) (v : Value) : Run Unit := do
  let w ← get
  if w.isAlive (.cell store) then
    holding [.cell store]
      (holdAndEmit call store (.value (part.write v (w.content store))))
  else pure ()

/-- Assigns a field, writes it back and emits it. -/
def updateField (call : Respond) (c store : CellId) (part : Part) (held : Held) :
    Run Unit := do
  hold c held
  let w ← get
  writeBack call store part (w.shown held)
  emit call c

/-- The field of a name, made of a part for the type if there is none for it. -/
def storeField (store : CellId) (name : String) (part : Part) (type : ValueType) :
    Run CellId := do
  let w ← get
  let fields := (w.cell store).fields
  let known := (Entries.get? name fields.named).filter fun c => (w.cell c).type = type
  match known with
  | some c => return c
  | none => do
    let c ← newCell (.field store part) type (fieldHeld w type part (w.content store))
    modifyCell store fun cell =>
      { cell with flavour := .store ⟨fields.synced ++ [c], Entries.set name c fields.named⟩ }
    return c

end LivePage
