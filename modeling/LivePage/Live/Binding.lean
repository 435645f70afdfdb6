import LivePage.Live.Region
import LivePage.Observable.Emission
import LivePage.Observable.Reference

/-!
# Attributes and styles on live elements

How the attributes of a node get onto the element that it becomes. Fixed values are written once.
An observable is applied with its current value and again whenever it is emitted: nothing removes
the attribute, a text sets it, and a style sets or removes its properties. A reference is attached
to the element.

Page operations on elements never fail here; their faults are handed on all the same.
-/

namespace LivePage

/-- Something done for a live page, which can fail. -/
abbrev Realizing := ExceptT RealizationError Run

/-- The result of a page operation as one of realization. -/
def pageStep {α : Type} (act : Run (Except PageError α)) : Realizing α :=
  ExceptT.mk do
    match ← act with
    | .ok a => return .ok a
    | .error e => return .error (.page e)

namespace PageNode

/-- Sets an attribute. -/
def setAttribute (n : PageNode) (name value : String) : Run Edited :=
  editPage n.page fun p => p.setAttribute n.slot name value

/-- Removes an attribute. -/
def removeAttribute (n : PageNode) (name : String) : Run Edited :=
  editPage n.page fun p => p.removeAttribute n.slot name

/-- Sets a style property. -/
def setStyle (n : PageNode) (property value : String) : Run Edited :=
  editPage n.page fun p => p.setStyle n.slot property value

/-- Removes a style property. -/
def removeStyle (n : PageNode) (property : String) : Run Edited :=
  editPage n.page fun p => p.removeStyle n.slot property

/-- Registers a handler for an event type. -/
def listen (n : PageNode) (type : String) (handler : HandlerId) : Run Edited :=
  editPage n.page fun p => p.listen n.slot type handler

/-- Sets a style property to a text, or removes it. -/
def putStyle (n : PageNode) (property : String) : Option String → Run Edited
  | some s => n.setStyle property s
  | none => n.removeStyle property

/-- Sets or removes the properties of a style. -/
def putStyles (n : PageNode) : Style → Realizing Unit
  | [] => return ()
  | (key, value) :: rest => do
    let w ← get
    pageStep (n.putStyle (Text.stylePropertyName key) (w.styleText? value))
    putStyles n rest

/-- Applies a value to an attribute. -/
def putAttribute (n : PageNode) (name : String) (v : Value) : Realizing Unit := do
  match v with
  | .empty => pageStep (n.removeAttribute name)
  | .style style => n.putStyles style
  | v => do
    match (← get).text? v with
    | some s => pageStep (n.setAttribute name s)
    | none => do
      warn ("attribute \x60" ++ name ++ "\x60 received a " ++ v.variant
        ++ ", which has no text form; removing it")
      pageStep (n.removeAttribute name)

/-- Applies a value to a style property: its text, unless that is empty. -/
def putProperty (n : PageNode) (property : String) (v : Value) : Realizing Unit := do
  let w ← get
  pageStep (n.putStyle property ((w.text? v).filter fun s => !s.isEmpty))

end PageNode

/-- What the attributes of an element have added to its teardown record. -/
structure Bindings where
  refs : List CellId := []
  observables : List CellId := []

/-- What the bindings hold. -/
def Bindings.holds (b : Bindings) : List Entity := (b.refs ++ b.observables).map .cell

/-- Puts the properties of a style onto an element. -/
def bindStyle (element : PageNode) (bound : Bindings) : Style → Realizing Bindings
  | [] => return bound
  | (key, .text s) :: rest => do
    pageStep (element.setStyle (Text.stylePropertyName key) s)
    bindStyle element bound rest
  | (key, .observable c) :: rest => do
    let property := Text.stylePropertyName key
    element.putProperty property ((← get).current c)
    let _ ← subscribe c (.styleProperty element property c)
    bindStyle element { bound with observables := bound.observables ++ [c] } rest

/-- Puts an attribute onto an element. -/
def bindAttribute (call : Respond) (element : PageNode) (bound : Bindings) (name : String) :
    AttributeValue → Realizing Bindings
  | .text s => do
    pageStep (element.setAttribute name s)
    return bound
  | .list items => do
    pageStep (element.setAttribute name (" ".intercalate items))
    return bound
  | .ref c => do
    attach call c element
    return { bound with refs := bound.refs ++ [c] }
  | .style style => bindStyle element bound style
  | .observable c => do
    let name := Text.pageAttributeName name
    element.putAttribute name ((← get).current c)
    let _ ← subscribe c (.attribute element name c)
    return { bound with observables := bound.observables ++ [c] }

/-- Puts attributes onto an element in order. While one of them is put there, those to come and
those already put stay alive. -/
def bindAttributes (call : Respond) (element : PageNode) (bound : Bindings) :
    List (String × AttributeValue) → Realizing Bindings
  | [] => return bound
  | (name, value) :: rest => do
    let bound ← ExceptT.mk <|
      holding (bound.holds ++ value.holds ++ rest.flatMap (·.2.holds))
        (bindAttribute call element bound name value).run
    bindAttributes call element bound rest

end LivePage
