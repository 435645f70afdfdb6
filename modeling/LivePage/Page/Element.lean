import LivePage.Page.Error

/-!
# Attributes, styles and listeners

What only elements have. Changing any of these on another node is a fault that names the
operation; reading them there finds nothing.
-/

namespace LivePage.Page

/-- The element in a slot. -/
def element? (p : Page) (i : Nat) : Option Element :=
  match (p.slot i).content with
  | .element e => some e
  | _ => none

/-- Changes the element in a slot; `operation` names the change in case there is none. -/
def updateElement (p : Page) (i : Nat) (operation : String) (f : Element → Element) :
    Except PageError Page :=
  match p.element? i with
  | some e => .ok (p.modify i fun s => { s with content := .element (f e) })
  | none => .error (.notAnElement operation)

/-- Gives an attribute a value. -/
def setAttribute (p : Page) (i : Nat) (name value : String) : Except PageError Page :=
  p.updateElement i "set_attribute" fun e =>
    { e with attributes := Entries.set name value e.attributes }

/-- Removes an attribute, if it is there. -/
def removeAttribute (p : Page) (i : Nat) (name : String) : Except PageError Page :=
  p.updateElement i "remove_attribute" fun e =>
    { e with attributes := Entries.erase name e.attributes }

/-- The value of an attribute. -/
def getAttribute (p : Page) (i : Nat) (name : String) : Option String :=
  (p.element? i).bind fun e => Entries.get? name e.attributes

/-- Gives a style property a value. -/
def setStyle (p : Page) (i : Nat) (property value : String) : Except PageError Page :=
  p.updateElement i "set_style_property" fun e =>
    { e with style := Entries.set property value e.style }

/-- Removes a style property, if it is there. -/
def removeStyle (p : Page) (i : Nat) (property : String) : Except PageError Page :=
  p.updateElement i "remove_style_property" fun e =>
    { e with style := Entries.erase property e.style }

/-- The value of a style property. -/
def getStyle (p : Page) (i : Nat) (property : String) : Option String :=
  (p.element? i).bind fun e => Entries.get? property e.style

/-- Registers a handler behind those registered before. -/
def listen (p : Page) (i : Nat) (type : String) (handler : HandlerId) : Except PageError Page :=
  p.updateElement i "add_event_listener" fun e =>
    { e with listeners := e.listeners ++ [(type, handler)] }

/-- Removes the first registration of exactly this handler for this event type. -/
def unlisten (p : Page) (i : Nat) (type : String) (handler : HandlerId) : Page :=
  p.modify i fun s =>
    match s.content with
    | .element e =>
      let listeners := e.listeners.erase (type, handler)
      { s with content := .element { e with listeners } }
    | _ => s

/-- The handlers registered for an event type, in order. -/
def handlers (p : Page) (i : Nat) (type : String) : List HandlerId :=
  match p.element? i with
  | none => []
  | some e => e.listeners.filterMap fun l => if l.1 = type then some l.2 else none

/-- The number of registrations on a node. -/
def listenerCount (p : Page) (i : Nat) : Nat :=
  ((p.element? i).map fun e => e.listeners.length).getD 0

/-- The character data of a text or a comment. -/
def data? (p : Page) (i : Nat) : Option String :=
  match (p.slot i).content with
  | .text data | .comment data => some data
  | _ => none

end LivePage.Page
