import LivePage.Entries
import LivePage.Identity

/-!
# Pages

A page is an arena of slots. A slot holds a node with the slots of its parent and of its children
in order; nodes are addressed by slot number. Slots of nodes that nobody can reach any more are
collected in a list of free slots and handed out again, the last one freed first.

A sweep frees exactly the trees of which no node is held. It runs when a node is created while
the number of occupied slots has reached a threshold, and the threshold is then set to twice what
was left.
-/

namespace LivePage

/-- The shapes of page nodes. -/
inductive NodeType where
  | element
  | text
  | comment
  | fragment
deriving DecidableEq, Repr

/-- The name of a shape in messages. -/
def NodeType.name : NodeType → String
  | element => "element"
  | text => "text"
  | comment => "comment"
  | fragment => "fragment"

/-- What an element carries besides its children. -/
structure Element where
  tag : String
  attributes : Entries String := []
  style : Entries String := []
  /-- The event types listened for, with their handlers, in the order of registration. -/
  listeners : List (String × HandlerId) := []
deriving Repr

/-- What a page node is. -/
inductive Content where
  | element (e : Element)
  | text (data : String)
  | comment (data : String)
  | fragment
deriving Repr

/-- The shape of a node. -/
def Content.type : Content → NodeType
  | element _ => .element
  | text _ => .text
  | comment _ => .comment
  | fragment => .fragment

/-- Can a node of this shape have children? -/
def NodeType.isContainer : NodeType → Bool
  | element | fragment => true
  | text | comment => false

/-- A place for one node. -/
structure Slot where
  content : Content
  parent : Option Nat := none
  children : List Nat := []
deriving Repr

/-- A slot that holds nothing of interest, such as a freed one. -/
def Slot.vacant : Slot := { content := .fragment }

instance : Inhabited Slot := ⟨Slot.vacant⟩

/-- A page. -/
structure Page where
  slots : Array Slot := #[]
  /-- The freed slots, the last one freed first. -/
  free : List Nat := []
  /-- The number of occupied slots at which the next creation sweeps. -/
  sweepAt : Nat := 64
deriving Repr, Inhabited

namespace Page

/-- No sweep runs below this many occupied slots. -/
def sweepMinimum : Nat := 64

/-- The slot of a number; there is always one to look at. -/
def slot (p : Page) (i : Nat) : Slot := p.slots.getD i .vacant

/-- Changes one slot. -/
def modify (p : Page) (i : Nat) (f : Slot → Slot) : Page :=
  { p with slots := p.slots.modify i f }

/-- The number of occupied slots. -/
def live (p : Page) : Nat := p.slots.size - p.free.length

/-! ## Ancestors -/

/-- Is `a` the node `n` or an ancestor of it, at most `k` steps up? -/
def climbs (p : Page) (a : Nat) : (k : Nat) → (n : Nat) → Bool
  | 0, n => n == a
  | k + 1, n =>
    n == a || match (p.slot n).parent with
      | none => false
      | some q => climbs p a k q

/-- Is `a` the node `n` or an ancestor of it? No chain of parents is longer than the arena. -/
def isInclusiveAncestor (p : Page) (a n : Nat) : Bool := p.climbs a p.slots.size n

/-- The node reached from `n` by going up while there is a parent, at most `k` steps. -/
def rootWithin (p : Page) : (k : Nat) → (n : Nat) → Nat
  | 0, n => n
  | k + 1, n =>
    match (p.slot n).parent with
    | none => n
    | some q => rootWithin p k q

/-- The topmost node of the tree that `n` belongs to. -/
def root (p : Page) (n : Nat) : Nat := p.rootWithin p.slots.size n

/-! ## Creating and reclaiming nodes -/

/-- The slots that are not free. -/
def occupied (p : Page) : List Nat :=
  (List.range p.slots.size).filter fun i => !p.free.contains i

/-- The occupied slots in whose tree no node is held. -/
def unreachable (p : Page) (held : List Nat) : List Nat :=
  let retained := (p.occupied.filter held.contains).map p.root
  p.occupied.filter fun i => !retained.contains (p.root i)

/-- Frees the trees of which no node is held, in rising order of their slots. -/
def sweep (p : Page) (held : List Nat) : Page :=
  let garbage := p.unreachable held
  { p with
    slots := garbage.foldl (fun s i => s.setIfInBounds i .vacant) p.slots
    free := garbage.reverse ++ p.free }

/-- Does the next creation have to sweep first? -/
def isFull (p : Page) : Bool := p.sweepAt ≤ p.live

/-- The sweep before a creation, which also sets the next threshold. -/
def reclaim (p : Page) (held : List Nat) : Page :=
  let p := p.sweep held
  { p with sweepAt := max (2 * p.live) sweepMinimum }

/-- Puts a new node into the slot freed last, or into a new one. -/
def place (p : Page) (content : Content) : Nat × Page :=
  match p.free with
  | i :: rest => (i, { p with slots := p.slots.setIfInBounds i { content }, free := rest })
  | [] => (p.slots.size, { p with slots := p.slots.push { content } })

end Page

end LivePage
