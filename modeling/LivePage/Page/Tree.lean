import LivePage.Page.Error

/-!
# Moving nodes

Inserting, removing and replacing children. An operation gives its result together with the page
it leaves behind, because a fault that is found late leaves what was done before it.
-/

namespace LivePage.Page

/-- The outcome of an operation and the page after it. -/
abbrev Outcome := Except PageError Unit × Page

/-- Takes a node out of its parent's children. -/
def detach (p : Page) (i : Nat) : Page :=
  match (p.slot i).parent with
  | none => p
  | some q =>
    (p.modify i fun s => { s with parent := none }).modify q fun s =>
      { s with children := s.children.filter (· ≠ i) }

/-- The nodes that inserting `child` moves, taken out of where they are: all children of a
fragment, else the node itself. -/
def release (p : Page) (child : Nat) : List Nat × Page :=
  match (p.slot child).content.type with
  | .fragment => ((p.slot child).children, p.modify child fun s => { s with children := [] })
  | _ => ([child], p.detach child)

/-- Makes `parent` the parent of all `nodes`. -/
def adopt (p : Page) (parent : Nat) (nodes : List Nat) : Page :=
  nodes.foldl (fun p i => p.modify i fun s => { s with parent := some parent }) p

/-- Puts `nodes` among the children of `parent`, before the child at `index`. -/
def spliceChildren (p : Page) (parent index : Nat) (nodes : List Nat) : Page :=
  p.modify parent fun s =>
    { s with children := s.children.take index ++ nodes ++ s.children.drop index }

/-- Is `reference` absent or a child of `parent`, going by its parent link? -/
def isChildOrNone (p : Page) (parent : Nat) : Option Nat → Bool
  | none => true
  | some r => (p.slot r).parent == some parent

/-- Inserts `child` among the children of `parent` before `reference`, or at the end without one.
A fragment contributes its children and is left empty. The place of the reference is looked up
after the nodes have been taken out of where they were. -/
def insertBefore (p : Page) (parent child : Nat) (reference : Option Nat) : Outcome :=
  let type := (p.slot parent).content.type
  if !type.isContainer then (.error (.notAContainer type), p)
  else if p.isInclusiveAncestor child parent then (.error .hierarchyRequest, p)
  else if !p.isChildOrNone parent reference then (.error .notAChild, p)
  else
    let (moved, p) := p.release child
    let p := p.adopt parent moved
    let siblings := (p.slot parent).children
    match reference with
    | none => (.ok (), p.spliceChildren parent siblings.length moved)
    | some r =>
      match siblings.idxOf? r with
      | none => (.error .notAChild, p)
      | some index => (.ok (), p.spliceChildren parent index moved)

/-- Takes `child` out of the children of `parent`. -/
def removeChild (p : Page) (parent child : Nat) : Outcome :=
  if (p.slot child).parent = some parent then (.ok (), p.detach child) else (.error .notAChild, p)

/-- Takes children out one after the other, up to the first fault. -/
def removeChildren (p : Page) (parent : Nat) : List Nat → Outcome
  | [] => (.ok (), p)
  | child :: rest =>
    match p.removeChild parent child with
    | (.ok (), p) => removeChildren p parent rest
    | fault => fault

/-! ## Looking around -/

/-- The sibling that follows a node. -/
def nextSibling (p : Page) (i : Nat) : Option Nat :=
  match (p.slot i).parent with
  | none => none
  | some q =>
    let siblings := (p.slot q).children
    match siblings.idxOf? i with
    | none => none
    | some k => siblings[k + 1]?

/-- The siblings that follow a node up to `stop` or the last one, at most `k` of them. -/
def followingUntil (p : Page) (stop : Nat) : (k : Nat) → (i : Nat) → List Nat
  | 0, _ => []
  | k + 1, i =>
    match p.nextSibling i with
    | none => []
    | some n => if n = stop then [] else n :: followingUntil p stop k n

/-- The nodes between two siblings. -/
def between (p : Page) (start finish : Nat) : List Nat :=
  p.followingUntil finish p.slots.size start

end LivePage.Page
