import LivePage.Page.Element
import LivePage.Page.Tree
import LivePage.World.Ownership

/-!
# Pages in the world

The operations on page nodes, as the library and scripts use them. Nodes of two pages cannot be
mixed. A new node is created by sweeping its page first, if that is due; what keeps a node from
being swept are its owners in the world.
-/

namespace LivePage

/-- What a page operation gives: nothing, or a fault. -/
abbrev Edited := Except PageError Unit

/-- Changes a page by an operation that leaves a page behind in any case. -/
def onPage (p : PageId) (f : Page → Page.Outcome) : Run Edited := do
  let w ← get
  let (result, page) := f (w.page p)
  set { w with pages := w.pages.setIfInBounds p.index page }
  return result

/-- Changes a page by an operation that either succeeds or leaves it as it is. -/
def editPage (p : PageId) (f : Page → Except PageError Page) : Run Edited :=
  onPage p fun page =>
    match f page with
    | .ok after => (.ok (), after)
    | .error e => (.error e, page)

/-- Makes an empty page. -/
def newPage : Run PageId := do
  let w ← get
  set { w with pages := w.pages.push {} }
  return ⟨w.pages.size⟩

/-- Creates a node without a parent. -/
def createNode (p : PageId) (content : Content) : Run PageNode := do
  let w ← get
  let page := w.page p
  let (slot, page) := (if page.isFull then page.reclaim (w.heldSlots p) else page).place content
  set { w with pages := w.pages.setIfInBounds p.index page }
  return ⟨p, slot⟩

/-- Sweeps a page and counts what is left. -/
def countNodes (p : PageId) : Run Nat := do
  let w ← get
  let page := (w.page p).sweep (w.heldSlots p)
  set { w with pages := w.pages.setIfInBounds p.index page }
  return page.live

namespace PageNode

/-- Do two nodes belong to one page? The node that may be missing does. -/
def sharesPage (n : PageNode) : Option PageNode → Bool
  | none => true
  | some other => n.page = other.page

/-- Inserts a child before another one, or at the end. -/
def insertBefore (n child : PageNode) (reference : Option PageNode) : Run Edited :=
  if n.sharesPage (some child) && n.sharesPage reference then
    onPage n.page fun p => p.insertBefore n.slot child.slot (reference.map (·.slot))
  else return .error .wrongDocument

/-- Inserts a child at the end. -/
def append (n child : PageNode) : Run Edited := n.insertBefore child none

/-- Takes out a child. -/
def removeChild (n child : PageNode) : Run Edited :=
  if n.sharesPage (some child) then onPage n.page fun p => p.removeChild n.slot child.slot
  else return .error .wrongDocument

/-- Takes out all children, one after the other, and inserts `content` instead. -/
def replaceChildren (n content : PageNode) : Run Edited := do
  match ← onPage n.page fun p => p.removeChildren n.slot (p.slot n.slot).children with
  | .ok () => n.append content
  | .error e => return .error e

/-- Takes a node out of its parent, if it has one. -/
def remove (n : PageNode) : Run Unit := do
  let _ ← onPage n.page fun p => (.ok (), p.detach n.slot)

/-- Removes the first registration of a handler for an event type. -/
def unlisten (n : PageNode) (type : String) (handler : HandlerId) : Run Unit := do
  let _ ← onPage n.page fun p => (.ok (), p.unlisten n.slot type handler)

/-- The parent of a node. -/
def parent? (w : World) (n : PageNode) : Option PageNode :=
  (w.slot n).parent.map fun slot => ⟨n.page, slot⟩

end PageNode

end LivePage
