import LivePage.Live.Event
import LivePage.Script.Answer
import LivePage.Script.Inspect
import LivePage.Script.Labels

/-!
# Steps on pages, realization and regions
-/

namespace LivePage

open LivePage.Script

/-! ## Pages -/

/-- The page of a name. -/
def stepPage (name : String) : Answering PageId := (lookup Names.documents name : Run PageId)

/-- The page node that a path leads to. -/
def stepPageNode (path : NodePath) : Answering PageNode := lookupPageNode path

/-- Gives a page node a name. -/
def namePageNode (name : String) (n : PageNode) : Run Unit :=
  modifyNames fun names => { names with pageNodes := Entries.set name n names.pageNodes }

/-- Describes a page node that may be missing, and stores it under a name if there is one. -/
def describeAndStore (as : Option String) : Option PageNode → Answering Report
  | none => return .null
  | some n => do
    match as with
    | some name => namePageNode name n
    | none => pure ()
    return .text ((← get).describe n)

/-- Makes an empty page. -/
def stepDocument (as : String) : Answering Report := do
  let p ← newPage
  silently (modifyNames fun names => { names with documents := Entries.set as p names.documents })

/-- Enters a page. -/
def stepEnter (name : String) : Answering Report := do
  let p ← stepPage name
  silently (modify fun w => w.enterPage p)

/-- Drops the guard of the page entered last. -/
def stepLeave : Answering Report := silently (modify World.dropGuard)

/-- The name of the page that is active. -/
def stepActive : Answering Report := do
  let w ← get
  return Report.ofText? do
    let p ← w.activePage
    let (name, _) ← w.names.documents.find? fun e => e.2 = p
    return name

/-- Creates a page node. -/
def stepCreate (document : String) (content : Content) (as : String) : Answering Report := do
  let p ← stepPage document
  let n ← createNode p content
  describeAndStore (some as) (some n)

/-- Does something with a page node and another one. -/
def withTwo (node child : NodePath) (act : PageNode → PageNode → Run Edited) :
    Answering Report := do
  let n ← stepPageNode node
  let c ← stepPageNode child
  edited (act n c)

/-- Inserts a page node. -/
def stepInsert (node child : NodePath) (before : Option NodePath) : Answering Report := do
  let n ← stepPageNode node
  let c ← stepPageNode child
  let reference ← match before with
    | some path => do
      let r ← stepPageNode path
      pure (some r)
    | none => pure none
  edited (n.insertBefore c reference)

/-- Changes a page node. -/
def stepEdit (node : NodePath) (act : PageNode → Run Edited) : Answering Report := do
  let n ← stepPageNode node
  edited (act n)

/-- Reads something from a page node. -/
def stepRead (node : NodePath) (read : Page → Nat → Option String) : Answering Report := do
  let n ← stepPageNode node
  return Report.ofText? (read ((← get).page n.page) n.slot)

/-- Registers a handler. -/
def stepListen (node : NodePath) (type handler : String) : Answering Report := do
  let h ← lookupHandler handler
  stepEdit node fun n => n.listen type h

/-- Removes a handler and counts those that are left. -/
def stepUnlisten (node : NodePath) (type handler : String) : Answering Report := do
  let n ← stepPageNode node
  let h ← lookupHandler handler
  n.unlisten type h
  return .count (((← get).page n.page).listenerCount n.slot)

/-- Dispatches an event. -/
def stepDispatch (call : Respond) (node : NodePath) (type : String) (inspect : Bool) :
    Answering Report := do
  let n ← stepPageNode node
  let e ← dispatch call type n
  let w ← get
  let shown := if inspect then some (w.inspectEvent e.type e.target e.prevented) else none
  return .object [("prevented", .bool e.prevented), ("type", .text e.type),
    ("debug", Report.ofText? shown)]

/-- The markup of a page node or of its children. -/
def stepPrint (node : NodePath) (print : Page → Nat → String) : Answering Report := do
  let n ← stepPageNode node
  return .text (Labels.inOrder (print ((← get).page n.page) n.slot))

/-- All that can be asked of a page node. -/
def stepInfo (node : NodePath) : Answering Report := do
  let n ← stepPageNode node
  let w ← get
  let page := w.page n.page
  let slot := page.slot n.slot
  let describe (i : Option Nat) := Report.ofText? (i.map page.describe)
  let attributes := ((page.element? n.slot).map (·.attributes)).getD []
  return .object [("type", .text slot.content.type.inspect),
    ("tag", Report.ofText? ((page.element? n.slot).map (·.tag))),
    ("data", Report.ofText? (page.data? n.slot)),
    ("attrs", .pairs (attributes.map fun (name, s) => (name, .text s))),
    ("text", .text (page.textContent n.slot)),
    ("listeners", .count (page.listenerCount n.slot)),
    ("children", Report.texts (slot.children.map page.describe)),
    ("first", describe slot.children.head?), ("next", describe (page.nextSibling n.slot)),
    ("parent", describe slot.parent)]

/-- Stores a page node that a given one leads to. -/
def stepGrab (node : NodePath) (as : Option String) (follow : Page → Nat → Option Nat) :
    Answering Report := do
  let n ← stepPageNode node
  let found := follow ((← get).page n.page) n.slot
  describeAndStore as (found.map fun i => ⟨n.page, i⟩)

/-- Are two page nodes the same one, and are they of one page? -/
def stepSameNode (a b : NodePath) : Answering Report := do
  let m ← stepPageNode a
  let n ← stepPageNode b
  return .list [.bool (m = n), .bool (m.page = n.page)]

/-! ## Realization -/

/-- Stores a teardown record and answers with what it stands for. -/
def storeTeardown (as : String) (m : Teardown) : Answering Report := do
  modifyNames fun names => { names with teardowns := Entries.set as m names.teardowns }
  let w ← get
  return .object [("element", Report.ofText? (m.element.map w.describe)),
    ("children", .count (w.recordsIn m.children).length)]

/-- Realizes a node into a fragment. -/
def stepRealize (call : Respond) (template : Template) (as fragment : String)
    (labelled : Bool) : Answering Report := do
  let n ← stepNode call template
  let realized ← answering realizationFault (realize call labelled n)
  namePageNode fragment realized.fragment
  storeTeardown as realized.teardown

/-- Realizes a node in place of the children of a page node. -/
def stepRender (call : Respond) (root : NodePath) (template : Template) (as : String)
    (labelled : Bool) : Answering Report := do
  let r ← stepPageNode root
  let n ← stepNode call template
  let rendered := holding [.slot r] (renderInto call labelled r n).run
  let m ← answering realizationFault rendered
  storeTeardown as m

/-- The number of records below a record. -/
def stepTeardown (name : String) : Answering Report := do
  let m ← (lookup Names.teardowns name : Run Teardown)
  return .count ((← get).recordsIn m.children).length

/-- Kills a record and forgets it. -/
def stepKill (call : Respond) (name : String) : Answering Report := do
  let m ← (lookup Names.teardowns name : Run Teardown)
  modifyNames fun names => { names with teardowns := Entries.erase name names.teardowns }
  silently (holding m.holds (call (.kill m)))

/-! ## Regions -/

/-- The region of a name. -/
def stepRegionId (name : String) : Answering RegionId := (lookup Names.regions name : Run RegionId)

/-- Makes a region. -/
def stepRegion (parent : NodePath) (label : Option String) (as : String) : Answering Report := do
  let n ← stepPageNode parent
  let r ← answering pageFault (openRegion n label)
  silently (modifyNames fun names => { names with regions := Entries.set as r names.regions })

/-- Replaces the contents of a region. -/
def stepSplice (region : String) (node : NodePath) : Answering Report := do
  let r ← stepRegionId region
  let n ← stepPageNode node
  edited (r.splice n)

/-- What a region stands for. -/
def stepContents (region : String) : Answering Report := do
  let r ← stepRegionId region
  let w ← get
  return .object [("in", Report.texts ((w.contents r).map w.describe)),
    ("parent", .text (w.describe (w.region r).parent)),
    ("start", .text (w.describe (w.region r).start)),
    ("end", .text (w.describe (w.region r).finish))]

/-- Stores one of the comments around a region. -/
def stepGrabAnchor (region : String) (atStart : Bool) (as : String) : Answering Report := do
  let r ← stepRegionId region
  let found := (← get).region r
  describeAndStore (some as) (some (if atStart then found.start else found.finish))

/-! ## Inspections -/

/-- Inspects the thing of a name. -/
def stepInspect (of : Inspected) (name : String) : Answering Report := do
  let shown ← (match of with
    | .observable => return (← get).inspectObservable (← lookupCell name)
    | .dynamic => return (← get).inspectDynamic (← lookupCell name)
    | .node => return (← lookupNode name).inspect (← get)
    | .pageNode => return (← get).inspectPageNode (← lookup Names.pageNodes name)
    | .page => return (← get).inspectPage (← lookup Names.documents name)
    | .component => do
      let c ← lookupComponent name
      return Inspect.component c ++ " " ++ Inspect.componentCall c false
    | .teardown => return (← get).inspectTeardown (← lookup Names.teardowns name)
    | .region => return (← get).inspectRegion (← lookup Names.regions name)
    | .watch => do
      let _ ← lookup Names.watches name
      return inspectSubscription : Run String)
  return .text shown

/-- Inspects a value. -/
def stepInspectValue (call : Respond) (value : Expr) : Answering Report := do
  let v ← stepValue call value
  return .text (v.inspect (← get))

end LivePage
