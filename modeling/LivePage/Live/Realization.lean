import LivePage.Live.Binding

/-!
# Realizing nodes

Realization puts what a node describes behind the children of a page node. Fixed content is
created once. The contents of a driven text or fragment stand in a region of their own, and those
of a driven element are its children; both are rebuilt whenever the observable is emitted. Each
node leaves a teardown record, which releases its subscriptions and listeners when it is killed,
and in which the records of its children stand.

The pieces that a realization has not used up yet stay alive until it is done with them, and so do
those that it has made.
-/

namespace LivePage

/-- Makes an empty list of teardown records. -/
def newRecords : Run RecordsId := do
  let w ← get
  set { w with records := w.records.push [] }
  return ⟨w.records.size⟩

/-- A record of nothing. -/
def emptyTeardown : Run Teardown := return { children := ← newRecords }

/-- Adds a record at the end of a list. -/
def pushRecord (r : RecordsId) (m : Teardown) : Run Unit :=
  modify fun w => { w with records := w.records.modify r.index (· ++ [m]) }

/-- Registers listeners on an element in order. -/
def addListeners (element : PageNode) : List Listener → Realizing Unit
  | [] => return ()
  | l :: rest => do
    pageStep (element.listen l.event l.handler)
    addListeners element rest

/-- Makes a place on a page follow an observable from now on. -/
def followAt (surface : Surface) (source : CellId) (records : RecordsId) (target : Target) :
    Run Unit := do
  let w ← get
  set { w with sites := w.sites.push { surface, source, records, target } }
  let _ ← subscribe source (.rebuild ⟨w.sites.size⟩)

/-- The label of a new region, if regions are labelled: eight letters and digits that no other
region of this run has. -/
def Surface.label (r : Surface) : Run (Option String) := do
  if r.labelled then
    let digits := Nat.toDigits 10 (← get).regions.size
    return some (String.ofList ('r' :: List.replicate (7 - digits.length) '0' ++ digits))
  else return none

/-- Runs a realization step while `held` cannot be reclaimed. -/
def realizingWith {α : Type} (held : List Entity) (act : Realizing α) : Realizing α :=
  ExceptT.mk (holding held act.run)

mutual

/-- Realizes a node behind the children of `parent`. -/
def Node.realize (call : Respond) (r : Surface) (parent : PageNode) : Node → Realizing Teardown
  | .empty => emptyTeardown
  | .text data none => do
    let n ← createNode r.page (.text data)
    pageStep (parent.append n)
    emptyTeardown
  | .text data (some c) => do
    let label ← r.label
    let region ← realizingWith [.cell c] (pageStep (openRegion parent label))
    realizingWith [.region region, .cell c] do
      let records ← newRecords
      let content ← createNode r.page .fragment
      realizingWith [.slot content] do
        let n ← createNode r.page (.text data)
        pageStep (content.append n)
        pushRecord records (← emptyTeardown)
        pageStep (region.splice content)
      followAt r c records (.region region)
      return { driving := some c, children := records }
  | .element tag attributes listeners children driving => do
    let held := attributes.flatMap (·.2.holds) ++ nodesHold children ++ drivingHolds driving
    let element ← realizingWith held (createNode r.page (.element { tag }))
    realizingWith (.slot element :: drivingHolds driving) do
      let later := listeners.map (Entity.handler ·.handler) ++ nodesHold children
      let bound ← realizingWith later (bindAttributes call element {} attributes)
      addListeners element listeners
      let records ← newRecords
      realizingWith (bound.holds ++ listeners.map (Entity.handler ·.handler) ++ [.records records])
        (realizeAll call r element records children)
      match driving with
      | some c => followAt r c records (.contents element)
      | none => pure ()
      pageStep (parent.append element)
      return { element := some element, driving, refs := bound.refs,
               observables := bound.observables, listeners, children := records }
  | .fragment children none => do
    let records ← newRecords
    realizingWith [.records records] (realizeAll call r parent records children)
    return { children := records }
  | .fragment children (some c) => do
    let label ← r.label
    let held := .cell c :: nodesHold children
    let region ← realizingWith held (pageStep (openRegion parent label))
    realizingWith [.region region, .cell c] do
      let records ← newRecords
      let content ← realizingWith (nodesHold children) (createNode r.page .fragment)
      realizingWith [.slot content, .records records] do
        realizeAll call r content records children
        pageStep (region.splice content)
      followAt r c records (.region region)
      return { driving := some c, children := records }
  | .deferred render => do
    let v ← realizingWith render.holds (call (.render render))
    if v.kind = .function then throw (.unresolvableRender v.variant)
    else
      let n ← childNode v
      ExceptT.mk (holding render.holds (call (.realize r n parent)))

/-- Realizes nodes in order and collects their records. -/
def realizeAll (call : Respond) (r : Surface) (parent : PageNode) (records : RecordsId) :
    List Node → Realizing Unit
  | [] => return ()
  | n :: rest => do
    let m ← realizingWith (.slot parent :: nodesHold rest) (Node.realize call r parent n)
    pushRecord records m
    realizeAll call r parent records rest

end

/-! ## Teardown and rebuilding -/

/-- Kills references in order. While one of them is killed, those to come stay alive. -/
def killRefs (call : Respond) : List CellId → Run Unit
  | [] => pure ()
  | c :: rest => do
    holding ((c :: rest).map .cell) (killRef call c)
    killRefs call rest

/-- Removes all subscriptions of an observable. -/
def unsubscribeAll (c : CellId) : Run Unit := modifyCell c Cell.unsubscribeAll

/-- Kills records in order. While one of them is killed, those to come stay alive. -/
def killAll (call : Respond) : List Teardown → Run Unit
  | [] => pure ()
  | m :: rest => do
    holding ((m :: rest).flatMap Teardown.holds) (call (.kill m))
    killAll call rest

/-- Takes the records out of a list. -/
def takeRecords (r : RecordsId) : Run (List Teardown) := do
  let w ← get
  set { w with records := w.records.setIfInBounds r.index [] }
  return w.records.getD r.index []

/-- Releases what a record stands for, and then the records below it: every subscription of the
observables that drive the node or its attributes, also those that somebody else made. -/
def Teardown.kill (call : Respond) (m : Teardown) : Run Unit := do
  m.driving.toList.forM unsubscribeAll
  killRefs call m.refs
  m.observables.forM unsubscribeAll
  match m.element with
  | some element => m.listeners.forM fun l => element.unlisten l.event l.handler
  | none => pure ()
  killAll call (← takeRecords m.children)

/-- Ends the run because an emission could not be carried out. -/
def stopEmission {α : Type} (e : RealizationError) : Run α := do
  let text := "failed to re-render after an emission: " ++ e.message
  logEntry (.object [("error", .text text)])
  throw (.panic text)

/-- The result of something done for an emission, which has to succeed. -/
def duringEmission {α : Type} (act : Realizing α) : Run α := do
  match ← act.run with
  | .ok a => return a
  | .error e => stopEmission e

/-- Puts new contents into a place. -/
def Target.put (content : PageNode) : Target → Run Edited
  | .region r => r.splice content
  | .contents element => element.replaceChildren content

/-- Kills the previous contents of a place and puts new ones there. -/
def replaceContents (call : Respond) (site : Site) (v : Value) : Run Unit := do
  killAll call (← takeRecords site.records)
  let content ← createNode site.surface.page .fragment
  let n ← childNode v
  let m ← holding [.slot content] <| duringEmission do
    let m ← Node.realize call site.surface content n
    realizingWith m.holds (pageStep (site.target.put content))
    return m
  pushRecord site.records m

/-- Rebuilds a place from a value, then from the value queued meanwhile, if there is one. -/
def SiteId.rebuild (call : Respond) (s : SiteId) (v : Value) : Run Unit := do
  let site := (← get).sites.getD s.index default
  holding v.holds (replaceContents call site v)
  let w ← get
  match (w.sites.getD s.index default).queued with
  | some next => do
    set { w with sites := w.sites.modify s.index fun site => { site with queued := none } }
    call (.rebuild s next)
  | none => set { w with sites := w.sites.modify s.index fun site => { site with busy := false } }

/-- Tells a place of an emission: it is rebuilt, or remembers the value while it is busy. -/
def SiteId.onEmission (call : Respond) (s : SiteId) (v : Value) : Run Unit := do
  let w ← get
  if (w.sites.getD s.index default).busy then
    set { w with sites := w.sites.modify s.index fun site => { site with queued := some v } }
  else
    set { w with sites := w.sites.modify s.index fun site => { site with busy := true } }
    call (.rebuild s v)

/-! ## Entry points -/

/-- What realizing a node for a page gives: the fragment that holds it, and its record. -/
structure Realization where
  fragment : PageNode
  teardown : Teardown

/-- Realizes a node into a new fragment of the page entered last. -/
def realize (call : Respond) (labelled : Bool) (n : Node) : Realizing Realization := do
  match (← get).activePage with
  | none => throw .noDocument
  | some page => do
    let fragment ← realizingWith n.holds (createNode page .fragment)
    let teardown ← realizingWith [.slot fragment] (n.realize call ⟨page, labelled⟩ fragment)
    return ⟨fragment, teardown⟩

/-- Realizes a node and puts it in place of the children of a page node. -/
def renderInto (call : Respond) (labelled : Bool) (root : PageNode) (n : Node) :
    Realizing Teardown := do
  let realized ← realize call labelled n
  realizingWith realized.teardown.holds
    (pageStep (root.replaceChildren realized.fragment))
  return realized.teardown

end LivePage
