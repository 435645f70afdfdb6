import LivePage.World.Basic

/-!
# Ownership

Who keeps what alive. A name, a node or a value holds the observables in it; an observable holds
what it holds as a value and what its subscriptions hold; a source does not hold what is derived
from it, nor a field its store. A thing is alive while a name, an operation under way or another
living thing holds it. Things that hold each other in a circle stay alive, so what is alive is the
greatest set in which everything is held from outside of the world or by a member.

Nothing is ever removed from the world: a thing without owners is found dead when somebody who
knows it, but does not hold it, asks.
-/

namespace LivePage

/-! ## What values hold -/

/-- The observables of a style. -/
def Style.holds (style : Style) : List Entity :=
  style.filterMap fun (_, value) =>
    match value with
    | .observable c => some (.cell c)
    | .text _ => none

/-- The observables of an attribute. -/
def AttributeValue.holds : AttributeValue → List Entity
  | .observable c | .ref c => [.cell c]
  | .style s => Style.holds s
  | .text _ | .list _ => []

/-- The observable that drives something. -/
def drivingHolds (driving : Option CellId) : List Entity := driving.toList.map .cell

mutual

/-- What a value holds. -/
def Value.holds : Value → List Entity
  | .observable c | .ref c => [.cell c]
  | .node n => n.holds
  | .render r => r.holds
  | .component _ _ props => props.holds
  | .handler h => [.handler h]
  | .style s => Style.holds s
  | .record fields => contextHolds fields
  | .empty | .scalar _ | .list _ => []

/-- What a node holds. -/
def Node.holds : Node → List Entity
  | .empty => []
  | .text _ driving => drivingHolds driving
  | .element _ attributes listeners children driving =>
    attributes.flatMap (·.2.holds) ++ listeners.map (.handler ·.handler) ++ nodesHold children
      ++ drivingHolds driving
  | .fragment children driving => nodesHold children ++ drivingHolds driving
  | .deferred r => r.holds

/-- What a render function holds. -/
def Render.holds : Render → List Entity
  | .program _ _ context => contextHolds context
  | .handler h => [.handler h]
  | .component _ props => props.holds
  | .pending c => [.cell c]

/-- What named values hold. -/
def contextHolds : List (String × Value) → List Entity
  | [] => []
  | (_, v) :: rest => v.holds ++ contextHolds rest

/-- What nodes hold. -/
def nodesHold : List Node → List Entity
  | [] => []
  | n :: rest => n.holds ++ nodesHold rest

end

/-! ## What shared things hold -/

/-- What an observable holds through its value. -/
def Held.holds : Held → List Entity
  | .value v => v.holds
  | .element e => [.slot e]
  | .absent => []

/-- What a teardown record holds. -/
def Teardown.holds (m : Teardown) : List Entity :=
  m.element.toList.map .slot ++ drivingHolds m.driving ++ m.refs.map .cell
    ++ m.observables.map .cell ++ m.listeners.map (.handler ·.handler) ++ [.records m.children]

namespace World

/-- What a generator holds. -/
def generatorHolds (w : World) : Generator → List Entity
  | .template _ arguments => arguments.flatMap Value.holds
  | .gated _ _ memo => (((w.memos.getD memo.index default).branch).map Node.holds).getD []
  | .program .. | .branch .. | .each .. => []

/-- What a subscription holds. -/
def reactionHolds (w : World) : Reaction → List Entity
  | .subscriber .. | .watch .. => []
  | .derive _ g | .combineFirst _ _ g | .combineSecond _ _ g | .combineAll _ _ g
  | .recompute _ g => w.generatorHolds g
  | .rebuild s => [.site s]
  | .attribute element _ source | .styleProperty element _ source =>
    [.slot element, .cell source]
  | .awaited b => [.boundary b]

/-- What a shared thing holds. -/
def holds (w : World) : Entity → List Entity
  | .cell c =>
    let cell := w.cell c
    let fields := match cell.flavour with
      | .store fields => fields.named.map (.cell ·.2)
      | _ => []
    cell.held.holds ++ cell.registry.flatMap (fun r => w.reactionHolds r.2) ++ fields
  | .records r => (w.records.getD r.index []).flatMap Teardown.holds
  | .region r =>
    match w.regions[r.index]? with
    | some region => [.slot region.start, .slot region.finish, .slot region.parent]
    | none => []
  | .site s =>
    match w.sites[s.index]? with
    | some site =>
      let target := match site.target with
        | .region r => Entity.region r
        | .contents element => .slot element
      [.cell site.source, .records site.records, target]
        ++ (site.queued.map Value.holds).getD []
    | none => []
  | .boundary b =>
    match w.boundaries[b.index]? with
    | some boundary => .cell boundary.display :: (boundary.content.map Node.holds).getD []
    | none => []
  | .handler h =>
    match w.handlers[h.index]? with
    | some (.render r) => r.holds
    | _ => []
  | .slot _ => []

/-- The handlers that listen on a page. -/
def pageHolds (p : Page) : List Entity :=
  p.slots.toList.flatMap fun s =>
    match s.content with
    | .element e => e.listeners.map (.handler ·.2)
    | _ => []

/-- What the names of the script hold. -/
def namesHold (n : Names) : List Entity :=
  n.observables.map (.cell ·.2)
    ++ n.tasks.flatMap (fun (_, t) =>
      .cell t.later :: match t.outcome with | .ok v => v.holds | .error _ => [])
    ++ n.nodes.flatMap (·.2.holds)
    ++ n.handlers.map (.handler ·.2)
    ++ n.pageNodes.map (.slot ·.2)
    ++ n.teardowns.flatMap (·.2.holds)
    ++ n.boundaries.map (.boundary ·.2)
    ++ n.regions.map (.region ·.2)

/-- What is held from outside: by names, by the operations under way, and by the pages. -/
def roots (w : World) : List Entity :=
  namesHold w.names ++ w.pins.flatten ++ w.pages.toList.flatMap pageHolds

/-- The shared things that can hold others. -/
def owners (w : World) : List Entity :=
  (List.range w.cells.size).map (.cell ⟨·⟩)
    ++ (List.range w.records.size).map (.records ⟨·⟩)
    ++ (List.range w.regions.size).map (.region ⟨·⟩)
    ++ (List.range w.sites.size).map (.site ⟨·⟩)
    ++ (List.range w.boundaries.size).map (.boundary ⟨·⟩)
    ++ (List.range w.handlers.size).map (.handler ⟨·⟩)

/-! ## Who is alive -/

/-- A thing and what it holds. -/
structure Owner where
  self : Entity
  holds : List Entity

/-- One round of letting go: the owners that a root or another remaining owner holds. -/
def heldOwners (roots : List Entity) (owners : List Owner) : List Owner :=
  let held := roots ++ owners.flatMap (·.holds)
  owners.filter fun o => held.contains o.self

/-- Lets go in rounds until a round changes nothing; `k` rounds are enough if there are no more
than `k` owners. -/
def settle (roots : List Entity) : (k : Nat) → List Owner → List Owner
  | 0, owners => owners
  | k + 1, owners =>
    let next := heldOwners roots owners
    if next.length = owners.length then owners else settle roots k next

/-- The owners that are alive. -/
def livingOwners (w : World) : List Owner :=
  let owners := w.owners.map fun e => ⟨e, w.holds e⟩
  settle w.roots owners.length owners

/-- Everything that a name, an operation under way or a living owner holds. -/
def heldEntities (w : World) : List Entity := w.roots ++ w.livingOwners.flatMap (·.holds)

/-- Is the thing alive? -/
def isAlive (w : World) (e : Entity) : Bool := w.heldEntities.contains e

/-- The held slots of a page. -/
def heldSlots (w : World) (p : PageId) : List Nat :=
  w.heldEntities.filterMap fun e =>
    match e with
    | .slot n => if n.page = p then some n.slot else none
    | _ => none

end World

end LivePage
