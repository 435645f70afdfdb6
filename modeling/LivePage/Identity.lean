/-!
# Identities

Everything that can be shared is known by an identity, a number that counts what has been created
of its sort. Two things are the same exactly when their identities are.
-/

namespace LivePage

/-- An observable. -/
structure CellId where
  index : Nat
deriving DecidableEq, Repr, Inhabited

/-- An event handler. -/
structure HandlerId where
  index : Nat
deriving DecidableEq, Repr, Inhabited

/-- A component. -/
structure ComponentId where
  index : Nat
deriving DecidableEq, Repr, Inhabited

/-- A page. -/
structure PageId where
  index : Nat
deriving DecidableEq, Repr, Inhabited

/-- A node of a page, by the slot that holds it. -/
structure PageNode where
  page : PageId
  slot : Nat
deriving DecidableEq, Repr, Inhabited

/-- A list of teardown records, shared by a record and the reaction that rebuilds its contents. -/
structure RecordsId where
  index : Nat
deriving DecidableEq, Repr, Inhabited

/-- A region between two anchors. -/
structure RegionId where
  index : Nat
deriving DecidableEq, Repr, Inhabited

/-- A place on a page whose contents follow an observable. -/
structure SiteId where
  index : Nat
deriving DecidableEq, Repr, Inhabited

/-- A suspense boundary. -/
structure BoundaryId where
  index : Nat
deriving DecidableEq, Repr, Inhabited

/-- The branch that a conditional remembers. -/
structure MemoId where
  index : Nat
deriving DecidableEq, Repr, Inhabited

/-- A program that runs when it is called back, with its count of calls. -/
structure CallbackId where
  index : Nat
deriving DecidableEq, Repr, Inhabited

/-- The number of an observable as it is shown: the first one has number one. -/
def CellId.number (c : CellId) : Nat := c.index + 1

/-- The number of a component as it is shown: the first one has number one. -/
def ComponentId.number (c : ComponentId) : Nat := c.index + 1

/-- The name of a component in messages. -/
def ComponentId.name (c : ComponentId) : String := "component#" ++ toString c.number

end LivePage
