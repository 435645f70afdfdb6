import LivePage.Page.Basic

/-!
# Faults of page operations
-/

namespace LivePage

/-- Why a page operation cannot be done. -/
inductive PageError where
  /-- Texts and comments have no children. -/
  | notAContainer (type : NodeType)
  /-- The reference or the node to remove is no child of the target. -/
  | notAChild
  /-- A node cannot be put below itself. -/
  | hierarchyRequest
  /-- Nodes of two pages cannot be mixed. -/
  | wrongDocument
  /-- Attributes, styles and listeners belong to elements. -/
  | notAnElement (operation : String)
deriving DecidableEq, Repr

/-- The name of the kind of fault. -/
def PageError.kind : PageError → String
  | notAContainer _ => "NotAContainer"
  | notAChild => "NotAChild"
  | hierarchyRequest => "HierarchyRequest"
  | wrongDocument => "WrongDocument"
  | notAnElement _ => "NotAnElement"

/-- The wording of a fault. -/
def PageError.message : PageError → String
  | notAContainer type => type.name ++ " nodes cannot have children"
  | notAChild => "the node is not a child of this node"
  | hierarchyRequest => "a node cannot be inserted into its own subtree"
  | wrongDocument => "the node belongs to a different document"
  | notAnElement operation => operation ++ " requires an element node"

end LivePage
