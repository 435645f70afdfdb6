import LivePage.World.Pages

/-!
# Regions

A region is a span of siblings between two comments. It moves with them, so its contents can be
replaced without touching anything else wherever they are. A region whose opening comment has no
parent has left the page, and replacing its contents does nothing.
-/

namespace LivePage

/-- The data of the two comments around a region. -/
def anchorTexts : Option String → String × String
  | some label => (label, "/" ++ label)
  | none => ("", "")

/-- Makes a region at the end of a node's children. -/
def openRegion (parent : PageNode) (label : Option String) : Run (Except PageError RegionId) := do
  let (startText, finishText) := anchorTexts label
  let start ← createNode parent.page (.comment startText)
  holding [.slot parent, .slot start] do
    let finish ← createNode parent.page (.comment finishText)
    match ← parent.append start with
    | .error e => return .error e
    | .ok () =>
      match ← parent.append finish with
      | .error e => return .error e
      | .ok () => do
        let w ← get
        set { w with regions := w.regions.push ⟨start, finish, parent⟩ }
        return .ok ⟨w.regions.size⟩

/-- A region of the world. -/
def World.region (w : World) (r : RegionId) : Region := w.regions.getD r.index default

/-- The nodes between the comments of a region. -/
def World.contents (w : World) (r : RegionId) : List PageNode :=
  let region := w.region r
  ((w.page region.start.page).between region.start.slot region.finish.slot).map
    fun slot => ⟨region.start.page, slot⟩

/-- Replaces what is between the comments of a region by `content`. -/
def RegionId.splice (r : RegionId) (content : PageNode) : Run Edited := do
  let w ← get
  let region := w.region r
  match region.start.parent? w with
  | none => return .ok ()
  | some parent => do
    let stale := (w.contents r).map (·.slot)
    set { w with regions := w.regions.modify r.index fun region => { region with parent } }
    match ← onPage parent.page fun p => p.removeChildren parent.slot stale with
    | .error e => return .error e
    | .ok () => parent.insertBefore content (some region.finish)

end LivePage
