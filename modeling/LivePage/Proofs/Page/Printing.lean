import LivePage.Page.Print
import LivePage.Proofs.Page.Document

/-!
# What the markup of a tree depends on

On a forest the depth to which a tree is printed does not show: the markup of a node is made from that
of its children (`Forest.outerHtml_eq`), and depends on the nodes of its tree only
(`Forest.outerHtml_congr`).
-/

namespace LivePage.Page

open LivePage.Text

variable {p p' : Page} {i : Nat}

/-- The markup of a node, given that of its children. -/
def printed (slot : Slot) (inner : String) : String :=
  match slot.content with
  | .text data => escape data
  | .comment data => "<!--" ++ data ++ "-->"
  | .fragment => inner
  | .element e =>
    let opening := "<" ++ e.tag ++ writtenAttributes e
    if isVoidTag e.tag && slot.children.isEmpty then opening ++ " />"
    else opening ++ ">" ++ inner ++ "</" ++ e.tag ++ ">"

theorem outerWithin_succ (p : Page) (k i : Nat) :
    p.outerWithin (k + 1) i =
      printed (p.slot i) (String.join ((p.slot i).children.map (p.outerWithin k))) := rfl

/-- The markup of a node is made from that of its children. -/
theorem Forest.outerHtml_eq (hf : p.Forest) (i : Nat) :
    p.outerHtml i = printed (p.slot i) (p.innerHtml i) := by
  have hchildren : (p.slot i).children.map (p.outerWithin (p.slots.size + 1)) =
      (p.slot i).children.map p.outerHtml := rfl
  rw [← hf.outerWithin_eq 1, outerWithin_succ, hchildren, innerHtml]

/-- Trees whose nodes are the same are printed alike, to any depth. -/
theorem Forest.outerWithin_congr (hf : p.Forest)
    (h : ∀ j, p.Up j i → (p'.slot j).content = (p.slot j).content ∧
      (p'.slot j).children = (p.slot j).children) (k : Nat) :
    p'.outerWithin k i = p.outerWithin k i := by
  induction k generalizing i with
  | zero => rfl
  | succ k ih =>
    obtain ⟨hcontent, hchildren⟩ := h i (.refl p i)
    have hinner : (p.slot i).children.map (p'.outerWithin k) =
        (p.slot i).children.map (p.outerWithin k) :=
      List.map_congr_left fun j hj => ih fun m hm => h m (hm.trans (.parent (hf.down hj)))
    rw [outerWithin_succ, outerWithin_succ, hchildren, hinner]
    simp only [printed, hcontent, hchildren]

/-- Trees whose nodes are the same are printed alike. -/
theorem Forest.outerHtml_congr (hf : p.Forest) (hf' : p'.Forest)
    (h : ∀ j, p.Up j i → (p'.slot j).content = (p.slot j).content ∧
      (p'.slot j).children = (p.slot j).children) : p'.outerHtml i = p.outerHtml i := by
  have hdepth : p'.slots.size + 1 + p.slots.size = p.slots.size + 1 + p'.slots.size := by omega
  calc p'.outerHtml i
      = p'.outerWithin (p'.slots.size + 1 + p.slots.size) i := (hf'.outerWithin_eq _ i).symm
    _ = p.outerWithin (p'.slots.size + 1 + p.slots.size) i := hf.outerWithin_congr h _
    _ = p.outerWithin (p.slots.size + 1 + p'.slots.size) i := by rw [hdepth]
    _ = p.outerHtml i := hf.outerWithin_eq _ i

end LivePage.Page
