import LivePage.Page.Element
import LivePage.Page.Print
import LivePage.Proofs.Page.Dressing
import LivePage.Proofs.Page.Replacement
import LivePage.Proofs.Page.Sweep
import LivePage.World.Pages

/-!
# Documents as programs use them

A program works with a page through handles of its nodes: it gets them by creating nodes, by copying
them and by looking around from nodes it has a handle of. Whatever it does without a failure, the
page stays a forest, and its handles stay handles of nodes that are there (`Reached.sound`). So the
arena is in order at every time, and the searches that go up or down a tree end by themselves
(`Reached.arena_wellFormed`). What operations leave that may fail is less: links that lead to roots,
and handles of nodes that are there (`Steady.attempt`).
-/

namespace LivePage.Page

variable {p p' : Page} {i j q a k parent child : Nat}

/-! ## Single operations -/

/-- Cutting the links of one node makes no new chains of parents. -/
theorem up_of_up_detach (hf : p.Forest) (h : (p.detach child).Up i a) : p.Up i a := by
  obtain ⟨k, h⟩ := h
  induction h with
  | refl i => exact .refl p i
  | step hp _ ih =>
    rw [parent_detach hf.rooted] at hp
    split at hp
    · cases hp
    · exact .step hp ih

theorem Forest.insertBefore (hf : p.Forest) (hq : p.Occupied parent) {reference : Option Nat}
    (h : p.insertBefore parent child reference = (.ok (), p')) :
    p'.Forest ∧ ∀ i, p'.Occupied i ↔ p.Occupied i := by
  obtain ⟨hcon, hu, -, k, -, rfl⟩ := (insertBefore_iff hf).1 h
  refine ⟨?_, fun i => by rw [occupied_graft, occupied_detach]⟩
  refine (hf.detach child).graft ?_ (occupied_detach.2 hq) ?_ (fun h => hu (up_of_up_detach hf h)) k
  · rw [parent_detach hf.rooted, if_pos rfl]
  · rwa [content_detach]

/-- What nodes are does not change when one is inserted. -/
theorem content_insertBefore (hf : p.Forest) (hq : p.Occupied parent) {reference : Option Nat}
    (h : p.insertBefore parent child reference = (.ok (), p')) (j : Nat) :
    (p'.slot j).content = (p.slot j).content := by
  obtain ⟨-, hu, -, k, -, rfl⟩ := (insertBefore_iff hf).1 h
  have hroot : ((p.detach child).slot child).parent = none := by rw [parent_detach hf.rooted, if_pos rfl]
  have hne : parent ≠ child := fun h => hu (h ▸ .refl p _)
  rw [slot_graft (hf.detach child) hroot (occupied_detach.2 hq) hne]
  exact content_detach p child j

/-- Takes all children of a node out and inserts `content` instead. -/
def replaceChildren (p : Page) (parent content : Nat) : Outcome :=
  match p.removeChildren parent (p.slot parent).children with
  | (.ok (), p) => p.insertBefore parent content none
  | fault => fault

theorem Forest.replaceChildren (hf : p.Forest) (hq : p.Occupied parent)
    (h : p.replaceChildren parent child = (.ok (), p')) : p'.Forest := by
  unfold Page.replaceChildren at h
  split at h
  · next p₁ hp₁ =>
    obtain ⟨-, -, rfl⟩ := (removeChildren_eq hf).1 hp₁
    exact ((hf.detachAll _).insertBefore (occupied_detachAll.2 hq) h).1
  · next hne => exact absurd h (hne p')

theorem sameSlots_removeChildren (p : Page) (parent : Nat) (l : List Nat) :
    SameSlots p (p.removeChildren parent l).2 :=
  removeChildren_induction parent (fun _ _ h => h.trans (sameSlots_removeChild ..)) (.refl p) l

theorem sameSlots_replaceChildren (p : Page) (parent content : Nat) :
    SameSlots p (p.replaceChildren parent content).2 := by
  have h := sameSlots_removeChildren p parent (p.slot parent).children
  unfold Page.replaceChildren
  split
  · next heq =>
    rw [heq] at h
    exact h.trans (sameSlots_insertBefore ..)
  · exact h

theorem Rooted.replaceChildren (hr : p.Rooted) (hq : p.Occupied parent) (hc : p.Occupied child) :
    (p.replaceChildren parent child).2.Rooted := by
  have hs := sameSlots_removeChildren p parent (p.slot parent).children
  have h := removeChildren_induction parent (fun _ child h => h.removeChild parent child) hr
    (p.slot parent).children
  unfold Page.replaceChildren
  split
  · next heq =>
    rw [heq] at hs h
    exact h.insertBefore (hs.occupied.2 hq) (hs.occupied.2 hc) none
  · exact h

/-! ## Searches that end -/

namespace Forest

variable (hf : p.Forest)
include hf

/-- What is computed from the children of a node, and from theirs, needs no more levels than the
arena has slots. -/
theorem descent_eq {α : Type} {f : Nat → Nat → α}
    (hstep : ∀ m n i, (∀ j ∈ (p.slot i).children, f m j = f n j) → f (m + 1) i = f (n + 1) i)
    (k i : Nat) : f (p.slots.size + 1 + k) i = f (p.slots.size + 1) i := by
  -- A node that stands `l` levels below another one has `size - l` levels below itself.
  have key : ∀ n l i r, p.UpBy l i r → n + l = p.slots.size → f (n + 1 + k) i = f (n + 1) i := by
    intro n
    induction n with
    | zero =>
      intro l i r hl hn
      rw [Nat.add_right_comm]
      refine hstep _ _ i fun j hj => ?_
      have := hf.rooted.upBy_le (.step (hf.down hj) hl)
      omega
    | succ n ih =>
      intro l i r hl hn
      rw [Nat.add_right_comm]
      refine hstep _ _ i fun j hj => ?_
      exact ih (l + 1) j r (.step (hf.down hj) hl) (by omega)
  exact key _ 0 i i (.refl i) rfl

theorem outerWithin_eq (k i : Nat) : p.outerWithin (p.slots.size + 1 + k) i = p.outerHtml i := by
  refine hf.descent_eq (f := p.outerWithin) (fun m n i h => ?_) k i
  have hmap : (p.slot i).children.map (p.outerWithin m) = (p.slot i).children.map (p.outerWithin n) :=
    List.map_congr_left h
  simp only [outerWithin, hmap]

theorem textWithin_eq (k i : Nat) : p.textWithin (p.slots.size + 1 + k) i = p.textContent i := by
  refine hf.descent_eq (f := p.textWithin) (fun m n i h => ?_) k i
  have hmap : (p.slot i).children.map (p.textWithin m) = (p.slot i).children.map (p.textWithin n) :=
    List.map_congr_left h
  simp only [textWithin, hmap]

end Forest

end LivePage.Page

namespace LivePage

open Page

theorem run_onPage (p : PageId) (f : Page → Outcome) (w : World) :
    (onPage p f).run w =
      .ok (f (w.page p)).1 { w with pages := w.pages.setIfInBounds p.index (f (w.page p)).2 } := rfl

/-- Replacing children in the world is one edit of the page. -/
theorem PageNode.run_replaceChildren {n content : PageNode} (h : content.page = n.page)
    {w : World} (hp : n.page.index < w.pages.size) :
    (n.replaceChildren content).run w =
      (onPage n.page fun p => p.replaceChildren n.slot content.slot).run w := by
  have hshare : (n.sharesPage (some content) && n.sharesPage none) = true := by
    simp [sharesPage, h]
  have hpage : ∀ page : Page,
      World.page { w with pages := w.pages.setIfInBounds n.page.index page } n.page = page := by
    intro page
    simp [World.page, Array.getD_eq_getD_getElem?, hp]
  rw [replaceChildren, EStateM.run_bind, run_onPage, run_onPage, Page.replaceChildren]
  cases hr : (w.page n.page).removeChildren n.slot ((w.page n.page).slot n.slot).children with
  | mk result page =>
    cases result with
    | error e => rfl
    | ok _ =>
      simp only [append, insertBefore, hshare, if_true, run_onPage, hpage, Option.map_none,
        Array.setIfInBounds_setIfInBounds]

/-! ## Documents -/

/-- A page with the handles that a program has of its nodes: a slot for each of them. -/
structure Document where
  page : Page := {}
  handles : List Nat := []

/-- Where one can go from a node. -/
inductive Direction where
  | parent
  | children
  | firstChild
  | nextSibling

/-- What a program can do with the nodes it has handles of. -/
inductive Operation where
  | create (content : Content)
  | clone (node : Nat)
  | drop (node : Nat)
  | visit (node : Nat) (direction : Direction)
  | insertBefore (parent child : Nat) (reference : Option Nat)
  | removeChild (parent child : Nat)
  | replaceChildren (parent content : Nat)
  | remove (node : Nat)
  | setAttribute (node : Nat) (name value : String)
  | removeAttribute (node : Nat) (name : String)
  | setStyle (node : Nat) (property value : String)
  | removeStyle (node : Nat) (property : String)
  | listen (node : Nat) (type : String) (handler : HandlerId)
  | unlisten (node : Nat) (type : String) (handler : HandlerId)
  | countNodes

/-- The nodes of which an operation needs a handle. -/
def Operation.nodes : Operation → List Nat
  | create _ | countNodes => []
  | clone node | drop node | visit node _ | remove node | setAttribute node _ _
  | removeAttribute node _ | setStyle node _ _ | removeStyle node _ | listen node _ _
  | unlisten node _ _ => [node]
  | insertBefore parent child reference => parent :: child :: reference.toList
  | removeChild parent child => [parent, child]
  | replaceChildren parent content => [parent, content]

/-- The nodes that are found in a direction. -/
def Page.neighbours (p : Page) (node : Nat) : Direction → List Nat
  | .parent => (p.slot node).parent.toList
  | .children => (p.slot node).children
  | .firstChild => (p.slot node).children.head?.toList
  | .nextSibling => (p.nextSibling node).toList

namespace Document

/-- The document with its page edited. -/
def edit (d : Document) : Outcome → Except PageError Document
  | (.ok (), page) => .ok { d with page }
  | (.error e, _) => .error e

/-- What an operation makes of a document, unless it fails. A creation and a count sweep the page;
what they spare are the trees of the nodes that there are handles of. -/
def perform (d : Document) : Operation → Except PageError Document
  | .create content =>
    let (node, page) := d.page.created d.handles content
    .ok { page, handles := node :: d.handles }
  | .clone node => .ok { d with handles := node :: d.handles }
  | .drop node => .ok { d with handles := d.handles.erase node }
  | .visit node direction => .ok { d with handles := d.page.neighbours node direction ++ d.handles }
  | .insertBefore parent child reference => d.edit (d.page.insertBefore parent child reference)
  | .removeChild parent child => d.edit (d.page.removeChild parent child)
  | .replaceChildren parent content => d.edit (d.page.replaceChildren parent content)
  | .remove node => .ok { d with page := d.page.detach node }
  | .setAttribute node name value =>
    (d.page.setAttribute node name value).map fun page => { d with page }
  | .removeAttribute node name =>
    (d.page.removeAttribute node name).map fun page => { d with page }
  | .setStyle node property value =>
    (d.page.setStyle node property value).map fun page => { d with page }
  | .removeStyle node property =>
    (d.page.removeStyle node property).map fun page => { d with page }
  | .listen node type handler => (d.page.listen node type handler).map fun page => { d with page }
  | .unlisten node type handler => .ok { d with page := d.page.unlisten node type handler }
  | .countNodes => .ok { d with page := d.page.sweep d.handles }

/-- The page that an operation leaves when it fails: an edit that moves nodes may have moved some. -/
def residue (d : Document) : Operation → Page
  | .insertBefore parent child reference => (d.page.insertBefore parent child reference).2
  | .removeChild parent child => (d.page.removeChild parent child).2
  | .replaceChildren parent content => (d.page.replaceChildren parent content).2
  | _ => d.page

/-- What an operation leaves of a document, whether it succeeds or fails. -/
def attempt (d : Document) (o : Operation) : Document :=
  match d.perform o with
  | .ok d' => d'
  | .error _ => { d with page := d.residue o }

/-- The document is what some operations, none of which failed, have made of an empty one. -/
inductive Reached : Document → Prop where
  | empty : Reached {}
  | step {d d' : Document} {o : Operation} : Reached d → (∀ n ∈ o.nodes, n ∈ d.handles) →
      d.perform o = .ok d' → Reached d'

/-- The page is a forest, and there are handles only of nodes that are there. -/
structure Sound (d : Document) : Prop where
  forest : d.page.Forest
  occupied {n : Nat} : n ∈ d.handles → d.page.Occupied n

variable {d d' : Document} {o : Operation}

theorem sound_empty : Sound {} where
  forest :=
    { up := fun h => by cases h
      down := fun h => by cases h
      nodup := fun _ => List.nodup_nil
      grounded := fun _ => .root rfl
      leaf := fun _ _ => rfl
      loose := fun _ _ => rfl
      freeNodup := List.nodup_nil
      freeLt := fun h => by cases h
      vacant := fun h => by cases h }
  occupied h := by cases h

/-! ### Operations that may fail -/

/-- Links lead to roots, and there are handles only of nodes that are there. -/
structure Steady (d : Document) : Prop where
  rooted : d.page.Rooted
  occupied {n : Nat} : n ∈ d.handles → d.page.Occupied n

theorem Sound.steady (hd : d.Sound) : d.Steady := ⟨hd.forest.rooted, hd.occupied⟩

theorem attempt_of_ok (h : d.perform o = .ok d') : d.attempt o = d' := by
  rw [attempt, h]

/-- An edit that moves nodes leaves its page behind in any case. -/
theorem attempt_of_edit {result : Outcome} (h : d.perform o = d.edit result)
    (hres : d.residue o = result.2) : d.attempt o = { d with page := result.2 } := by
  obtain ⟨_ | _, page⟩ := result <;> rw [attempt, h] <;> simp [edit, hres]

/-- An edit of an element either succeeds or leaves the document as it is. -/
theorem attempt_of_map {result : Except PageError Page}
    (h : d.perform o = result.map fun page => { d with page }) (hres : d.residue o = d.page) :
    d.attempt o = d ∨ ∃ page, result = .ok page ∧ d.attempt o = { d with page } := by
  rw [attempt, h]
  cases result with
  | error e => exact .inl (by simp [Except.map, hres])
  | ok page => exact .inr ⟨page, rfl, rfl⟩

namespace Steady

variable (hd : d.Steady)
include hd

theorem occupied_neighbours {n : Nat} {direction : Direction} {m : Nat}
    (hm : m ∈ d.page.neighbours n direction) : d.page.Occupied m := by
  have hchild : ∀ {q}, m ∈ (d.page.slot q).children → d.page.Occupied m := fun h =>
    (hd.rooted.up (hd.rooted.down h)).1
  cases direction with
  | parent => exact (hd.rooted.up (Option.mem_toList.1 hm)).2
  | children => exact hchild hm
  | firstChild => exact hchild (List.mem_of_head? (Option.mem_toList.1 hm))
  | nextSibling =>
    have hm := Option.mem_toList.1 hm
    unfold nextSibling at hm
    split at hm
    · cases hm
    · dsimp only at hm
      split at hm
      · cases hm
      · exact hchild (List.mem_of_getElem? hm)

/-- A handle keeps its whole tree. -/
theorem retained {n : Nat} (hn : n ∈ d.handles) : d.page.Retained d.handles n :=
  ⟨n, n, hn, hd.occupied hn, .refl _ _, .refl _ _⟩

theorem withPage {page : Page} (hr : page.Rooted)
    (ho : ∀ i, d.page.Occupied i → page.Occupied i) : ({ d with page } : Document).Steady :=
  ⟨hr, fun hn => ho _ (hd.occupied hn)⟩

/-- What every operation keeps, even when it fails. -/
theorem attempt (hn : ∀ n ∈ o.nodes, n ∈ d.handles) : (d.attempt o).Steady := by
  have hedit : ∀ {page : Page}, page.Rooted → d.page.SameSlots page →
      ({ d with page } : Document).Steady := fun hr hs => hd.withPage hr fun _ => hs.occupied.2
  have helement : ∀ {result : Except PageError Page},
      (d.perform o = result.map fun page => { d with page }) → d.residue o = d.page →
      (∀ page, result = .ok page → d.page.Shaped page) → (d.attempt o).Steady := by
    intro result h hres hs
    obtain h | ⟨page, hp, h⟩ := attempt_of_map h hres
    · rwa [h]
    · rw [h]
      exact hd.withPage ((hs page hp).rooted hd.rooted) fun _ => (hs page hp).occupied.2
  cases o with
  | create content =>
    have hc := created_spec hd.rooted d.handles content
    refine ⟨hd.rooted.created d.handles content, fun {n} hn => ?_⟩
    rcases List.mem_cons.1 hn with rfl | hn
    · exact hc.occupied_self
    · exact (hc.slot_of_retained (hd.occupied hn) (hd.retained hn)).2
  | clone node =>
    refine ⟨hd.rooted, fun {m} hm => ?_⟩
    rcases List.mem_cons.1 hm with rfl | hm
    · exact hd.occupied (hn _ List.mem_cons_self)
    · exact hd.occupied hm
  | drop node => exact ⟨hd.rooted, fun hm => hd.occupied (List.mem_of_mem_erase hm)⟩
  | visit node direction =>
    refine ⟨hd.rooted, fun {m} hm => ?_⟩
    rcases List.mem_append.1 hm with hm | hm
    · exact hd.occupied_neighbours hm
    · exact hd.occupied hm
  | insertBefore parent child reference =>
    rw [attempt_of_edit rfl rfl]
    refine hedit (hd.rooted.insertBefore ?_ ?_ reference) (sameSlots_insertBefore ..)
    · exact hd.occupied (hn _ (by simp [Operation.nodes]))
    · exact hd.occupied (hn _ (by simp [Operation.nodes]))
  | removeChild parent child =>
    rw [attempt_of_edit rfl rfl]
    exact hedit (hd.rooted.removeChild parent child) (sameSlots_removeChild ..)
  | replaceChildren parent content =>
    rw [attempt_of_edit rfl rfl]
    refine hedit (hd.rooted.replaceChildren ?_ ?_) (sameSlots_replaceChildren ..)
    · exact hd.occupied (hn _ (by simp [Operation.nodes]))
    · exact hd.occupied (hn _ (by simp [Operation.nodes]))
  | remove node => exact hedit (hd.rooted.detach node) (sameSlots_detach ..)
  | unlisten node type handler =>
    have hs := shaped_unlisten d.page node type handler
    exact hd.withPage (hs.rooted hd.rooted) fun _ => hs.occupied.2
  | countNodes =>
    refine ⟨hd.rooted.sweep _, fun hm => ?_⟩
    exact occupied_sweep.2 ⟨hd.occupied hm, hd.rooted.not_mem_unreachable (hd.retained hm)⟩
  | _ => exact helement rfl rfl fun _ => shaped_updateElement

end Steady

/-! ### Operations that succeed -/

/-- What every operation keeps, as long as it does not fail. -/
theorem Sound.perform (hd : d.Sound) (hn : ∀ n ∈ o.nodes, n ∈ d.handles)
    (h : d.perform o = .ok d') : d'.Sound := by
  refine ⟨?_, attempt_of_ok h ▸ (hd.steady.attempt hn).occupied⟩
  have hedit : ∀ {result : Outcome}, d.edit result = .ok d' → result = (.ok (), d'.page) := by
    rintro ⟨_ | _, page⟩ h <;> cases h
    rfl
  have helement : ∀ {result : Except PageError Page},
      (∀ page, result = .ok page → d.page.Shaped page) →
      result.map (fun page => { d with page }) = .ok d' → d'.page.Forest := by
    rintro (_ | page) hs h <;> cases h
    exact (hs page rfl).forest hd.forest
  cases o with
  | create content =>
    cases h
    exact hd.forest.created d.handles content
  | insertBefore parent child reference =>
    exact (hd.forest.insertBefore (hd.occupied (hn parent List.mem_cons_self)) (hedit h)).1
  | removeChild parent child =>
    obtain ⟨-, hp⟩ := removeChild_eq.1 (hedit h)
    exact hp ▸ hd.forest.detach child
  | replaceChildren parent content =>
    exact hd.forest.replaceChildren (hd.occupied (hn parent List.mem_cons_self)) (hedit h)
  | remove node =>
    cases h
    exact hd.forest.detach node
  | unlisten node type handler =>
    cases h
    exact (shaped_unlisten ..).forest hd.forest
  | countNodes =>
    cases h
    exact hd.forest.sweep _
  | clone node | drop node | visit node direction =>
    cases h
    exact hd.forest
  | _ => exact helement (fun _ => shaped_updateElement) h

theorem Reached.sound (h : Reached d) : d.Sound := by
  induction h with
  | empty => exact sound_empty
  | step _ hn ho ih => exact ih.perform hn ho

end Document

/-! ## The arena -/

/-- The arena is in order: parent links and child lists say the same, no node is above itself, so
that every search along the links ends, leaves have no children, fragments no parent, and nothing
that is there refers to a free slot. -/
structure Page.WellFormed (p : Page) : Prop where
  linked {c q : Nat} : p.Occupied c → p.Occupied q →
    ((p.slot c).parent = some q ↔ c ∈ (p.slot q).children)
  once {c q : Nat} : c ∈ (p.slot q).children → (p.slot q).children.count c = 1
  acyclic (i k : Nat) : ¬ p.UpBy (k + 1) i i
  root (i : Nat) : p.Up i (p.root i) ∧ (p.slot (p.root i)).parent = none
  ancestor (a i : Nat) : p.isInclusiveAncestor a i = true ↔ p.Up i a
  text (k i : Nat) : p.textWithin (p.slots.size + 1 + k) i = p.textContent i
  outer (k i : Nat) : p.outerWithin (p.slots.size + 1 + k) i = p.outerHtml i
  leaf {i : Nat} : (p.slot i).content.type = .text ∨ (p.slot i).content.type = .comment →
    (p.slot i).children = []
  loose {i : Nat} : (p.slot i).content.type = .fragment → (p.slot i).parent = none
  freeNodup : p.free.Nodup
  unfree {i : Nat} : p.Occupied i →
    (∀ q, (p.slot i).parent = some q → q ∉ p.free) ∧ ∀ j ∈ (p.slot i).children, j ∉ p.free

theorem Page.Forest.wellFormed {p : Page} (hf : p.Forest) : p.WellFormed where
  linked _ _ := ⟨fun h => (hf.up h).2.2, hf.down⟩
  once h := List.count_eq_one_of_mem (hf.nodup _) h
  acyclic i _ := (hf.grounded i).not_upBy_self
  root i := ⟨p.rootWithin_up _ i, hf.rooted.parent_root i⟩
  ancestor _ _ := hf.rooted.isInclusiveAncestor_iff
  text := hf.textWithin_eq
  outer := hf.outerWithin_eq
  leaf {i} h := hf.leaf i (by rcases h with h | h <;> rw [h] <;> rfl)
  loose {i} := hf.loose i
  freeNodup := hf.freeNodup
  unfree {i} _ := ⟨fun _ h => (hf.up h).2.1.2, fun _ h => (hf.up (hf.down h)).1.2⟩

/-- Whatever programs do without a failure, the arena stays in order. -/
theorem Document.Reached.arena_wellFormed {d : Document} (h : d.Reached) : d.page.WellFormed :=
  h.sound.forest.wellFormed

/-- A text is put into a list by way of a fragment; the slot of the fragment is freed and used again
for a comment before the text. -/
theorem Document.arena_wellFormed_of_reused_slot :
    ∃ d : Document, d.Reached ∧ (d.page.slot 0).children = [2, 1] ∧ d.page.WellFormed := by
  have h₁ : Reached _ := .step (o := .create (.element { tag := "ul" })) .empty (by decide) rfl
  have h₂ : Reached _ := .step (o := .create (.text "a")) h₁ (by decide) rfl
  have h₃ : Reached _ := .step (o := .create .fragment) h₂ (by decide) rfl
  have h₄ : Reached _ := .step (o := .insertBefore 2 1 none) h₃ (by decide) rfl
  have h₅ : Reached _ := .step (o := .insertBefore 0 2 none) h₄ (by decide) rfl
  have h₆ : Reached _ := .step (o := .drop 2) h₅ (by decide) rfl
  have h₇ : Reached _ := .step (o := .countNodes) h₆ (by decide) rfl
  have h₈ : Reached _ := .step (o := .create (.comment "b")) h₇ (by decide) rfl
  have h₉ : Reached _ := .step (o := .insertBefore 0 2 (some 1)) h₈ (by decide) rfl
  exact ⟨_, h₉, rfl, h₉.arena_wellFormed⟩

end LivePage
