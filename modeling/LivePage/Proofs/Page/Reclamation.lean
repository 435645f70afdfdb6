import LivePage.Proofs.Page.Mirror
import LivePage.Proofs.World.Sound
import Mathlib.Data.Set.Card

/-!
# Reclamation is exact and goes unnoticed

A sweep frees the slots of the trees in which no node is held, and nothing else of the page changes
(`Page.Rooted.reclaims_sweep`). Programs cannot tell: they name nodes by their handles, and a program
that runs without a failure also runs on a page that gives every node a slot of its own for ever,
with handles of the same nodes, in the same trees, all along (`Runs.mirrors`).
-/

namespace LivePage

namespace Page

variable {p : Page} {held held' : List Nat} {i : Nat}

/-! ## What a sweep does -/

/-- The nodes that share their trees with held ones. -/
def retained (p : Page) (held : List Nat) : Set Nat := {i | p.Occupied i ∧ p.Retained held i}

/-- The slots that become free are those of the trees in which no node is held, and all the others
stay as they are. -/
structure Reclaims (p : Page) (held : List Nat) (p' : Page) : Prop where
  size : p'.slots.size = p.slots.size
  freed (i : Nat) : i ∈ p'.free ∧ i ∉ p.free ↔ p.Occupied i ∧ ¬ p.Retained held i
  free {i : Nat} : i ∈ p.free → i ∈ p'.free
  kept {i : Nat} : ¬ (p.Occupied i ∧ ¬ p.Retained held i) → p'.slot i = p.slot i
  live : p'.live = (p.retained held).ncard

theorem Rooted.mem_unreachable_iff (hr : p.Rooted) :
    i ∈ p.unreachable held ↔ p.Occupied i ∧ ¬ p.Retained held i := by
  refine ⟨fun hi => ⟨(mem_unreachable.1 hi).1, fun h => hr.not_mem_unreachable h hi⟩, ?_⟩
  rintro ⟨hi, hn⟩
  refine mem_unreachable.2 ⟨hi, fun h ho hh he => hn ⟨h, p.root i, hh, ho, ?_, p.rootWithin_up _ i⟩⟩
  exact he ▸ p.rootWithin_up _ h

/-- The live nodes are those in occupied slots. -/
theorem Rooted.live_eq_ncard (hr : p.Rooted) : p.live = {i | p.Occupied i}.ncard := by
  have hset : {i | p.Occupied i} = ↑(Finset.range p.slots.size \ p.free.toFinset) := by
    ext i
    simp [Occupied]
  have hsub : p.free.toFinset ⊆ Finset.range p.slots.size := fun i hi =>
    Finset.mem_range.2 (hr.freeLt (List.mem_toFinset.1 hi))
  rw [hset, Set.ncard_coe_finset, Finset.card_sdiff_of_subset hsub, Finset.card_range,
    List.toFinset_card_of_nodup hr.freeNodup, live]

theorem Rooted.reclaims_sweep (hr : p.Rooted) (held : List Nat) : p.Reclaims held (p.sweep held) where
  size := size_sweep p held
  freed i := by
    rw [mem_free_sweep, hr.mem_unreachable_iff]
    constructor
    · rintro ⟨h | h, hn⟩
      · exact h
      · exact absurd h hn
    · exact fun h => ⟨.inl h, h.1.2⟩
  free h := mem_free_sweep.2 (.inr h)
  kept h := by rw [slot_sweep, if_neg fun hi => h (hr.mem_unreachable_iff.1 hi)]
  live := by
    rw [(hr.sweep held).live_eq_ncard]
    congr 1
    ext i
    simp only [Set.mem_ofPred_eq, occupied_sweep, hr.mem_unreachable_iff, retained]
    tauto

/-- The sweep before a creation frees the same; only the next threshold is set besides. -/
theorem Rooted.reclaims_reclaim (hr : p.Rooted) (held : List Nat) :
    p.Reclaims held (p.reclaim held) :=
  let h := hr.reclaims_sweep held
  ⟨h.size, h.freed, h.free, h.kept, h.live⟩

/-- It does not matter in which order and how often the held nodes are listed. -/
theorem sweep_congr (h : ∀ n, n ∈ held ↔ n ∈ held') : p.sweep held = p.sweep held' := by
  have hcontains : held.contains = held'.contains := by
    funext n
    rw [Bool.eq_iff_iff, List.contains_iff_mem, List.contains_iff_mem, h]
  simp only [sweep, unreachable, hcontains]

theorem created_congr (h : ∀ n, n ∈ held ↔ n ∈ held') (content : Content) :
    p.created held content = p.created held' content := by
  simp only [created, reclaim, sweep_congr h]

end Page

/-! ## Programs -/

/-- The operation with its nodes under other numbers. -/
def Operation.rename (f : Nat → Nat) : Operation → Operation
  | create content => create content
  | clone node => clone (f node)
  | drop node => drop (f node)
  | visit node direction => visit (f node) direction
  | insertBefore parent child reference => insertBefore (f parent) (f child) (reference.map f)
  | removeChild parent child => removeChild (f parent) (f child)
  | replaceChildren parent content => replaceChildren (f parent) (f content)
  | remove node => remove (f node)
  | setAttribute node name value => setAttribute (f node) name value
  | removeAttribute node name => removeAttribute (f node) name
  | setStyle node property value => setStyle (f node) property value
  | removeStyle node property => removeStyle (f node) property
  | listen node type handler => listen (f node) type handler
  | unlisten node type handler => unlisten (f node) type handler
  | countNodes => countNodes

namespace Operation

variable {f g : Nat → Nat} {o : Operation}

theorem nodes_rename (f : Nat → Nat) (o : Operation) : (o.rename f).nodes = o.nodes.map f := by
  cases o with
  | insertBefore parent child reference => cases reference <;> rfl
  | _ => rfl

theorem rename_rename (f g : Nat → Nat) (o : Operation) :
    (o.rename f).rename g = o.rename (g ∘ f) := by
  cases o <;> simp [rename]

theorem rename_congr (h : ∀ n ∈ o.nodes, f n = g n) : o.rename f = o.rename g := by
  cases o with
  | insertBefore parent child reference => cases reference <;> simp_all [nodes, rename]
  | _ => simp_all [nodes, rename]

theorem rename_eq_self (h : ∀ n ∈ o.nodes, f n = n) : o.rename f = o := by
  cases o with
  | insertBefore parent child reference => cases reference <;> simp_all [nodes, rename]
  | _ => simp_all [nodes, rename]

end Operation

namespace Document

/-- The node of the handle at a place. -/
def handle (d : Document) (k : Nat) : Nat := d.handles.getD k 0

/-- What an operation makes of a document whose page never frees a slot: a creation takes a new slot
every time, and a count finds nothing to sweep. -/
def performKeeping (d : Document) : Operation → Except PageError Document
  | .create content =>
    let (node, page) := d.page.extend content
    .ok { page, handles := node :: d.handles }
  | .countNodes => .ok d
  | o => d.perform o

/-- The document is what a program makes of an empty one when none of its operations fails. In the
operations of a program the handles stand, by their places, for the nodes. -/
inductive Runs (perform : Document → Operation → Except PageError Document) :
    List Operation → Document → Prop where
  | nil : Runs perform [] {}
  | snoc {program : List Operation} {o : Operation} {d d' : Document} :
      Runs perform program d → (∀ k ∈ o.nodes, k < d.handles.length) →
      perform d (o.rename d.handle) = .ok d' → Runs perform (program ++ [o]) d'

variable {d d' e full : Document} {o : Operation} {program : List Operation} {f : Nat → Nat}

theorem handle_mem {k : Nat} (hk : k < d.handles.length) : d.handle k ∈ d.handles := by
  simp [handle, hk]

theorem mem_nodes_rename_handle (hn : ∀ k ∈ o.nodes, k < d.handles.length) :
    ∀ n ∈ (o.rename d.handle).nodes, n ∈ d.handles := by
  intro n h
  rw [Operation.nodes_rename, List.mem_map] at h
  obtain ⟨k, hk, rfl⟩ := h
  exact handle_mem (hn k hk)

theorem Runs.reached (h : Runs perform program d) : d.Reached := by
  induction h with
  | nil => exact .empty
  | snoc _ hn hp ih => exact ih.step (mem_nodes_rename_handle hn) hp

/-- The documents that operations can lead to are those that programs lead to. -/
theorem reached_iff : d.Reached ↔ ∃ program, Runs perform program d := by
  refine ⟨fun h => ?_, fun ⟨_, h⟩ => h.reached⟩
  induction h with
  | empty => exact ⟨[], .nil⟩
  | @step d d' o _ hn hp ih =>
    obtain ⟨program, h⟩ := ih
    refine ⟨program ++ [o.rename fun n => d.handles.idxOf n], h.snoc ?_ ?_⟩
    · intro k hk
      rw [Operation.nodes_rename, List.mem_map] at hk
      obtain ⟨n, hk, rfl⟩ := hk
      exact List.idxOf_lt_length_of_mem (hn n hk)
    · rw [Operation.rename_rename, Operation.rename_eq_self fun n h => ?_]
      · exact hp
      · simp [handle, List.getD_eq_getElem?_getD, List.getElem?_idxOf (hn n h)]

/-! ## Mirrored documents -/

/-- The pages mirror one another, and the handles are of the same nodes. -/
structure Mirrors (f : Nat → Nat) (d full : Document) : Prop where
  page : d.page.Mirrored f full.page
  handles : full.handles = d.handles.map f
  occupied {n : Nat} : n ∈ d.handles → d.page.Occupied n

namespace Mirrors

theorem empty : Mirrors id {} {} where
  page :=
    { forest := sound_empty.forest
      full := sound_empty.forest
      noneFree := rfl
      there := fun h => h
      inj := fun _ _ h => h
      slot := fun h => absurd h.1 (Nat.not_lt_zero _) }
  handles := rfl
  occupied h := by cases h

variable (hm : Mirrors f d full)
include hm

theorem sound : d.Sound := ⟨hm.page.forest, hm.occupied⟩

theorem handle {k : Nat} (hk : k < d.handles.length) : full.handle k = f (d.handle k) := by
  simp [Document.handle, hm.handles, hk]

/-- Both documents get more handles, of the same nodes. -/
theorem withHandles {l : List Nat} (hl : ∀ n ∈ l, d.page.Occupied n) :
    Mirrors f { d with handles := l ++ d.handles } { full with handles := l.map f ++ full.handles } := by
  refine ⟨hm.page, by simp [hm.handles], fun {n} hn => ?_⟩
  exact (List.mem_append.1 hn).elim (hl n) hm.occupied

theorem map_erase {n : Nat} (hn : n ∈ d.handles) :
    (d.handles.map f).erase (f n) = (d.handles.erase n).map f := by
  have key : ∀ l : List Nat, (∀ x ∈ l, x ∈ d.handles) →
      (l.map f).erase (f n) = (l.erase n).map f := by
    intro l hl
    induction l with
    | nil => rfl
    | cons x l ih =>
      have hx := hl x List.mem_cons_self
      have ih := ih fun y hy => hl y (List.mem_cons_of_mem _ hy)
      by_cases hxn : x = n
      · simp [hxn]
      · have hne : f x ≠ f n := fun he => hxn (hm.page.inj (hm.occupied hx) (hm.occupied hn) he)
        simp [hxn, hne, ih]
  exact key _ fun _ h => h

omit hm in
/-- An edit that also succeeds on the other page. -/
theorem edit {result result' : Page.Outcome}
    (hr : ∀ page, result = (.ok (), page) → ∃ page', result' = (.ok (), page') ∧ page.Mirrored f page')
    (h : d.edit result = .ok d') :
    ∃ e, full.edit result' = .ok e ∧ d'.page.Mirrored f e.page ∧ d'.handles = d.handles ∧
      e.handles = full.handles := by
  obtain ⟨_ | _, page⟩ := result
  · cases h
  · cases h
    obtain ⟨page', rfl, hp⟩ := hr page rfl
    exact ⟨_, rfl, hp, rfl, rfl⟩

omit hm in
theorem editElement {result result' : Except PageError Page}
    (hr : ∀ page, result = .ok page → ∃ page', result' = .ok page' ∧ page.Mirrored f page')
    (h : result.map (fun page => { d with page }) = .ok d') :
    ∃ e, result'.map (fun page => { full with page }) = .ok e ∧ d'.page.Mirrored f e.page ∧
      d'.handles = d.handles ∧ e.handles = full.handles := by
  cases result with
  | error _ => cases h
  | ok page =>
    cases h
    obtain ⟨page', rfl, hp⟩ := hr page rfl
    exact ⟨_, rfl, hp, rfl, rfl⟩

/-- What one operation does, it does on the page that frees nothing as well. -/
theorem perform (hn : ∀ n ∈ o.nodes, n ∈ d.handles) (h : d.perform o = .ok d') :
    ∃ f' full', full.performKeeping (o.rename f) = .ok full' ∧ Mirrors f' d' full' := by
  have hs : d'.Sound := hm.sound.perform hn h
  have ho : ∀ n ∈ o.nodes, d.page.Occupied n := fun n h => hm.occupied (hn n h)
  -- All operations but a creation leave the numbers as they are and are the same on both pages.
  have hsame : ∀ {result : Except PageError Document},
      (∃ e, result = .ok e ∧ d'.page.Mirrored f e.page ∧ d'.handles = d.handles ∧
        e.handles = full.handles) →
      ∃ f' full', result = .ok full' ∧ Mirrors f' d' full' := by
    rintro result ⟨e, he, hp, hd, hf⟩
    exact ⟨f, e, he, hp, by rw [hf, hd, hm.handles], hs.occupied⟩
  cases o with
  | create content =>
    have hd' : { page := (d.page.created d.handles content).2,
                 handles := (d.page.created d.handles content).1 :: d.handles } = d' :=
      Except.ok.inj h
    subst hd'
    refine ⟨_, _, rfl, hm.page.created d.handles content, ?_, hs.occupied⟩
    have hc := Page.created_spec hm.page.forest.rooted d.handles content
    have hkeep : ∀ n ∈ d.handles, n ≠ (d.page.created d.handles content).1 := fun n hn =>
      hc.ne_of_retained (hm.occupied hn) (hm.sound.steady.retained hn)
    show (full.page.extend content).1 :: full.handles = List.map _ (_ :: d.handles)
    rw [List.map_cons, Function.update_self, hm.handles]
    exact congrArg _ (List.map_congr_left fun n hn => (Function.update_of_ne (hkeep n hn) _ _).symm)
  | clone node =>
    cases h
    exact ⟨f, _, rfl, hm.withHandles (l := [node]) ho⟩
  | drop node =>
    cases h
    refine ⟨f, _, rfl, hm.page, ?_, hs.occupied⟩
    rw [hm.handles]
    exact hm.map_erase (hn node List.mem_cons_self)
  | visit node direction =>
    cases h
    refine ⟨f, _, rfl, ?_⟩
    rw [hm.page.neighbours (ho node List.mem_cons_self)]
    exact hm.withHandles fun m hmem => hm.sound.steady.occupied_neighbours hmem
  | insertBefore parent child reference =>
    refine hsame (edit (fun page hp => ?_) h)
    refine hm.page.insertBefore (ho _ (by simp [Operation.nodes]))
      (ho _ (by simp [Operation.nodes])) (fun r hr => ho _ (by simp [Operation.nodes, hr])) hp
  | removeChild parent child =>
    refine hsame (edit (fun page hp => ?_) h)
    exact hm.page.removeChild (ho _ (by simp [Operation.nodes])) hp
  | replaceChildren parent content =>
    refine hsame (edit (fun page hp => ?_) h)
    exact hm.page.replaceChildren (ho _ (by simp [Operation.nodes]))
      (ho _ (by simp [Operation.nodes])) hp
  | remove node =>
    cases h
    exact hsame ⟨_, rfl, hm.page.detach (ho node List.mem_cons_self), rfl, rfl⟩
  | unlisten node type handler =>
    cases h
    exact hsame ⟨_, rfl, hm.page.unlisten (ho node List.mem_cons_self) type handler, rfl, rfl⟩
  | countNodes =>
    cases h
    exact hsame ⟨_, rfl, hm.page.sweep d.handles, rfl, rfl⟩
  | _ =>
    exact hsame (editElement (fun _ => hm.page.updateElement (ho _ List.mem_cons_self)) h)

end Mirrors

/-- Whatever a program does, it does on a page that frees nothing as well. -/
theorem Runs.mirrors (h : Runs perform program d) :
    ∃ f full, Runs performKeeping program full ∧ Mirrors f d full := by
  induction h with
  | nil => exact ⟨id, {}, .nil, .empty⟩
  | @snoc program o d d' _ hn hp ih =>
    obtain ⟨f, full, hr, hm⟩ := ih
    obtain ⟨f', full', hp', hm'⟩ := hm.perform (mem_nodes_rename_handle hn) hp
    refine ⟨f', full', hr.snoc ?_ ?_, hm'⟩
    · simpa [hm.handles] using hn
    · rw [← hp', Operation.rename_rename]
      congr 1
      exact Operation.rename_congr fun k hk => hm.handle (hn k hk)

end Document

/-! ## Sweeps in a running world -/

/-- The page of the world is that of the document, and its held nodes are those with handles. -/
def World.Shows (w : World) (p : PageId) (d : Document) : Prop :=
  w.page p = d.page ∧ ∀ n, n ∈ w.heldSlots p ↔ n ∈ d.handles

/-- Every document can be shown: by a world in which names are all that holds nodes. -/
theorem World.shows_of_names (d : Document) :
    World.Shows { pages := #[d.page], names := { pageNodes := d.handles.map fun n => ("", ⟨⟨0⟩, n⟩) } }
      ⟨0⟩ d := by
  refine ⟨rfl, fun n => ?_⟩
  generalize hw : ({ pages := #[d.page], names := { pageNodes := _ } } : World) = w
  have hheld : w.heldEntities =
      d.handles.map (fun n => .slot ⟨⟨0⟩, n⟩) ++ World.pageHolds d.page := by
    simp [← hw, World.heldEntities, World.roots, World.namesHold, World.livingOwners, World.owners,
      World.settle]
  rw [World.heldSlots, hheld, List.mem_filterMap]
  constructor
  · rintro ⟨e, he, hn⟩
    rcases List.mem_append.1 he with he | he
    · obtain ⟨m, hm, rfl⟩ := List.mem_map.1 he
      obtain rfl : m = n := by simpa using hn
      exact hm
    · -- What listens on the page is not a node.
      obtain ⟨s, -, he⟩ := List.mem_flatMap.1 he
      split at he
      · obtain ⟨l, -, rfl⟩ := List.mem_map.1 he
        cases hn
      · cases he
  · exact fun hn => ⟨.slot ⟨⟨0⟩, n⟩, List.mem_append_left _ (List.mem_map.2 ⟨n, hn, rfl⟩), by simp⟩

namespace Document

variable {d : Document} {program : List Operation}

/-- Every sweep of the document is exact: the one that counts the nodes and the one that a creation
starts with when the page is full. -/
structure ReclaimsExactly (d : Document) : Prop where
  sweep : d.page.Reclaims d.handles (d.page.sweep d.handles)
  reclaim : d.page.Reclaims d.handles (d.page.reclaim d.handles)
  count (w : World) (p : PageId) : w.Shows p d → ∃ w',
    (countNodes p).run w = .ok (d.page.retained d.handles).ncard w' ∧
      (p.index < w.pages.size → w'.page p = d.page.sweep d.handles)
  create (w : World) (p : PageId) (content : Content) : w.Shows p d → ∃ w',
    let page := if d.page.isFull then d.page.reclaim d.handles else d.page
    (createNode p content).run w = .ok ⟨p, (page.place content).1⟩ w' ∧
      (p.index < w.pages.size → w'.page p = (page.place content).2)

theorem Sound.reclaimsExactly (hd : d.Sound) : d.ReclaimsExactly where
  sweep := hd.forest.rooted.reclaims_sweep d.handles
  reclaim := hd.forest.rooted.reclaims_reclaim d.handles
  count w p h := by
    obtain ⟨hpage, hheld⟩ := h
    have hsweep : (w.page p).sweep (w.heldSlots p) = d.page.sweep d.handles := by
      rw [hpage, Page.sweep_congr hheld]
    have hrun : (countNodes p).run w = .ok ((w.page p).sweep (w.heldSlots p)).live
        (w.withPage p ((w.page p).sweep (w.heldSlots p))) := rfl
    rw [hsweep, (hd.forest.rooted.reclaims_sweep d.handles).live] at hrun
    exact ⟨_, hrun, fun hp => World.page_withPage_self hp _⟩
  create w p content h := by
    obtain ⟨hpage, hheld⟩ := h
    have hcreated : (w.page p).created (w.heldSlots p) content = d.page.created d.handles content := by
      rw [hpage, Page.created_congr hheld]
    have hrun := run_createNode p content w
    rw [hcreated] at hrun
    exact ⟨_, hrun, fun hp => World.page_withPage_self hp _⟩

/-- Whatever a program has done without a failure, the next sweep is exact, and no sweep so far has
been noticed: where every node has a slot of its own for ever, the same program has got handles of
the same nodes, each with the same content, ancestors and descendants. -/
theorem Runs.reclamation_exact (h : Runs perform program d) :
    d.ReclaimsExactly ∧ ∃ f full, Runs performKeeping program full ∧
      full.handles = d.handles.map f ∧ d.page.Mirrored f full.page ∧
      ∀ n ∈ d.handles,
        (∀ b, full.page.Up (f n) b ↔ ∃ a, d.page.Up n a ∧ f a = b) ∧
          ∀ b, full.page.Up b (f n) ↔ ∃ a, d.page.Up a n ∧ f a = b := by
  refine ⟨h.reached.sound.reclaimsExactly, ?_⟩
  obtain ⟨f, full, hr, hm⟩ := h.mirrors
  exact ⟨f, full, hr, hm.handles, hm.page, fun n hn =>
    ⟨fun b => hm.page.up_iff (hm.occupied hn), fun b => hm.page.down_iff (hm.occupied hn)⟩⟩

/-- A text that is let go of at once is swept by the next count, and the comment made after it gets
its slot. -/
theorem reclamation_exact_of_reused_slot :
    ∃ d, Runs perform
        [.create (.element { tag := "ul" }), .create (.element { tag := "li" }), .insertBefore 1 0 none,
          .create (.text "a"), .drop 0, .countNodes, .create (.comment "b"), .insertBefore 2 0 none] d ∧
      (d.page.slot 0).children = [1, 2] ∧ d.page.slots.size = 3 ∧
      d.ReclaimsExactly ∧ ∃ f full, Runs performKeeping
        [.create (.element { tag := "ul" }), .create (.element { tag := "li" }), .insertBefore 1 0 none,
          .create (.text "a"), .drop 0, .countNodes, .create (.comment "b"), .insertBefore 2 0 none] full ∧
        full.handles = d.handles.map f ∧ d.page.Mirrored f full.page := by
  have h₀ : Runs perform [] {} := .nil
  have h₁ := h₀.snoc (o := .create (.element { tag := "ul" })) (by decide) rfl
  have h₂ := h₁.snoc (o := .create (.element { tag := "li" })) (by decide) rfl
  have h₃ := h₂.snoc (o := .insertBefore 1 0 none) (by decide) rfl
  have h₄ := h₃.snoc (o := .create (.text "a")) (by decide) rfl
  have h₅ := h₄.snoc (o := .drop 0) (by decide) rfl
  have h₆ := h₅.snoc (o := .countNodes) (by decide) rfl
  have h₇ := h₆.snoc (o := .create (.comment "b")) (by decide) rfl
  have h₈ := h₇.snoc (o := .insertBefore 2 0 none) (by decide) rfl
  obtain ⟨hexact, f, full, hr, hh, hp, -⟩ := Runs.reclamation_exact h₈
  exact ⟨_, h₈, rfl, rfl, hexact, f, full, hr, hh, hp⟩

end Document

end LivePage
