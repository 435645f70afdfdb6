import LivePage.Page.Tree
import Mathlib.Data.Finset.Card

/-!
# Pages are forests

Parent links and child lists of a page are stored separately. `Forest` says that they agree, that
every chain of parents ends, and that only containers have children. An edit that fails half-way can
leave a node with a parent that does not list it; `Rooted` is what is left of a forest then. It is
enough for the bounded searches of the page to reach as far as they have to:
`Rooted.isInclusiveAncestor_iff` and `Rooted.root_eq_of_up`.
-/

namespace LivePage.Page

variable {p : Page} {i j q a b r k l : Nat}

/-- The slot holds a node. -/
def Occupied (p : Page) (i : Nat) : Prop := i < p.slots.size ∧ i ∉ p.free

/-! ## Chains of parents -/

/-- From `i` one comes to `a` by following `k` parent links. -/
inductive UpBy (p : Page) : Nat → Nat → Nat → Prop where
  | refl (i : Nat) : UpBy p 0 i i
  | step {i q a k : Nat} : (p.slot i).parent = some q → UpBy p k q a → UpBy p (k + 1) i a

/-- `a` is the node `i` or an ancestor of it. -/
def Up (p : Page) (i a : Nat) : Prop := ∃ k, p.UpBy k i a

/-- The chain of parents of a node ends. -/
inductive Grounded (p : Page) : Nat → Prop where
  | root {i : Nat} : (p.slot i).parent = none → Grounded p i
  | step {i q : Nat} : (p.slot i).parent = some q → Grounded p q → Grounded p i

theorem UpBy.trans (h : p.UpBy k i a) (h' : p.UpBy l a b) : p.UpBy (k + l) i b := by
  induction h with
  | refl => simpa using h'
  | step hp _ ih =>
    have := UpBy.step hp (ih h')
    rwa [Nat.add_right_comm] at this

theorem Up.refl (p : Page) (i : Nat) : p.Up i i := ⟨0, .refl i⟩

theorem Up.step (hp : (p.slot i).parent = some q) (h : p.Up q a) : p.Up i a := by
  obtain ⟨k, h⟩ := h
  exact ⟨k + 1, .step hp h⟩

theorem Up.parent (hp : (p.slot i).parent = some q) : p.Up i q := .step hp (.refl p q)

theorem Up.trans (h : p.Up i a) (h' : p.Up a b) : p.Up i b := by
  obtain ⟨k, h⟩ := h
  obtain ⟨l, h'⟩ := h'
  exact ⟨k + l, h.trans h'⟩

/-- A chain of parents is a line: of two nodes on it, the farther one is above the nearer. -/
theorem UpBy.linear (h : p.UpBy k i a) (h' : p.UpBy l i b) (hkl : k ≤ l) : p.UpBy (l - k) a b := by
  induction h generalizing l with
  | refl => simpa using h'
  | step hp _ ih =>
    cases h' with
    | refl => omega
    | step hp' h' =>
      rw [hp] at hp'
      cases hp'
      have := ih h' (by omega)
      rwa [Nat.add_sub_add_right]

/-- What is above a node without a parent is that node. -/
theorem Up.eq_of_root (h : p.Up i a) (hi : (p.slot i).parent = none) : a = i := by
  obtain ⟨k, h⟩ := h
  cases h with
  | refl => rfl
  | step hp _ => rw [hi] at hp; cases hp

theorem Up.linear (h : p.Up i a) (h' : p.Up i b) : p.Up a b ∨ p.Up b a := by
  obtain ⟨k, h⟩ := h
  obtain ⟨l, h'⟩ := h'
  rcases Nat.le_total k l with hkl | hkl
  · exact .inl ⟨_, h.linear h' hkl⟩
  · exact .inr ⟨_, h'.linear h hkl⟩

theorem Up.eq_or_parent (h : p.Up i a) : a = i ∨ ∃ q, (p.slot i).parent = some q ∧ p.Up q a := by
  obtain ⟨k, h⟩ := h
  cases h with
  | refl => exact .inl rfl
  | step hp h => exact .inr ⟨_, hp, _, h⟩

/-- A chain that ends does not come back. -/
theorem Grounded.not_upBy_self (h : p.Grounded i) : ¬ p.UpBy (k + 1) i i := by
  induction h with
  | root hp => intro hc; cases hc with | step hp' _ => rw [hp] at hp'; cases hp'
  | step hp _ ih =>
    intro hc
    cases hc with
    | step hp' hc =>
      rw [hp] at hp'
      cases hp'
      exact ih (hc.trans (.step hp (.refl _)))

theorem UpBy.split (h : p.UpBy k i a) (hj : j ≤ k) : ∃ x, p.UpBy j i x ∧ p.UpBy (k - j) x a := by
  induction h generalizing j with
  | refl i => exact ⟨i, by simpa [Nat.le_zero.1 hj] using .refl i, by simpa using .refl i⟩
  | @step i q a k hp h ih =>
    cases j with
    | zero => exact ⟨i, .refl i, .step hp h⟩
    | succ j =>
      obtain ⟨x, hx, hxa⟩ := ih (Nat.le_of_succ_le_succ hj)
      exact ⟨x, .step hp hx, by simpa using hxa⟩

/-! ## Forests -/

/-- What is left of a forest when edits fail half-way. Chains of parents end and run through nodes
that are there, a node that is listed as a child has the link to that parent, though not every node
with a link need be listed, and the free slots are listed once each. -/
structure Rooted (p : Page) : Prop where
  up {i q : Nat} : (p.slot i).parent = some q → p.Occupied i ∧ p.Occupied q
  down {q i : Nat} : i ∈ (p.slot q).children → (p.slot i).parent = some q
  grounded (i : Nat) : p.Grounded i
  freeNodup : p.free.Nodup
  freeLt {i : Nat} : i ∈ p.free → i < p.slots.size

/-- Parent links and child lists agree, chains of parents end, only containers have children, a
fragment has no parent, and the free slots are vacant slots, each listed once. -/
structure Forest (p : Page) : Prop where
  up {i q : Nat} : (p.slot i).parent = some q →
    p.Occupied i ∧ p.Occupied q ∧ i ∈ (p.slot q).children
  down {q i : Nat} : i ∈ (p.slot q).children → (p.slot i).parent = some q
  nodup (q : Nat) : (p.slot q).children.Nodup
  grounded (i : Nat) : p.Grounded i
  leaf (i : Nat) : (p.slot i).content.type.isContainer = false → (p.slot i).children = []
  loose (i : Nat) : (p.slot i).content.type = .fragment → (p.slot i).parent = none
  freeNodup : p.free.Nodup
  freeLt {i : Nat} : i ∈ p.free → i < p.slots.size
  vacant {i : Nat} : i ∈ p.free → p.slot i = .vacant

namespace Rooted

variable (hr : p.Rooted)
include hr

theorem parent_ne (hp : (p.slot i).parent = some q) : q ≠ i := by
  rintro rfl
  exact (hr.grounded q).not_upBy_self (.step hp (.refl q))

/-- No chain of parents is longer than the arena: its nodes are different slots. -/
theorem upBy_le (h : p.UpBy k i a) : k ≤ p.slots.size := by
  have hx : ∀ j, ∃ x, j < k → p.UpBy j i x ∧ x < p.slots.size := by
    intro j
    by_cases hj : j < k
    · obtain ⟨x, hx, hxa⟩ := h.split (Nat.le_of_lt hj)
      obtain ⟨m, hm⟩ : ∃ m, k - j = m + 1 := ⟨k - j - 1, by omega⟩
      rw [hm] at hxa
      cases hxa with
      | step hp _ => exact ⟨x, fun _ => ⟨hx, (hr.up hp).1.1⟩⟩
    · exact ⟨0, fun h => absurd h hj⟩
  choose f hfx using hx
  have hinj : Set.InjOn f (Finset.range k : Set Nat) := by
    have key : ∀ j l, j < l → l < k → f j ≠ f l := by
      intro j l hjl hl he
      have hj := (hfx j (by omega)).1
      have hl := (hfx l hl).1
      have := hj.linear hl (by omega)
      rw [← he] at this
      obtain ⟨m, hm⟩ : ∃ m, l - j = m + 1 := ⟨l - j - 1, by omega⟩
      rw [hm] at this
      exact (hr.grounded _).not_upBy_self this
    intro j hj l hl he
    simp only [Finset.coe_range, Set.mem_Iio] at hj hl
    rcases Nat.lt_trichotomy j l with h | h | h
    · exact absurd he (key j l h hl)
    · exact h
    · exact absurd he.symm (key l j h hj)
  have hcard := Finset.card_le_card_of_injOn f (s := Finset.range k)
    (t := Finset.range p.slots.size) (fun j hj => by
      simp only [Finset.coe_range, Set.mem_Iio] at hj ⊢
      exact (hfx j hj).2) hinj
  simpa using hcard

end Rooted

theorem Forest.rooted (hf : p.Forest) : p.Rooted where
  up h := ⟨(hf.up h).1, (hf.up h).2.1⟩
  down := hf.down
  grounded := hf.grounded
  freeNodup := hf.freeNodup
  freeLt := hf.freeLt

namespace Forest

variable (hf : p.Forest)
include hf

theorem parent_ne (hp : (p.slot i).parent = some q) : q ≠ i := hf.rooted.parent_ne hp

theorem not_up_of_parent (hp : (p.slot i).parent = some q) : ¬ p.Up q i := by
  rintro ⟨k, h⟩
  exact (hf.grounded i).not_upBy_self (.step hp h)

theorem occupied_of_up (h : p.Occupied i) (hu : p.Up i a) : p.Occupied a := by
  obtain ⟨k, hk⟩ := hu
  induction hk with
  | refl i => exact h
  | step hp _ ih => exact ih (hf.up hp).2.1

end Forest

/-! ## The bounded searches -/

theorem climbs_eq_true : p.climbs a k i = true ↔ ∃ j ≤ k, p.UpBy j i a := by
  induction k generalizing i with
  | zero =>
    simp only [climbs, beq_iff_eq]
    constructor
    · rintro rfl
      exact ⟨0, Nat.le_refl 0, .refl i⟩
    · rintro ⟨j, hj, h⟩
      obtain rfl := Nat.le_zero.1 hj
      cases h
      rfl
  | succ k ih =>
    simp only [climbs, Bool.or_eq_true, beq_iff_eq]
    constructor
    · rintro (rfl | h)
      · exact ⟨0, Nat.zero_le _, .refl i⟩
      · split at h
        · cases h
        · next q hp =>
          obtain ⟨j, hj, h⟩ := ih.1 h
          exact ⟨j + 1, Nat.succ_le_succ hj, .step hp h⟩
    · rintro ⟨j, hj, h⟩
      cases h with
      | refl => exact .inl rfl
      | step hp h =>
        right
        rw [hp]
        exact ih.2 ⟨_, Nat.le_of_succ_le_succ hj, h⟩

theorem Rooted.isInclusiveAncestor_iff (hr : p.Rooted) :
    p.isInclusiveAncestor a i = true ↔ p.Up i a := by
  rw [isInclusiveAncestor, climbs_eq_true]
  constructor
  · rintro ⟨j, -, h⟩
    exact ⟨j, h⟩
  · rintro ⟨j, h⟩
    exact ⟨j, hr.upBy_le h, h⟩

theorem rootWithin_up (p : Page) (k i : Nat) : p.Up i (p.rootWithin k i) := by
  induction k generalizing i with
  | zero => exact .refl p i
  | succ k ih =>
    rw [rootWithin]
    split
    · exact .refl p i
    · next q hp => exact .step hp (ih q)

/-- The search for the root stops early only at a root. -/
theorem rootWithin_stops (p : Page) (k i : Nat) :
    (p.slot (p.rootWithin k i)).parent = none ∨ p.UpBy k i (p.rootWithin k i) := by
  induction k generalizing i with
  | zero => exact .inr (.refl i)
  | succ k ih =>
    rw [rootWithin]
    split
    · next hp => exact .inl hp
    · next q hp => exact (ih q).imp_right (.step hp)

namespace Rooted

variable (hr : p.Rooted)
include hr

theorem parent_root (i : Nat) : (p.slot (p.root i)).parent = none := by
  rcases p.rootWithin_stops p.slots.size i with h | h
  · exact h
  · cases hp : (p.slot (p.root i)).parent with
    | none => rfl
    | some q => exact absurd (hr.upBy_le (h.trans (.step hp (.refl q)))) (by omega)

theorem root_unique (h : p.Up i r) (hroot : (p.slot r).parent = none) : p.root i = r := by
  have hu : p.Up i (p.root i) := p.rootWithin_up _ i
  rcases hu.linear h with h | h
  · exact (h.eq_of_root (hr.parent_root i)).symm
  · exact h.eq_of_root hroot

/-- A node and its ancestors belong to one tree. -/
theorem root_eq_of_up (h : p.Up i a) : p.root i = p.root a :=
  hr.root_unique (h.trans (p.rootWithin_up _ a)) (hr.parent_root a)

end Rooted

/-! ## Parts below a node -/

/-- The parent of each of the nodes is another one of them, or `q`. -/
def Hangs (p : Page) (q : Nat) (nodes : List Nat) : Prop :=
  ∀ i ∈ nodes, ∃ j, (p.slot i).parent = some j ∧ (j = q ∨ j ∈ nodes)

namespace Hangs

variable {nodes : List Nat} (h : p.Hangs q nodes) (hf : p.Forest)
include h hf

theorem up (hi : i ∈ nodes) : p.Up i q := by
  have key : ∀ {i}, p.Grounded i → i ∈ nodes → p.Up i q := by
    intro i hg
    induction hg with
    | root hn =>
      intro hi
      obtain ⟨j, hj, -⟩ := h _ hi
      rw [hn] at hj
      cases hj
    | step hp _ ih =>
      intro hi
      obtain ⟨j, hj, hjq⟩ := h _ hi
      obtain rfl : _ = j := Option.some.inj (hp.symm.trans hj)
      rcases hjq with rfl | hjq
      · exact .parent hp
      · exact .step hp (ih hjq)
  exact key (hf.grounded i) hi

theorem not_mem : q ∉ nodes := by
  intro hq
  obtain ⟨j, hj, rfl | hjq⟩ := h q hq
  · exact hf.parent_ne hj rfl
  · exact hf.not_up_of_parent hj (h.up hf hjq)

end Hangs

end LivePage.Page
