import LivePage.Proofs.Page.Between

/-!
# Pairs that are nested

The comments of the regions among the children of a node are pairs that stand like brackets: between
the two of a pair stand both or none of every other one (`Nested`). So it stays when nodes that hold
both or none of every pair are taken out (`Nested.filter`), and when others are put in at once
(`Nested.insert`), as replacing the contents of a region does.
-/

namespace LivePage

variable {R R' : Nat → Nat → Prop} {l m s X Y : List Nat} {a b i : Nat}

/-- The list has both of every pair or none. -/
def Closed (R : Nat → Nat → Prop) (l : List Nat) : Prop := ∀ a b, R a b → (a ∈ l ↔ b ∈ l)

/-- The pairs stand in the list like brackets. -/
structure Nested (R : Nat → Nat → Prop) (l : List Nat) : Prop where
  closed : Closed R l
  spans {a b : Nat} : R a b → a ∈ l → ∃ A B C, l = A ++ a :: (B ++ b :: C) ∧ Closed R B

theorem Closed.widen (h : Closed R l) (hR : ∀ a b, R' a b → R a b ∨ a ∉ l ∧ b ∉ l) :
    Closed R' l := by
  intro a b hab
  rcases hR a b hab with hab | ⟨ha, hb⟩
  · exact h a b hab
  · exact iff_of_false ha hb

namespace Nested

theorem nil : Nested R [] := ⟨fun _ _ _ => by simp, fun _ ha => by cases ha⟩

/-- A list with none of the pairs. -/
theorem of_not_mem (h : ∀ a b, R a b → a ∉ l ∧ b ∉ l) : Nested R l :=
  ⟨fun a b hab => iff_of_false (h a b hab).1 (h a b hab).2,
    fun {a b} hab ha => absurd ha (h a b hab).1⟩

/-- Other pairs, as far as they are in the list. -/
theorem widen (h : Nested R l) (hR : ∀ a b, R' a b → R a b ∨ a ∉ l ∧ b ∉ l) : Nested R' l where
  closed := h.closed.widen hR
  spans {a b} hab ha := by
    obtain ⟨A, B, C, rfl, hB⟩ := h.spans ((hR a b hab).resolve_right fun h => h.1 ha) ha
    refine ⟨A, B, C, rfl, hB.widen fun x y hxy => (hR x y hxy).imp_right fun ⟨hx, hy⟩ => ?_⟩
    exact ⟨fun h => hx (by simp [h]), fun h => hy (by simp [h])⟩

/-- Taking nodes out. -/
theorem filter (h : Nested R l) (hs : Closed R s) : Nested R (l.filter (· ∉ s)) where
  closed a b hab := by
    simp only [List.mem_filter, decide_eq_true_eq]
    exact and_congr (h.closed a b hab) (not_congr (hs a b hab))
  spans {a b} hab ha := by
    simp only [List.mem_filter, decide_eq_true_eq] at ha
    have hb : b ∉ s := fun hb => ha.2 ((hs a b hab).2 hb)
    obtain ⟨A, B, C, rfl, hB⟩ := h.spans hab ha.1
    refine ⟨A.filter (· ∉ s), B.filter (· ∉ s), C.filter (· ∉ s), ?_, fun x y hxy => ?_⟩
    · simp [List.filter_append, ha.2, hb]
    · simp only [List.mem_filter, decide_eq_true_eq]
      exact and_congr (hB x y hxy) (not_congr (hs x y hxy))

/-- Putting nodes in. -/
theorem insert (h : Nested R (X ++ Y)) (hm : Nested R m) : Nested R (X ++ m ++ Y) where
  closed a b hab := by
    have hold := h.closed a b hab
    have hnew := hm.closed a b hab
    simp only [List.mem_append] at hold hnew ⊢
    grind
  spans {a b} hab ha := by
    by_cases ham : a ∈ m
    · obtain ⟨A, B, C, rfl, hB⟩ := hm.spans hab ham
      exact ⟨X ++ A, B, C ++ Y, by simp, hB⟩
    have hmem : a ∈ X ++ Y := by
      simp only [List.mem_append] at ha ⊢
      grind
    obtain ⟨A, B, C, hl, hB⟩ := h.spans hab hmem
    -- the new nodes come before the pair, between its two or behind it
    rcases List.append_eq_append_iff.1 hl with ⟨t, rfl, rfl⟩ | ⟨t, rfl, ht⟩
    · exact ⟨X ++ m ++ t, B, C, by simp, hB⟩
    cases t with
    | nil =>
      obtain rfl : a :: (B ++ b :: C) = Y := ht
      exact ⟨A ++ m, B, C, by simp, hB⟩
    | cons x t =>
      obtain ⟨rfl, hrest⟩ := List.cons.inj ht
      have hinner : ∀ {D}, Closed R (t ++ D) → Closed R (t ++ m ++ D) := fun {D} hD x y hxy => by
        have hold := hD x y hxy
        have hnew := hm.closed x y hxy
        simp only [List.mem_append] at hold hnew ⊢
        grind
      rcases List.append_eq_append_iff.1 hrest with ⟨u, rfl, hu⟩ | ⟨u, rfl, rfl⟩
      · cases u with
        | nil =>
          obtain rfl : b :: C = Y := hu
          rw [List.append_nil] at hinner
          have hBm := hinner (D := []) (by simpa using hB)
          exact ⟨A, B ++ m, C, by simp, by simpa using hBm⟩
        | cons y u =>
          obtain ⟨rfl, rfl⟩ := List.cons.inj hu
          exact ⟨A, B, u ++ m ++ Y, by simp, hB⟩
      · exact ⟨A, t ++ m ++ u, C, by simp, hinner hB⟩

theorem append (h : Nested R l) (hm : Nested R m) : Nested R (l ++ m) := by
  have := Nested.insert (X := l) (Y := []) (by simpa using h) hm
  simpa using this

/-- A pair around a list. -/
theorem bracket (h : Nested R l) (ha : a ∉ l) (hb : b ∉ l)
    (hfirst : ∀ x y, R x y → (x = a ↔ y = b) ∧ y ≠ a ∧ x ≠ b) :
    Nested R (a :: (l ++ [b])) where
  closed x y hxy := by
    obtain ⟨hab, hya, hxb⟩ := hfirst x y hxy
    have hl := h.closed x y hxy
    simp only [List.mem_cons, List.mem_append, List.not_mem_nil, or_false]
    grind
  spans {x y} hxy hx := by
    obtain ⟨hab, hya, hxb⟩ := hfirst x y hxy
    by_cases hxa : x = a
    · subst hxa
      obtain rfl := hab.1 rfl
      exact ⟨[], l, [], rfl, h.closed⟩
    · have hxl : x ∈ l := by simpa [hxa, hxb] using hx
      obtain ⟨A, B, C, rfl, hB⟩ := h.spans hxy hxl
      exact ⟨a :: A, B, C ++ [b], by simp, hB⟩

end Nested

end LivePage
