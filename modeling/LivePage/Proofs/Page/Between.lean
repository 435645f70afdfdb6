import LivePage.Proofs.Page.Replacement
import LivePage.Proofs.Page.Printing

/-!
# What a replacement by a fragment shows

The children of a fragment come into the place of what is taken out: they are then the children of the
node (`Forest.children_replace`), or the nodes between two siblings (`Forest.between_replace`), and
their markup is the same as before (`Forest.outerHtml_replace`).
-/

namespace LivePage.Page

variable {p : Page} {i j q k f start finish : Nat} {l A B C X Y : List Nat}

/-! ## Two siblings in order -/

/-- In a list without repetitions what comes before an entry stands in front of it. -/
theorem mem_of_pair_sublist (h : [i, j].Sublist (X ++ j :: Y)) (hn : (X ++ j :: Y).Nodup) :
    i ∈ X := by
  have hj : j ∉ Y := (List.nodup_cons.1 (List.nodup_append.1 hn).2.1).1
  obtain ⟨a, b, hab, hX, hY⟩ := List.sublist_append_iff.1 h
  cases a with
  | nil =>
    obtain rfl : [i, j] = b := hab
    have : [j].Sublist Y := by
      cases hY with
      | cons _ hY => exact (List.sublist_cons_self i [j]).trans hY
      | cons_cons _ hY => exact hY
    exact absurd (List.singleton_sublist.1 this) hj
  | cons a rest =>
    obtain ⟨rfl, -⟩ := List.cons.inj hab
    exact hX.subset List.mem_cons_self

theorem exists_of_pair_sublist {l : List Nat} (h : [i, j].Sublist l) :
    ∃ A B C, l = A ++ i :: (B ++ j :: C) := by
  obtain ⟨u, v, rfl, hi, hj⟩ := List.cons_sublist_iff.1 h
  obtain ⟨A, B₁, rfl⟩ := List.append_of_mem hi
  obtain ⟨B₂, C, rfl⟩ := List.append_of_mem (List.singleton_sublist.1 hj)
  exact ⟨A, B₁ ++ B₂, C, by simp⟩

theorem filter_between (hn : (A ++ i :: (B ++ j :: C)).Nodup) :
    (A ++ i :: (B ++ j :: C)).filter (· ∉ B) = (A ++ [i]) ++ j :: C := by
  have hA : A.filter (· ∉ B) = A := List.filter_eq_self.2 fun x hx => by
    simpa using fun hB => (List.nodup_append.1 hn).2.2 x hx x (by simp [hB]) rfl
  have hrest := (List.nodup_append.1 hn).2.1
  have hi : i ∉ B := fun hB => (List.nodup_cons.1 hrest).1 (by simp [hB])
  have hBC := List.nodup_append.1 (List.nodup_cons.1 hrest).2
  have hj : j ∉ B := fun hB => hBC.2.2 j hB j List.mem_cons_self rfl
  have hB : B.filter (· ∉ B) = [] := List.filter_eq_nil_iff.2 fun x hx => by simpa using hx
  have hC : C.filter (· ∉ B) = C := List.filter_eq_self.2 fun x hx => by
    simpa using fun hB => hBC.2.2 x hB x (List.mem_cons_of_mem _ hx) rfl
  rw [List.filter_append, List.filter_cons_of_pos (by simpa using hi), List.filter_append,
    List.filter_cons_of_pos (by simpa using hj), hA, hB, hC]
  simp

/-! ## Replacing by a fragment -/

section

variable (hf : p.Forest) (hn : l.Nodup) (hl : ∀ x ∈ l, (p.slot x).parent = some q)
  (ht : (p.slot f).content.type = .fragment) (hq : p.Occupied q)
  (hcon : (p.slot q).content.type.isContainer) (hu : ¬ (p.detachAll l).Up q f)
include hf hn hl ht hq hu

/-- All slots after the replacement. -/
theorem slot_replace_fragment (k j : Nat) :
    (p.replace q l f k).slot j =
      { content := (p.slot j).content
        parent := if j ∈ (p.slot f).children then some q else if j ∈ l then none
          else (p.slot j).parent
        children :=
          if j = q then ((p.slot j).children.filter (· ∉ l)).take k ++ (p.slot f).children
            ++ ((p.slot j).children.filter (· ∉ l)).drop k
          else if j = f then [] else (p.slot j).children } := by
  have hne : q ≠ f := fun h => hu (h ▸ .refl _ q)
  have hmoved : p.moved f = (p.slot f).children := if_pos ht
  rw [slot_replace hf hn hl (hf.loose f ht) hq hne, hmoved]
  simp only [ht, and_true]

/-- The node has the children of the fragment if all its own have been taken out. -/
theorem Forest.children_replace (hall : l = (p.slot q).children) :
    ((p.replace q l f k).slot q).children = (p.slot f).children := by
  have hempty : (p.slot q).children.filter (· ∉ l) = [] :=
    List.filter_eq_nil_iff.2 fun x hx => by simpa [hall] using hx
  rw [slot_replace_fragment hf hn hl ht hq hu]
  simp only [if_true, hempty, List.take_nil, List.drop_nil, List.nil_append, List.append_nil]

include hcon

theorem Forest.replace_fragment (k : Nat) : (p.replace q l f k).Forest :=
  hf.replace hn hl (hf.loose f ht) hq hcon (fun h => hu (up_detachAll_of_up hf hn hl h)) k

/-- The markup of what is put in does not change. -/
theorem Forest.outerHtml_replace (k : Nat) (hj : j ∈ (p.slot f).children) :
    (p.replace q l f k).outerHtml j = p.outerHtml j := by
  have hjf := hf.down hj
  refine hf.outerHtml_congr (hf.replace_fragment hn hl ht hq hcon hu k) fun i hi => ?_
  rw [slot_replace_fragment hf hn hl ht hq hu]
  -- neither the node nor the fragment is below a child of the fragment
  have hiq : i ≠ q := by
    rintro rfl
    exact hu (up_detachAll_of_up hf hn hl (hi.trans (.parent hjf)))
  have hif : i ≠ f := by
    rintro rfl
    exact hf.not_up_of_parent hjf hi
  simp [hiq, hif]

/-- Between two siblings stand the children of the fragment, if what stood there has been taken out,
and the fragment has come before the second one. -/
theorem Forest.between_replace (hbetween : l = p.between start finish)
    (hstart : (p.slot start).parent = some q)
    (hk : (p.detachAll l).insertionIndex q (some finish) = some k)
    (hin : [start, finish].Sublist ((p.replace q l f k).slot i).children) :
    (p.replace q l f k).between start finish = (p.slot f).children := by
  have hf' := hf.replace_fragment hn hl ht hq hcon hu k
  have hslot := slot_replace_fragment hf hn hl ht hq hu k
  have hstartF : start ∉ (p.slot f).children := fun h => by
    obtain rfl : q = f := Option.some.inj (hstart.symm.trans (hf.down h))
    exact hu (.refl _ q)
  obtain rfl : i = q := by
    have hparent := hf'.down (hin.subset List.mem_cons_self)
    rw [hslot] at hparent
    simp only [hstartF, if_false, hstart] at hparent
    split at hparent
    · cases hparent
    · exact (Option.some.inj hparent).symm
  have hnodup := hf'.nodup i
  rw [hslot] at hin hnodup
  simp only [if_true] at hin hnodup
  rw [insertionIndex, slot_detachAll hf hn hl] at hk
  simp only [if_true] at hk
  -- what is left of the children is split where the second sibling stands
  obtain ⟨hlt, hget, -⟩ := List.idxOf?_eq_some_iff.1 hk
  have hdrop := List.drop_eq_getElem_cons hlt
  rw [hget] at hdrop
  rw [hdrop] at hin hnodup
  have hleft := (List.mem_append.1 (mem_of_pair_sublist hin hnodup)).resolve_right hstartF
  have hpair : [start, finish].Sublist ((p.slot i).children.filter (· ∉ l)) := by
    rw [← List.take_append_drop k ((p.slot i).children.filter (· ∉ l)), hdrop]
    exact (List.singleton_sublist.2 hleft).append (List.singleton_sublist.2 List.mem_cons_self)
  obtain ⟨A, B, C, hs⟩ := exists_of_pair_sublist (hpair.trans List.filter_sublist)
  obtain rfl : l = B := hbetween.trans (hf.between_eq hs)
  have hchildren := hf.nodup i
  rw [hs] at hchildren hk
  rw [filter_between hchildren] at hk
  have hfinish : finish ∉ A ++ [start] := fun h => by
    have hperm : (A ++ start :: (l ++ finish :: C)).Perm ((A ++ [start]) ++ (l ++ finish :: C)) := by
      simp
    exact (List.nodup_append.1 (hperm.nodup_iff.1 hchildren)).2.2 finish h finish (by simp) rfl
  obtain rfl : (A ++ [start]).length = k := by
    rw [idxOf?_append_cons hfinish] at hk
    exact Option.some.inj hk
  refine hf'.between_eq (q := i) (A := A) (C := C) ?_
  rw [hslot]
  simp only [if_true, hs, filter_between hchildren, List.take_left, List.drop_left]
  simp

end

end LivePage.Page
