import LivePage.Text.Blank
import LivePage.Text.Escaped
import Mathlib.Data.List.TakeWhile

/-!
# Entities undo escaping

The search for entities jumps from ampersand to ampersand and looks for an entity of the table at
each. It finds what one pass from the left finds (`decode_eq`): no entity has an ampersand behind
its first character, so nothing that is skipped or replaced can be a part of a later one. An escaped
text has an ampersand only where an entity starts, and the pass gives each escaped character back
before it sees the next.
-/

namespace LivePage

namespace Text

@[simp] theorem escape_empty : escape "" = "" := rfl

@[simp] theorem escape_append (s t : String) : escape (s ++ t) = escape s ++ escape t := by
  simp [escape]

end Text

namespace Markup

open LivePage.Text

/-! ## Escaped text -/

/-- The characters that have an entity. -/
def specialChars : List Char := ['&', '<', '>', '"', '\'']

theorem escapeChar_eq {c : Char} (h : c ∉ specialChars) : escapeChar c = [c] := by
  simp only [specialChars, List.mem_cons, List.not_mem_nil, or_false, not_or] at h
  obtain ⟨h1, h2, h3, h4, h5⟩ := h
  unfold escapeChar
  split <;> first | contradiction | rfl

theorem escapeChars_cons (c : Char) (s : List Char) :
    escapeChars (c :: s) = escapeChar c ++ escapeChars s := by
  simp [escapeChars]

theorem escapeChars_eq {s : List Char} (h : ∀ c ∈ s, c ∉ specialChars) : escapeChars s = s := by
  induction s with
  | nil => rfl
  | cons c s ih =>
    rw [escapeChars_cons, escapeChar_eq (h c (by simp)), ih fun d hd => h d (by simp [hd])]
    rfl

theorem unescapeChars_escapeChars (s : List Char) : unescapeChars (escapeChars s) = s := by
  induction s with
  | nil => rfl
  | cons c s ih =>
    rw [escapeChars_cons]
    by_cases hc : c ∈ specialChars
    · simp only [specialChars, List.mem_cons, List.not_mem_nil, or_false] at hc
      rcases hc with rfl | rfl | rfl | rfl | rfl <;>
        simp [escapeChar, unescapeChars, ih]
    · rw [escapeChar_eq hc, List.singleton_append]
      have hamp : c ≠ '&' := by
        rintro rfl
        exact hc (by simp [specialChars])
      rw [unescapeChars, ih] <;> simp [hamp]

/-- A special character is written as its entity of the table. -/
theorem entityAt_escapeChar {c : Char} (h : c ∈ specialChars) (s : List Char) :
    entityAt (escapeChar c ++ s) = some (escapeChar c, c) := by
  simp only [specialChars, List.mem_cons, List.not_mem_nil, or_false] at h
  rcases h with rfl | rfl | rfl | rfl | rfl <;> simp [entityAt, entities, escapeChar]

theorem ampersand_notMem_tail {c : Char} (h : c ∈ specialChars) : '&' ∉ (escapeChar c).tail := by
  simp only [specialChars, List.mem_cons, List.not_mem_nil, or_false] at h
  rcases h with rfl | rfl | rfl | rfl | rfl <;> decide

theorem eq_ampersand_of_mem_escapeChar {c d : Char} (hd : d ∈ specialChars)
    (h : d ∈ escapeChar c) : d = '&' := by
  by_cases hc : c ∈ specialChars
  · simp only [specialChars, List.mem_cons, List.not_mem_nil, or_false] at hc
    rcases hc with rfl | rfl | rfl | rfl | rfl <;>
      · simp only [escapeChar, List.mem_cons, List.not_mem_nil, or_false] at h
        rcases h with rfl | rfl | rfl | rfl | rfl | rfl <;>
          first | rfl | exact absurd hd (by decide)
  · rw [escapeChar_eq hc, List.mem_singleton] at h
    exact absurd (h ▸ hd) hc

/-- The only special character of an escaped text is the ampersand. -/
theorem eq_ampersand_of_mem_escapeChars {s : List Char} {d : Char} (hd : d ∈ specialChars)
    (h : d ∈ escapeChars s) : d = '&' := by
  obtain ⟨c, -, hc⟩ := List.mem_flatMap.1 h
  exact eq_ampersand_of_mem_escapeChar hd hc

theorem lt_notMem_escapeChars (s : List Char) : '<' ∉ escapeChars s := fun h =>
  absurd (eq_ampersand_of_mem_escapeChars (by decide) h) (by decide)

/-- An ampersand in an escaped text starts an entity. -/
theorem entityAt_of_escaped {s before after : List Char}
    (h : escapeChars s = before ++ '&' :: after) :
    ∃ c ∈ specialChars, entityAt ('&' :: after) = some (escapeChar c, c) := by
  induction s generalizing before with
  | nil => simp at h
  | cons c s ih =>
    rw [escapeChars_cons] at h
    obtain ⟨rest, rfl, hrest⟩ | ⟨rest, hc, hrest⟩ := List.append_eq_append_iff.1 h
    · exact ih hrest
    · cases rest with
      | nil => exact @ih [] hrest.symm
      | cons d rest =>
        obtain ⟨rfl, hafter⟩ := List.cons.inj hrest
        have hspecial : c ∈ specialChars := by
          by_cases hn : c ∈ specialChars
          · exact hn
          · rw [escapeChar_eq hn] at hc
            have hmem : '&' ∈ [c] := hc ▸ by simp
            rw [List.mem_singleton] at hmem
            exact hmem ▸ by decide
        -- The ampersand is the first character of its entity, so nothing stands before it.
        cases before with
        | nil =>
          have hentity := entityAt_escapeChar hspecial (escapeChars s)
          rw [hc, List.nil_append, List.cons_append] at hentity
          exact ⟨c, hspecial, by rw [hc, hafter]; exact hentity⟩
        | cons b before =>
          have hmem : '&' ∈ (escapeChar c).tail := by simp [hc]
          exact absurd hmem (ampersand_notMem_tail hspecial)

/-! ## The search and the pass -/

theorem unescapeChars_append {before : List Char} (h : ∀ c ∈ before, c ≠ '&') (s : List Char) :
    unescapeChars (before ++ s) = before ++ unescapeChars s := by
  induction before with
  | nil => rfl
  | cons c before ih =>
    have hc : c ≠ '&' := h c (by simp)
    rw [List.cons_append, unescapeChars, ih fun d hd => h d (by simp [hd])] <;> simp [hc]

theorem unescapeChars_of_found {s entity : List Char} {c : Char}
    (h : entityAt s = some (entity, c)) :
    unescapeChars s = c :: unescapeChars (s.drop entity.length) := by
  have hmem : (entity, c) ∈ entities := List.mem_of_find?_eq_some h
  have hstart : entity.isPrefixOf s = true := by
    simpa using List.find?_some h
  obtain ⟨after, rfl⟩ := List.isPrefixOf_iff_prefix.1 hstart
  rw [List.drop_left]
  simp only [entities, List.mem_cons, Prod.mk.injEq, List.not_mem_nil, or_false] at hmem
  rcases hmem with ⟨rfl, rfl⟩ | ⟨rfl, rfl⟩ | ⟨rfl, rfl⟩ | ⟨rfl, rfl⟩ | ⟨rfl, rfl⟩ <;>
    simp [unescapeChars]

theorem unescapeChars_of_missed {s : List Char} (h : entityAt ('&' :: s) = none) :
    unescapeChars ('&' :: s) = '&' :: unescapeChars s := by
  rw [unescapeChars] <;>
    · rintro r - rfl
      simp [entityAt, entities] at h

/-- What stands before the next ampersand is kept. -/
theorem unescapeChars_skip (s : List Char) :
    unescapeChars s = s.takeWhile (· != '&') ++ unescapeChars (s.dropWhile (· != '&')) := by
  have hbefore : ∀ c ∈ s.takeWhile (· != '&'), c ≠ '&' := fun c hc => by
    simpa using List.mem_takeWhile_imp hc
  rw [← unescapeChars_append hbefore, List.takeWhile_append_dropWhile]

theorem eq_ampersand_of_dropWhile {s after : List Char} {c : Char}
    (h : s.dropWhile (· != '&') = c :: after) : c = '&' := by
  have hhead := List.head?_dropWhile_not (· != '&') s
  rw [h] at hhead
  simpa using hhead

/-- The search gives what one pass from the left gives. -/
theorem decode_eq (s : List Char) : decode s = unescapeChars s := by
  fun_induction decode s with
  | case1 s hrest =>
    have hs : s.takeWhile (· != '&') ++ s.dropWhile (· != '&') = s :=
      List.takeWhile_append_dropWhile
    rw [hrest, List.append_nil] at hs
    rw [unescapeChars_skip, hrest, hs, unescapeChars, List.append_nil]
  | case2 s c after hrest entity decoded hfound ih =>
    rw [ih, ← unescapeChars_of_found hfound, unescapeChars_skip s, hrest]
  | case3 s c after hrest hmissed ih =>
    obtain rfl := eq_ampersand_of_dropWhile hrest
    rw [ih, ← unescapeChars_of_missed hmissed, unescapeChars_skip s, hrest]

/-- A text is decoded in one pass from the left. -/
theorem unescape_eq (s : String) : unescape s = String.ofList (unescapeChars s.toList) := by
  unfold unescape
  split
  case isTrue => rw [decode_eq]
  case isFalse h =>
    have hall : ∀ c ∈ s.toList, c ≠ '&' := fun c hc heq => h (by simpa [heq] using hc)
    have hs := unescapeChars_append hall []
    rw [List.append_nil, unescapeChars, List.append_nil] at hs
    rw [hs, String.ofList_toList]

example : unescape "&amp;lt; &copy &#39;" = "&lt; &copy '" := by
  rw [unescape_eq]
  rfl

/-- Decoding gives an escaped text back. In it the characters other than the ampersand that have an
entity do not occur, and every ampersand starts one of the entities; escaping works piece by piece,
and decoding is one pass from the left. -/
theorem unescape_undoes_escape :
    (∀ s, unescape (escape s) = s) ∧
    (∀ s, ∀ c ∈ ['<', '>', '"', '\''], c ∉ (escape s).toList) ∧
    (∀ s before after, (escape s).toList = before ++ '&' :: after →
      ∃ entity ∈ entities, entity.1 <+: '&' :: after) ∧
    (∀ s t, escape (s ++ t) = escape s ++ escape t) ∧
    (∀ t, unescape t = String.ofList (unescapeChars t.toList)) := by
  refine ⟨fun s => ?undone, fun s c hc => ?plain, fun s before after h => ?starts,
    fun s t => ?pieces, unescape_eq⟩
  case undone =>
    rw [unescape_eq, escape, String.toList_ofList, unescapeChars_escapeChars, String.ofList_toList]
  case plain =>
    rw [escape, String.toList_ofList]
    intro hmem
    have hspecial : c ∈ specialChars := List.mem_cons_of_mem _ hc
    rw [eq_ampersand_of_mem_escapeChars hspecial hmem] at hc
    exact absurd hc (by decide)
  case starts =>
    rw [escape, String.toList_ofList] at h
    obtain ⟨c, -, hentity⟩ := entityAt_of_escaped h
    exact ⟨_, List.mem_of_find?_eq_some hentity,
      List.isPrefixOf_iff_prefix.1 (by simpa using List.find?_some hentity)⟩
  case pieces => exact escape_append s t

end Markup

end LivePage
