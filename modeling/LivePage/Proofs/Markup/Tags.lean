import LivePage.Proofs.Markup.Grammar

/-!
# Tags are read as the grammar says

For each reader of a part of a tag: what it takes from the front of a text is what the grammar
calls that part (`*_sound`), and it takes every such part (`*_complete`). The texts have no
insertions; `plain` is how the reader sees them.
-/

namespace LivePage.Markup

open LivePage.Text Grammar

variable {ins : Nat → Insertion}

/-- A text without insertions as the reader sees it. -/
def plain (s : List Char) : List Step := s.map (.char · none)

@[simp] theorem plain_nil : plain [] = [] := rfl

@[simp] theorem plain_cons (c : Char) (s : List Char) :
    plain (c :: s) = .char c none :: plain s := rfl

@[simp] theorem length_plain (s : List Char) : (plain s).length = s.length := by simp [plain]

/-! ## Characters -/

theorem not_isBlank_of_isNamePart {c : Char} (h : isNamePart c = true) : isBlank c = false := by
  rw [Bool.eq_false_iff]
  intro hb
  unfold isNamePart at h
  delta Char.isAlphanum Char.isAlpha Char.isUpper Char.isLower Char.isDigit at h
  simp only [Bool.or_eq_true, Bool.and_eq_true, decide_eq_true_eq, beq_iff_eq, ge_iff_le,
    UInt32.le_iff_toNat_le] at h
  simp only [isBlank, blankRanges, List.any_cons, List.any_nil, Bool.or_false, Bool.or_eq_true,
    Bool.and_eq_true, decide_eq_true_eq] at hb
  change ((((65 ≤ c.toNat ∧ c.toNat ≤ 90) ∨ (97 ≤ c.toNat ∧ c.toNat ≤ 122)) ∨
    (48 ≤ c.toNat ∧ c.toNat ≤ 57)) ∨ c = '-') at h
  rcases h with h | rfl
  · omega
  · revert hb
    decide

theorem ne_of_isNamePart {c d : Char} (h : isNamePart c = true) (hd : isNamePart d = false) :
    c ≠ d := by
  rintro rfl
  simp [h] at hd

theorem ne_of_isBlank {c d : Char} (h : isBlank c = true) (hd : isBlank d = false) : c ≠ d := by
  rintro rfl
  simp [h] at hd

namespace Grammar

theorem AllBlank.nil : AllBlank [] := by simp [AllBlank]

theorem AllBlank.cons {c : Char} {s : List Char} (hc : isBlank c = true) (hs : AllBlank s) :
    AllBlank (c :: s) := by
  intro d hd
  rcases List.mem_cons.1 hd with rfl | hd
  · exact hc
  · exact hs d hd

theorem AllNameParts.nil : AllNameParts [] := by simp [AllNameParts]

theorem AllNameParts.snoc {c : Char} {s : List Char} (hs : AllNameParts s)
    (hc : isNamePart c = true) : AllNameParts (s ++ [c]) := by
  intro d hd
  rcases List.mem_append.1 hd with hd | hd
  · exact hs d hd
  · rw [List.mem_singleton.1 hd]
    exact hc

theorem AllNameParts.isName {s : List Char} (hs : AllNameParts s) (hne : (!s.isEmpty) = true) :
    IsName s := ⟨by simpa using hne, hs⟩

end Grammar

/-! ## Names of opening tags -/

theorem readClose_sound {s : List Char} {due : Option Nat} {r : List Step}
    (h : readClose (plain s) = .ok (due, r)) : ∃ s', s = '>' :: s' ∧ due = none ∧ r = plain s' := by
  cases s with
  | nil => simp [readClose] at h
  | cons c s =>
    rw [plain_cons] at h
    unfold readClose at h
    split at h
    · contradiction
    · rename_i heq
      cases heq
      cases h
      exact ⟨s, rfl, rfl, rfl⟩
    · contradiction

/-- How a tag goes on behind its name: what the reader reports, and what is written there. -/
inductive TagGoesOn : Option TagEnd → List Char → Prop where
  | attributes {c : Char} : isBlank c = true → TagGoesOn none [c]
  | opened : TagGoesOn (some (.opened none)) ['>']
  | selfClosed : TagGoesOn (some (.selfClosed none)) ['/', '>']

theorem readTagName_sound {name s : List Char} {tag : String} {close : Option TagEnd}
    {r : List Step} (h : readTagName name (plain s) = .ok (tag, close, r))
    (hname : AllNameParts name) :
    ∃ n e s', s = n ++ (e ++ s') ∧ IsName (name ++ n) ∧ tag = String.ofList (name ++ n) ∧
      TagGoesOn close e ∧ r = plain s' := by
  induction s generalizing name with
  | nil => simp [readTagName] at h
  | cons c s ih =>
    rw [plain_cons, readTagName] at h
    split at h
    case isTrue hc =>
      split at h
      · contradiction
      case isFalse he =>
        cases h
        refine ⟨[], [c], s, rfl, ?_, by simp, .attributes hc, rfl⟩
        rw [List.append_nil]
        exact hname.isName (by simpa using he)
    case isFalse hc =>
      split at h
      case isTrue hc' =>
        obtain ⟨rfl, hne⟩ := hc'
        cases h
        refine ⟨[], ['>'], s, rfl, ?_, by simp, .opened, rfl⟩
        rw [List.append_nil]
        exact hname.isName hne
      split at h
      case isTrue hc' =>
        obtain ⟨rfl, hne⟩ := hc'
        simp only [Option.isSome_none, Bool.false_eq_true, if_false] at h
        split at h
        · contradiction
        case h_2 due r' hclose =>
          obtain ⟨s', rfl, rfl, rfl⟩ := readClose_sound hclose
          cases h
          refine ⟨[], ['/', '>'], s', rfl, ?_, by simp, .selfClosed, rfl⟩
          rw [List.append_nil]
          exact hname.isName hne
      simp only [Option.isSome_none, Bool.false_eq_true, if_false] at h
      split at h
      case isTrue hpart =>
        obtain ⟨n, e, s', rfl, hn, htag, hgo, hr⟩ := ih h (hname.snoc hpart)
        rw [List.append_assoc, List.singleton_append] at hn htag
        exact ⟨c :: n, e, s', rfl, hn, htag, hgo, hr⟩
      case isFalse => contradiction

theorem readTagName_complete (name : List Char) {n e : List Char} {close : Option TagEnd}
    (hn : AllNameParts n) (hne : name ++ n ≠ []) (he : TagGoesOn close e) (s : List Char) :
    readTagName name (plain (n ++ (e ++ s))) =
      .ok (String.ofList (name ++ n), close, plain s) := by
  induction n generalizing name with
  | nil =>
    have hname : name.isEmpty = false := by simpa using hne
    cases he with
    | attributes hc => simp [readTagName, hc, hname]
    | opened =>
      have : isBlank '>' = false := by decide
      simp [readTagName, this, hname]
    | selfClosed =>
      have : isBlank '/' = false := by decide
      simp [readTagName, readClose, this, hname]
  | cons c n ih =>
    have hc : isNamePart c = true := hn c (by simp)
    have hb := not_isBlank_of_isNamePart hc
    have hgt : c ≠ '>' := ne_of_isNamePart hc (by decide)
    have hslash : c ≠ '/' := ne_of_isNamePart hc (by decide)
    have hrest := ih (name ++ [c]) (fun d hd => hn d (by simp [hd])) (by simp)
    rw [List.append_assoc, List.singleton_append] at hrest
    simpa [readTagName, hb, hgt, hslash, hc] using hrest

/-! ## Quoted values -/

/-- The parts of a quoted value that hold the text `value`, whichever world they are put in. -/
def Holds (pieces : List Piece) (value : String) : Prop :=
  ∀ w : World, w.quotedText [] pieces = value

theorem addLiteral_sound {run : List Char} {pieces : List Piece}
    (h : addLiteral [] run = .ok pieces) :
    ∃ chars, decodeLiteral run = some chars ∧ Holds pieces (String.ofList chars) := by
  unfold addLiteral at h
  split at h
  case isTrue he =>
    rw [List.isEmpty_iff] at he
    subst he
    cases h
    exact ⟨[], rfl, fun w => rfl⟩
  case isFalse =>
    split at h
    case h_1 chars hd =>
      cases h
      exact ⟨chars, hd, fun w => by simp [World.quotedText, String.join]⟩
    case h_2 => contradiction

theorem addLiteral_complete {run : List Char} {chars : List Char}
    (h : decodeLiteral run = some chars) :
    ∃ pieces, addLiteral [] run = .ok pieces ∧ Holds pieces (String.ofList chars) := by
  unfold addLiteral
  split
  case isTrue he =>
    rw [List.isEmpty_iff] at he
    subst he
    cases h
    exact ⟨[], rfl, fun w => rfl⟩
  case isFalse =>
    rw [h]
    exact ⟨_, rfl, fun w => by simp [World.quotedText, String.join]⟩

theorem readQuoted_close {pieces : List Piece} {run s : List Char} :
    readQuoted ins pieces run (plain ('"' :: s)) =
      (addLiteral pieces run).map (·, plain s) := by
  rw [plain_cons, readQuoted]
  cases addLiteral pieces run <;> rfl

theorem readQuoted_escaped {pieces : List Piece} {run s : List Char} {c : Char} :
    readQuoted ins pieces run (plain ('\\' :: c :: s)) =
      readQuoted ins pieces (run ++ ['\\', c]) (plain s) := by
  rw [plain_cons, plain_cons, readQuoted]
  rfl

theorem readQuoted_other {pieces : List Piece} {run s : List Char} {c : Char} (hq : c ≠ '"')
    (hb : c ≠ '\\') :
    readQuoted ins pieces run (plain (c :: s)) =
      readQuoted ins pieces (run ++ [c]) (plain s) := by
  rw [plain_cons, readQuoted] <;> simp_all

theorem readQuoted_sound {pieces value : List Piece} {run s : List Char} {r : List Step}
    (h : readQuoted ins pieces run (plain s) = .ok (value, r)) :
    ∃ l s', s = l ++ '"' :: s' ∧ Quotable l ∧ addLiteral pieces (run ++ l) = .ok value ∧
      r = plain s' := by
  induction hk : s.length using Nat.strongRecOn generalizing run s with
  | _ k ih =>
    subst hk
    cases s with
    | nil => simp [readQuoted] at h
    | cons c s =>
      by_cases hq : c = '"'
      · subst hq
        rw [readQuoted_close] at h
        cases hadd : addLiteral pieces run with
        | error e => simp [hadd, Except.map] at h
        | ok v =>
          rw [hadd] at h
          cases h
          exact ⟨[], s, rfl, .nil, by rw [List.append_nil]; exact hadd, rfl⟩
      by_cases hb : c = '\\'
      · subst hb
        cases s with
        | nil => simp [readQuoted] at h
        | cons d s =>
          rw [readQuoted_escaped] at h
          obtain ⟨l, s', rfl, hl, hadd, hr⟩ := ih s.length (by grind) h rfl
          rw [List.append_assoc] at hadd
          exact ⟨'\\' :: d :: l, s', rfl, .escaped hl, hadd, hr⟩
      · rw [readQuoted_other hq hb] at h
        obtain ⟨l, s', rfl, hl, hadd, hr⟩ := ih s.length (by simp) h rfl
        rw [List.append_assoc] at hadd
        exact ⟨c :: l, s', rfl, .plain hq hb hl, hadd, hr⟩

theorem readQuoted_complete {pieces : List Piece} {l : List Char} (hl : Quotable l)
    (run s : List Char) :
    readQuoted ins pieces run (plain (l ++ '"' :: s)) =
      (addLiteral pieces (run ++ l)).map (·, plain s) := by
  induction hl generalizing run with
  | nil => rw [List.nil_append, readQuoted_close, List.append_nil]
  | @plain c l hq hb _ ih =>
    rw [List.cons_append, readQuoted_other hq hb, ih, List.append_assoc, List.singleton_append]
  | @escaped c l _ ih =>
    rw [List.cons_append, List.cons_append, readQuoted_escaped, ih, List.append_assoc]
    rfl

/-- What the reader makes of an attribute with the name and the value written. -/
def Writes (a : Attribute) (written : String × String) : Prop :=
  ∃ pieces, a = .quoted written.1 pieces ∧ Holds pieces written.2

theorem readValue_sound {name : String} {s : List Char} {a : Attribute} {r : List Step}
    (h : readValue ins name (plain s) = .ok (a, r)) :
    ∃ after l value s', s = after ++ '"' :: l ++ '"' :: s' ∧ AllBlank after ∧ Literal l value ∧
      Writes a (name, value) ∧ r = plain s' := by
  induction s with
  | nil => simp [readValue] at h
  | cons c s ih =>
    rw [plain_cons, readValue] at h
    split at h
    case isTrue hq =>
      subst hq
      simp only [openQuoted] at h
      split at h
      · contradiction
      case h_2 pieces r' hread =>
        cases h
        obtain ⟨l, s', rfl, hl, hadd, rfl⟩ := readQuoted_sound hread
        obtain ⟨chars, hd, hv⟩ := addLiteral_sound hadd
        exact ⟨[], l, _, s', rfl, .nil, ⟨hl, chars, hd, rfl⟩, ⟨pieces, rfl, hv⟩, rfl⟩
    case isFalse hq =>
      split at h
      case isTrue hb =>
        obtain ⟨after, l, value, s', rfl, hafter, hl, ha, hr⟩ := ih h
        exact ⟨c :: after, l, value, s', rfl, hafter.cons hb, hl, ha, hr⟩
      case isFalse => contradiction

theorem readValue_complete (ins : Nat → Insertion) (name : String) {value : String}
    {after l : List Char} (hafter : AllBlank after)
    (hl : Literal l value) :
    ∃ a, Writes a (name, value) ∧ ∀ s : List Char,
      readValue ins name (plain (after ++ '"' :: (l ++ '"' :: s))) = .ok (a, plain s) := by
  induction after with
  | nil =>
    obtain ⟨hq, chars, hd, rfl⟩ := hl
    obtain ⟨pieces, hadd, hv⟩ := addLiteral_complete hd
    refine ⟨.quoted name pieces, ⟨pieces, rfl, hv⟩, fun s => ?_⟩
    rw [List.nil_append, plain_cons, readValue, if_pos rfl]
    simp only [openQuoted, readQuoted_complete hq, List.nil_append, hadd, Except.map]
  | cons c after ih =>
    have hc : isBlank c = true := hafter c (by simp)
    have hne : c ≠ '"' := ne_of_isBlank hc (by decide)
    obtain ⟨a, ha, hread⟩ := ih fun d hd => hafter d (by simp [hd])
    refine ⟨a, ha, fun s => ?_⟩
    rw [List.cons_append, plain_cons, readValue, if_neg hne, if_pos hc]
    exact hread s

/-! ## Attributes -/

section
variable {read : List Attribute} {name s : List Char} {after : Bool} {c : Char}

theorem readAttributes_end {close : TagEnd} {e : List Char} (he : TagGoesOn (some close) e) :
    readAttributes ins read name after (plain (e ++ s)) =
      .ok (addValueless read name, close, plain s) := by
  cases he with
  | opened => simp [readAttributes]
  | selfClosed => simp [readAttributes, readClose]

theorem readAttributes_blank (hc : isBlank c = true) :
    readAttributes ins read name after (plain (c :: s)) =
      readAttributes ins read name (!name.isEmpty) (plain s) := by
  have hgt : c ≠ '>' := ne_of_isBlank hc (by decide)
  have hslash : c ≠ '/' := ne_of_isBlank hc (by decide)
  have heq : c ≠ '=' := ne_of_isBlank hc (by decide)
  rw [plain_cons, readAttributes]
  simp [hgt, hslash, heq, hc]

theorem readAttributes_part (hc : isNamePart c = true) :
    readAttributes ins read name after (plain (c :: s)) =
      if after then readAttributes ins (addValueless read name) [c] false (plain s)
      else readAttributes ins read (name ++ [c]) false (plain s) := by
  have hgt : c ≠ '>' := ne_of_isNamePart hc (by decide)
  have hslash : c ≠ '/' := ne_of_isNamePart hc (by decide)
  have heq : c ≠ '=' := ne_of_isNamePart hc (by decide)
  rw [plain_cons, readAttributes]
  simp [hgt, hslash, heq, hc, not_isBlank_of_isNamePart hc]

theorem readAttributes_valued (hname : name ≠ []) (r : List Step) :
    readAttributes ins read name after (.char '=' none :: r) =
      match readValue ins (String.ofList name) r with
      | .error e => .error (e, read)
      | .ok (a, r) => readAttributes ins (read ++ [a]) [] false r := by
  rw [readAttributes]
  simp only [Char.reduceEq, if_false, if_true, List.isEmpty_iff, hname]
  split <;> rename_i h <;> simp only [h]

theorem readAttributes_equals (hname : name ≠ []) :
    readAttributes ins read name after (plain ('=' :: s)) =
      match readValue ins (String.ofList name) (plain s) with
      | .error e => .error (e, read)
      | .ok (a, r) => readAttributes ins (read ++ [a]) [] false r :=
  readAttributes_valued hname (plain s)

theorem readAttributes_slash {out : List Attribute × TagEnd × List Step}
    (h : readAttributes ins read name after (plain ('/' :: s)) = .ok out) : ∃ s', s = '>' :: s' := by
  rw [plain_cons, readAttributes] at h
  simp only [Char.reduceEq, if_false, if_true, Option.isSome_none, Bool.false_eq_true] at h
  split at h
  · contradiction
  case h_2 hclose =>
    obtain ⟨s', hs, -, -⟩ := readClose_sound hclose
    exact ⟨s', hs⟩

theorem readAttributes_other (hgt : c ≠ '>') (hslash : c ≠ '/') (heq : c ≠ '=')
    (hb : isBlank c = false) (hpart : isNamePart c = false)
    {out : List Attribute × TagEnd × List Step} :
    readAttributes ins read name after (plain (c :: s)) ≠ .ok out := by
  rw [plain_cons, readAttributes]
  cases after <;> simp [hgt, hslash, heq, hb, hpart]

end

namespace Grammar

theorem Attributes.blanks {b s : List Char} {written : List (String × String)} (hb : AllBlank b)
    (hs : Attributes s written) : Attributes (b ++ s) written := by
  induction b with
  | nil => exact hs
  | cons c b ih => exact .blank (hb c (by simp)) (ih fun d hd => hb d (by simp [hd]))

/-- The attribute that a name makes if nothing more belongs to it. -/
def bareName (name : List Char) : List (String × String) :=
  if name.isEmpty then [] else [(String.ofList name, "true")]

theorem Attributes.flush {name gap s : List Char} {written : List (String × String)}
    (hname : AllNameParts name) (hgap : AllBlank gap)
    (hs : gap = [] → ∀ c ∈ s.head?, isNamePart c = false) (h : Attributes s written) :
    Attributes (name ++ (gap ++ s)) (bareName name ++ written) := by
  unfold bareName
  split
  case isTrue he =>
    rw [List.isEmpty_iff.1 he, List.nil_append, List.nil_append]
    exact h.blanks hgap
  case isFalse he =>
    refine .alone (hname.isName (by simpa using he)) ?_ (h.blanks hgap)
    intro c hc
    cases gap with
    | nil => exact hs rfl c hc
    | cons d gap =>
      obtain rfl : d = c := by simpa using hc
      have hd : isBlank d = true := hgap d (by simp)
      rw [Bool.eq_false_iff]
      intro hpart
      rw [not_isBlank_of_isNamePart hpart] at hd
      contradiction

end Grammar

theorem writes_valueless (name : List Char) :
    Writes (.valueless (String.ofList name)) (String.ofList name, "true") :=
  ⟨_, rfl, fun w => by simp [World.quotedText, String.join]⟩

theorem addValueless_eq (read : List Attribute) (name : List Char) :
    ∃ added, addValueless read name = read ++ added ∧ List.Forall₂ Writes added (bareName name) := by
  unfold addValueless bareName
  split
  · exact ⟨[], by simp, .nil⟩
  · exact ⟨_, rfl, .cons (writes_valueless name) .nil⟩

/-- The text `s` finishes a tag that has come as far as `name` and, if `after`, blanks behind it,
which `gap` stands for: `added` are the attributes from `name` on, and `r` follows the tag. -/
def FinishesTag (name : List Char) (after : Bool) (s : List Char) (added : List Attribute)
    (close : TagEnd) (r : List Step) : Prop :=
  ∃ a e s' written, s = a ++ (e ++ s') ∧ TagGoesOn (some close) e ∧ r = plain s' ∧
    List.Forall₂ Writes added written ∧
    ∀ gap, AllBlank gap → (gap ≠ [] ↔ after = true) → Attributes (name ++ (gap ++ a)) written

namespace FinishesTag

variable {name s : List Char} {after : Bool} {read added : List Attribute} {close : TagEnd}
  {r : List Step} {c : Char}

theorem of_end {e : List Char} (hname : AllNameParts name) (he : TagGoesOn (some close) e) :
    ∃ added, addValueless read name = read ++ added ∧
      FinishesTag name after (e ++ s) added close (plain s) := by
  obtain ⟨added, hadd, hw⟩ := addValueless_eq read name
  refine ⟨added, hadd, [], e, s, bareName name, rfl, he, rfl, hw, fun gap hgap _ => ?_⟩
  have := Attributes.nil.flush hname hgap (by simp)
  rwa [List.append_nil (bareName name)] at this

theorem blank (hc : isBlank c = true) (hafter : after = true → name ≠ [])
    (h : FinishesTag name (!name.isEmpty) s added close r) :
    FinishesTag name after (c :: s) added close r := by
  obtain ⟨a, e, s', written, rfl, he, hr, hw, hg⟩ := h
  refine ⟨c :: a, e, s', written, rfl, he, hr, hw, fun gap hgap hiff => ?_⟩
  cases name with
  | nil =>
    have hnil : gap = [] := by
      by_contra hne
      exact hafter (hiff.1 hne) rfl
    subst hnil
    exact .blank hc (hg [] .nil (by simp))
  | cons d name =>
    have := hg (gap ++ [c]) (by
      intro x hx
      rcases List.mem_append.1 hx with hx | hx
      · exact hgap x hx
      · rw [List.mem_singleton.1 hx]
        exact hc) (by simp)
    rwa [List.append_assoc, List.singleton_append] at this

theorem part (h : FinishesTag (name ++ [c]) false s added close r) :
    FinishesTag name false (c :: s) added close r := by
  obtain ⟨a, e, s', written, rfl, he, hr, hw, hg⟩ := h
  refine ⟨c :: a, e, s', written, rfl, he, hr, hw, fun gap hgap hiff => ?_⟩
  obtain rfl : gap = [] := by simpa using hiff
  have := hg [] .nil (by simp)
  rwa [List.append_assoc] at this

theorem newName (hname : AllNameParts name)
    (h : FinishesTag [c] false s added close r) {flushed : List Attribute}
    (hw' : List.Forall₂ Writes flushed (bareName name)) :
    FinishesTag name true (c :: s) (flushed ++ added) close r := by
  obtain ⟨a, e, s', written, rfl, he, hr, hw, hg⟩ := h
  refine ⟨c :: a, e, s', bareName name ++ written, rfl, he, hr, List.rel_append hw' hw,
    fun gap hgap hiff => ?_⟩
  exact (hg [] .nil (by simp)).flush hname hgap fun hnil => absurd hnil (hiff.2 rfl)

theorem valued {before l : List Char} {value : String} {a : Attribute} (hname : IsName name)
    (hb : AllBlank before) (hl : Literal l value) (ha : Writes a (String.ofList name, value))
    (h : FinishesTag [] false s added close r) :
    FinishesTag name after ('=' :: (before ++ '"' :: l ++ '"' :: s)) (a :: added) close r := by
  obtain ⟨b, e, s', written, rfl, he, hr, hw, hg⟩ := h
  refine ⟨'=' :: (before ++ '"' :: l ++ '"' :: b), e, s', (String.ofList name, value) :: written,
    by simp, he, hr, .cons ha hw, fun gap hgap _ => ?_⟩
  have := Attributes.valued hname hgap hb hl (hg [] .nil (by simp))
  simpa using this

end FinishesTag

theorem readAttributes_sound {read attributes : List Attribute} {name s : List Char}
    {after : Bool} {close : TagEnd} {r : List Step}
    (h : readAttributes ins read name after (plain s) = .ok (attributes, close, r))
    (hname : AllNameParts name) (hafter : after = true → name ≠ []) :
    ∃ added, attributes = read ++ added ∧ FinishesTag name after s added close r := by
  induction hk : s.length using Nat.strongRecOn generalizing read name s after with
  | _ k ih =>
    subst hk
    have hend : ∀ (e s' : List Char) {close' : TagEnd}, s = e ++ s' →
        TagGoesOn (some close') e →
        ∃ added, attributes = read ++ added ∧ FinishesTag name after s added close r := by
      intro e s' close' hs he
      rw [hs, readAttributes_end he] at h
      cases h
      rw [hs]
      exact FinishesTag.of_end hname he
    cases s with
    | nil => simp [readAttributes] at h
    | cons c s =>
      by_cases hgt : c = '>'
      · exact hend ['>'] s (by rw [hgt]; rfl) .opened
      by_cases hslash : c = '/'
      · subst hslash
        obtain ⟨s', rfl⟩ := readAttributes_slash h
        exact hend ['/', '>'] s' rfl .selfClosed
      by_cases heq : c = '='
      · subst heq
        by_cases hne : name = []
        · simp [plain_cons, readAttributes, hne] at h
        rw [readAttributes_equals hne] at h
        split at h
        · contradiction
        case h_2 a r' hread =>
          obtain ⟨before, l, value, s', rfl, hb, hl, ha, rfl⟩ := readValue_sound hread
          obtain ⟨added, hadd, hfin⟩ := ih s'.length (by grind) h .nil (by simp) rfl
          rw [List.append_assoc, List.singleton_append] at hadd
          exact ⟨a :: added, hadd, hfin.valued ⟨hne, hname⟩ hb hl ha⟩
      by_cases hb : isBlank c = true
      · rw [readAttributes_blank hb] at h
        obtain ⟨added, hadd, hfin⟩ := ih s.length (by simp) h hname (by simp) rfl
        exact ⟨added, hadd, hfin.blank hb hafter⟩
      by_cases hpart : isNamePart c = true
      · rw [readAttributes_part hpart] at h
        split at h
        case isTrue ha =>
          subst ha
          obtain ⟨added, hadd, hfin⟩ := ih s.length (by simp) h (AllNameParts.nil.snoc hpart)
            (by simp) rfl
          obtain ⟨flushed, hflush, hw⟩ := addValueless_eq read name
          refine ⟨flushed ++ added, ?_, hfin.newName hname hw⟩
          rw [hadd, hflush, List.append_assoc]
        case isFalse ha =>
          obtain rfl : after = false := by simpa using ha
          obtain ⟨added, hadd, hfin⟩ := ih s.length (by simp) h (hname.snoc hpart) (by simp) rfl
          exact ⟨added, hadd, hfin.part⟩
      · rw [Bool.not_eq_true] at hb hpart
        exact absurd h (readAttributes_other hgt hslash heq hb hpart)

section
variable {read : List Attribute} {name s : List Char} {after : Bool}

theorem readAttributes_name {n : List Char} (hn : AllNameParts n) :
    readAttributes ins read name false (plain (n ++ s)) =
      readAttributes ins read (name ++ n) false (plain s) := by
  induction n generalizing name with
  | nil => simp
  | cons c n ih =>
    rw [List.cons_append, readAttributes_part (hn c (by simp)), if_neg Bool.false_ne_true,
      ih fun d hd => hn d (by simp [hd])]
    simp

/-- Blanks between a name and its value make no difference. -/
theorem readAttributes_gap {gap : List Char} (hgap : AllBlank gap) (hname : name ≠ []) :
    readAttributes ins read name after (plain (gap ++ '=' :: s)) =
      readAttributes ins read name false (plain ('=' :: s)) := by
  induction gap generalizing after with
  | nil => rw [List.nil_append, readAttributes_equals hname, readAttributes_equals hname]
  | cons c gap ih =>
    rw [List.cons_append, readAttributes_blank (hgap c (by simp))]
    exact ih fun d hd => hgap d (by simp [hd])

theorem readAttributes_newName {n : List Char} (hn : IsName n) :
    readAttributes ins read name true (plain (n ++ s)) =
      readAttributes ins (addValueless read name) [] false (plain (n ++ s)) := by
  obtain ⟨hne, hparts⟩ := hn
  cases n with
  | nil => contradiction
  | cons c n =>
    have hc : isNamePart c = true := hparts c (by simp)
    rw [List.cons_append, readAttributes_part hc, readAttributes_part hc]
    rfl

theorem Grammar.IsName.begins {n : List Char} (hn : IsName n) :
    ∃ c, c ∈ (n ++ s).head? ∧ isNamePart c = true := by
  obtain ⟨hne, hparts⟩ := hn
  cases n with
  | nil => contradiction
  | cons c n => exact ⟨c, by simp, hparts c (by simp)⟩

/-- Behind blanks a name stands alone whatever attribute follows. -/
theorem readAttributes_alone_gap {a e : List Char} {written : List (String × String)}
    {close : TagEnd} (ha : Attributes a written) (he : TagGoesOn (some close) e)
    (hname : name ≠ []) :
    readAttributes ins read name true (plain (a ++ (e ++ s))) =
      readAttributes ins (addValueless read name) [] false (plain (a ++ (e ++ s))) := by
  induction ha with
  | nil =>
    rw [List.nil_append, readAttributes_end he, readAttributes_end he]
    rfl
  | blank hc _ ih =>
    have hafter : (!name.isEmpty) = true := by simpa using hname
    rw [List.cons_append, readAttributes_blank hc, readAttributes_blank hc, hafter]
    exact ih
  | alone hn _ _ _ =>
    rw [List.append_assoc]
    exact readAttributes_newName hn
  | valued hn _ _ _ _ _ =>
    simp only [List.append_assoc]
    exact readAttributes_newName hn

theorem readAttributes_alone {a e : List Char} {written : List (String × String)}
    {close : TagEnd} (ha : Attributes a written) (he : TagGoesOn (some close) e)
    (hname : name ≠ []) (hnext : ∀ c ∈ a.head?, isNamePart c = false) :
    readAttributes ins read name false (plain (a ++ (e ++ s))) =
      readAttributes ins (addValueless read name) [] false (plain (a ++ (e ++ s))) := by
  cases ha with
  | nil =>
    rw [List.nil_append, readAttributes_end he, readAttributes_end he]
    rfl
  | blank hc ha =>
    have hafter : (!name.isEmpty) = true := by simpa using hname
    rw [List.cons_append, readAttributes_blank hc, readAttributes_blank hc, hafter]
    exact readAttributes_alone_gap ha he hname
  | alone hn _ _ =>
    obtain ⟨c, hc, hpart⟩ := hn.begins
    rw [hnext c hc] at hpart
    contradiction
  | valued hn _ _ _ _ =>
    simp only [List.append_assoc] at hnext
    obtain ⟨c, hc, hpart⟩ := hn.begins
    rw [hnext c hc] at hpart
    contradiction

end

theorem readAttributes_complete (ins : Nat → Insertion) {a e : List Char} {written : List (String × String)}
    {close : TagEnd} (ha : Attributes a written) (he : TagGoesOn (some close) e) :
    ∃ added, List.Forall₂ Writes added written ∧ ∀ (s : List Char) (read : List Attribute),
      readAttributes ins read [] false (plain (a ++ (e ++ s))) =
        .ok (read ++ added, close, plain s) := by
  induction ha with
  | nil =>
    refine ⟨[], .nil, fun s read => ?_⟩
    rw [List.nil_append, readAttributes_end he]
    simp [addValueless]
  | blank hc _ ih =>
    obtain ⟨added, hw, hread⟩ := ih
    refine ⟨added, hw, fun s read => ?_⟩
    rw [List.cons_append, readAttributes_blank hc]
    exact hread s read
  | @alone name a written hn hnext ha ih =>
    obtain ⟨hne, hparts⟩ := hn
    obtain ⟨added, hw, hread⟩ := ih
    refine ⟨.valueless (String.ofList name) :: added, .cons (writes_valueless name) hw,
      fun s read => ?_⟩
    rw [List.append_assoc, readAttributes_name hparts, List.nil_append,
      readAttributes_alone ha he hne hnext, hread]
    simp [addValueless, hne]
  | @valued name before after run a value written hn hb hafter hl ha ih =>
    obtain ⟨hne, hparts⟩ := hn
    obtain ⟨x, hx, hvalue⟩ := readValue_complete ins (String.ofList name) hafter hl
    obtain ⟨added, hw, hread⟩ := ih
    refine ⟨x :: added, .cons hx hw, fun s read => ?_⟩
    have hshape : name ++ before ++ '=' :: after ++ '"' :: run ++ '"' :: a ++ (e ++ s) =
        name ++ (before ++ '=' :: (after ++ '"' :: (run ++ '"' :: (a ++ (e ++ s))))) := by simp
    rw [hshape, readAttributes_name hparts, List.nil_append, readAttributes_gap hb hne,
      readAttributes_equals hne, hvalue]
    simpa using hread s (read ++ [x])

/-! ## Opening and closing tags -/

theorem readElementTag_sound {s : List Char} {tag : String} {attributes : List Attribute}
    {close : TagEnd} {r : List Step}
    (h : readElementTag ins (plain s) = .ok (tag, attributes, close, r)) :
    ∃ name inside e s' written, s = name ++ (inside ++ (e ++ s')) ∧ IsName name ∧
      tag = String.ofList name ∧ Inside inside written ∧ TagGoesOn (some close) e ∧
      List.Forall₂ Writes attributes written ∧ r = plain s' := by
  unfold readElementTag at h
  split at h
  · contradiction
  case h_2 tag close r hname =>
    cases h
    obtain ⟨n, e, s', rfl, hn, rfl, he, rfl⟩ := readTagName_sound hname .nil
    exact ⟨n, [], e, s', [], rfl, hn, rfl, .nothing, he, .nil, rfl⟩
  case h_3 tag r hname =>
    obtain ⟨n, e, s', rfl, hn, rfl, he, rfl⟩ := readTagName_sound hname .nil
    split at h
    · contradiction
    case h_2 attributes close r' hread =>
      cases h
      obtain ⟨added, rfl, a, e', s'', written, rfl, he', rfl, hw, hg⟩ :=
        readAttributes_sound hread .nil (by simp)
      cases he with
      | @attributes c hc =>
        exact ⟨n, c :: a, e', s'', written, rfl, hn, rfl,
          .attributes hc (hg [] .nil (by simp)), he', hw, rfl⟩

theorem readElementTag_complete (ins : Nat → Insertion) {name inside e : List Char} {written : List (String × String)}
    {close : TagEnd} (hn : IsName name) (hi : Inside inside written)
    (he : TagGoesOn (some close) e) :
    ∃ attributes, List.Forall₂ Writes attributes written ∧ ∀ s : List Char,
      readElementTag ins (plain (name ++ (inside ++ (e ++ s)))) =
        .ok (String.ofList name, attributes, close, plain s) := by
  obtain ⟨hne, hparts⟩ := hn
  cases hi with
  | nothing =>
    refine ⟨[], .nil, fun s => ?_⟩
    have hname := readTagName_complete [] hparts hne he s
    rw [List.nil_append, readElementTag, hname]
    rfl
  | @attributes c a _ hc ha =>
    obtain ⟨added, hw, hread⟩ := readAttributes_complete ins ha he
    refine ⟨added, hw, fun s => ?_⟩
    have hname := readTagName_complete [] hparts hne (.attributes hc) (a ++ (e ++ s))
    rw [List.singleton_append] at hname
    rw [List.cons_append, readElementTag, hname]
    simp only [hread, List.nil_append]

theorem readClosingName_sound {name s : List Char} {after : Bool} {tag : String}
    {due : Option Nat} {r : List Step}
    (h : readClosingName name after (plain s) = .ok (tag, due, r))
    (hafter : after = true → name ≠ []) :
    ∃ before n behind s', s = before ++ (n ++ (behind ++ '>' :: s')) ∧ AllBlank before ∧
      AllBlank behind ∧ (name ≠ [] → before = []) ∧ (after = true → n = []) ∧
      tag = String.ofList (name ++ n) ∧ due = none ∧ r = plain s' := by
  induction s generalizing name after with
  | nil => simp [readClosingName] at h
  | cons c s ih =>
    rw [plain_cons, readClosingName] at h
    split at h
    case isTrue hgt =>
      subst hgt
      cases h
      exact ⟨[], [], [], s, rfl, .nil, .nil, by simp, by simp, by simp, rfl, rfl⟩
    case isFalse hgt =>
      simp only [Option.isSome_none, Bool.false_eq_true, if_false] at h
      split at h
      case isTrue hb =>
        obtain ⟨before, n, behind, s', rfl, hbefore, hbehind, hnil, hn, htag, hdue, hr⟩ :=
          ih h (by simp)
        by_cases hne : name = []
        · exact ⟨c :: before, n, behind, s', rfl, hbefore.cons hb, hbehind, absurd hne,
            fun ha => absurd hne (hafter ha), htag, hdue, hr⟩
        · obtain rfl := hnil hne
          obtain rfl := hn (by simpa using hne)
          exact ⟨[], [], c :: behind, s', rfl, .nil, hbehind.cons hb, by simp, by simp, htag, hdue,
            hr⟩
      case isFalse hb =>
        split at h
        case isTrue hpart =>
          obtain ⟨before, n, behind, s', rfl, -, hbehind, hnil, -, htag, hdue, hr⟩ :=
            ih h (by simp)
          obtain rfl := hnil (by simp)
          refine ⟨[], c :: n, behind, s', rfl, .nil, hbehind, by simp, ?_, ?_, hdue, hr⟩
          · intro ha
            simp [ha] at hpart
          · rw [htag, List.append_assoc]
            rfl
        case isFalse => contradiction

theorem readClosingName_behind {name behind : List Char} (hbehind : AllBlank behind)
    (after : Bool) (s : List Char) :
    readClosingName name after (plain (behind ++ '>' :: s)) =
      .ok (String.ofList name, none, plain s) := by
  induction behind generalizing after with
  | nil => simp [readClosingName]
  | cons c behind ih =>
    have hc : isBlank c = true := hbehind c (by simp)
    have hgt : c ≠ '>' := ne_of_isBlank hc (by decide)
    simpa [readClosingName, hgt, hc] using ih (fun d hd => hbehind d (by simp [hd])) _

theorem readClosingName_name (name : List Char) {n behind : List Char} (hn : AllNameParts n)
    (hbehind : AllBlank behind) (s : List Char) :
    readClosingName name false (plain (n ++ (behind ++ '>' :: s))) =
      .ok (String.ofList (name ++ n), none, plain s) := by
  induction n generalizing name with
  | nil => rw [List.nil_append, List.append_nil, readClosingName_behind hbehind]
  | cons c n ih =>
    have hc : isNamePart c = true := hn c (by simp)
    have hgt : c ≠ '>' := ne_of_isNamePart hc (by decide)
    have hrest := ih (name ++ [c]) fun d hd => hn d (by simp [hd])
    rw [List.append_assoc, List.singleton_append] at hrest
    simpa [readClosingName, hgt, not_isBlank_of_isNamePart hc, hc] using hrest

theorem readClosingName_complete {before name behind : List Char} (hbefore : AllBlank before)
    (hname : AllNameParts name) (hbehind : AllBlank behind) (s : List Char) :
    readClosingName [] false (plain (before ++ (name ++ (behind ++ '>' :: s)))) =
      .ok (String.ofList name, none, plain s) := by
  induction before with
  | nil => exact readClosingName_name [] hname hbehind s
  | cons c before ih =>
    have hc : isBlank c = true := hbefore c (by simp)
    have hgt : c ≠ '>' := ne_of_isBlank hc (by decide)
    simpa [readClosingName, hgt, hc] using ih fun d hd => hbefore d (by simp [hd])

end LivePage.Markup
