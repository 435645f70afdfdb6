import LivePage.Text.StringLiteral

/-!
# Skipping values in data text

A value that nobody asks for is passed over: a literal name, a number, a text, or a list or table
of values. It has to be well formed, except that the hexadecimal escapes of a skipped text need
not stand for characters. Each reader gives back what follows, or nothing at a fault; brackets
that are open at a point form a stack.
-/

namespace LivePage.Options

open LivePage.Text

/-- The blanks between the parts of data text. -/
def isSpace (c : Char) : Bool := c = ' ' || c = '\n' || c = '\t' || c = '\r'

/-- What follows leading blanks. -/
def skipSpaces (s : List Char) : List Char := s.dropWhile isSpace

theorem skipSpaces_length (s : List Char) : (skipSpaces s).length ≤ s.length :=
  (List.dropWhile_sublist isSpace).length_le

/-- What follows a word. -/
def skipWord : (word : List Char) → List Char → Option (List Char)
  | [], s => some s
  | c :: word, d :: s => if c = d then skipWord word s else none
  | _ :: _, [] => none

theorem skipWord_length {word s r : List Char} (h : skipWord word s = some r) :
    r.length ≤ s.length := by
  fun_induction skipWord word s <;> grind

/-- What follows leading digits, of which there has to be one. -/
def skipDigits : List Char → Option (List Char)
  | c :: s => if c.isDigit then some (s.dropWhile Char.isDigit) else none
  | [] => none

theorem skipDigits_length {s r : List Char} (h : skipDigits s = some r) : r.length ≤ s.length := by
  cases s with
  | nil => simp [skipDigits] at h
  | cons c s =>
    have := (List.dropWhile_sublist (l := s) Char.isDigit).length_le
    grind [skipDigits]

/-- What follows the whole part of a number, which has no leading zero. -/
def skipWhole : List Char → Option (List Char)
  | '0' :: c :: s => if c.isDigit then none else some (c :: s)
  | s => skipDigits s

theorem skipWhole_length {s r : List Char} (h : skipWhole s = some r) : r.length ≤ s.length := by
  unfold skipWhole at h
  split at h
  · grind
  · exact skipDigits_length h

/-- What follows the places behind a point, if there are some. -/
def skipPlaces : List Char → Option (List Char)
  | '.' :: s => skipDigits s
  | s => some s

theorem skipPlaces_length {s r : List Char} (h : skipPlaces s = some r) :
    r.length ≤ s.length := by
  unfold skipPlaces at h
  split at h
  · have := skipDigits_length h; grind
  · grind

/-- What follows a sign, if there is one. -/
def skipSign : List Char → List Char
  | '+' :: s | '-' :: s => s
  | s => s

theorem skipSign_length (s : List Char) : (skipSign s).length ≤ s.length := by
  unfold skipSign
  split <;> grind

/-- What follows an exponent, if there is one. -/
def skipExponent : List Char → Option (List Char)
  | 'e' :: s | 'E' :: s => skipDigits (skipSign s)
  | s => some s

theorem skipExponent_length {s r : List Char} (h : skipExponent s = some r) :
    r.length ≤ s.length := by
  unfold skipExponent at h
  split at h
  · next s => have := skipDigits_length h; have := skipSign_length s; grind
  · next s => have := skipDigits_length h; have := skipSign_length s; grind
  · grind

/-- What follows a number without its sign. -/
def skipNumber (s : List Char) : Option (List Char) :=
  match skipWhole s with
  | none => none
  | some r =>
    match skipPlaces r with
    | none => none
    | some r => skipExponent r

theorem skipNumber_length {s r : List Char} (h : skipNumber s = some r) : r.length ≤ s.length := by
  grind [skipNumber, → skipWhole_length, → skipPlaces_length, → skipExponent_length]

/-! ## Texts -/

/-- The body of a text up to its closing quote, and what follows that. A quote behind a backslash
does not close. -/
def takeBody : List Char → Option (List Char × List Char)
  | [] => none
  | '"' :: r => some ([], r)
  | '\\' :: c :: r =>
    match takeBody r with
    | none => none
    | some (body, rest) => some ('\\' :: c :: body, rest)
  | c :: r =>
    match takeBody r with
    | none => none
    | some (body, rest) => some (c :: body, rest)

theorem takeBody_length {s body r : List Char} (h : takeBody s = some (body, r)) :
    r.length < s.length := by
  fun_induction takeBody s generalizing body r <;> grind

/-- Can a text with this body be skipped? Its escapes have to be well formed. -/
def isSkippable : List Char → Bool
  | [] => true
  | '\\' :: 'u' :: a :: b :: c :: d :: r => (hexUnit? a b c d).isSome && isSkippable r
  | '\\' :: e :: r => (shortEscape? e).isSome && isSkippable r
  | c :: r => c ≠ '\\' && 0x20 ≤ c.toNat && isSkippable r

/-- What follows a text, from behind its opening quote. -/
def skipText (s : List Char) : Option (List Char) :=
  match takeBody s with
  | some (body, r) => if isSkippable body then some r else none
  | none => none

theorem skipText_length {s r : List Char} (h : skipText s = some r) : r.length < s.length := by
  grind [skipText, → takeBody_length]

/-! ## Values -/

/-- The brackets around lists and tables. -/
inductive Bracket where
  | list
  | table
deriving DecidableEq, Repr

/-- The character that closes a bracket. -/
def Bracket.closing : Bracket → Char
  | list => ']'
  | table => '\x7d'

/-- What begins at a point: a value that is over already, or a bracket. -/
inductive Begun where
  | whole
  | opened (b : Bracket)

/-- What follows a value without brackets that begins with `c`. -/
def skipPlain (c : Char) (s : List Char) : Option (List Char) :=
  if c = 'n' then skipWord ['u', 'l', 'l'] s
  else if c = 't' then skipWord ['r', 'u', 'e'] s
  else if c = 'f' then skipWord ['a', 'l', 's', 'e'] s
  else if c = '"' then skipText s
  else if c = '-' then skipNumber s
  else if c.isDigit then skipNumber (c :: s)
  else none

theorem skipNumber_cons_length {c : Char} {s r : List Char} (hc : c.isDigit)
    (h : skipNumber (c :: s) = some r) : r.length < (c :: s).length := by
  have hw : ∀ t, skipWhole (c :: s) = some t → t.length < (c :: s).length := by
    intro t ht
    have := (List.dropWhile_sublist (l := s) Char.isDigit).length_le
    unfold skipWhole at ht
    split at ht <;> grind [skipDigits]
  grind [skipNumber, → skipPlaces_length, → skipExponent_length]

theorem skipPlain_length {c : Char} {s r : List Char} (h : skipPlain c s = some r) :
    r.length < (c :: s).length := by
  unfold skipPlain at h
  repeat' split at h
  · have := skipWord_length h; grind
  · have := skipWord_length h; grind
  · have := skipWord_length h; grind
  · have := skipText_length h; grind
  · have := skipNumber_length h; grind
  · next hc => exact skipNumber_cons_length hc h
  · simp at h

/-- Skips a value without brackets, or an opening bracket. -/
def skipAtom (s : List Char) : Option (Begun × List Char) :=
  match skipSpaces s with
  | [] => none
  | c :: r =>
    if c = '[' then some (.opened .list, r)
    else if c = '\x7b' then some (.opened .table, r)
    else
      match skipPlain c r with
      | none => none
      | some rest => some (.whole, rest)

theorem skipAtom_length {s r : List Char} {b : Begun} (h : skipAtom s = some (b, r)) :
    r.length < s.length := by
  have hs := skipSpaces_length s
  grind [skipAtom, → skipPlain_length]

/-- What follows the key of an item and its colon; an item of a list has no key. -/
def skipKey (b : Bracket) (s : List Char) : Option (List Char) :=
  match b with
  | .list => some s
  | .table =>
    match skipSpaces s with
    | '"' :: r =>
      match skipText r with
      | none => none
      | some r =>
        match skipSpaces r with
        | ':' :: r => some r
        | _ => none
    | _ => none

theorem skipKey_length {b : Bracket} {s r : List Char} (h : skipKey b s = some r) :
    r.length ≤ s.length := by
  unfold skipKey at h
  split at h
  · grind
  · have hs := skipSpaces_length s
    split at h
    · next t ht =>
      rw [ht] at hs
      split at h
      · simp at h
      · next u hu =>
        have := skipText_length hu
        have hu' := skipSpaces_length u
        split at h
        · next v hv => rw [hv] at hu'; grind
        · simp at h
    · simp at h

mutual

/-- What follows a value and the brackets in `stack`, which are open around it. -/
def skipValue (stack : List Bracket) (s : List Char) : Option (List Char) :=
  match h : skipAtom s with
  | none => none
  | some (.whole, r) =>
    have := skipAtom_length h
    skipClosing stack r
  | some (.opened b, r) =>
    have := skipAtom_length h
    match h' : skipSpaces r with
    | [] => none
    | c :: t =>
      have := h' ▸ skipSpaces_length r
      if c = b.closing then skipClosing stack t
      else
        match h'' : skipKey b (c :: t) with
        | none => none
        | some u =>
          have := skipKey_length h''
          skipValue (b :: stack) u
termination_by s.length
decreasing_by all_goals grind

/-- What follows the brackets in `stack` after an item of the innermost one. -/
def skipClosing (stack : List Bracket) (s : List Char) : Option (List Char) :=
  match stack with
  | [] => some s
  | b :: outer =>
    match h : skipSpaces s with
    | [] => none
    | c :: r =>
      have := h ▸ skipSpaces_length s
      if c = b.closing then skipClosing outer r
      else if c = ',' then
        match h' : skipKey b r with
        | none => none
        | some t =>
          have := skipKey_length h'
          skipValue (b :: outer) t
      else none
termination_by s.length
decreasing_by all_goals grind

end

mutual

theorem skipValue_length {stack : List Bracket} {s r : List Char}
    (h : skipValue stack s = some r) : r.length < s.length := by
  unfold skipValue at h
  split at h
  · simp at h
  · next t ht =>
    have := skipAtom_length ht
    have := skipClosing_length h
    grind
  · next b t ht =>
    have := skipAtom_length ht
    split at h
    · simp at h
    · next c u hu =>
      have := hu ▸ skipSpaces_length t
      split at h
      · have := skipClosing_length h
        grind
      · split at h
        · simp at h
        · next v hv =>
          have := skipKey_length hv
          have := skipValue_length h
          grind
termination_by s.length
decreasing_by all_goals grind

theorem skipClosing_length {stack : List Bracket} {s r : List Char}
    (h : skipClosing stack s = some r) : r.length ≤ s.length := by
  unfold skipClosing at h
  split at h
  · grind
  · split at h
    · simp at h
    · next c t ht =>
      have := ht ▸ skipSpaces_length s
      split at h
      · have := skipClosing_length h
        grind
      · split at h
        · split at h
          · simp at h
          · next u hu =>
            have := skipKey_length hu
            have := skipValue_length h
            grind
        · simp at h
termination_by s.length
decreasing_by all_goals grind

end

end LivePage.Options
