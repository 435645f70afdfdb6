import LivePage.Options.Skip

/-!
# Options of realization

The options are read from data text: a table, in which only the field `debug` means something, or
a list with at most that one value. A missing value is false. A field that stands twice is a
fault, and so is anything behind the end.
-/

namespace LivePage

open LivePage.Text LivePage.Options

/-- How nodes are realized. -/
structure Options where
  /-- Are the comments around regions labelled? -/
  debug : Bool := false
deriving DecidableEq, Repr

namespace Options

/-- The options as data text. -/
def write (o : Options) : String :=
  "\x7b\"debug\":" ++ (if o.debug then "true" else "false") ++ "\x7d"

/-- A truth value behind blanks, and what follows it. -/
def readBool (s : List Char) : Option (Bool × List Char) :=
  match skipSpaces s with
  | 't' :: r => (skipWord ['r', 'u', 'e'] r).map (true, ·)
  | 'f' :: r => (skipWord ['a', 'l', 's', 'e'] r).map (false, ·)
  | _ => none

theorem readBool_length {s r : List Char} {b : Bool} (h : readBool s = some (b, r)) :
    r.length < s.length := by
  have hs := skipSpaces_length s
  unfold readBool at h
  split at h
  · next t ht =>
    rw [ht] at hs
    obtain ⟨u, hu, h⟩ := Option.map_eq_some_iff.1 h
    have := skipWord_length hu
    grind
  · next t ht =>
    rw [ht] at hs
    obtain ⟨u, hu, h⟩ := Option.map_eq_some_iff.1 h
    have := skipWord_length hu
    grind
  · simp at h

/-- The key of a field behind blanks, and what follows its colon. -/
def readKey (s : List Char) : Option (List Char × List Char) :=
  match skipSpaces s with
  | '"' :: r =>
    match takeBody r with
    | none => none
    | some (body, r) =>
      match decodeLiteral body, skipSpaces r with
      | some key, ':' :: r => some (key, r)
      | _, _ => none
  | _ => none

theorem readKey_length {s key r : List Char} (h : readKey s = some (key, r)) :
    r.length < s.length := by
  have hs := skipSpaces_length s
  unfold readKey at h
  split at h
  · next t ht =>
    rw [ht] at hs
    split at h
    · simp at h
    · next body u hu =>
      have := takeBody_length hu
      have hu' := skipSpaces_length u
      split at h
      · next v hv => rw [hv] at hu'; grind
      · simp at h
  · simp at h

/-- The value of a field, given what is known so far, and what follows it. -/
def readField (known : Option Bool) (key s : List Char) : Option (Option Bool × List Char) :=
  if key = "debug".toList then
    match known, readBool s with
    | none, some (b, r) => some (some b, r)
    | _, _ => none
  else
    match skipValue [] s with
    | some r => some (known, r)
    | none => none

theorem readField_length {known known' : Option Bool} {key s r : List Char}
    (h : readField known key s = some (known', r)) : r.length < s.length := by
  unfold readField at h
  repeat' split at h
  all_goals grind [→ readBool_length, → skipValue_length]

/-- The fields of a table up to its closing bracket, and what follows that. -/
def readFields (known : Option Bool) (s : List Char) : Option (Option Bool × List Char) :=
  match h : readKey s with
  | none => none
  | some (key, r) =>
    have := readKey_length h
    match h' : readField known key r with
    | none => none
    | some (known, r) =>
      have := readField_length h'
      match h'' : skipSpaces r with
      | ',' :: r =>
        have := h'' ▸ skipSpaces_length _
        readFields known r
      | '\x7d' :: r => some (known, r)
      | _ => none
termination_by s.length
decreasing_by grind

/-- The value of a list of at most one truth value, and what follows its closing bracket. -/
def readList (s : List Char) : Option (Option Bool × List Char) :=
  match skipSpaces s with
  | ']' :: r => some (none, r)
  | s =>
    match readBool s with
    | none => none
    | some (b, r) =>
      match skipSpaces r with
      | ']' :: r => some (some b, r)
      | _ => none

/-- The table or list at the start of data text, and what follows it. -/
def readFirst (s : List Char) : Option (Option Bool × List Char) :=
  match skipSpaces s with
  | '[' :: r => readList r
  | '\x7b' :: r =>
    match skipSpaces r with
    | '\x7d' :: r => some (none, r)
    | r => readFields none r
  | _ => none

/-- The options that data text stands for. -/
def read? (text : String) : Option Options :=
  match readFirst text.toList with
  | some (debug, r) => if (skipSpaces r).isEmpty then some ⟨debug.getD false⟩ else none
  | none => none

end Options

end LivePage
