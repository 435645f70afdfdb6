/-!
# Character entities

Five characters cannot stand for themselves in markup text or in a quoted attribute value.
`escape` replaces each of them by its entity and leaves every other character alone, so it works
character by character. `unescape` searches a text for ampersands and replaces the entities that it
finds there; what it has decoded is never looked at again, and an ampersand that starts none of the
entities stays. `unescapeChars` says the same as one pass from the left.
-/

namespace LivePage.Text

/-- The written form of one character: its entity if it needs one, else the character itself. -/
def escapeChar : Char → List Char
  | '&' => ['&', 'a', 'm', 'p', ';']
  | '<' => ['&', 'l', 't', ';']
  | '>' => ['&', 'g', 't', ';']
  | '"' => ['&', 'q', 'u', 'o', 't', ';']
  | '\'' => ['&', '#', '3', '9', ';']
  | c => [c]

/-- The written form of a text, character by character. -/
def escapeChars (s : List Char) : List Char := s.flatMap escapeChar

/-- The text with the five special characters replaced by their entities. -/
def escape (s : String) : String := String.ofList (escapeChars s.toList)

/-- The entities and the characters that they stand for, in the order of the search. -/
def entities : List (List Char × Char) :=
  [(['&', 'a', 'm', 'p', ';'], '&'), (['&', 'l', 't', ';'], '<'), (['&', 'g', 't', ';'], '>'),
    (['&', 'q', 'u', 'o', 't', ';'], '"'), (['&', '#', '3', '9', ';'], '\'')]

/-- The entity that a text starts with, and its character. -/
def entityAt (s : List Char) : Option (List Char × Char) :=
  entities.find? fun entity => entity.1.isPrefixOf s

theorem entityAt_length {s entity : List Char} {c : Char} (h : entityAt s = some (entity, c)) :
    0 < entity.length := by
  have hmem : (entity, c) ∈ entities := List.mem_of_find?_eq_some h
  have hall : ∀ e ∈ entities, 0 < e.1.length := by decide
  exact hall _ hmem

/-- The search for entities: what stands before the next ampersand is kept, the entity that starts
there is replaced, and the search goes on behind it. -/
def decode (rest : List Char) : List Char :=
  match _hrest : rest.dropWhile (· != '&') with
  | [] => rest
  | c :: after =>
    match _hfound : entityAt (c :: after) with
    | some (entity, decoded) =>
      rest.takeWhile (· != '&') ++ decoded :: decode ((c :: after).drop entity.length)
    | none => rest.takeWhile (· != '&') ++ '&' :: decode after
termination_by rest.length
decreasing_by
  all_goals
    have hle : (rest.dropWhile (· != '&')).length ≤ rest.length :=
      (List.dropWhile_sublist _).length_le
    rw [_hrest] at hle
    simp only [List.length_cons, List.length_drop] at hle ⊢
  · have := entityAt_length _hfound
    omega
  · omega

/-- The text that a run of markup characters stands for. A text without an ampersand is given back
as it is. -/
def unescape (s : String) : String :=
  if s.toList.contains '&' then String.ofList (decode s.toList) else s

/-- One pass from the left: an entity becomes its character, anything else is kept. -/
def unescapeChars : List Char → List Char
  | [] => []
  | '&' :: 'a' :: 'm' :: 'p' :: ';' :: r => '&' :: unescapeChars r
  | '&' :: 'l' :: 't' :: ';' :: r => '<' :: unescapeChars r
  | '&' :: 'g' :: 't' :: ';' :: r => '>' :: unescapeChars r
  | '&' :: 'q' :: 'u' :: 'o' :: 't' :: ';' :: r => '"' :: unescapeChars r
  | '&' :: '#' :: '3' :: '9' :: ';' :: r => '\'' :: unescapeChars r
  | c :: r => c :: unescapeChars r

@[simp] theorem escapeChars_nil : escapeChars [] = [] := rfl

@[simp] theorem escapeChars_append (s t : List Char) :
    escapeChars (s ++ t) = escapeChars s ++ escapeChars t := by
  simp [escapeChars]

end LivePage.Text
