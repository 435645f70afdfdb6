import LivePage.Markup.Basic
import LivePage.Markup.Step
import LivePage.Text.Blank
import LivePage.Text.StringLiteral

/-!
# Tags

The parts of a tag, each read from the front of a list of steps: the name of an opening tag, the
quoted values, the attributes, and the two forms of a closing tag. Every reader hands back the
steps that it has not used; the lemmas `*_length` say that these are fewer.
-/

namespace LivePage.Markup

open LivePage.Text

/-- The letters, digits and the dash that names are made of. -/
def isNamePart (c : Char) : Bool := c.isAlphanum || c == '-'

/-- The end of an opening tag, with the insertion due right after it. -/
inductive TagEnd where
  | opened (due : Option Nat)
  | selfClosed (due : Option Nat)

/-- The angle bracket that has to follow a slash. -/
def readClose : List Step → Except ParseError (Option Nat × List Step)
  | [] => .error .unexpectedEnd
  | .char '>' due :: r => .ok (due, r)
  | _ => .error .expectedClosingSlash

/-- The name of an opening tag, from its second part on; `name` has been read. The result says
how the tag goes on: with attributes, or not at all. -/
def readTagName (name : List Char) :
    List Step → Except ParseError (String × Option TagEnd × List Step)
  | [] => .error .unexpectedEnd
  | .insertion _ :: _ => .error .insertionInTagName
  | .char c due :: r =>
    if isBlank c then
      if name.isEmpty then .error (.invalidTagCharacter c)
      else if due.isSome then .error .insertionInAttributeName
      else .ok (String.ofList name, none, r)
    else if c = '>' ∧ !name.isEmpty then .ok (String.ofList name, some (.opened due), r)
    else if c = '/' ∧ !name.isEmpty then
      if due.isSome then .error .expectedClosingSlash
      else
        match readClose r with
        | .error e => .error e
        | .ok (due, r) => .ok (String.ofList name, some (.selfClosed due), r)
    else if due.isSome then .error .insertionInTagName
    else if isNamePart c then readTagName (name ++ [c]) r
    else .error (.invalidTagCharacter c)

/-! ## Attribute values -/

/-- A run of a quoted value, decoded and put behind the pieces before it. -/
def addLiteral (pieces : List Piece) (run : List Char) : Except ParseError (List Piece) :=
  if run.isEmpty then .ok pieces
  else
    match decodeLiteral run with
    | some text => .ok (pieces ++ [.literal (String.ofList text)])
    | none => .error (.invalidStringLiteral (String.ofList run))

/-- A run of a quoted value and the insertion right after it. -/
def addInsertion (ins : Nat → Insertion) (pieces : List Piece) (run : List Char) (k : Nat) :
    Except ParseError (List Piece) :=
  match addLiteral pieces run with
  | .error e => .error e
  | .ok pieces =>
    if (ins k).hasText then .ok (pieces ++ [.inserted k])
    else .error (.unstringifiableInsertion (ins k).variant)

/-- The rest of a quoted value, up to the closing quote. -/
def readQuoted (ins : Nat → Insertion) (pieces : List Piece) (run : List Char) :
    List Step → Except ParseError (List Piece × List Step)
  | [] => .error .unexpectedEnd
  | .insertion k :: r =>
    match addInsertion ins pieces run k with
    | .error e => .error e
    | .ok pieces => readQuoted ins pieces [] r
  | .char '"' due :: r =>
    if due.isSome then .error .insertionInAttributeName
    else
      match addLiteral pieces run with
      | .error e => .error e
      | .ok pieces => .ok (pieces, r)
  | [.char '\\' due] =>
    if due.isSome then .error .backslashBeforeInsertion else .error .unexpectedEnd
  | .char '\\' _ :: .insertion _ :: _ => .error .backslashBeforeInsertion
  | .char '\\' due :: .char c after :: r =>
    if due.isSome then .error .backslashBeforeInsertion
    else
      match after with
      | none => readQuoted ins pieces (run ++ ['\\', c]) r
      | some k =>
        match addInsertion ins pieces (run ++ ['\\', c]) k with
        | .error e => .error e
        | .ok pieces => readQuoted ins pieces [] r
  | .char c none :: r => readQuoted ins pieces (run ++ [c]) r
  | .char c (some k) :: r =>
    match addInsertion ins pieces (run ++ [c]) k with
    | .error e => .error e
    | .ok pieces => readQuoted ins pieces [] r

/-- What the insertion right after the opening quote, if any, contributes to a quoted value. -/
def openQuoted (ins : Nat → Insertion) : Option Nat → Except ParseError (List Piece)
  | none => .ok []
  | some k => addInsertion ins [] [] k

/-- The value of the attribute `name`, from behind its equals sign: after blanks, a quoted value
or an insertion. -/
def readValue (ins : Nat → Insertion) (name : String) :
    List Step → Except ParseError (Attribute × List Step)
  | [] => .error .unexpectedEnd
  | .insertion k :: r => .ok (.inserted name k, r)
  | .char c due :: r =>
    if c = '"' then
      match openQuoted ins due with
      | .error e => .error e
      | .ok pieces =>
        match readQuoted ins pieces [] r with
        | .error e => .error e
        | .ok (pieces, r) => .ok (.quoted name pieces, r)
    else if isBlank c then
      match due with
      | none => readValue ins name r
      | some k => .ok (.inserted name k, r)
    else .error .expectedQuote

/-! ## Lengths -/

theorem readClose_length {s r : List Step} {due : Option Nat} (h : readClose s = .ok (due, r)) :
    r.length < s.length := by
  unfold readClose at h
  split at h <;> simp_all

theorem readTagName_length {name : List Char} {s r : List Step} {tag : String}
    {close : Option TagEnd} (h : readTagName name s = .ok (tag, close, r)) :
    r.length < s.length := by
  fun_induction readTagName name s <;> grind [→ readClose_length]

theorem readQuoted_length {ins : Nat → Insertion} {pieces : List Piece} {run : List Char}
    {s r : List Step} {value : List Piece} (h : readQuoted ins pieces run s = .ok (value, r)) :
    r.length < s.length := by
  fun_induction readQuoted ins pieces run s <;> grind

theorem readValue_length {ins : Nat → Insertion} {name : String} {s r : List Step}
    {a : Attribute} (h : readValue ins name s = .ok (a, r)) : r.length < s.length := by
  fun_induction readValue ins name s <;> grind [→ readQuoted_length]

/-! ## Attributes -/

/-- A name that stands alone becomes an attribute when the next thing begins. -/
def addValueless (read : List Attribute) (name : List Char) : List Attribute :=
  if name.isEmpty then read else read ++ [.valueless (String.ofList name)]

/-- The attributes of an opening tag, up to its end. `read` are those before, `name` is the part
of a name just read, and `after` says that blanks have followed it. A fault comes with the
attributes before it. -/
def readAttributes (ins : Nat → Insertion) (read : List Attribute) (name : List Char)
    (after : Bool) (s : List Step) :
    Except (ParseError × List Attribute) (List Attribute × TagEnd × List Step) :=
  match s with
  | [] => .error (.unexpectedEnd, read)
  | .insertion _ :: _ => .error (.insertionInAttributeName, read)
  | .char c due :: r =>
    if c = '>' then .ok (addValueless read name, .opened due, r)
    else if c = '/' then
      if due.isSome then .error (.expectedClosingSlash, read)
      else
        match readClose r with
        | .error e => .error (e, read)
        | .ok (due, r) => .ok (addValueless read name, .selfClosed due, r)
    else if c = '=' then
      if name.isEmpty then .error (.expectedAttributeName, read)
      else
        match due with
        | some k => readAttributes ins (read ++ [.inserted (String.ofList name) k]) [] false r
        | none =>
          match h : readValue ins (String.ofList name) r with
          | .error e => .error (e, read)
          | .ok (a, r') =>
            have := readValue_length h
            readAttributes ins (read ++ [a]) [] false r'
    else if isBlank c then
      if due.isSome then .error (.insertionInAttributeName, read)
      else readAttributes ins read name (!name.isEmpty) r
    else if isNamePart c then
      if due.isSome then .error (.insertionInAttributeName, read)
      else if after then readAttributes ins (addValueless read name) [c] false r
      else readAttributes ins read (name ++ [c]) false r
    else if after then .error (.expectedEquals c, read)
    else .error (.invalidAttributeCharacter c, read)
termination_by s.length

theorem readAttributes_length {ins : Nat → Insertion} {read : List Attribute} {name : List Char}
    {after : Bool} {s r : List Step} {attributes : List Attribute} {close : TagEnd}
    (h : readAttributes ins read name after s = .ok (attributes, close, r)) :
    r.length < s.length := by
  fun_induction readAttributes ins read name after s <;>
    grind [→ readClose_length, → readValue_length]

/-! ## Component tags and closing tags -/

/-- The rest of a component's opening tag, which takes no attributes. -/
def readComponentTag : List Step → Except ParseError (TagEnd × List Step)
  | [] => .error .unexpectedEnd
  | .insertion _ :: _ => .error .componentAttributes
  | .char c due :: r =>
    if c = '>' then .ok (.opened due, r)
    else if c = '/' then
      if due.isSome then .error .expectedClosingSlash
      else
        match readClose r with
        | .error e => .error e
        | .ok (due, r) => .ok (.selfClosed due, r)
    else if isBlank c ∧ due.isNone then readComponentTag r
    else .error .componentAttributes

/-- What a closing tag names. -/
inductive ClosingTag where
  | element (name : String)
  | component (name : String)
deriving DecidableEq

/-- The name as messages write it. -/
def ClosingTag.name : ClosingTag → String
  | element name => name
  | component name => name

/-- The rest of a closing tag with a name; blanks may follow the name, and precede it. -/
def readClosingName (name : List Char) (after : Bool) :
    List Step → Except ParseError (String × Option Nat × List Step)
  | [] => .error .unexpectedEnd
  | .insertion _ :: _ => .error .insertionInTagName
  | .char c due :: r =>
    if c = '>' then .ok (String.ofList name, due, r)
    else if due.isSome then .error .insertionInTagName
    else if isBlank c then readClosingName name (!name.isEmpty) r
    else if isNamePart c ∧ !after then readClosingName (name ++ [c]) after r
    else .error (.invalidTagCharacter c)

/-- The rest of a component's closing tag, behind the insertion. -/
def readClosingEnd : List Step → Except ParseError (Option Nat × List Step)
  | [] => .error .unexpectedEnd
  | .insertion _ :: _ => .error .expectedClosingSlash
  | .char c due :: r =>
    if c = '>' then .ok (due, r)
    else if isBlank c ∧ due.isNone then readClosingEnd r
    else .error .expectedClosingSlash

/-- A closing tag from behind its slash; `due` is the insertion right after the slash. It must be
the component itself: an instance cannot close a tag. -/
def readClosingTag (ins : Nat → Insertion) (due : Option Nat) (s : List Step) :
    Except ParseError (ClosingTag × Option Nat × List Step) :=
  match due with
  | none =>
    match readClosingName [] false s with
    | .error e => .error e
    | .ok (name, due, r) => .ok (.element name, due, r)
  | some k =>
    match (ins k).component? with
    | none => .error (.expectedComponentPointer (ins k).variant)
    | some (_, false) => .error (.expectedComponentPointer "component instance")
    | some (name, true) =>
      match readClosingEnd s with
      | .error e => .error e
      | .ok (due, r) => .ok (.component name, due, r)

theorem readComponentTag_length {s r : List Step} {close : TagEnd}
    (h : readComponentTag s = .ok (close, r)) : r.length < s.length := by
  fun_induction readComponentTag s <;> grind [→ readClose_length]

theorem readClosingName_length {name : List Char} {after : Bool} {s r : List Step} {tag : String}
    {due : Option Nat} (h : readClosingName name after s = .ok (tag, due, r)) :
    r.length < s.length := by
  fun_induction readClosingName name after s <;> grind

theorem readClosingEnd_length {s r : List Step} {due : Option Nat}
    (h : readClosingEnd s = .ok (due, r)) : r.length < s.length := by
  fun_induction readClosingEnd s <;> grind

theorem readClosingTag_length {ins : Nat → Insertion} {due after : Option Nat} {s r : List Step}
    {tag : ClosingTag} (h : readClosingTag ins due s = .ok (tag, after, r)) :
    r.length < s.length := by
  cases due <;> grind [readClosingTag, → readClosingName_length, → readClosingEnd_length]

end LivePage.Markup
