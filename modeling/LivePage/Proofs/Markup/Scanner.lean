import LivePage.Markup.Reader

/-!
# Reading with a scanner

For the reader, the number of an insertion stands on the step before it. Here templates are read
without that help: a step of the scanner only says that an argument is due right after it, and it is
for whoever reads the step to take the argument before the next one. An argument can be taken once,
and a call that finds none gets a placeholder. The scanner records what every call got, and for what.

`scan` reads a template in this way, with one function for each function of the reader.
-/

namespace LivePage.Markup

open LivePage.Text

/-- What an argument is taken for. -/
inductive Role where
  /-- A child, or a node outside of every tag. -/
  | child
  /-- The whole value of an attribute. -/
  | value
  /-- A part of a quoted attribute value. -/
  | piece
  /-- The component of an opening tag. -/
  | component
  /-- The component of a closing tag. -/
  | pointer
deriving DecidableEq, Repr

/-- One step of the scanner: a character, unless a segment is empty, and whether an argument is due
right after it. -/
structure Seen where
  char? : Option Char
  flagged : Bool

/-- The text and the arguments of a template while it is read. Arguments are told apart by their
numbers. -/
structure Scanner where
  /-- What is left of the present segment, and the segments after it. -/
  segments : List (List Char)
  /-- The number of segments that have been read to their ends. -/
  segment : Nat := 0
  /-- The arguments that have not been taken. -/
  arguments : List (Option Nat)
  /-- What the arguments taken so far were taken for, and what was given. -/
  takes : List (Role × Nat) := []

namespace Scanner

/-- The next step, and the scanner behind it; nothing once every segment has been read. -/
def next (s : Scanner) : Option (Seen × Scanner) :=
  match s.segments with
  | [] | [[]] => none
  | [] :: later => some (⟨none, true⟩, { s with segments := later, segment := s.segment + 1 })
  | [c] :: later =>
    some (⟨some c, !later.isEmpty⟩, { s with segments := later, segment := s.segment + 1 })
  | (c :: d :: r) :: later => some (⟨some c, false⟩, { s with segments := (d :: r) :: later })

/-- What stands for an argument that is not there: the number behind the last argument. -/
def placeholder (s : Scanner) : Nat := s.arguments.length

/-- Takes the argument that is due after the segment read last, or the placeholder. -/
def take (s : Scanner) (role : Role) : Nat × Scanner :=
  match s.segment with
  | 0 => (s.placeholder, { s with takes := s.takes ++ [(role, s.placeholder)] })
  | k + 1 =>
    let given := s.arguments[k]?.join.getD s.placeholder
    (given, { s with arguments := s.arguments.set k none, takes := s.takes ++ [(role, given)] })

/-- A bound on the steps to come. -/
def left (s : Scanner) : Nat := s.segments.flatten.length + s.segments.length

theorem next_left {s s' : Scanner} {seen : Seen} (h : s.next = some (seen, s')) :
    s'.left < s.left := by
  unfold next at h
  split at h <;> cases h <;> simp_all [left]
  omega

@[simp] theorem take_left (s : Scanner) (role : Role) : (s.take role).2.left = s.left := by
  unfold take
  split <;> rfl

end Scanner

/-- What reading a part of a template gives, and the scanner after it. -/
abbrev Scanned (α : Type) := Except ParseError α × Scanner

/-! ## Tags -/

/-- The end of an opening tag, and whether an argument is due right after it. -/
inductive Ending where
  | opened (flagged : Bool)
  | selfClosed (flagged : Bool)

/-- The angle bracket that has to follow a slash. -/
def scanClose (s : Scanner) : Scanned Bool :=
  match s.next with
  | none => (.error .unexpectedEnd, s)
  | some (⟨some '>', flagged⟩, s) => (.ok flagged, s)
  | some (_, s) => (.error .expectedClosingSlash, s)

/-- The name of an opening tag. -/
def scanTagName (name : List Char) (s : Scanner) : Scanned (String × Option Ending) :=
  match h : s.next with
  | none => (.error .unexpectedEnd, s)
  | some (⟨none, _⟩, s) => (.error .insertionInTagName, s)
  | some (⟨some c, flagged⟩, s) =>
    have := Scanner.next_left h
    if isBlank c then
      if name.isEmpty then (.error (.invalidTagCharacter c), s)
      else if flagged then (.error .insertionInAttributeName, s)
      else (.ok (String.ofList name, none), s)
    else if c = '>' ∧ !name.isEmpty then (.ok (String.ofList name, some (.opened flagged)), s)
    else if c = '/' ∧ !name.isEmpty then
      if flagged then (.error .expectedClosingSlash, s)
      else
        match scanClose s with
        | (.error e, s) => (.error e, s)
        | (.ok flagged, s) => (.ok (String.ofList name, some (.selfClosed flagged)), s)
    else if flagged then (.error .insertionInTagName, s)
    else if isNamePart c then scanTagName (name ++ [c]) s
    else (.error (.invalidTagCharacter c), s)
termination_by s.left

/-- The argument due inside a quoted value, behind a run of it. -/
def scanPiece (ins : Nat → Insertion) (pieces : List Piece) (run : List Char) (s : Scanner) :
    Scanned (List Piece) :=
  match addLiteral pieces run with
  | .error e => (.error e, s)
  | .ok pieces =>
    let (k, s) := s.take .piece
    if (ins k).hasText then (.ok (pieces ++ [.inserted k]), s)
    else (.error (.unstringifiableInsertion (ins k).variant), s)

theorem scanClose_left (s : Scanner) : (scanClose s).2.left ≤ s.left := by
  unfold scanClose
  split <;> grind [→ Scanner.next_left]

theorem scanPiece_left (ins : Nat → Insertion) (pieces : List Piece) (run : List Char) (s : Scanner) :
    (scanPiece ins pieces run s).2.left = s.left := by
  unfold scanPiece
  split
  · rfl
  · dsimp only
    split <;> exact s.take_left .piece

/-- The rest of a quoted value, up to the closing quote. -/
def scanQuoted (ins : Nat → Insertion) (pieces : List Piece) (run : List Char) (s : Scanner) :
    Scanned (List Piece) :=
  match _h : s.next with
  | none => (.error .unexpectedEnd, s)
  | some (⟨none, _⟩, s) =>
    match _h' : scanPiece ins pieces run s with
    | (.error e, s) => (.error e, s)
    | (.ok pieces, s) => scanQuoted ins pieces [] s
  | some (⟨some c, flagged⟩, s) =>
    if c = '"' then
      if flagged then (.error .insertionInAttributeName, s)
      else (addLiteral pieces run, s)
    else if c = '\\' then
      if flagged then (.error .backslashBeforeInsertion, s)
      else
        match _h' : s.next with
        | none => (.error .unexpectedEnd, s)
        | some (⟨none, _⟩, s) => (.error .backslashBeforeInsertion, s)
        | some (⟨some c, flagged⟩, s) =>
          if flagged then
            match _h'' : scanPiece ins pieces (run ++ ['\\', c]) s with
            | (.error e, s) => (.error e, s)
            | (.ok pieces, s) => scanQuoted ins pieces [] s
          else scanQuoted ins pieces (run ++ ['\\', c]) s
    else if flagged then
      match _h' : scanPiece ins pieces (run ++ [c]) s with
      | (.error e, s) => (.error e, s)
      | (.ok pieces, s) => scanQuoted ins pieces [] s
    else scanQuoted ins pieces (run ++ [c]) s
termination_by s.left
decreasing_by all_goals grind [→ Scanner.next_left, scanPiece_left]

theorem scanQuoted_left (ins : Nat → Insertion) (pieces : List Piece) (run : List Char) (s : Scanner) :
    (scanQuoted ins pieces run s).2.left ≤ s.left := by
  fun_induction scanQuoted ins pieces run s <;> grind [→ Scanner.next_left, scanPiece_left]

/-- What the argument right after the opening quote, if any, contributes to a quoted value. -/
def scanOpenQuoted (ins : Nat → Insertion) (flagged : Bool) (s : Scanner) : Scanned (List Piece) :=
  if flagged then scanPiece ins [] [] s else (.ok [], s)

theorem scanOpenQuoted_left (ins : Nat → Insertion) (flagged : Bool) (s : Scanner) :
    (scanOpenQuoted ins flagged s).2.left = s.left := by
  unfold scanOpenQuoted
  split
  · exact scanPiece_left ..
  · rfl

/-- The value of the attribute `name`, from behind its equals sign. -/
def scanValue (ins : Nat → Insertion) (name : String) (s : Scanner) : Scanned Attribute :=
  match h : s.next with
  | none => (.error .unexpectedEnd, s)
  | some (⟨none, _⟩, s) =>
    let (k, s) := s.take .value
    (.ok (.inserted name k), s)
  | some (⟨some c, flagged⟩, s) =>
    have := Scanner.next_left h
    if c = '"' then
      match scanOpenQuoted ins flagged s with
      | (.error e, s) => (.error e, s)
      | (.ok pieces, s) =>
        match scanQuoted ins pieces [] s with
        | (.error e, s) => (.error e, s)
        | (.ok pieces, s) => (.ok (.quoted name pieces), s)
    else if isBlank c then
      if flagged then
        let (k, s) := s.take .value
        (.ok (.inserted name k), s)
      else scanValue ins name s
    else (.error .expectedQuote, s)
termination_by s.left

theorem scanValue_left (ins : Nat → Insertion) (name : String) (s : Scanner) :
    (scanValue ins name s).2.left ≤ s.left := by
  fun_induction scanValue ins name s <;>
    grind [→ Scanner.next_left, scanOpenQuoted_left, scanQuoted_left, Scanner.take_left]

/-- The attributes of an opening tag, up to its end. -/
def scanAttributes (ins : Nat → Insertion) (read : List Attribute) (name : List Char)
    (after : Bool) (s : Scanner) : Scanned (List Attribute × Ending) :=
  match h : s.next with
  | none => (.error .unexpectedEnd, s)
  | some (⟨none, _⟩, s) => (.error .insertionInAttributeName, s)
  | some (⟨some c, flagged⟩, s) =>
    have := Scanner.next_left h
    if c = '>' then (.ok (addValueless read name, .opened flagged), s)
    else if c = '/' then
      if flagged then (.error .expectedClosingSlash, s)
      else
        match scanClose s with
        | (.error e, s) => (.error e, s)
        | (.ok flagged, s) => (.ok (addValueless read name, .selfClosed flagged), s)
    else if c = '=' then
      if name.isEmpty then (.error .expectedAttributeName, s)
      else if flagged then
        match _h' : s.take .value with
        | (k, s) => scanAttributes ins (read ++ [.inserted (String.ofList name) k]) [] false s
      else
        match _h' : scanValue ins (String.ofList name) s with
        | (.error e, s) => (.error e, s)
        | (.ok a, s) => scanAttributes ins (read ++ [a]) [] false s
    else if isBlank c then
      if flagged then (.error .insertionInAttributeName, s)
      else scanAttributes ins read name (!name.isEmpty) s
    else if isNamePart c then
      if flagged then (.error .insertionInAttributeName, s)
      else if after then scanAttributes ins (addValueless read name) [c] false s
      else scanAttributes ins read (name ++ [c]) false s
    else if after then (.error (.expectedEquals c), s)
    else (.error (.invalidAttributeCharacter c), s)
termination_by s.left
decreasing_by all_goals grind [scanValue_left, Scanner.take_left]

/-- A whole opening tag of an element, from behind its angle bracket. -/
def scanElementTag (ins : Nat → Insertion) (s : Scanner) :
    Scanned (String × List Attribute × Ending) :=
  match scanTagName [] s with
  | (.error e, s) => (.error e, s)
  | (.ok (tag, some ending), s) => (.ok (tag, [], ending), s)
  | (.ok (tag, none), s) =>
    match scanAttributes ins [] [] false s with
    | (.error e, s) => (.error e, s)
    | (.ok (attributes, ending), s) => (.ok (tag, attributes, ending), s)

/-- The rest of a component's opening tag. -/
def scanComponentTag (s : Scanner) : Scanned Ending :=
  match h : s.next with
  | none => (.error .unexpectedEnd, s)
  | some (⟨none, _⟩, s) => (.error .componentAttributes, s)
  | some (⟨some c, flagged⟩, s) =>
    have := Scanner.next_left h
    if c = '>' then (.ok (.opened flagged), s)
    else if c = '/' then
      if flagged then (.error .expectedClosingSlash, s)
      else
        match scanClose s with
        | (.error e, s) => (.error e, s)
        | (.ok flagged, s) => (.ok (.selfClosed flagged), s)
    else if isBlank c ∧ !flagged then scanComponentTag s
    else (.error .componentAttributes, s)
termination_by s.left

/-- The rest of a closing tag with a name. -/
def scanClosingName (name : List Char) (after : Bool) (s : Scanner) : Scanned (String × Bool) :=
  match h : s.next with
  | none => (.error .unexpectedEnd, s)
  | some (⟨none, _⟩, s) => (.error .insertionInTagName, s)
  | some (⟨some c, flagged⟩, s) =>
    have := Scanner.next_left h
    if c = '>' then (.ok (String.ofList name, flagged), s)
    else if flagged then (.error .insertionInTagName, s)
    else if isBlank c then scanClosingName name (!name.isEmpty) s
    else if isNamePart c ∧ !after then scanClosingName (name ++ [c]) after s
    else (.error (.invalidTagCharacter c), s)
termination_by s.left

/-- The rest of a component's closing tag, behind the argument. -/
def scanClosingEnd (s : Scanner) : Scanned Bool :=
  match h : s.next with
  | none => (.error .unexpectedEnd, s)
  | some (⟨none, _⟩, s) => (.error .expectedClosingSlash, s)
  | some (⟨some c, flagged⟩, s) =>
    have := Scanner.next_left h
    if c = '>' then (.ok flagged, s)
    else if isBlank c ∧ !flagged then scanClosingEnd s
    else (.error .expectedClosingSlash, s)
termination_by s.left

/-- A closing tag from behind its slash, after which an argument may be due. -/
def scanClosingTag (ins : Nat → Insertion) (flagged : Bool) (s : Scanner) :
    Scanned (ClosingTag × Bool) :=
  if flagged then
    let (k, s) := s.take .pointer
    match (ins k).component? with
    | none => (.error (.expectedComponentPointer (ins k).variant), s)
    | some (_, false) => (.error (.expectedComponentPointer "component instance"), s)
    | some (name, true) =>
      match scanClosingEnd s with
      | (.error e, s) => (.error e, s)
      | (.ok flagged, s) => (.ok (.component name, flagged), s)
  else
    match scanClosingName [] false s with
    | (.error e, s) => (.error e, s)
    | (.ok (name, flagged), s) => (.ok (.element name, flagged), s)

/-! ## Steps that are left -/

theorem scanTagName_left (name : List Char) (s : Scanner) :
    (scanTagName name s).2.left ≤ s.left := by
  fun_induction scanTagName name s <;> grind [→ Scanner.next_left, scanClose_left]

theorem scanAttributes_left (ins : Nat → Insertion) (read : List Attribute) (name : List Char)
    (after : Bool) (s : Scanner) : (scanAttributes ins read name after s).2.left ≤ s.left := by
  fun_induction scanAttributes ins read name after s <;>
    grind [→ Scanner.next_left, scanClose_left, scanValue_left, Scanner.take_left]

theorem scanElementTag_left (ins : Nat → Insertion) (s : Scanner) :
    (scanElementTag ins s).2.left ≤ s.left := by
  grind [scanElementTag, scanTagName_left, scanAttributes_left]

theorem scanComponentTag_left (s : Scanner) : (scanComponentTag s).2.left ≤ s.left := by
  fun_induction scanComponentTag s <;> grind [→ Scanner.next_left, scanClose_left]

theorem scanClosingName_left (name : List Char) (after : Bool) (s : Scanner) :
    (scanClosingName name after s).2.left ≤ s.left := by
  fun_induction scanClosingName name after s <;> grind [→ Scanner.next_left]

theorem scanClosingEnd_left (s : Scanner) : (scanClosingEnd s).2.left ≤ s.left := by
  fun_induction scanClosingEnd s <;> grind [→ Scanner.next_left]

theorem scanClosingTag_left (ins : Nat → Insertion) (flagged : Bool) (s : Scanner) :
    (scanClosingTag ins flagged s).2.left ≤ s.left := by
  grind [scanClosingTag, scanClosingEnd_left, scanClosingName_left, Scanner.take_left]

/-! ## Content -/

/-- Takes an argument as a child, if one is due. -/
def scanChild (done : List Markup) (flagged : Bool) (s : Scanner) : List Markup × Scanner :=
  if flagged then
    let (k, s) := s.take .child
    (done ++ [.inserted k], s)
  else (done, s)

@[simp] theorem scanChild_left (done : List Markup) (flagged : Bool) (s : Scanner) :
    (scanChild done flagged s).2.left = s.left := by
  unfold scanChild
  split <;> simp

/-- Reads the rest of a template, inside the open tags of `stack`, behind the siblings `done` and the
text `run`. -/
def scanContent (ins : Nat → Insertion) (stack : List Frame) (done : List Markup) (run : List Char)
    (s : Scanner) : Scanned (List Markup) :=
  match _h : s.next with
  | none => (if stack.isEmpty then .ok done else .error .unexpectedEnd, s)
  | some (⟨none, _⟩, s) =>
    match _hc : scanChild (addText done run) true s with
    | (done, s) => scanContent ins stack done [] s
  | some (⟨some c, flagged⟩, s) =>
    if c = '<' then
      if flagged then
        match _hk : s.take .component with
        | (k, s) =>
          match (ins k).component? with
          | none => (.error .insertionInTagName, s)
          | some (name, _) =>
            match _ht : scanComponentTag s with
            | (.error e, s) => (.error e, s)
            | (.ok (.opened flagged), s) =>
              match _hc : scanChild [] flagged s with
              | (children, s) =>
                scanContent ins (⟨.component k name, addText done run⟩ :: stack) children [] s
            | (.ok (.selfClosed flagged), s) =>
              match _hc : scanChild (addText done run ++ [.component k none]) flagged s with
              | (done, s) => scanContent ins stack done [] s
      else
        match stack, _h' : s.next with
        | ⟨opening, before⟩ :: outer, some (⟨some '/', slash⟩, s) =>
          match _ht : scanClosingTag ins slash s with
          | (.error e, s) => (.error e, s)
          | (.ok (tag, flagged), s) =>
            if opening.isClosedBy tag then
              match _hc : scanChild (before ++ [opening.close (addText done run)]) flagged s with
              | (done, s) => scanContent ins outer done [] s
            else (.error (.tagMismatch opening.name tag.name), s)
        | stack, _ =>
          match _ht : scanElementTag ins s with
          | (.error e, s) => (.error e, s)
          | (.ok (tag, attributes, .opened flagged), s) =>
            match _hc : scanChild [] flagged s with
            | (children, s) =>
              scanContent ins (⟨.element tag attributes, addText done run⟩ :: stack) children [] s
          | (.ok (tag, attributes, .selfClosed flagged), s) =>
            match _hc : scanChild (addText done run ++ [.element tag attributes []]) flagged s with
            | (done, s) => scanContent ins stack done [] s
    else if stack.isEmpty then
      if isBlank c then
        match _hc : scanChild done flagged s with
        | (done, s) => scanContent ins stack done [] s
      else (.error (.expectedOpeningTag c), s)
    else if flagged then
      match _hc : scanChild (addText done (run ++ [c])) true s with
      | (done, s) => scanContent ins stack done [] s
    else scanContent ins stack done (run ++ [c]) s
termination_by s.left
decreasing_by
  all_goals
    grind [→ Scanner.next_left, scanComponentTag_left, scanClosingTag_left, scanElementTag_left,
      Scanner.take_left, scanChild_left]

/-- A template before anything of it has been read. -/
def Scanner.start (segments : List String) (arguments : Nat) : Scanner where
  segments := segments.map String.toList
  arguments := (List.range arguments).map some

/-- Reads a template with a scanner. -/
def scan (segments : List String) (ins : List Insertion) : Scanned (List Markup) :=
  if segments.length = ins.length + 1 then
    scanContent (fun k => ins.getD k ⟨"empty", true, none⟩) [] [] []
      (.start segments ins.length)
  else (.error (.segmentCountMismatch ins.length segments.length), .start segments ins.length)

end LivePage.Markup
