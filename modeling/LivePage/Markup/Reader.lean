import LivePage.Markup.Tag
import LivePage.Text.Escaped

/-!
# Reading templates

`read` turns the segments of a template into markup, in one pass over its steps. The tags that are
open at a point form a stack of frames, innermost first; a closing tag takes the top frame off and
puts the finished element among the siblings that were read before it.

Every insertion that is due becomes part of the result at its place: as a child, as an attribute
value or a part of one, or as the component of a tag. At any other place it is a fault.
-/

namespace LivePage.Markup

open LivePage.Text

/-- A tag whose closing tag has not been read. -/
inductive Opening where
  | element (tag : String) (attributes : List Attribute)
  /-- A component tag, with the name of the component inserted at `k`. -/
  | component (k : Nat) (name : String)

/-- The name that the closing tag has to match, as messages write it. -/
def Opening.name : Opening → String
  | element tag _ => tag
  | component _ name => name

/-- The markup of a tag once its closing tag has been read. -/
def Opening.close (children : List Markup) : Opening → Markup
  | element tag attributes => .element tag attributes children
  | component k _ => .component k (some children)

/-- Does the closing tag belong to the opening one? -/
def Opening.isClosedBy : Opening → ClosingTag → Bool
  | element tag _, .element name => tag == name
  | component _ name, .component other => name == other
  | _, _ => false

/-- An open tag and the siblings read before it. -/
structure Frame where
  opening : Opening
  before : List Markup

/-- What had been read when a fault stops the reader: an open element counts with the children
read so far; an open component is never rendered, so only its children count. -/
def pending (done : List Markup) : List Frame → List Markup
  | [] => done
  | ⟨.element tag attributes, before⟩ :: rest =>
    pending (before ++ [.element tag attributes done]) rest
  | ⟨.component _ _, before⟩ :: rest => pending (before ++ done) rest

/-- Siblings followed by the insertion due at this point. -/
def insertDue (done : List Markup) : Option Nat → List Markup
  | none => done
  | some k => done ++ [.inserted k]

/-- Siblings followed by a run of text, with its entities decoded; a run of blanks is dropped. -/
def addText (done : List Markup) (run : List Char) : List Markup :=
  if run.all isBlank then done else done ++ [.text (unescape (String.ofList run))]

/-- A whole opening tag of an element, from behind its angle bracket. A fault comes with the
element as far as it had been read. -/
def readElementTag (ins : Nat → Insertion) (s : List Step) :
    Except (ParseError × List Markup) (String × List Attribute × TagEnd × List Step) :=
  match readTagName [] s with
  | .error e => .error (e, [])
  | .ok (tag, some close, r) => .ok (tag, [], close, r)
  | .ok (tag, none, r) =>
    match readAttributes ins [] [] false r with
    | .error (e, read) => .error (e, [.element tag read []])
    | .ok (attributes, close, r) => .ok (tag, attributes, close, r)

theorem readElementTag_length {ins : Nat → Insertion} {s r : List Step} {tag : String}
    {attributes : List Attribute} {close : TagEnd}
    (h : readElementTag ins s = .ok (tag, attributes, close, r)) : r.length < s.length := by
  grind [readElementTag, → readTagName_length, → readAttributes_length]

/-- Reads the rest of a template. `stack` holds the open tags, `done` the finished siblings at
this point, and `run` the text read since the last of them. Text outside of every tag is a fault,
so `run` is empty there. -/
def readContent (ins : Nat → Insertion) (stack : List Frame) (done : List Markup)
    (run : List Char) (s : List Step) : Except Fault (List Markup) :=
  match s with
  | [] => if stack.isEmpty then .ok done else .error ⟨.unexpectedEnd, pending done stack⟩
  | .insertion k :: r => readContent ins stack (addText done run ++ [.inserted k]) [] r
  | .char '<' (some k) :: r =>
    let done := addText done run
    match (ins k).component? with
    | none => .error ⟨.insertionInTagName, pending done stack⟩
    | some (name, _) =>
      match h : readComponentTag r with
      | .error e => .error ⟨e, pending done stack⟩
      | .ok (.opened due, r') =>
        have := readComponentTag_length h
        readContent ins (⟨.component k name, done⟩ :: stack) (insertDue [] due) [] r'
      | .ok (.selfClosed due, r') =>
        have := readComponentTag_length h
        readContent ins stack (insertDue (done ++ [.component k none]) due) [] r'
  | .char '<' none :: r =>
    let done := addText done run
    match stack, r with
    | ⟨opening, before⟩ :: outer, .char '/' slash :: r =>
      match h : readClosingTag ins slash r with
      | .error e => .error ⟨e, pending done (⟨opening, before⟩ :: outer)⟩
      | .ok (tag, due, r') =>
        if opening.isClosedBy tag then
          have := readClosingTag_length h
          readContent ins outer (insertDue (before ++ [opening.close done]) due) [] r'
        else
          .error ⟨.tagMismatch opening.name tag.name, pending done (⟨opening, before⟩ :: outer)⟩
    | stack, r =>
      match h : readElementTag ins r with
      | .error (e, read) => .error ⟨e, pending (done ++ read) stack⟩
      | .ok (tag, attributes, .opened due, r') =>
        have := readElementTag_length h
        readContent ins (⟨.element tag attributes, done⟩ :: stack) (insertDue [] due) [] r'
      | .ok (tag, attributes, .selfClosed due, r') =>
        have := readElementTag_length h
        readContent ins stack (insertDue (done ++ [.element tag attributes []]) due) [] r'
  | .char c due :: r =>
    if stack.isEmpty then
      if isBlank c then readContent ins stack (insertDue done due) [] r
      else .error ⟨.expectedOpeningTag c, pending done stack⟩
    else
      match due with
      | none => readContent ins stack done (run ++ [c]) r
      | some k => readContent ins stack (addText done (run ++ [c]) ++ [.inserted k]) [] r
termination_by s.length

/-- The markup of a template whose insertions are as `ins` says. There must be one segment more
than insertions. -/
def read (segments : List String) (ins : List Insertion) : Except Fault (List Markup) :=
  if segments.length = ins.length + 1 then
    readContent (fun k => ins.getD k ⟨"empty", true, none⟩) [] [] [] (Step.ofSegments 0 segments)
  else .error ⟨.segmentCountMismatch ins.length segments.length, []⟩

end LivePage.Markup
