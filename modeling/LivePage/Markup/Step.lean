/-!
# Template steps

A template is a list of literal segments with one insertion between each two of them. The reader
sees it as one list of steps: the characters of the segments in order, where the last character of
a segment carries the insertion that is due right after it. An empty segment has no such
character, so its insertion is a step of its own.
-/

namespace LivePage.Markup

/-- One position of a template. -/
inductive Step where
  /-- A character, and the insertion due right after it, if any. -/
  | char (c : Char) (due : Option Nat)
  /-- An insertion that no character precedes, because its segment is empty. -/
  | insertion (k : Nat)
deriving DecidableEq, Repr

/-- The steps of a segment that insertion `k` follows. -/
def Step.ofSegment (k : Nat) : List Char → List Step
  | [] => [.insertion k]
  | [c] => [.char c (some k)]
  | c :: d :: r => .char c none :: ofSegment k (d :: r)

/-- The steps of the segments from the one that insertion `k` follows; no insertion follows the
last one. -/
def Step.ofSegments (k : Nat) : List String → List Step
  | [] => []
  | [s] => s.toList.map (.char · none)
  | s :: t :: r => ofSegment k s.toList ++ ofSegments (k + 1) (t :: r)

end LivePage.Markup
