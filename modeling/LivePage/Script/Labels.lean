/-!
# Labels in markup

The comments around labelled regions hold texts that differ from run to run: eight letters or
digits, with a slash before them in the closing comment. Where a script asks for markup, such a
text is replaced by its number among the labels, in the order in which they first appear.
-/

namespace LivePage.Labels

/-- The number of characters of a label. -/
def length : Nat := 8

/-- What a comment opens with. -/
def opening : List Char := ['<', '!', '-', '-']

/-- What a comment closes with. -/
def closing : List Char := ['-', '-', '>']

/-- A label that is all there is in the comment whose content begins here. -/
def label? (s : List Char) : Option (List Char) :=
  let label := s.take length
  if label.length = length && label.all Char.isAlphanum && closing.isPrefixOf (s.drop length) then
    some label
  else none

/-- The slash before the label of a closing comment. -/
def slash : List Char → List Char
  | '/' :: _ => ['/']
  | _ => []

/-- Replaces the labels in what is left of the markup. `known` are the labels found before, and
`skip` is the number of characters that belong to a comment already written. -/
def number (known : List (List Char)) (skip : Nat) : List Char → List Char
  | [] => []
  | c :: s =>
    match skip with
    | skip + 1 => number known skip s
    | 0 =>
      if opening.isPrefixOf (c :: s) then
        let content := (c :: s).drop opening.length
        let mark := slash content
        match label? (content.drop mark.length) with
        | none => c :: number known 0 s
        | some label =>
          let known := if known.contains label then known else known ++ [label]
          let shown := 'L' :: Nat.toDigits 10 (known.idxOf label)
          opening ++ mark ++ shown ++ closing
            ++ number known (opening.length + mark.length + length + closing.length - 1) s
      else c :: number known 0 s

/-- Markup with its labels numbered. -/
def inOrder (markup : String) : String := String.ofList (number [] 0 markup.toList)

end LivePage.Labels
