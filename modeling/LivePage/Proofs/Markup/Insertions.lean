import LivePage.Proofs.Markup.Reading
import LivePage.Node.Html

/-!
# Inserted texts cannot change the markup

A template whose insertions are all texts is read without looking at them: whether it can be read,
and what its markup is but for the texts themselves, is decided by its segments. The parts of that
markup are computed from what has been read (`writtenParts`), and each inserted text comes out
escaped, at its places among them (`parse_texts`).
-/

namespace LivePage

namespace Entries

variable {α β : Type}

/-- The entries with their values changed by a function. -/
def mapValues (f : α → β) (entries : Entries α) : Entries β := entries.map fun e => (e.1, f e.2)

theorem set_mapValues (f : α → β) (name : String) (a : α) (entries : Entries α) :
    set name (f a) (mapValues f entries) = mapValues f (set name a entries) := by
  induction entries with
  | nil => rfl
  | cons e entries ih =>
    obtain ⟨other, b⟩ := e
    simp only [mapValues, List.map_cons, set] at ih ⊢
    split
    · rfl
    · rw [ih, List.map_cons]

end Entries

namespace Markup

open Text

/-- A part of written markup: a text that is always the same, or the place of an inserted one. -/
inductive Part (n : Nat) where
  | fixed (s : String)
  | argument (k : Fin n)
deriving DecidableEq, Repr

variable {n : Nat} {texts : Fin n → String}

/-- The text of a part, where `texts` have been inserted. -/
def Part.fill (texts : Fin n → String) : Part n → String
  | fixed s => s
  | argument k => texts k

/-- The part with its own text escaped. -/
def Part.escaped : Part n → Part n
  | fixed s => fixed (escape s)
  | argument k => argument k

/-- The text of all parts in order. -/
def fill (texts : Fin n → String) (parts : List (Part n)) : String :=
  String.join (parts.map (Part.fill texts))

@[simp] theorem fill_nil : fill texts [] = "" := rfl

@[simp] theorem fill_cons (part : Part n) (parts : List (Part n)) :
    fill texts (part :: parts) = part.fill texts ++ fill texts parts := by
  simp [fill]

@[simp] theorem fill_append (parts parts' : List (Part n)) :
    fill texts (parts ++ parts') = fill texts parts ++ fill texts parts' := by
  simp [fill]

/-- Escaping looks at single characters, so the inserted texts can be escaped one by one. -/
theorem escape_fill (parts : List (Part n)) :
    escape (fill texts parts) = fill (fun k => escape (texts k)) (parts.map Part.escaped) := by
  induction parts with
  | nil => rfl
  | cons part parts ih =>
    rw [List.map_cons, fill_cons, fill_cons, escape_append, ih]
    cases part <;> rfl

/-! ## What a template writes -/

/-- The place of an insertion, if there is one of this number. -/
def place (n k : Nat) : List (Part n) := if h : k < n then [.argument ⟨k, h⟩] else []

/-- The parts of a quoted value. -/
def quotedParts (n : Nat) (pieces : List Piece) : List (Part n) :=
  pieces.flatMap fun piece =>
    match piece with
    | .literal s => [.fixed s]
    | .inserted k => place n k

/-- The attributes of a tag behind those before: each name once, with the parts of the last value
that it is given. -/
def attributeParts (n : Nat) (entries : Entries (List (Part n))) :
    List Attribute → Entries (List (Part n))
  | [] => entries
  | .quoted name pieces :: rest =>
    attributeParts n (Entries.set name (quotedParts n pieces) entries) rest
  | .inserted name k :: rest =>
    attributeParts n (if k < n then Entries.set name (place n k) entries else entries) rest

/-- The parts of one written attribute. -/
def entryParts (entry : String × List (Part n)) : List (Part n) :=
  .fixed (" " ++ entry.1 ++ "=\"") :: (entry.2.map Part.escaped ++ [.fixed "\""])

/-- Does a part of a template give no node when texts are inserted? -/
def showsNothing (n : Nat) : Markup → Bool
  | .inserted k => n ≤ k
  | .component .. => true
  | .text _ | .element .. => false

mutual

/-- What a part of a template comes to in the markup of its node when texts are inserted. -/
def writtenParts (n : Nat) : Markup → List (Part n)
  | .text data => [.fixed (escape data)]
  | .inserted k => place n k
  | .element tag attributes children =>
    let opening := .fixed ("<" ++ tag) :: (attributeParts n [] attributes).flatMap entryParts
    if isVoidTag tag && children.all (showsNothing n) then opening ++ [.fixed " />"]
    else opening ++ .fixed ">" :: (allWritten n children ++ [.fixed ("</" ++ tag ++ ">")])
  | .component .. => []

/-- What parts of a template come to in order. -/
def allWritten (n : Nat) : List Markup → List (Part n)
  | [] => []
  | m :: rest => writtenParts n m ++ allWritten n rest

end

/-! ## Texts as arguments -/

/-- The texts as values that can be inserted. -/
def textArguments (texts : Fin n → String) : List Value := (List.ofFn texts).map Value.str

theorem insertedValue_texts (texts : Fin n → String) (k : Nat) :
    insertedValue (textArguments texts) k = if h : k < n then .str (texts ⟨k, h⟩) else .empty := by
  unfold insertedValue textArguments
  split
  · next h => simp [List.getD_eq_getElem?_getD, h]
  · next h => simp [List.getD_eq_getElem?_getD, Nat.le_of_not_lt h]

/-- The reader is told the same of every text. -/
theorem insertions_texts (w : World) (texts : Fin n → String) :
    (textArguments texts).map w.insertion = List.replicate n ⟨"text", true, none⟩ := by
  have h : ∀ v ∈ textArguments texts, w.insertion v = ⟨"text", true, none⟩ := by
    intro v hv
    obtain ⟨s, -, rfl⟩ := List.mem_map.1 hv
    simp [World.insertion, Value.str, Value.variant, World.text?, Value.textWith]
  rw [List.map_congr_left h, List.map_const']
  simp [textArguments]

theorem childNode_str (s : String) (w : World) :
    (childNode (.str s)).run w = .ok (.text s none) w := by
  simp [childNode, World.leadsToStyle, Value.str, World.nodeOf, World.nodeWith, World.insertable,
    Value.insertableWith, Scalar.text]

theorem childNode_empty (w : World) : (childNode .empty).run w = .ok .empty w := by
  simp [childNode, World.leadsToStyle, World.nodeOf, World.nodeWith, World.insertable,
    Value.insertableWith]

theorem quotedText_texts (w : World) (texts : Fin n → String) (pieces : List Piece) :
    w.quotedText (textArguments texts) pieces = fill texts (quotedParts n pieces) := by
  unfold World.quotedText quotedParts
  induction pieces with
  | nil => rfl
  | cons piece pieces ih =>
    rw [List.map_cons, String.join_cons, List.flatMap_cons, fill_append, ih]
    congr 1
    cases piece with
    | literal s => simp [Part.fill]
    | inserted k =>
      simp only [insertedValue_texts, place]
      split
      · simp [World.textOf, World.text?, Value.str, Value.textWith, Scalar.text, Part.fill]
      · rfl

/-- An attribute value whose parts have been filled. -/
def filledValue (texts : Fin n → String) (parts : List (Part n)) : AttributeValue :=
  .text (fill texts parts)

theorem insert_texts (w : World) (texts : Fin n → String) (parts : ElementParts) (name : String)
    (k : Nat) :
    (parts.insert name (insertedValue (textArguments texts) k)).run w =
      .ok (if k < n then parts.set name (filledValue texts (place n k)) else parts) w := by
  rw [ElementParts.insert, ok_get_bind, insertedValue_texts]
  by_cases h : k < n
  · simp [h, place, filledValue, Part.fill, Value.str, World.insertable, Value.insertableWith,
      Scalar.text]
  · simp [h, World.insertable, Value.insertableWith]

theorem addAll_texts (w : World) (texts : Fin n → String) (attributes : List Attribute)
    (parts : ElementParts) (entries : Entries (List (Part n)))
    (h : parts.attributes = Entries.mapValues (filledValue texts) entries) :
    (ElementParts.addAll (textArguments texts) parts attributes).run w =
      .ok { parts with
        attributes := Entries.mapValues (filledValue texts) (attributeParts n entries attributes) } w := by
  induction attributes generalizing parts entries with
  | nil =>
    rw [attributeParts, ← h]
    rfl
  | cons a attributes ih =>
    cases a with
    | quoted name pieces =>
      rw [ElementParts.addAll, ok_get_bind, quotedText_texts]
      refine ih (parts.set name (.text (fill texts (quotedParts n pieces)))) _ ?_
      rw [ElementParts.set, h]
      exact Entries.set_mapValues (filledValue texts) ..
    | inserted name k =>
      rw [ElementParts.addAll, ok_bind]
      refine ⟨_, w, insert_texts w texts parts name k, ?_⟩
      rw [attributeParts]
      split
      · refine ih (parts.set name (filledValue texts (place n k))) _ ?_
        rw [ElementParts.set, h]
        exact Entries.set_mapValues (filledValue texts) ..
      · exact ih parts entries h

/-! ## The markup of a template -/

theorem openingTag_filled (w : World) (tag : String) (entries : Entries (List (Part n))) :
    w.openingTag tag (Entries.mapValues (filledValue texts) entries) =
      fill (fun k => escape (texts k)) (.fixed ("<" ++ tag) :: entries.flatMap entryParts) := by
  rw [World.openingTag, fill_cons]
  refine congrArg (("<" ++ tag) ++ ·) ?_
  induction entries with
  | nil => rfl
  | cons entry entries ih =>
    rw [Entries.mapValues] at ih ⊢
    rw [List.map_cons, List.map_cons, String.join_cons, ih, List.flatMap_cons, fill_append]
    refine congrArg (· ++ _) ?_
    simp [World.writtenAttribute, World.attributeText?, filledValue, entryParts, Part.fill,
      escape_fill, String.append_assoc]

theorem htmlAll_append {call : Respond} {nodes nodes' : List Node} {s t : String} {w w₁ w₂ : World}
    (h : (Node.htmlAll call nodes).run w = .ok s w₁)
    (h' : (Node.htmlAll call nodes').run w₁ = .ok t w₂) :
    (Node.htmlAll call (nodes ++ nodes')).run w = .ok (s ++ t) w₂ := by
  induction nodes generalizing s w with
  | nil =>
    obtain ⟨rfl, rfl⟩ := ok_pure.1 h
    simpa using h'
  | cons m nodes ih =>
    obtain ⟨first, w', hfirst, hrest⟩ := ok_bind.1 h
    obtain ⟨others, w'', hothers, hpure⟩ := ok_bind.1 hrest
    obtain ⟨rfl, rfl⟩ := ok_pure.1 hpure
    rw [List.cons_append, String.append_assoc]
    exact ok_bind.2 ⟨first, w', hfirst, ok_bind.2 ⟨_, _, ih hothers, rfl⟩⟩

theorem htmlAll_single {call : Respond} {m : Node} {s : String} {w w' : World} :
    (Node.htmlAll call [m]).run w = .ok s w' ↔ (Node.html call m).run w = .ok s w' := by
  simp [Node.htmlAll]

/-- The nodes are written as the parts say, wherever they are written. -/
def Writing (texts : Fin n → String) (nodes : List Node) (parts : List (Part n)) : Prop :=
  ∀ (call : Respond) (w : World),
    (Node.htmlAll call nodes).run w = .ok (fill (fun k => escape (texts k)) parts) w

theorem writing_element {tag : String} {attributes : List Attribute} {children : List Node}
    {parts : List (Part n)} (h : Writing texts children parts) :
    Writing texts
      [.element tag (Entries.mapValues (filledValue texts) (attributeParts n [] attributes)) []
        children none]
      (let opening := .fixed ("<" ++ tag) :: (attributeParts n [] attributes).flatMap entryParts
        if isVoidTag tag && children.isEmpty then opening ++ [.fixed " />"]
        else opening ++ .fixed ">" :: (parts ++ [.fixed ("</" ++ tag ++ ">")])) := by
  intro call w
  refine htmlAll_single.2 ?_
  rw [Node.html, ok_get_bind, openingTag_filled]
  dsimp only
  split
  · rw [fill_append]
    rfl
  · refine ok_bind.2 ⟨_, w, h call w, ?_⟩
    simp [Part.fill, String.append_assoc]

mutual

/-- What becomes of a part of a template in which texts are inserted. -/
theorem ofMarkup_texts (call : Respond) (w : World) (texts : Fin n → String) : (m : Markup) →
    ∃ nodes, (Node.ofMarkup call (textArguments texts) m).run w = .ok nodes w ∧
      nodes.isEmpty = showsNothing n m ∧ Writing texts nodes (writtenParts n m)
  | .text data => by
    refine ⟨_, rfl, rfl, fun call w => ?_⟩
    refine htmlAll_single.2 ?_
    simp [Node.html, writtenParts, Part.fill]
  | .inserted k => by
    rw [Node.ofMarkup, insertedValue_texts]
    by_cases h : k < n
    · rw [dif_pos h]
      refine ⟨_, ok_bind.2 ⟨_, w, childNode_str _ w, rfl⟩, by simp [showsNothing, h, Node.isEmpty],
        fun call w => htmlAll_single.2 ?_⟩
      simp [writtenParts, place, h, Node.html, Part.fill]
    · rw [dif_neg h]
      refine ⟨_, ok_bind.2 ⟨_, w, childNode_empty w, rfl⟩,
        by simp [showsNothing, Nat.le_of_not_lt h, Node.isEmpty], fun call w => ?_⟩
      simp [writtenParts, place, h, Node.htmlAll, Node.isEmpty]
  | .element tag attributes children => by
    obtain ⟨nodes, hrun, hempty, hwrite⟩ := ofMarkups_texts call w texts children
    refine ⟨_, ok_bind.2 ⟨_, w, addAll_texts w texts attributes {} [] rfl, ok_bind.2
      ⟨nodes, w, hrun, rfl⟩⟩, rfl, ?_⟩
    rw [writtenParts, ← hempty]
    exact writing_element hwrite
  | .component k none => by
    refine ⟨[], ?_, rfl, fun _ _ => rfl⟩
    rw [Node.ofMarkup, insertedValue_texts]
    by_cases h : k < n
    · rw [dif_pos h]
      rfl
    · rw [dif_neg h]
      rfl
  | .component k (some children) => by
    obtain ⟨nodes, hrun, -⟩ := ofMarkups_texts call w texts children
    refine ⟨[], ok_bind.2 ⟨nodes, w, hrun, ?_⟩, rfl, fun _ _ => rfl⟩
    rw [insertedValue_texts]
    by_cases h : k < n
    · rw [dif_pos h]
      rfl
    · rw [dif_neg h]
      rfl

theorem ofMarkups_texts (call : Respond) (w : World) (texts : Fin n → String) : (ms : List Markup) →
    ∃ nodes, (Node.ofMarkups call (textArguments texts) ms).run w = .ok nodes w ∧
      nodes.isEmpty = ms.all (showsNothing n) ∧ Writing texts nodes (allWritten n ms)
  | [] => ⟨[], rfl, rfl, fun _ _ => rfl⟩
  | m :: rest => by
    obtain ⟨first, hfirst, hempty, hwrite⟩ := ofMarkup_texts call w texts m
    obtain ⟨others, hothers, hempty', hwrite'⟩ := ofMarkups_texts call w texts rest
    refine ⟨first ++ others, ok_bind.2 ⟨first, w, hfirst, ok_bind.2 ⟨others, w, hothers, rfl⟩⟩, ?_,
      fun call w => ?_⟩
    · rw [List.all_cons, ← hempty, ← hempty']
      cases first <;> rfl
    · rw [allWritten, fill_append]
      exact htmlAll_append (hwrite call w) (hwrite' call w)

end

/-- Inserted texts cannot change the markup. Either reading the template fails with the same fault
for all texts, or there are parts, fixed by the segments alone, such that with any texts inserted the
markup of the template's node is these parts, with the texts escaped at their places. -/
theorem parse_texts (segments : List String) :
    (∃ e, ∀ (call : Respond) (texts : Fin (segments.length - 1) → String) (w : World),
      (Node.parse call segments (textArguments texts)).run w = .ok (.error e) w) ∨
    ∃ parts : List (Part (segments.length - 1)),
      ∀ (call : Respond) (texts : Fin (segments.length - 1) → String) (w : World),
        ∃ node, (Node.parse call segments (textArguments texts)).run w = .ok (.ok node) w ∧
          ∀ (call' : Respond) (w' : World),
            (Node.html call' node).run w' = .ok (fill (fun k => escape (texts k)) parts) w' := by
  cases hread : read segments (List.replicate (segments.length - 1) ⟨"text", true, none⟩) with
  | error fault =>
    refine .inl ⟨fault.error, fun call texts w => ?_⟩
    obtain ⟨nodes, hrun, -⟩ := ofMarkups_texts call w texts fault.read
    rw [Node.parse, ok_get_bind, insertions_texts, hread]
    exact ok_bind.2 ⟨nodes, w, hrun, rfl⟩
  | ok forest =>
    refine .inr ⟨allWritten _ forest, fun call texts w => ?_⟩
    obtain ⟨nodes, hrun, -, hwrite⟩ := ofMarkups_texts call w texts forest
    rw [Node.parse]
    simp only [ok_get_bind, insertions_texts, hread]
    rcases nodes with _ | ⟨m, _ | ⟨m', rest⟩⟩
    · exact ⟨_, ok_bind.2 ⟨[], w, hrun, rfl⟩, hwrite⟩
    · exact ⟨m, ok_bind.2 ⟨[m], w, hrun, rfl⟩, fun call' w' => htmlAll_single.1 (hwrite call' w')⟩
    · refine ⟨_, ok_bind.2 ⟨_, w, hrun, rfl⟩, fun call' w' => ?_⟩
      simp only [Node.wrap]
      exact hwrite call' w'

end Markup

end LivePage
