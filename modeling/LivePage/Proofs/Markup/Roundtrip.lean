import LivePage.Proofs.Markup.Reading
import LivePage.Node.Html

/-!
# Reading undoes writing

The markup that `Node.html` writes for a tree without anything that changes is in the grammar, and
the grammar reads the same tree in it. So a template made of that markup alone gives the tree back.
-/

namespace LivePage.Markup

open LivePage.Text Grammar

/-! ## Escaped text -/

theorem all_isBlank_escapeChars {s : List Char} (h : s.all isBlank = false) :
    (escapeChars s).all isBlank = false := by
  rw [List.all_eq_false] at h ⊢
  obtain ⟨c, hc, hb⟩ := h
  by_cases hs : c ∈ specialChars
  · refine ⟨'&', List.mem_flatMap.2 ⟨c, hc, ?_⟩, by decide⟩
    simp only [specialChars, List.mem_cons, List.not_mem_nil, or_false] at hs
    rcases hs with rfl | rfl | rfl | rfl | rfl <;> simp [escapeChar]
  · exact ⟨c, List.mem_flatMap.2 ⟨c, hc, by rw [escapeChar_eq hs]; simp⟩, hb⟩

theorem textNodes_escapeChars {s : String} (h : s.toList.all isBlank = false) :
    textNodes (escapeChars s.toList) = [.text s none] := by
  rw [textNodes, all_isBlank_escapeChars h, unescapeChars_escapeChars, String.ofList_toList]
  rfl

/-! ## Trees without anything that changes -/

/-- A value that is written as it is: no character of it has an entity or an escape. -/
def IsPlainValue (s : String) : Prop :=
  ∀ c ∈ s.toList, c ∉ specialChars ∧ c ≠ '\\' ∧ 0x20 ≤ c.toNat

/-- Attributes as an element has them: no name twice, and every value is plain text. -/
def IsPlainAttributes (attributes : Entries AttributeValue) : Prop :=
  (attributes.map Prod.fst).Nodup ∧
  ∀ entry ∈ attributes, IsName entry.1.toList ∧ ∃ s, entry.2 = .text s ∧ IsPlainValue s

mutual

/-- An element with plain attributes, nothing that drives it, no listeners, and such elements and
texts below it. -/
inductive IsStatic : Node → Prop where
  | element {tag : String} {attributes : Entries AttributeValue} {children : List Node} :
      IsName tag.toList → IsPlainAttributes attributes → AreStatic children →
      IsStatic (.element tag attributes [] children none)

/-- Elements and texts; a text is more than blanks, and no two of them are neighbours. -/
inductive AreStatic : List Node → Prop where
  | nil : AreStatic []
  | text {s : String} {rest : List Node} :
      s.toList.all isBlank = false → (∀ n ∈ rest.head?, n.tag ≠ .text) → AreStatic rest →
      AreStatic (.text s none :: rest)
  | element {n : Node} {rest : List Node} :
      IsStatic n → AreStatic rest → AreStatic (n :: rest)

end

/-! ## Written tags -/

theorem quotable_of_isPlainValue {s : String} (h : IsPlainValue s) : Quotable s.toList := by
  unfold IsPlainValue at h
  generalize s.toList = l at h
  induction l with
  | nil => exact .nil
  | cons c l ih =>
    obtain ⟨hspecial, hb, -⟩ := h c (by simp)
    refine .plain ?_ hb (ih fun d hd => h d (by simp [hd]))
    rintro rfl
    exact hspecial (by simp [specialChars])

theorem decodeLiteral_of_isPlainValue {s : String} (h : IsPlainValue s) :
    decodeLiteral s.toList = some s.toList := by
  unfold IsPlainValue at h
  generalize s.toList = l at h
  induction l with
  | nil => rfl
  | cons c l ih =>
    obtain ⟨hspecial, hb, hctl⟩ := h c (by simp)
    have hq : c ≠ '"' := by
      rintro rfl
      exact hspecial (by simp [specialChars])
    have := ih fun d hd => h d (by simp [hd])
    rw [decodeLiteral]
    · rw [if_neg (by simp [hb, hq]; exact hctl), this]
      rfl
    all_goals simp [hb]

theorem literal_of_isPlainValue {s : String} (h : IsPlainValue s) : Literal s.toList s :=
  ⟨quotable_of_isPlainValue h, s.toList, decodeLiteral_of_isPlainValue h, by simp⟩

/-- Attributes as they are written: name and text. -/
def writtenChars : List (String × String) → List Char
  | [] => []
  | (name, value) :: rest =>
    ' ' :: (name.toList ++ '=' :: '"' :: (value.toList ++ '"' :: writtenChars rest))

section
variable {written : List (String × String)}

theorem attributes_writtenChars {gap : List Char}
    (h : ∀ e ∈ written, IsName e.1.toList ∧ IsPlainValue e.2) (hgap : AllBlank gap) :
    Attributes (writtenChars written ++ gap) written := by
  induction written with
  | nil =>
    have := Attributes.nil.blanks hgap
    rwa [List.append_nil] at this
  | cons e written ih =>
    obtain ⟨name, value⟩ := e
    obtain ⟨hname, hvalue⟩ := h (name, value) (by simp)
    have hrest := ih fun e he => h e (by simp [he])
    have := Attributes.valued hname .nil .nil (literal_of_isPlainValue hvalue) hrest
    have := Attributes.blank (c := ' ') (by decide) this
    simpa [writtenChars] using this

/-- The blank in front of the first attribute, or of the end of a tag that closes itself, is the one
that the name of the tag ends at. -/
theorem inside_writtenChars {gap : List Char}
    (h : ∀ e ∈ written, IsName e.1.toList ∧ IsPlainValue e.2) (hgap : AllBlank gap) :
    Inside (writtenChars written ++ gap) written := by
  cases written with
  | nil =>
    cases gap with
    | nil => exact .nothing
    | cons c gap =>
      have hrest : AllBlank gap := fun d hd => hgap d (by simp [hd])
      exact .attributes (hgap c (by simp)) (attributes_writtenChars h hrest)
  | cons e written =>
    obtain ⟨name, value⟩ := e
    obtain ⟨hname, hvalue⟩ := h (name, value) (by simp)
    have hall : ∀ e ∈ written, IsName e.1.toList ∧ IsPlainValue e.2 :=
      fun e he => h e (by simp [he])
    have hrest := attributes_writtenChars hall hgap
    have := Attributes.valued hname .nil .nil (literal_of_isPlainValue hvalue) hrest
    have := Inside.attributes (c := ' ') (by decide) this
    simpa [writtenChars] using this

/-- Attributes whose names differ are all kept as they are written. -/
theorem keptAttributes_eq (h : (written.map Prod.fst).Nodup) :
    keptAttributes written = written.map fun e => (e.1, .text e.2) := by
  induction written using List.reverseRecOn with
  | nil => rfl
  | append_singleton written e ih =>
    rw [List.map_append, List.map_singleton, List.nodup_append] at h
    obtain ⟨hnodup, -, hdisjoint⟩ := h
    rw [← foldl_set_eq, List.foldl_append, foldl_set_eq, ih hnodup, List.foldl_cons, List.foldl_nil,
      Entries.set_of_notMem, List.map_append, List.map_singleton]
    rw [List.map_map]
    intro hmem
    exact hdisjoint e.1 hmem e.1 (by simp) rfl

end

/-- Attributes with their names and plain values, as they are written. -/
theorem IsPlainAttributes.written {attributes : Entries AttributeValue}
    (h : IsPlainAttributes attributes) :
    ∃ written : List (String × String), attributes = keptAttributes written ∧
      (∀ e ∈ written, IsName e.1.toList ∧ IsPlainValue e.2) ∧
      ∀ (w : World) (tag : String), (w.openingTag tag attributes).toList =
        '<' :: (tag.toList ++ writtenChars written) := by
  obtain ⟨hnodup, hplain⟩ := h
  obtain ⟨written, rfl, hall⟩ : ∃ written : List (String × String),
      attributes = (written.map fun e => (e.1, .text e.2)) ∧
      ∀ e ∈ written, IsName e.1.toList ∧ IsPlainValue e.2 := by
    clear hnodup
    induction attributes with
    | nil => exact ⟨[], rfl, by simp⟩
    | cons entry attributes ih =>
      obtain ⟨name, value⟩ := entry
      obtain ⟨hname, s, rfl, hs⟩ := hplain (name, value) (by simp)
      obtain ⟨written, rfl, hall⟩ := ih fun e he => hplain e (by simp [he])
      refine ⟨(name, s) :: written, rfl, ?_⟩
      intro e he
      rcases List.mem_cons.1 he with rfl | he
      · exact ⟨hname, hs⟩
      · exact hall e he
  refine ⟨written, (keptAttributes_eq ?_).symm, hall, fun w tag => ?_⟩
  · rwa [List.map_map] at hnodup
  clear hnodup hplain
  induction written with
  | nil => simp [World.openingTag, writtenChars]
  | cons e written ih =>
    obtain ⟨name, value⟩ := e
    have hvalue := (hall (name, value) (by simp)).2
    have hescape : escape value = value := by
      rw [escape, escapeChars_eq fun c hc => (hvalue c hc).1, String.ofList_toList]
    have hrest := ih fun e he => hall e (by simp [he])
    simp only [World.openingTag, String.toList_append, List.map_cons, String.join_cons] at hrest ⊢
    simp_all [World.writtenAttribute, World.attributeText?, writtenChars]

theorem html_element (call : Respond) (w : World) {tag : String} {attributes : Entries AttributeValue}
    {children : List Node} (hn : IsName tag.toList) (ha : IsPlainAttributes attributes)
    {content : String} (hrun : (Node.htmlAll call children).run w = .ok content w)
    (hc : IsContent content.toList children) :
    ∃ s, (Node.html call (.element tag attributes [] children none)).run w = .ok s w ∧
      IsElement s.toList (.element tag attributes [] children none) := by
  obtain ⟨written, hwritten, hall, htag⟩ := ha.written
  have hnode : Node.element tag attributes [] children none =
      elementNode tag.toList written children := by
    rw [elementNode, String.ofList_toList, hwritten]
  simp only [Node.html, ok_get_bind]
  split
  case isTrue hvoid =>
    obtain rfl : children = [] := by
      rw [Bool.and_eq_true, List.isEmpty_iff] at hvoid
      exact hvoid.2
    refine ⟨_, rfl, ?_⟩
    have hgap : AllBlank [' '] := AllBlank.nil.cons (by decide)
    have := IsElement.selfClosed hn (inside_writtenChars hall hgap)
    rw [← hnode] at this
    simpa [htag] using this
  case isFalse =>
    refine ⟨_, ok_bind.2 ⟨content, w, hrun, rfl⟩, ?_⟩
    have := IsElement.closed hn (inside_writtenChars hall .nil) hc .nil .nil
    rw [← hnode] at this
    simpa [htag] using this

/-! ## Written trees -/

mutual

theorem html_static (call : Respond) (w : World) {n : Node} : IsStatic n →
    ∃ s, (Node.html call n).run w = .ok s w ∧ IsElement s.toList n
  | .element hn ha hc => by
    obtain ⟨content, hrun, hcontent, -⟩ := htmlAll_static call w hc
    exact html_element call w hn ha hrun hcontent

/-- The content of an element. Text in front of it is told apart from it, unless it begins with
text itself. -/
theorem htmlAll_static (call : Respond) (w : World) {nodes : List Node} : AreStatic nodes →
    ∃ content, (Node.htmlAll call nodes).run w = .ok content w ∧
      IsContent content.toList nodes ∧
      ((∀ n ∈ nodes.head?, n.tag ≠ .text) → ∀ run, '<' ∉ run →
        IsContent (run ++ content.toList) (textNodes run ++ nodes))
  | .nil => by
    have hnil : IsContent [] [] := .text (by simp)
    refine ⟨"", rfl, hnil, fun _ run hrun => ?_⟩
    have := IsContent.text hrun
    simpa using this
  | @AreStatic.text s rest hs hnext hrest => by
    obtain ⟨content, hrun, -, hbefore⟩ := htmlAll_static call w hrest
    refine ⟨_, ok_bind.2 ⟨_, w, rfl, ok_bind.2 ⟨content, w, hrun, rfl⟩⟩, ?_, fun htext => ?_⟩
    · have := hbefore hnext _ (lt_notMem_escapeChars s.toList)
      rw [textNodes_escapeChars hs] at this
      simpa [escape] using this
    · exact absurd rfl (htext _ rfl)
  | @AreStatic.element n rest hn hrest => by
    obtain ⟨e, hrun, he⟩ := html_static call w hn
    obtain ⟨content, hrun', hcontent, -⟩ := htmlAll_static call w hrest
    have hall : ∀ run, '<' ∉ run →
        IsContent (run ++ (e ++ content).toList) (textNodes run ++ n :: rest) := by
      intro run hlt
      rw [String.toList_append]
      exact .element hlt he hcontent
    refine ⟨e ++ content, ok_bind.2 ⟨e, w, hrun, ok_bind.2 ⟨content, w, hrun', rfl⟩⟩,
      hall [] (by simp), fun _ => hall⟩

end

/-- A static tree is what its own markup says: whatever the markup is read next to, and in whichever
world, it gives the tree back. -/
theorem parse_html (call call' : Respond) (w w' : World) {n : Node} (h : IsStatic n) :
    ∃ s, (Node.html call n).run w = .ok s w ∧
      (Node.parse call' [s] []).run w' = .ok (.ok n) w' := by
  obtain ⟨s, hrun, he⟩ := html_static call w h
  refine ⟨s, hrun, ?_⟩
  have hdoc : IsDocument s.toList [n] := by
    have := IsDocument.element he .nil
    rwa [List.append_nil] at this
  exact parse_of_isDocument hdoc

theorem isName_of_all {s : String} (h : (!s.toList.isEmpty && s.toList.all isNamePart) = true) :
    IsName s.toList := by
  rw [Bool.and_eq_true, List.all_eq_true] at h
  exact ⟨by simpa using h.1, h.2⟩

theorem parse_html_paragraph :
    IsStatic (.element "p" [("title", .text "greeting")] []
      [.text "1 < 2 & 3" none, .element "br" [] [] [] none] none) ∧
    ∃ s, (Node.html (fun _ => throw .tooDeep) (.element "p" [("title", .text "greeting")] []
        [.text "1 < 2 & 3" none, .element "br" [] [] [] none] none)).run {} = .ok s {} ∧
      (Node.parse (fun _ => throw .tooDeep) [s] []).run {} =
        .ok (.ok (.element "p" [("title", .text "greeting")] []
          [.text "1 < 2 & 3" none, .element "br" [] [] [] none] none)) {} := by
  have hbr : IsStatic (.element "br" [] [] [] none) :=
    .element (isName_of_all (by decide)) ⟨by simp, by simp⟩ .nil
  have hp : IsStatic (.element "p" [("title", .text "greeting")] []
      [.text "1 < 2 & 3" none, .element "br" [] [] [] none] none) := by
    refine .element (isName_of_all (by decide)) ⟨by simp, ?_⟩
      (.text (by decide) (by simp [Node.tag]) (.element hbr .nil))
    intro entry he
    obtain rfl : entry = ("title", .text "greeting") := by simpa using he
    refine ⟨isName_of_all (by decide), "greeting", rfl, ?_⟩
    have : ("greeting".toList.all fun c => !specialChars.contains c && c != '\\' && 0x20 ≤ c.toNat) =
        true := by decide
    intro c hc
    simpa [and_assoc] using List.all_eq_true.1 this c hc
  exact ⟨hp, parse_html _ _ {} {} hp⟩

end LivePage.Markup
