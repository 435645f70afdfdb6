import LivePage.Proofs.Markup.Places

/-!
# Insertions are used once, and in place

What a template has been read into holds the arguments that the scanner took, in the order of the
template and each in the role that it was taken for, but for those of closing tags
(`scanContent_kept`). With what the places of the insertions say (`follows_scan`) this is
`insertions_used_in_place`: every argument is taken once, in order, and stands where its insertion does;
and an insertion at a place of no use is refused, whatever is inserted.
-/

namespace LivePage.Markup

open LivePage.Text

/-! ## What markup holds -/

/-- The argument in a part of a quoted value. -/
def Piece.uses : Piece → List (Role × Nat)
  | literal _ => []
  | inserted k => [(.piece, k)]

/-- The arguments in an attribute. -/
def Attribute.uses : Attribute → List (Role × Nat)
  | quoted _ value => value.flatMap Piece.uses
  | inserted _ k => [(.value, k)]

mutual

/-- The arguments in a part of a template, in the order of the template. -/
def partUses : Markup → List (Role × Nat)
  | .text _ => []
  | .inserted k => [(.child, k)]
  | .element _ attributes children => attributes.flatMap Attribute.uses ++ partsUses children
  | .component k none => [(.component, k)]
  | .component k (some children) => (.component, k) :: partsUses children

/-- The arguments in parts of a template, in order. -/
def partsUses : List Markup → List (Role × Nat)
  | [] => []
  | m :: ms => partUses m ++ partsUses ms

end

/-- The arguments in an opening tag. -/
def Opening.uses : Opening → List (Role × Nat)
  | element _ attributes => attributes.flatMap Attribute.uses
  | component k _ => [(.component, k)]

/-- The arguments in the open tags and in what is before them, outermost first. -/
def Frame.usesAll : List Frame → List (Role × Nat)
  | [] => []
  | ⟨opening, before⟩ :: outer => usesAll outer ++ partsUses before ++ opening.uses

@[simp] theorem partsUses_append (ms ms' : List Markup) :
    partsUses (ms ++ ms') = partsUses ms ++ partsUses ms' := by
  induction ms with
  | nil => rfl
  | cons m ms ih => simp [partsUses, ih]

@[simp] theorem partsUses_single (m : Markup) : partsUses [m] = partUses m := by
  simp [partsUses]

@[simp] theorem partsUses_addText (done : List Markup) (run : List Char) :
    partsUses (addText done run) = partsUses done := by
  unfold addText
  split
  · rfl
  · simp [partUses]

@[simp] theorem partUses_close (opening : Opening) (children : List Markup) :
    partUses (opening.close children) = opening.uses ++ partsUses children := by
  cases opening <;> simp [Opening.close, Opening.uses, partUses]

/-! ## What a scanner keeps -/

namespace Scanner

/-- The takings whose arguments go into the markup: all but those of closing tags. -/
def kept (s : Scanner) : List (Role × Nat) := s.takes.filter (·.1 ≠ .pointer)

theorem next_kept {s s' : Scanner} {seen : Seen} (h : s.next = some (seen, s')) :
    s'.kept = s.kept := by
  unfold next at h
  split at h <;> cases h <;> rfl

theorem take_kept (s : Scanner) {role : Role} (h : role ≠ .pointer) :
    (s.take role).2.kept = s.kept ++ [(role, (s.take role).1)] := by
  unfold take kept
  split <;> simp [h]

theorem take_pointer_kept (s : Scanner) : (s.take .pointer).2.kept = s.kept := by
  unfold take kept
  split <;> simp

end Scanner

theorem addLiteral_uses {pieces pieces' : List Piece} {run : List Char}
    (h : addLiteral pieces run = .ok pieces') :
    pieces'.flatMap Piece.uses = pieces.flatMap Piece.uses := by
  unfold addLiteral at h
  grind [Piece.uses]

theorem addValueless_uses (read : List Attribute) (name : List Char) :
    (addValueless read name).flatMap Attribute.uses = read.flatMap Attribute.uses := by
  unfold addValueless
  split <;> simp [Attribute.uses, Attribute.valueless, Piece.uses]

theorem scanClose_kept (s : Scanner) : (scanClose s).2.kept = s.kept := by
  unfold scanClose
  split <;> grind [→ Scanner.next_kept]

theorem scanTagName_kept (name : List Char) (s : Scanner) :
    (scanTagName name s).2.kept = s.kept := by
  fun_induction scanTagName name s <;> grind [→ Scanner.next_kept, scanClose_kept]

theorem scanPiece_kept {ins : Nat → Insertion} {pieces pieces' : List Piece} {run : List Char}
    {s s' : Scanner} {base : List (Role × Nat)} (h : scanPiece ins pieces run s = (.ok pieces', s'))
    (hs : s.kept = base ++ pieces.flatMap Piece.uses) :
    s'.kept = base ++ pieces'.flatMap Piece.uses := by
  unfold scanPiece at h
  split at h
  · cases h
  · next hliteral =>
    dsimp only at h
    split at h <;> cases h
    rw [s.take_kept (by decide), hs, ← addLiteral_uses hliteral]
    simp [Piece.uses]

theorem scanQuoted_kept {ins : Nat → Insertion} {pieces pieces' : List Piece} {run : List Char}
    {s s' : Scanner} {base : List (Role × Nat)} (h : scanQuoted ins pieces run s = (.ok pieces', s'))
    (hs : s.kept = base ++ pieces.flatMap Piece.uses) :
    s'.kept = base ++ pieces'.flatMap Piece.uses := by
  fun_induction scanQuoted ins pieces run s <;>
    grind [→ Scanner.next_kept, → scanPiece_kept, → addLiteral_uses]

theorem scanOpenQuoted_kept {ins : Nat → Insertion} {flagged : Bool} {pieces : List Piece}
    {s s' : Scanner} (h : scanOpenQuoted ins flagged s = (.ok pieces, s')) :
    s'.kept = s.kept ++ pieces.flatMap Piece.uses := by
  unfold scanOpenQuoted at h
  split at h
  · exact scanPiece_kept h (by simp)
  · cases h
    simp

theorem scanValue_kept {ins : Nat → Insertion} {name : String} {a : Attribute} {s s' : Scanner}
    (h : scanValue ins name s = (.ok a, s')) : s'.kept = s.kept ++ a.uses := by
  fun_induction scanValue ins name s <;>
    grind [→ Scanner.next_kept, → scanOpenQuoted_kept, → scanQuoted_kept, Scanner.take_kept,
      Attribute.uses]

theorem scanAttributes_kept {ins : Nat → Insertion} {read attributes : List Attribute}
    {name : List Char} {after : Bool} {ending : Ending} {s s' : Scanner} {base : List (Role × Nat)}
    (h : scanAttributes ins read name after s = (.ok (attributes, ending), s'))
    (hs : s.kept = base ++ read.flatMap Attribute.uses) :
    s'.kept = base ++ attributes.flatMap Attribute.uses := by
  fun_induction scanAttributes ins read name after s <;>
    grind [→ Scanner.next_kept, scanClose_kept, → scanValue_kept, Scanner.take_kept,
      addValueless_uses, Attribute.uses]

theorem scanElementTag_kept {ins : Nat → Insertion} {tag : String} {attributes : List Attribute}
    {ending : Ending} {s s' : Scanner}
    (h : scanElementTag ins s = (.ok (tag, attributes, ending), s')) :
    s'.kept = s.kept ++ attributes.flatMap Attribute.uses := by
  have hname := scanTagName_kept [] s
  unfold scanElementTag at h
  split at h
  · cases h
  · next hscan =>
    cases h
    rw [hscan] at hname
    simp [hname]
  · next hscan =>
    rw [hscan] at hname
    split at h
    · cases h
    · next hscan' =>
      cases h
      exact scanAttributes_kept hscan' (by simp [hname])

theorem scanComponentTag_kept (s : Scanner) : (scanComponentTag s).2.kept = s.kept := by
  fun_induction scanComponentTag s <;> grind [→ Scanner.next_kept, scanClose_kept]

theorem scanClosingName_kept (name : List Char) (after : Bool) (s : Scanner) :
    (scanClosingName name after s).2.kept = s.kept := by
  fun_induction scanClosingName name after s <;> grind [→ Scanner.next_kept]

theorem scanClosingEnd_kept (s : Scanner) : (scanClosingEnd s).2.kept = s.kept := by
  fun_induction scanClosingEnd s <;> grind [→ Scanner.next_kept]

theorem scanClosingTag_kept (ins : Nat → Insertion) (flagged : Bool) (s : Scanner) :
    (scanClosingTag ins flagged s).2.kept = s.kept := by
  unfold scanClosingTag
  grind [scanClosingEnd_kept, scanClosingName_kept, Scanner.take_pointer_kept]

theorem scanChild_kept {done done' : List Markup} {flagged : Bool} {s s' : Scanner}
    (h : scanChild done flagged s = (done', s')) :
    ∃ more, done' = done ++ more ∧ s'.kept = s.kept ++ partsUses more := by
  have hkept : (s.take .child).2.kept = s.kept ++ [(.child, (s.take .child).1)] :=
    s.take_kept (by decide)
  grind [scanChild, partsUses, partUses]

/-- A template that has been read with a scanner holds what the scanner has kept. -/
theorem scanContent_kept {ins : Nat → Insertion} {stack : List Frame} {done ms : List Markup}
    {run : List Char} {s s' : Scanner} (h : scanContent ins stack done run s = (.ok ms, s'))
    (hs : s.kept = Frame.usesAll stack ++ partsUses done) : s'.kept = partsUses ms := by
  fun_induction scanContent ins stack done run s <;>
    grind [→ Scanner.next_kept, scanComponentTag_kept, scanClosingTag_kept, → scanElementTag_kept,
      → scanChild_kept, Scanner.take_kept, partUses, partsUses, Frame.usesAll, Opening.uses,
      partsUses_append, partsUses_single, partsUses_addText, partUses_close]

/-! ## Runs that come back -/

/-- From every world the run comes back with a result. -/
def Returns {α : Type} (x : Run α) : Prop := ∀ w, ∃ a w', x.run w = .ok a w'

section

variable {α β : Type} {x : Run α} {f : α → Run β}

theorem Returns.pure (a : α) : Returns (pure a : Run α) := fun w => ⟨a, w, rfl⟩

theorem Returns.bind (h : Returns x) (hf : ∀ a, Returns (f a)) : Returns (x >>= f) := by
  intro w
  obtain ⟨a, w₁, hx⟩ := h w
  obtain ⟨b, w₂, hb⟩ := hf a w₁
  exact ⟨b, w₂, ok_bind.2 ⟨a, w₁, hx, hb⟩⟩

theorem Returns.get : Returns (get : Run World) := fun w => ⟨w, w, rfl⟩

theorem returns_warn (text : String) : Returns (warn text) := fun _ => ⟨_, _, rfl⟩

theorem returns_childNode (v : Value) : Returns (childNode v) := by
  refine .bind .get fun w => ?_
  split
  · exact .bind (returns_warn _) fun _ => .pure _
  · exact .bind (.pure _) fun _ => .pure _

theorem returns_listen (parts : ElementParts) (name : String) (handler : HandlerId) :
    Returns (parts.listen name handler) := by
  unfold ElementParts.listen
  split
  · exact .pure _
  · exact .bind (returns_warn _) fun _ => .pure _

theorem returns_insert (parts : ElementParts) (name : String) (v : Value) :
    Returns (parts.insert name v) := by
  refine .bind .get fun w => ?_
  split
  case h_7 => exact returns_listen _ _ _
  case h_8 => exact .bind (fun _ => ⟨_, _, rfl⟩) fun _ => returns_listen _ _ _
  case h_9 => exact .bind (returns_warn _) fun _ => .pure _
  all_goals exact .pure _

theorem returns_addAll (arguments : List Value) (parts : ElementParts) (attributes : List Attribute) :
    Returns (parts.addAll arguments attributes) := by
  induction attributes generalizing parts with
  | nil => exact .pure _
  | cons a rest ih =>
    cases a with
    | quoted name pieces => exact .bind .get fun w => ih _
    | inserted name k => exact .bind (returns_insert _ _ _) fun parts => ih parts

end

/-- Every component renders to a node. -/
def Renders (call : Respond) : Prop := ∀ c props children, Returns (call (.invoke c props children))

variable {call : Respond}

mutual

theorem returns_ofMarkup (hcall : Renders call) (arguments : List Value) :
    (m : Markup) → Returns (Node.ofMarkup call arguments m)
  | .text _ => .pure _
  | .inserted _ => .bind (returns_childNode _) fun _ => .pure _
  | .element _ _ children =>
    .bind (returns_addAll _ _ _) fun _ =>
      .bind (returns_ofMarkups hcall arguments children) fun _ => .pure _
  | .component k none => by
    rw [Node.ofMarkup]
    split
    · exact .bind (hcall _ _ _) fun _ => .pure _
    · exact .pure _
  | .component k (some children) => by
    rw [Node.ofMarkup]
    refine .bind (returns_ofMarkups hcall arguments children) fun _ => ?_
    split
    · exact .bind (hcall _ _ _) fun _ => .pure _
    · exact .pure _

theorem returns_ofMarkups (hcall : Renders call) (arguments : List Value) :
    (ms : List Markup) → Returns (Node.ofMarkups call arguments ms)
  | [] => .pure _
  | m :: ms =>
    .bind (returns_ofMarkup hcall arguments m) fun _ =>
      .bind (returns_ofMarkups hcall arguments ms) fun _ => .pure _

end

/-- If all components render, parsing comes back with a node or an error. -/
theorem returns_parse (hcall : Renders call) (segments : List String) (arguments : List Value) :
    Returns (Node.parse call segments arguments) := by
  refine .bind .get fun w => ?_
  split
  · exact .bind (returns_ofMarkups hcall _ _) fun _ => .pure _
  · refine .bind (returns_ofMarkups hcall _ _) fun _ => ?_
    split <;> exact .pure _

/-! ## Parsing -/

/-- Parsing succeeds if reading does, and otherwise fails as it does. -/
theorem parse_read {segments : List String} {arguments : List Value} {w w' : World}
    {result : Except ParseError Node}
    (h : (Node.parse call segments arguments).run w = .ok result w') :
    result.map (fun _ => ()) =
      ((read segments (arguments.map w.insertion)).mapError Fault.error).map fun _ => () := by
  rw [Node.parse, ok_get_bind] at h
  split at h
  · next hread =>
    obtain ⟨_, _, -, h⟩ := ok_bind.1 h
    obtain ⟨rfl, -⟩ := ok_pure.1 h
    rw [hread]
    rfl
  · next hread =>
    obtain ⟨nodes, _, -, h⟩ := ok_bind.1 h
    rw [hread]
    split at h <;> obtain ⟨rfl, -⟩ := ok_pure.1 h <;> rfl

/-- A reading of a template with `n` arguments has used them in place. -/
structure UsedInPlace (segments : List String) (n : Nat) (scanned : Scanned (List Markup)) : Prop where
  /-- Up to its end, or to a fault, it got the arguments in order, each when it asked for one. -/
  in_order : ∃ m ≤ n, scanned.2.takes.map Prod.snd = List.range m
  /-- If it succeeds it has taken all of them, each for the role that goes with its place. -/
  in_place : ∀ ms, scanned.1 = .ok ms → ∀ k < n, ∃ role text,
    scanned.2.takes[k]? = some (role, k) ∧ (placeOf segments k).role? = some role ∧
      segments[k]? = some text ∧ (placeOf segments k).After text.toList
  /-- What has been read then holds the arguments in these roles, in order, but for the pointers of
  closing tags. -/
  used : ∀ ms, scanned.1 = .ok ms → partsUses ms = scanned.2.takes.filter (·.1 ≠ .pointer)
  /-- An insertion at a place without a role is an error. -/
  refused : ∀ k < n, (placeOf segments k).role? = none → ∃ e, scanned.1 = .error e

theorem usedInPlace_scan {segments : List String} {ins : List Insertion}
    (hlen : segments.length = ins.length + 1) :
    UsedInPlace segments ins.length (scan segments ins) := by
  have hn : (wanted segments).length = ins.length := by
    rw [length_wanted]
    omega
  have hget : ∀ k < ins.length, (wanted segments)[k]? = some ((placeOf segments k).role?, k) := by
    intro k hk
    simp [wanted, List.getElem?_range (show k < segments.length - 1 by omega)]
  have hprefix : (scan segments ins).2.taken <+: wanted segments ∧ ∀ ms,
      (scan segments ins).1 = .ok ms → (scan segments ins).2.taken = wanted segments := by
    have h := follows_scan hlen
    rcases hscan : scan segments ins with ⟨_ | ms, s⟩
    · rw [hscan] at h
      exact ⟨h.of_error.2, fun _ hms => by cases hms⟩
    · rw [hscan] at h
      obtain ⟨_, -, -, htaken⟩ := h.of_ok
      exact ⟨htaken ▸ List.prefix_rfl, fun _ _ => htaken⟩
  have hall : ∀ ms, (scan segments ins).1 = .ok ms → ∀ k < ins.length, ∃ role,
      (scan segments ins).2.takes[k]? = some (role, k) ∧
        (placeOf segments k).role? = some role := by
    intro ms hms k hk
    have := hget k hk
    rw [← hprefix.2 ms hms, Scanner.taken, List.getElem?_map, Option.map_eq_some_iff] at this
    obtain ⟨⟨role, k'⟩, htake, heq⟩ := this
    obtain ⟨hrole, rfl⟩ := Prod.mk.inj heq
    exact ⟨role, htake, hrole.symm⟩
  refine ⟨?_, ?_, ?_, ?_⟩
  · have hnumbers := hprefix.1.map Prod.snd
    rw [numbers_wanted, Scanner.taken, List.map_map, hn] at hnumbers
    rw [List.prefix_iff_eq_take, List.take_range] at hnumbers
    exact ⟨_, Nat.min_le_right _ _, hnumbers⟩
  · intro ms hms k hk
    obtain ⟨role, htake, hrole⟩ := hall ms hms k hk
    have htext : segments[k]? = some segments[k] := List.getElem?_eq_getElem (by omega)
    exact ⟨role, _, htake, hrole, htext, placeOf_after htext⟩
  · intro ms hms
    rw [scan, if_pos hlen] at hms ⊢
    exact (scanContent_kept (Prod.ext hms rfl) rfl).symm
  · intro k hk hrole
    cases hscan : (scan segments ins).1 with
    | error e => exact ⟨e, rfl⟩
    | ok ms =>
      obtain ⟨role, -, hrole'⟩ := hall ms hscan k hk
      rw [hrole] at hrole'
      cases hrole'

/-- Every insertion is used exactly once and in place. While a template is read, call after call for an
argument gets the next one, and never the placeholder. If parsing comes to a node, all arguments have
been taken, each in the role that goes with its place. An insertion at any other place is an error,
whatever is inserted, unless a component before it does not come back from rendering. -/
theorem insertions_used_in_place (call : Respond) (segments : List String) (arguments : List Value)
    (w : World) (hlen : segments.length = arguments.length + 1) :
    UsedInPlace segments arguments.length (scan segments (arguments.map w.insertion)) ∧
      (∀ result w', (Node.parse call segments arguments).run w = .ok result w' →
        result.map (fun _ => ()) = (scan segments (arguments.map w.insertion)).1.map fun _ => ()) ∧
      ∀ k < arguments.length, (placeOf segments k).role? = none → Renders call →
        ∃ e w', (Node.parse call segments arguments).run w = .ok (.error e) w' := by
  have hlen' : segments.length = (arguments.map w.insertion).length + 1 := by rw [hlen, List.length_map]
  have hused : UsedInPlace segments arguments.length (scan segments (arguments.map w.insertion)) :=
    List.length_map w.insertion ▸ usedInPlace_scan hlen'
  have hsame : ∀ result w', (Node.parse call segments arguments).run w = .ok result w' →
      result.map (fun _ => ()) =
        (scan segments (arguments.map w.insertion)).1.map fun _ => () := by
    intro result w' h
    rw [parse_read h]
    have hfollows := follows_scan hlen'
    generalize scan segments (arguments.map w.insertion) = scanned at hfollows
    obtain ⟨_ | ms, s⟩ := scanned
    · rw [hfollows.of_error.1]
    · obtain ⟨_, hread, rfl, -⟩ := hfollows.of_ok
      rw [hread]
  refine ⟨hused, hsame, fun k hk hrole hcall => ?_⟩
  obtain ⟨result, w', hrun⟩ := returns_parse hcall segments arguments w
  obtain ⟨e, he⟩ := hused.refused k hk hrole
  have h := hsame result w' hrun
  rw [he] at h
  cases result with
  | ok n => cases h
  | error e' => exact ⟨e', w', hrun⟩

theorem insertions_used_in_place_paragraph :
    let segments := ["<p title=\"", "\">", "</p>"]
    let arguments : List Value := [.scalar (.str "x"), .scalar (.str "y")]
    let call : Respond := fun
      | .invoke .. => return .empty
      | _ => throw .tooDeep
    let scanned := scan segments (arguments.map (World.insertion {}))
    (UsedInPlace segments 2 scanned ∧
      (∀ result w', (Node.parse call segments arguments).run {} = .ok result w' →
        result.map (fun _ => ()) = scanned.1.map fun _ => ()) ∧
      ∀ k < 2, (placeOf segments k).role? = none → Renders call →
        ∃ e w', (Node.parse call segments arguments).run {} = .ok (.error e) w') ∧
      scanned.2.takes = [(.piece, 0), (.child, 1)] ∧ scanned.1.isOk :=
  ⟨insertions_used_in_place _ _ [.scalar (.str "x"), .scalar (.str "y")] {} rfl, by decide +kernel, by decide +kernel⟩

/-- A backslash that is itself taken by a backslash before it does not keep an insertion out. -/
theorem inserted_behind_escaped_backslash :
    let segments := ["<p title=\"\\\\", "\"/>"]
    ['\\'] <:+ "<p title=\"\\\\".toList ∧ placeOf segments 0 = .quoted ∧
      ∃ n w', (Node.parse (fun _ => throw .tooDeep) segments [.scalar (.str "x")]).run {} =
        .ok (.ok n) w' := by
  have hparsed : (World.succeeded? (Node.parse (fun _ => throw .tooDeep) ["<p title=\"\\\\", "\"/>"]
      [.scalar (.str "x")]) {}).isSome := by decide +kernel
  exact ⟨by decide, by decide +kernel, _, _, World.run_of_succeeded hparsed⟩

end LivePage.Markup
