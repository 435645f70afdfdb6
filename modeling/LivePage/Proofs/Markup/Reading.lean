import LivePage.Proofs.Markup.Entities
import LivePage.Proofs.Markup.Tags
import LivePage.Proofs.Run.Basic
import Mathlib.Data.List.Induction

/-!
# Templates are read as the grammar says

The reader keeps a stack of open tags; the grammar nests. The two meet at the closing tag of the
innermost open element: what is read up to there is the content of that element
(`readContent_inner_sound`), and an element is read in one go whatever is around it
(`readContent_element`).
-/

namespace LivePage.Markup

open LivePage.Text Grammar

variable {ins : Nat → Insertion} {stack : List Frame} {done : List Markup} {run s : List Char}

/-! ## One step of the reader -/

theorem readContent_text {c : Char} (hc : c ≠ '<') (hstack : stack ≠ []) :
    readContent ins stack done run (plain (c :: s)) =
      readContent ins stack done (run ++ [c]) (plain s) := by
  rw [plain_cons, readContent]
  · simp [hstack]
  · simp
  · simpa using hc

theorem readContent_outer {c : Char} (hc : c ≠ '<') :
    readContent ins [] done run (plain (c :: s)) =
      if isBlank c then readContent ins [] done [] (plain s)
      else .error ⟨.expectedOpeningTag c, done⟩ := by
  rw [plain_cons, readContent]
  · simp [insertDue, pending]
  · simp
  · simpa using hc

theorem readContent_closing {f : Frame} {outer : List Frame} :
    readContent ins (f :: outer) done run (plain ('<' :: '/' :: s)) =
      match readClosingName [] false (plain s) with
      | .error e => .error ⟨e, pending (addText done run) (f :: outer)⟩
      | .ok (tag, due, r) =>
        if f.opening.isClosedBy (.element tag) then
          readContent ins outer (insertDue (f.before ++ [f.opening.close (addText done run)]) due) [] r
        else
          .error ⟨.tagMismatch f.opening.name tag, pending (addText done run) (f :: outer)⟩ := by
  obtain ⟨opening, before⟩ := f
  rw [plain_cons, plain_cons, readContent]
  simp only
  split
  case h_1 e h =>
    cases hname : readClosingName [] false (plain s) with
    | error e' =>
      rw [readClosingTag] at h
      simp only [hname] at h
      cases h
      rfl
    | ok out => simp [readClosingTag, hname] at h
  case h_2 tag due r h =>
    cases hname : readClosingName [] false (plain s) with
    | error e' => simp [readClosingTag, hname] at h
    | ok out =>
      rw [readClosingTag] at h
      simp only [hname] at h
      cases h
      rfl

theorem readContent_opening (hs : stack = [] ∨ s.head? ≠ some '/') :
    readContent ins stack done run (plain ('<' :: s)) =
      match readElementTag ins (plain s) with
      | .error (e, read) => .error ⟨e, pending (addText done run ++ read) stack⟩
      | .ok (tag, attributes, .opened due, r) =>
        readContent ins (⟨.element tag attributes, addText done run⟩ :: stack) (insertDue [] due) [] r
      | .ok (tag, attributes, .selfClosed due, r) =>
        readContent ins stack (insertDue (addText done run ++ [.element tag attributes []]) due) [] r
      := by
  rw [plain_cons, readContent]
  · simp only
    split <;> rename_i h <;> simp only [h]
  · rintro opening before outer slash r rfl hr
    obtain hnil | hhead := hs
    · contradiction
    · cases s with
      | nil => simp at hr
      | cons c s =>
        rw [plain_cons] at hr
        cases hr
        simp at hhead

/-! ## The nodes of what has been read -/

theorem ofMarkups_append (call : Respond) (arguments : List Value) (ms ms' : List Markup) :
    Node.ofMarkups call arguments (ms ++ ms') = (do
      let first ← Node.ofMarkups call arguments ms
      let others ← Node.ofMarkups call arguments ms'
      return first ++ others) := by
  induction ms with
  | nil => simp [Node.ofMarkups]
  | cons m ms ih =>
    simp only [List.cons_append, Node.ofMarkups, ih, bind_assoc, pure_bind, List.append_assoc]

/-- In every world, the nodes of `ms` are these, and nothing else happens. -/
def Yields (ms : List Markup) (nodes : List Node) : Prop :=
  ∀ (call : Respond) (w : World), (Node.ofMarkups call [] ms).run w = .ok nodes w

namespace Yields

variable {ms ms' : List Markup} {nodes nodes' : List Node}

theorem nil : Yields [] [] := fun _ _ => rfl

theorem append (h : Yields ms nodes) (h' : Yields ms' nodes') :
    Yields (ms ++ ms') (nodes ++ nodes') := by
  intro call w
  rw [ofMarkups_append, ok_bind]
  refine ⟨nodes, w, h call w, ?_⟩
  rw [ok_bind]
  exact ⟨nodes', w, h' call w, rfl⟩

end Yields

theorem ofMarkups_single (call : Respond) (m : Markup) (w : World) :
    (Node.ofMarkups call [] [m]).run w = (Node.ofMarkup call [] m).run w := by
  rw [Node.ofMarkups, Node.ofMarkups]
  simp

/-! ### Text -/

/-- The markup of a run of text. -/
def textMarkup (run : List Char) : List Markup :=
  if run.all isBlank then [] else [.text (String.ofList (unescapeChars run))]

theorem addText_eq (done : List Markup) (run : List Char) :
    addText done run = done ++ textMarkup run := by
  unfold addText textMarkup
  split <;> simp [unescape_eq]

theorem yields_textMarkup (run : List Char) : Yields (textMarkup run) (textNodes run) := by
  unfold textMarkup textNodes
  split
  · exact .nil
  · intro call w
    rw [ofMarkups_single]
    rfl

/-! ### Elements -/

theorem addAll_writes {attributes : List Attribute} {written : List (String × String)}
    (h : List.Forall₂ Writes attributes written) (parts : ElementParts) (w : World) :
    (ElementParts.addAll [] parts attributes).run w =
      .ok { parts with
        attributes := written.foldl (fun es e => Entries.set e.1 (.text e.2) es) parts.attributes } w := by
  induction h generalizing parts with
  | nil => rfl
  | @cons a e attributes written ha _ ih =>
    obtain ⟨pieces, rfl, hv⟩ := ha
    rw [ElementParts.addAll, ok_get_bind, hv, ih]
    rfl

theorem set_map {α : Type} {names : List String} (hnodup : names.Nodup) (f : String → α)
    (name : String) (a : α) :
    Entries.set name a (names.map fun n => (n, f n)) =
      (if name ∈ names then names else names ++ [name]).map
        fun n => (n, if n = name then a else f n) := by
  induction names with
  | nil => simp [Entries.set]
  | cons n names ih =>
    obtain ⟨hn, hnodup⟩ := List.nodup_cons.1 hnodup
    by_cases he : n = name
    · subst he
      have hrest : ∀ x ∈ names, (x, f x) = (x, if x = n then a else f x) := by
        intro x hx
        have hne : x ≠ n := fun h => hn (h ▸ hx)
        rw [if_neg hne]
      simpa [Entries.set] using hrest
    · have := ih hnodup
      simp only [List.map_cons, Entries.set, if_neg he, this, List.mem_cons, Ne.symm he, false_or]
      split <;> simp [he]

/-- Setting the attributes one after the other keeps first places and last values. -/
theorem foldl_set_eq (written : List (String × String)) :
    written.foldl (fun es e => Entries.set e.1 (.text e.2) es) [] = keptAttributes written := by
  induction written using List.reverseRecOn with
  | nil => rfl
  | append_singleton written e ih =>
    obtain ⟨name, value⟩ := e
    rw [List.foldl_append, ih]
    simp only [List.foldl_cons, List.foldl_nil]
    unfold keptAttributes
    rw [set_map (List.nodup_reverse.2 (List.nodup_dedup _))]
    have hnames : (((written ++ [(name, value)]).map Prod.fst).reverse.dedup.reverse) =
        if name ∈ (written.map Prod.fst).reverse.dedup.reverse then
          (written.map Prod.fst).reverse.dedup.reverse
        else (written.map Prod.fst).reverse.dedup.reverse ++ [name] := by
      simp only [List.map_append, List.map_cons, List.map_nil, List.reverse_append,
        List.reverse_cons, List.reverse_nil, List.nil_append, List.singleton_append,
        List.mem_reverse, List.mem_dedup]
      split
      case isTrue h => rw [List.dedup_cons_of_mem (by simpa using h)]
      case isFalse h => rw [List.dedup_cons_of_notMem (by simpa using h), List.reverse_cons]
    rw [hnames]
    refine List.map_congr_left fun n _ => ?_
    rw [List.reverse_append, List.reverse_singleton, List.singleton_append, List.lookup_cons]
    by_cases hn : n = name
    · simp [hn]
    · simp [hn, beq_eq_false_iff_ne.2 hn]

theorem yields_element {attributes : List Attribute} {written : List (String × String)}
    {name : List Char} {ms : List Markup} {nodes : List Node}
    (ha : List.Forall₂ Writes attributes written) (h : Yields ms nodes) :
    Yields [.element (String.ofList name) attributes ms] [elementNode name written nodes] := by
  intro call w
  rw [ofMarkups_single, Node.ofMarkup, ok_bind]
  refine ⟨_, w, addAll_writes ha {} w, ?_⟩
  rw [ok_bind]
  refine ⟨nodes, w, h call w, ?_⟩
  rw [foldl_set_eq]
  rfl

/-! ## What is read is what the grammar says -/

/-- With `run` before it, `s` goes on to the closing tag of the open element `f`: in between stands
content, which becomes children behind `done`, and the reader goes on outside of `f`. -/
def FinishesContent (ins : Nat → Insertion) (f : Frame) (outer : List Frame) (done : List Markup)
    (run s : List Char) (out : List Markup) : Prop :=
  ∃ content before name behind s' ms nodes,
    s = content ++ '<' :: '/' :: (before ++ (name ++ (behind ++ '>' :: s'))) ∧
    AllBlank before ∧ AllBlank behind ∧
    f.opening.isClosedBy (.element (String.ofList name)) = true ∧
    IsContent (run ++ content) nodes ∧ Yields ms nodes ∧
    readContent ins outer (f.before ++ [f.opening.close (done ++ ms)]) [] (plain s') = .ok out

namespace FinishesContent

variable {f : Frame} {outer : List Frame} {out : List Markup}

theorem text {c : Char} (h : FinishesContent ins f outer done (run ++ [c]) s out) :
    FinishesContent ins f outer done run (c :: s) out := by
  obtain ⟨content, before, name, behind, s', ms, nodes, rfl, hb, hb', hclosed, hc, hms, h⟩ := h
  rw [List.append_assoc] at hc
  exact ⟨c :: content, before, name, behind, s', ms, nodes, rfl, hb, hb', hclosed, hc, hms, h⟩

theorem element {e : List Char} {n : Node} {m : Markup} (hrun : '<' ∉ run) (he : IsElement e n)
    (hm : Yields [m] [n])
    (h : FinishesContent ins f outer (addText done run ++ [m]) [] s out) :
    FinishesContent ins f outer done run (e ++ s) out := by
  obtain ⟨content, before, name, behind, s', ms, nodes, rfl, hb, hb', hclosed, hc, hms, h⟩ := h
  rw [addText_eq, List.append_assoc, List.append_assoc] at h
  refine ⟨e ++ content, before, name, behind, s', textMarkup run ++ ([m] ++ ms),
    textNodes run ++ ([n] ++ nodes), by simp, hb, hb', hclosed, .element hrun he hc,
    (yields_textMarkup run).append (hm.append hms), h⟩

end FinishesContent

/-- An opening tag leads to an element, if every open element is read up to its closing tag. -/
theorem readContent_element_sound {out : List Markup}
    (h : readContent ins stack done run (plain ('<' :: s)) = .ok out)
    (hs : stack = [] ∨ s.head? ≠ some '/')
    (hinner : ∀ {f : Frame} {s' : List Char}, s'.length < s.length →
      readContent ins (f :: stack) [] [] (plain s') = .ok out →
      FinishesContent ins f stack [] [] s' out) :
    ∃ e s' n m, '<' :: s = e ++ s' ∧ s'.length < s.length ∧ IsElement e n ∧ Yields [m] [n] ∧
      readContent ins stack (addText done run ++ [m]) [] (plain s') = .ok out := by
  rw [readContent_opening hs] at h
  split at h
  · contradiction
  case h_2 tag attributes due r htag =>
    obtain ⟨name, inside, e, s, written, rfl, hn, rfl, hi, he, ha, rfl⟩ :=
      readElementTag_sound htag
    cases he with
    | opened =>
      obtain ⟨content, before, name', behind, s', ms, nodes, rfl, hb, hb', hclosed, hcontent, hms,
        hrest⟩ := hinner (by grind) h
      obtain rfl : name = name' := by
        simpa [Opening.isClosedBy, String.ofList_inj] using hclosed
      exact ⟨_, s', _, _, by simp, by grind, .closed hn hi hcontent hb hb', yields_element ha hms,
        hrest⟩
  case h_3 tag attributes due r htag =>
    obtain ⟨name, inside, e, s', written, rfl, hn, rfl, hi, he, ha, rfl⟩ :=
      readElementTag_sound htag
    cases he with
    | selfClosed =>
      exact ⟨_, s', _, _, by simp, by grind, .selfClosed hn hi, yields_element ha .nil, h⟩

theorem readContent_inner_sound {f : Frame} {outer : List Frame} {out : List Markup}
    (h : readContent ins (f :: outer) done run (plain s) = .ok out) (hrun : '<' ∉ run) :
    FinishesContent ins f outer done run s out := by
  induction hk : s.length using Nat.strongRecOn generalizing f outer done run s with
  | _ k ih =>
    subst hk
    cases s with
    | nil => simp [readContent] at h
    | cons c s =>
      by_cases hc : c = '<'
      · subst hc
        by_cases hslash : s.head? = some '/'
        · obtain ⟨s, rfl⟩ : ∃ s', s = '/' :: s' := by
            cases s with
            | nil => simp at hslash
            | cons d s => exact ⟨s, by simpa using hslash⟩
          rw [readContent_closing] at h
          split at h
          · contradiction
          case h_2 tag due r hname =>
            obtain ⟨before, name, behind, s', rfl, hb, hb', -, -, rfl, rfl, rfl⟩ :=
              readClosingName_sound hname (by simp)
            split at h
            case isFalse => contradiction
            case isTrue hclosed =>
              rw [addText_eq] at h
              refine ⟨[], before, name, behind, s', textMarkup run, textNodes run, rfl, hb, hb',
                hclosed, ?_, yields_textMarkup run, h⟩
              rw [List.append_nil]
              exact .text hrun
        · obtain ⟨e, s', n, m, hs, hlen, he, hm, hrest⟩ := readContent_element_sound h (.inr hslash)
            fun {f s'} hlen hf => ih s'.length (by grind) hf (by simp) rfl
          rw [hs]
          exact .element hrun he hm (ih s'.length (by grind) hrest (by simp) rfl)
      · rw [readContent_text hc (by simp)] at h
        exact (ih s.length (by simp) h (by simpa [hrun] using Ne.symm hc) rfl).text

theorem readContent_sound {out : List Markup}
    (h : readContent ins [] done [] (plain s) = .ok out) :
    ∃ ms nodes, IsDocument s nodes ∧ Yields ms nodes ∧ out = done ++ ms := by
  induction hk : s.length using Nat.strongRecOn generalizing done s with
  | _ k ih =>
    subst hk
    cases s with
    | nil =>
      simp only [plain_nil, readContent, List.isEmpty_nil, if_true] at h
      cases h
      exact ⟨[], [], .nil, .nil, by simp⟩
    | cons c s =>
      by_cases hc : c = '<'
      · subst hc
        obtain ⟨e, s', n, m, hs, hlen, he, hm, hrest⟩ := readContent_element_sound h (.inl rfl)
          fun {f s'} hlen hf => readContent_inner_sound hf (by simp)
        obtain ⟨ms, nodes, hdoc, hms, hout⟩ := ih s'.length (by grind) hrest rfl
        rw [hs]
        refine ⟨m :: ms, n :: nodes, .element he hdoc, hm.append hms, ?_⟩
        rw [hout]
        simp [addText_eq, textMarkup]
      · rw [readContent_outer hc] at h
        split at h
        case isTrue hb =>
          obtain ⟨ms, nodes, hdoc, hms, hout⟩ := ih s.length (by simp) h rfl
          exact ⟨ms, nodes, .blank hb hdoc, hms, hout⟩
        case isFalse => contradiction

/-! ## What the grammar says is read -/

theorem readContent_run {r : List Char} (hr : '<' ∉ r) (hstack : stack ≠ []) :
    readContent ins stack done run (plain (r ++ s)) =
      readContent ins stack done (run ++ r) (plain s) := by
  induction r generalizing run with
  | nil => simp
  | cons c r ih =>
    obtain ⟨hc, hr⟩ := not_or.1 (List.mem_cons.not.1 hr)
    rw [List.cons_append, readContent_text (Ne.symm hc) hstack, ih hr, List.append_assoc]
    rfl

theorem Grammar.IsName.head_ne_slash {name : List Char} (hn : IsName name) :
    (name ++ s).head? ≠ some '/' := by
  obtain ⟨c, hc, hpart⟩ := hn.begins (s := s)
  intro h
  have : c = '/' := by simpa [h, eq_comm] using hc
  exact ne_of_isNamePart hpart (by decide) this

mutual

/-- An element is read in one go, whatever stands around it. -/
theorem readContent_element (ins : Nat → Insertion) {e : List Char} {n : Node} : IsElement e n →
    ∃ m, Yields [m] [n] ∧ ∀ (stack : List Frame) (done : List Markup) (run s : List Char),
      readContent ins stack done run (plain (e ++ s)) =
        readContent ins stack (addText done run ++ [m]) [] (plain s)
  | .selfClosed hn hi => by
    obtain ⟨attributes, ha, htag⟩ := readElementTag_complete ins hn hi .selfClosed
    refine ⟨_, yields_element ha .nil, fun stack done run s => ?_⟩
    simp only [List.cons_append, List.append_assoc]
    rw [readContent_opening (.inr hn.head_ne_slash)]
    have := htag s
    simp only [List.cons_append] at this
    simp only [this, insertDue]
  | @IsElement.closed name _ content before behind _ _ hn hi hc hb hb' => by
    obtain ⟨attributes, ha, htag⟩ := readElementTag_complete ins hn hi .opened
    obtain ⟨ms, hms, hread⟩ := readContent_content ins hc
    refine ⟨_, yields_element ha hms, fun stack done run s => ?_⟩
    simp only [List.cons_append, List.append_assoc, List.nil_append]
    rw [readContent_opening (.inr hn.head_ne_slash)]
    have := htag (content ++ '<' :: '/' :: (before ++ (name ++ (behind ++ '>' :: s))))
    simp only [List.cons_append, List.nil_append] at this
    simp only [this, insertDue]
    rw [hread ⟨.element (String.ofList name) attributes, addText done run⟩ stack [] before name
      behind s hb hn.2 hb' (by simp [Opening.isClosedBy])]
    rfl

/-- The content of an open element, and its closing tag. -/
theorem readContent_content (ins : Nat → Insertion) {c : List Char} {nodes : List Node} : IsContent c nodes →
    ∃ ms, Yields ms nodes ∧
      ∀ (f : Frame) (outer : List Frame) (done : List Markup) (before name behind s : List Char),
        AllBlank before → AllNameParts name → AllBlank behind →
        f.opening.isClosedBy (.element (String.ofList name)) = true →
        readContent ins (f :: outer) done []
            (plain (c ++ '<' :: '/' :: (before ++ (name ++ (behind ++ '>' :: s))))) =
          readContent ins outer (f.before ++ [f.opening.close (done ++ ms)]) [] (plain s)
  | @IsContent.text r hrun => by
    refine ⟨textMarkup r, yields_textMarkup r,
      fun f outer done before name behind s hb hn hb' hclosed => ?_⟩
    rw [readContent_run hrun (by simp), List.nil_append, readContent_closing,
      readClosingName_complete hb hn hb']
    simp only [hclosed, if_true, insertDue, addText_eq]
  | @IsContent.element r _ _ _ _ hrun he hs => by
    obtain ⟨m, hm, hread⟩ := readContent_element ins he
    obtain ⟨ms, hms, hread'⟩ := readContent_content ins hs
    refine ⟨textMarkup r ++ ([m] ++ ms), (yields_textMarkup r).append (hm.append hms),
      fun f outer done before name behind s hb hn hb' hclosed => ?_⟩
    simp only [List.append_assoc]
    rw [readContent_run hrun (by simp), List.nil_append, hread,
      hread' f outer _ before name behind s hb hn hb' hclosed, addText_eq]
    simp only [List.append_assoc]

end

theorem readContent_complete (ins : Nat → Insertion) {nodes : List Node} (h : IsDocument s nodes) :
    ∃ ms, Yields ms nodes ∧ ∀ done,
      readContent ins [] done [] (plain s) = .ok (done ++ ms) := by
  induction h with
  | nil => exact ⟨[], .nil, fun done => by simp [readContent]⟩
  | @blank c s nodes hc _ ih =>
    obtain ⟨ms, hms, hread⟩ := ih
    refine ⟨ms, hms, fun done => ?_⟩
    rw [readContent_outer (ne_of_isBlank hc (by decide)), if_pos hc]
    exact hread done
  | element he _ ih =>
    obtain ⟨m, hm, helement⟩ := readContent_element ins he
    obtain ⟨ms, hms, hread⟩ := ih
    refine ⟨[m] ++ ms, hm.append hms, fun done => ?_⟩
    rw [helement, hread]
    simp [addText]

/-! ## Faults

When a text is not markup, the nodes of what has been read are still made, and come to nothing. -/

/-- Making the nodes of `ms` gives some nodes and changes nothing. -/
def Harmless (ms : List Markup) : Prop :=
  ∀ (call : Respond) (w : World), ∃ nodes, (Node.ofMarkups call [] ms).run w = .ok nodes w

/-- Attributes that were written as quoted values or names that stand alone. -/
def AllQuoted (attributes : List Attribute) : Prop :=
  ∃ written, List.Forall₂ Writes attributes written

theorem AllQuoted.append {attributes added : List Attribute} (h : AllQuoted attributes)
    (h' : AllQuoted added) : AllQuoted (attributes ++ added) := by
  obtain ⟨written, hw⟩ := h
  obtain ⟨written', hw'⟩ := h'
  exact ⟨written ++ written', List.rel_append hw hw'⟩

theorem Yields.harmless {ms : List Markup} {nodes : List Node} (h : Yields ms nodes) :
    Harmless ms := fun call w => ⟨nodes, h call w⟩

theorem harmless_nil : Harmless [] := Yields.nil.harmless

theorem Harmless.append {ms ms' : List Markup} (h : Harmless ms) (h' : Harmless ms') :
    Harmless (ms ++ ms') := by
  intro call w
  obtain ⟨nodes, hrun⟩ := h call w
  obtain ⟨nodes', hrun'⟩ := h' call w
  refine ⟨nodes ++ nodes', ?_⟩
  rw [ofMarkups_append, ok_bind]
  refine ⟨nodes, w, hrun, ?_⟩
  rw [ok_bind]
  exact ⟨nodes', w, hrun', rfl⟩

theorem Harmless.element {tag : String} {attributes : List Attribute} {ms : List Markup}
    (ha : AllQuoted attributes) (h : Harmless ms) : Harmless [.element tag attributes ms] := by
  intro call w
  obtain ⟨written, hw⟩ := ha
  obtain ⟨nodes, hrun⟩ := h call w
  refine ⟨[.element tag (keptAttributes written) [] nodes none], ?_⟩
  rw [ofMarkups_single, Node.ofMarkup, ok_bind, ← foldl_set_eq]
  refine ⟨_, w, addAll_writes hw {} w, ?_⟩
  rw [ok_bind]
  exact ⟨nodes, w, hrun, rfl⟩

theorem Harmless.addText (h : Harmless done) (run : List Char) : Harmless (addText done run) := by
  rw [addText_eq]
  exact h.append (yields_textMarkup run).harmless

/-- An open element of a text without insertions. -/
def Frame.IsPlain (f : Frame) : Prop :=
  ∃ tag attributes, f.opening = .element tag attributes ∧ AllQuoted attributes ∧ Harmless f.before

theorem Harmless.pending (h : Harmless done) (hstack : ∀ f ∈ stack, f.IsPlain) :
    Harmless (pending done stack) := by
  induction stack generalizing done with
  | nil => exact h
  | cons f stack ih =>
    obtain ⟨opening, before⟩ := f
    obtain ⟨tag, attributes, rfl, ha, hbefore⟩ := hstack ⟨opening, before⟩ (by simp)
    exact ih (hbefore.append (h.element ha)) fun f hf => hstack f (by simp [hf])

theorem AllQuoted.addValueless {read : List Attribute} (hread : AllQuoted read)
    (name : List Char) : AllQuoted (addValueless read name) := by
  obtain ⟨added, hadd, hw⟩ := addValueless_eq read name
  rw [hadd]
  exact hread.append ⟨_, hw⟩

theorem readAttributes_fault {read read' : List Attribute} {name s : List Char} {after : Bool}
    {e : ParseError} (h : readAttributes ins read name after (plain s) = .error (e, read'))
    (hread : AllQuoted read) : AllQuoted read' := by
  induction hk : s.length using Nat.strongRecOn generalizing read name s after with
  | _ k ih =>
    subst hk
    cases s with
    | nil =>
      simp only [plain_nil, readAttributes] at h
      cases h
      exact hread
    | cons c s =>
      by_cases hb : isBlank c = true
      · rw [readAttributes_blank hb] at h
        exact ih s.length (by simp) h hread rfl
      by_cases hpart : isNamePart c = true
      · rw [readAttributes_part hpart] at h
        split at h
        · exact ih s.length (by simp) h (hread.addValueless name) rfl
        · exact ih s.length (by simp) h hread rfl
      by_cases hvalue : c = '=' ∧ name ≠ []
      · obtain ⟨rfl, hne⟩ := hvalue
        rw [readAttributes_equals hne] at h
        split at h
        · cases h
          exact hread
        case h_2 a r hval =>
          obtain ⟨after, l, value, s', rfl, -, -, ha, rfl⟩ := readValue_sound hval
          exact ih s'.length (by grind) h (hread.append ⟨_, .cons ha .nil⟩) rfl
      · rw [plain_cons, readAttributes] at h
        have : read' = read := by grind
        rw [this]
        exact hread

theorem readElementTag_fault {e : ParseError} {ms : List Markup}
    (h : readElementTag ins (plain s) = .error (e, ms)) : Harmless ms := by
  unfold readElementTag at h
  split at h
  · cases h
    exact harmless_nil
  · contradiction
  case h_3 tag r hname =>
    obtain ⟨n, e', s', rfl, -, -, -, rfl⟩ := readTagName_sound hname .nil
    split at h
    case h_1 e' read hread =>
      cases h
      exact harmless_nil.element (readAttributes_fault hread ⟨[], .nil⟩)
    case h_2 => contradiction

theorem readContent_fault {fault : Fault}
    (h : readContent ins stack done run (plain s) = .error fault) (hdone : Harmless done)
    (hstack : ∀ f ∈ stack, f.IsPlain) : Harmless fault.read := by
  induction hk : s.length using Nat.strongRecOn generalizing stack done run s with
  | _ k ih =>
    subst hk
    cases s with
    | nil =>
      simp only [plain_nil, readContent] at h
      split at h
      · contradiction
      · cases h
        exact hdone.pending hstack
    | cons c s =>
      by_cases hc : c = '<'
      · subst hc
        by_cases hopening : stack = [] ∨ s.head? ≠ some '/'
        · rw [readContent_opening hopening] at h
          split at h
          case h_1 e read htag =>
            cases h
            exact ((hdone.addText run).append (readElementTag_fault htag)).pending hstack
          case h_2 tag attributes due r htag =>
            obtain ⟨name, inside, e, s', written, rfl, -, -, -, he, ha, rfl⟩ :=
              readElementTag_sound htag
            cases he with
            | opened =>
              refine ih s'.length (by grind) h harmless_nil ?_ rfl
              intro f hf
              rcases List.mem_cons.1 hf with rfl | hf
              · exact ⟨tag, attributes, rfl, ⟨written, ha⟩, hdone.addText run⟩
              · exact hstack f hf
          case h_3 tag attributes due r htag =>
            obtain ⟨name, inside, e, s', written, rfl, -, -, -, he, ha, rfl⟩ :=
              readElementTag_sound htag
            cases he with
            | selfClosed =>
              exact ih s'.length (by grind) h
                ((hdone.addText run).append (harmless_nil.element ⟨written, ha⟩)) hstack rfl
        · obtain ⟨hne, hslash⟩ := not_or.1 hopening
          obtain ⟨f, outer, rfl⟩ := List.exists_cons_of_ne_nil hne
          obtain ⟨s, rfl⟩ : ∃ s', s = '/' :: s' := by
            cases s with
            | nil => simp at hslash
            | cons d s => exact ⟨s, by simpa using hslash⟩
          rw [readContent_closing] at h
          split at h
          · cases h
            exact (hdone.addText run).pending hstack
          case h_2 tag due r hname =>
            obtain ⟨before, name, behind, s', rfl, -, -, -, -, rfl, rfl, rfl⟩ :=
              readClosingName_sound hname (by simp)
            split at h
            · refine ih s'.length (by grind) h ?_ (fun g hg => hstack g (by simp [hg])) rfl
              obtain ⟨tag, attributes, hopen, ha, hbefore⟩ := hstack f (by simp)
              rw [hopen]
              exact hbefore.append ((hdone.addText run).element ha)
            · cases h
              exact (hdone.addText run).pending hstack
      · by_cases hne : stack = []
        · subst hne
          rw [readContent_outer hc] at h
          split at h
          · exact ih s.length (by simp) h hdone hstack rfl
          · cases h
            exact hdone
        · rw [readContent_text hc hne] at h
          exact ih s.length (by simp) h hdone hstack rfl

/-! ## The node of a text -/

/-- Markup can be read in one way only. -/
theorem isDocument_unique {nodes nodes' : List Node} (h : IsDocument s nodes)
    (h' : IsDocument s nodes') : nodes = nodes' := by
  let ins : Nat → Insertion := fun _ => ⟨"", true, none⟩
  obtain ⟨ms, hms, hread⟩ := readContent_complete ins h
  obtain ⟨ms', hms', hread'⟩ := readContent_complete ins h'
  obtain rfl : ms = ms' := by
    have := (hread []).symm.trans (hread' [])
    simpa using this
  have := (hms (fun _ => throw .tooDeep) {}).symm.trans (hms' (fun _ => throw .tooDeep) {})
  simpa using this

section
variable {call : Respond} {t : String} {w : World}

/-- What the reader is told about insertions when there are none. -/
def noInsertions : Nat → Insertion := fun k => [].getD k ⟨"empty", true, none⟩

theorem parse_ok {ms : List Markup} {nodes : List Node}
    (hread : readContent noInsertions [] [] [] (plain t.toList) = .ok ms) (hms : Yields ms nodes) :
    (Node.parse call [t] []).run w = .ok (.ok (whole nodes)) w := by
  rw [Node.parse, ok_get_bind]
  have : read [t] (([] : List Value).map w.insertion) = .ok ms := hread
  rw [this]
  refine ok_bind.2 ⟨nodes, w, hms call w, ?_⟩
  match nodes with
  | [] => rfl
  | [n] => rfl
  | n :: m :: rest =>
    simp only [whole, Node.wrap]
    rfl

theorem parse_error {fault : Fault}
    (hread : readContent noInsertions [] [] [] (plain t.toList) = .error fault) :
    (Node.parse call [t] []).run w = .ok (.error fault.error) w := by
  rw [Node.parse, ok_get_bind]
  have : read [t] (([] : List Value).map w.insertion) = .error fault := hread
  rw [this]
  obtain ⟨nodes, hnodes⟩ := readContent_fault hread harmless_nil (by simp) call w
  exact ok_bind.2 ⟨nodes, w, hnodes, rfl⟩

theorem parse_of_isDocument {nodes : List Node} (h : IsDocument t.toList nodes) :
    (Node.parse call [t] []).run w = .ok (.ok (whole nodes)) w := by
  obtain ⟨ms, hms, hread⟩ := readContent_complete noInsertions h
  exact parse_ok (hread []) hms

end

/-- A text without insertions can be read if and only if it is markup, and what is read is what the
grammar says. Reading it always comes to an end and changes nothing. -/
theorem parse_plain (call : Respond) (t : String) (w : World) :
    ∃ result, (Node.parse call [t] []).run w = .ok result w ∧
      ∀ n, result = .ok n ↔ ∃ nodes, IsDocument t.toList nodes ∧ n = whole nodes := by
  cases hread : readContent noInsertions [] [] [] (plain t.toList) with
  | error fault =>
    refine ⟨.error fault.error, parse_error hread, fun n => ⟨by simp, ?_⟩⟩
    rintro ⟨nodes, hdoc, -⟩
    obtain ⟨ms, -, hcomplete⟩ := readContent_complete noInsertions hdoc
    rw [hcomplete] at hread
    contradiction
  | ok ms =>
    obtain ⟨ms', nodes, hdoc, hms, rfl⟩ := readContent_sound hread
    refine ⟨.ok (whole nodes), parse_ok hread hms, fun n => ⟨?_, ?_⟩⟩
    · rintro ⟨⟩
      exact ⟨nodes, hdoc, rfl⟩
    · rintro ⟨nodes', hdoc', rfl⟩
      rw [isDocument_unique hdoc hdoc']

end LivePage.Markup
