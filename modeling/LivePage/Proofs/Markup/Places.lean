import LivePage.Proofs.Markup.Scanner
import LivePage.Node.OfMarkup
import LivePage.Proofs.Markup.Tags
import LivePage.Proofs.Run.Basic

/-!
# The places of insertions

Where an insertion stands can be told from the characters before it: `Place` is an automaton that runs
over the segments of a template, and `Place.role?` says what an insertion at a place can be taken for.
What is written before an insertion at such a place is in `placeOf_after`.

The main result is `follows_scan`. Reading a template with a scanner comes to what the reader says; the
arguments are taken in order, each at its place, and a reading that succeeds has taken them all. This
needs an invariant between the scanner and the steps of the reader (`Scanner.InStep`): what has been
taken and what the places to come still ask for make up one list that never changes.
-/

namespace LivePage.Markup

open LivePage.Text

/-- Where one stands in a template, going only by what is written before. -/
inductive Place where
  /-- Outside of every tag. -/
  | content
  /-- Right after the angle bracket that opens a tag. -/
  | opening
  /-- Right after the slash of a closing tag. -/
  | closing
  /-- In the rest of a closing tag. -/
  | ending
  /-- In the name of an opening tag. -/
  | name
  /-- Among the attributes of an opening tag. -/
  | tag
  /-- In the rest of a component's opening tag. -/
  | component
  /-- After the equals sign of an attribute, and blanks. -/
  | value
  /-- In a quoted value. -/
  | quoted
  /-- After a backslash in a quoted value that is not taken by a backslash before it. -/
  | escape
deriving DecidableEq, Repr

namespace Place

/-- The place behind a character. -/
def behind : Place → Char → Place
  | content, c => if c = '<' then opening else content
  | opening, c => if c = '/' then closing else name
  | closing, c | ending, c => if c = '>' then content else ending
  | name, c => if c = '>' then content else if c = '/' ∨ isBlank c then tag else name
  | tag, c => if c = '>' then content else if c = '=' then value else tag
  | component, c => if c = '>' then content else component
  | value, c => if c = '"' then quoted else if isBlank c then value else tag
  | quoted, c => if c = '"' then tag else if c = '\\' then escape else quoted
  | escape, _ => quoted

/-- The place behind an insertion. -/
def behindInsertion : Place → Place
  | opening => component
  | closing => ending
  | value => tag
  | escape => quoted
  | p => p

/-- What an insertion at a place is for, if it can stand there. -/
def role? : Place → Option Role
  | content => some .child
  | opening => some .component
  | closing => some .pointer
  | value => some .value
  | quoted => some .piece
  | ending | name | tag | component | escape => none

/-- The place behind a text. -/
def along (p : Place) (text : List Char) : Place := text.foldl behind p

/-- The place of insertion `k` of some segments, the first of which begins at `p`. -/
def ofInsertion (p : Place) : List String → Nat → Place
  | [], _ => p
  | t :: _, 0 => p.along t.toList
  | t :: r, k + 1 => ofInsertion (p.along t.toList).behindInsertion r k

/-- What the insertions of some steps are for, going by their places. -/
def roles (p : Place) : List Step → List (Option Role × Nat)
  | [] => []
  | .char c none :: r => (p.behind c).roles r
  | .char c (some k) :: r =>
    ((p.behind c).role?, k) :: (p.behind c).behindInsertion.roles r
  | .insertion k :: r => (p.role?, k) :: p.behindInsertion.roles r

/-- The same, when an insertion may be due before the steps. -/
def dueRoles (p : Place) (due : Option Nat) (r : List Step) : List (Option Role × Nat) :=
  match due with
  | none => p.roles r
  | some k => (p.role?, k) :: p.behindInsertion.roles r

theorem roles_char (p : Place) (c : Char) (due : Option Nat) (r : List Step) :
    p.roles (.char c due :: r) = (p.behind c).dueRoles due r := by
  cases due <;> rfl

end Place

/-! ## The steps of a scanner -/

/-- The steps of texts, numbered from `k` on. -/
def Step.ofTexts (k : Nat) : List (List Char) → List Step
  | [] => []
  | [t] => t.map (.char · none)
  | t :: t' :: r => ofSegment k t ++ ofTexts (k + 1) (t' :: r)

theorem Step.ofSegments_eq (k : Nat) (segments : List String) :
    ofSegments k segments = ofTexts k (segments.map String.toList) := by
  fun_induction ofSegments k segments with
  | case1 => rfl
  | case2 => rfl
  | case3 k s t r ih => rw [ih]; rfl

namespace Scanner

variable {all : List (Option Role × Nat)} {s s' : Scanner} {p : Place} {due : Option Nat}
  {rest r : List Step} {flagged : Bool} {c : Char} {k : Nat} {role : Role}

/-- What has been taken so far. -/
def taken (s : Scanner) : List (Option Role × Nat) := s.takes.map fun t => (some t.1, t.2)

/-- A scanner in step with the reader, which has still to read `rest` from the place `p` on, with an
insertion due before it or not: what has been taken and what is still to be taken is `all`. -/
structure InStep (all : List (Option Role × Nat)) (s : Scanner) (due : Option Nat) (p : Place)
    (rest : List Step) : Prop where
  steps : Step.ofTexts s.segment s.segments = rest
  stands (k : Nat) : due = some k → s.segment = k + 1
  account : s.taken ++ p.dueRoles due rest = all
  untaken (k : Nat) : s.takes.length ≤ k → k < all.length → s.arguments[k]? = some (some k)

namespace InStep

/-- As long as the scanner is in step, nothing has been taken out of order. -/
theorem taken_prefix (h : s.InStep all due p rest) : s.taken <+: all :=
  ⟨_, h.account⟩

theorem of_next_none (h : s.InStep all none p rest) (hn : s.next = none) : rest = [] := by
  rw [← h.steps]
  unfold next at hn
  split at hn
  · next hs => rw [hs]; rfl
  · next hs => rw [hs]; rfl
  all_goals cases hn

theorem of_next_insertion (h : s.InStep all none p rest)
    (hn : s.next = some (⟨none, flagged⟩, s')) :
    ∃ k r, rest = .insertion k :: r ∧ s'.InStep all (some k) p r := by
  obtain ⟨hsteps, -, hacc, hun⟩ := h
  unfold next at hn
  split at hn
  · cases hn
  · cases hn
  · next later hlater hs =>
    cases hn
    rw [hs] at hsteps
    match later, hlater with
    | t :: later, _ =>
      subst hsteps
      exact ⟨s.segment, _, rfl, rfl, by simp, hacc, hun⟩
  · cases hn
  · cases hn

theorem of_next_char (h : s.InStep all none p rest)
    (hn : s.next = some (⟨some c, flagged⟩, s')) :
    ∃ due r, rest = .char c due :: r ∧ flagged = due.isSome ∧ s'.InStep all due (p.behind c) r := by
  obtain ⟨hsteps, -, hacc, hun⟩ := h
  have key : ∀ {due r}, rest = .char c due :: r → s'.takes = s.takes → s'.arguments = s.arguments →
      Step.ofTexts s'.segment s'.segments = r → (∀ k, due = some k → s'.segment = k + 1) →
      s'.InStep all due (p.behind c) r := by
    rintro due r rfl htakes harguments hs' hdue
    refine ⟨hs', hdue, ?_, ?_⟩
    · rw [← hacc, taken, taken, htakes]
      exact congrArg _ (p.roles_char c due r).symm
    · rwa [htakes, harguments]
  unfold next at hn
  split at hn
  · cases hn
  · cases hn
  · cases hn
  · next later hs =>
    cases hn
    rw [hs] at hsteps
    cases later with
    | nil => exact ⟨none, [], hsteps.symm, rfl, key hsteps.symm rfl rfl rfl (by simp)⟩
    | cons t later =>
      exact ⟨some s.segment, _, hsteps.symm, rfl, key hsteps.symm rfl rfl rfl (by simp)⟩
  · next d t later hs =>
    cases hn
    rw [hs] at hsteps
    cases later with
    | nil => exact ⟨none, _, hsteps.symm, rfl, key hsteps.symm rfl rfl rfl (by simp)⟩
    | cons t' later =>
      exact ⟨none, _, hsteps.symm, rfl, key hsteps.symm rfl rfl rfl (by simp)⟩

/-- Where the scanner does not see a closing tag, there is none. -/
theorem not_closing {stack : List Frame} (h : s.InStep all none p rest)
    (hs : ∀ opening before outer slash s', stack = ⟨opening, before⟩ :: outer →
      s.next = some (⟨some '/', slash⟩, s') → False) (opening : Opening) (before : List Markup)
    (outer : List Frame) (slash : Option Nat) (r : List Step) (hstack : stack = ⟨opening, before⟩ :: outer)
    (hrest : rest = .char '/' slash :: r) : False := by
  subst hrest
  match hn : s.next with
  | none => cases h.of_next_none hn
  | some (⟨none, _⟩, s') =>
    obtain ⟨k, r, hr, -⟩ := h.of_next_insertion hn
    cases hr
  | some (⟨some c, flagged⟩, s') =>
    obtain ⟨due, r, hr, -⟩ := h.of_next_char hn
    cases hr
    exact hs opening before outer flagged s' hstack hn

/-- An argument that is due at a place where insertions can stand is there, and is taken for what the
place says. -/
theorem take (hnum : all.map Prod.snd = List.range all.length)
    (h : s.InStep all (some k) p r) (hrole : p.role? = some role) :
    (s.take role).1 = k ∧ (s.take role).2.InStep all none p.behindInsertion r := by
  have hacc : s.taken ++ (p.role?, k) :: p.behindInsertion.roles r = all := h.account
  have hlen : s.taken.length = s.takes.length := by simp [taken]
  have hlt : s.takes.length < all.length := by rw [← hacc]; simp [hlen]
  -- the account is numbered, so the number of the argument is the number of takings before
  obtain rfl : k = s.takes.length := by
    have hget : (all.map Prod.snd)[s.takes.length]? = some k := by
      rw [← hacc, List.getElem?_map, List.getElem?_append_right (by omega), hlen]
      simp
    rw [hnum, List.getElem?_range hlt] at hget
    exact (Option.some.inj hget).symm
  have hseg := h.stands _ rfl
  have hthere := h.untaken _ (Nat.le_refl _) hlt
  have hgiven : s.take role = (s.takes.length,
      { s with
        arguments := s.arguments.set s.takes.length none
        takes := s.takes ++ [(role, s.takes.length)] }) := by
    rw [Scanner.take]
    split
    · next h0 => rw [hseg] at h0; cases h0
    · next k hk =>
      obtain rfl : s.takes.length = k := Nat.succ.inj (hseg.symm.trans hk)
      simp [hthere]
  rw [hgiven]
  refine ⟨rfl, h.steps, by simp, ?_, ?_⟩
  · rw [← hacc, hrole]
    simp [taken, Place.dueRoles]
  · intro k hk hk'
    simp only [List.length_append, List.length_cons, List.length_nil] at hk
    dsimp only
    rw [List.getElem?_set_ne (by omega)]
    exact h.untaken k (by omega) hk'

end InStep

end Scanner

/-! ## Tags -/

/-- The end of a tag as the scanner sees it. -/
def TagEnd.ending : TagEnd → Ending
  | opened due => .opened due.isSome
  | selfClosed due => .selfClosed due.isSome

/-- The insertion due right after a tag. -/
def TagEnd.due : TagEnd → Option Nat
  | opened due | selfClosed due => due

/-- Reading with a scanner fails as the reader does, having taken nothing out of order, or both succeed
with what is asked for. -/
def Follows (all : List (Option Role × Nat)) {α β : Type} (scanned : Scanned α)
    (read : Except ParseError β) (Q : β → α → Scanner → Prop) : Prop :=
  match read with
  | .error e => scanned.1 = .error e ∧ scanned.2.taken <+: all
  | .ok b => ∃ a, scanned.1 = .ok a ∧ Q b a scanned.2

namespace Follows

variable {all : List (Option Role × Nat)} {α β : Type} {R : Except ParseError β}
  {Q : β → α → Scanner → Prop} {s : Scanner} {e : ParseError} {a : α} {b : β}

theorem error (hread : R = .error e) (h : s.taken <+: all) : Follows all (.error e, s) R Q := by
  rw [hread]
  exact ⟨rfl, h⟩

theorem ok (hread : R = .ok b) (h : Q b a s) : Follows all (.ok a, s) R Q := by
  rw [hread]
  exact ⟨a, rfl, h⟩

theorem of_error (h : Follows all (.error e, s) R Q) : R = .error e ∧ s.taken <+: all := by
  cases R with
  | error e' =>
    obtain ⟨he, h⟩ := h
    cases he
    exact ⟨rfl, h⟩
  | ok b =>
    obtain ⟨a, ha, -⟩ := h
    cases ha

theorem of_ok (h : Follows all (.ok a, s) R Q) : ∃ b, R = .ok b ∧ Q b a s := by
  cases R with
  | error e => cases h.1
  | ok b =>
    obtain ⟨a', ha, h⟩ := h
    cases ha
    exact ⟨b, rfl, h⟩

end Follows

section

variable {all : List (Option Role × Nat)} {s : Scanner} {p : Place} {rest : List Step}
  {ins : Nat → Insertion} {name : List Char}

theorem follows_close (hp : p.behind '>' = .content) (h : s.InStep all none p rest) :
    Follows all (scanClose s) (readClose rest) fun (due, r) flagged s' =>
      flagged = due.isSome ∧ s'.InStep all due .content r := by
  unfold scanClose
  split
  · next hn =>
    obtain rfl := h.of_next_none hn
    exact .error rfl h.taken_prefix
  · next hn =>
    obtain ⟨due, r, rfl, rfl, h'⟩ := h.of_next_char hn
    exact .ok rfl ⟨rfl, hp ▸ h'⟩
  · next seen s' hother hn =>
    obtain ⟨_ | c, flagged⟩ := seen
    · obtain ⟨k, r, rfl, h'⟩ := h.of_next_insertion hn
      exact .error rfl h'.taken_prefix
    · obtain ⟨due, r, rfl, rfl, h'⟩ := h.of_next_char hn
      have hc : c ≠ '>' := by
        rintro rfl
        exact hother _ rfl
      exact .error (by simp [readClose, hc]) h'.taken_prefix

/-- Behind a part of a name the name goes on. -/
theorem Place.behind_name {c : Char} (hc : isNamePart c = true) :
    Place.opening.behind c = .name ∧ Place.name.behind c = .name := by
  have hblank := not_isBlank_of_isNamePart hc
  have hslash : c ≠ '/' := ne_of_isNamePart hc rfl
  have hclose : c ≠ '>' := ne_of_isNamePart hc rfl
  simp [behind, hblank, hslash, hclose]

theorem follows_tagName (h : s.InStep all none (if name.isEmpty then .opening else .name) rest) :
    Follows all (scanTagName name s) (readTagName name rest) fun (tag, close, r) out s' =>
      out = (tag, close.map TagEnd.ending) ∧
        match close with
        | none => s'.InStep all none .tag r
        | some close => s'.InStep all close.due .content r := by
  fun_induction scanTagName name s generalizing rest with
  | case1 name s hn =>
    obtain rfl := h.of_next_none hn
    exact .error rfl h.taken_prefix
  | case2 name s _ s' hn =>
    obtain ⟨k, r, rfl, h'⟩ := h.of_next_insertion hn
    exact .error rfl h'.taken_prefix
  | case3 name s c flagged s' hn _ hblank hname =>
    obtain ⟨due, r, rfl, rfl, h'⟩ := h.of_next_char hn
    exact .error (by simp [readTagName, hblank, hname]) h'.taken_prefix
  | case4 name s c s' hblank hname hn _ =>
    obtain ⟨due, r, rfl, hdue, h'⟩ := h.of_next_char hn
    exact .error (by simp [readTagName, hblank, hname, ← hdue]) h'.taken_prefix
  | case5 name s c flagged s' hn _ hblank hname hflagged =>
    obtain ⟨due, r, rfl, rfl, h'⟩ := h.of_next_char hn
    obtain rfl : due = none := by simpa using hflagged
    refine .ok (b := (_, none, r)) (by simp [readTagName, hblank, hname]) ⟨rfl, ?_⟩
    have hclose : c ≠ '>' := ne_of_isBlank hblank rfl
    simpa [hname, Place.behind, hblank, hclose] using h'
  | case6 name s c flagged s' hn _ hblank hclose =>
    obtain ⟨due, r, rfl, rfl, h'⟩ := h.of_next_char hn
    obtain ⟨rfl, hname⟩ := hclose
    refine .ok (b := (_, some (.opened due), r)) (by simp [readTagName, hblank, hname]) ⟨rfl, ?_⟩
    simp only [Bool.not_eq_true'] at hname
    simpa [hname, Place.behind, TagEnd.due] using h'
  | case7 name s c s' hblank hclose hslash hn _ =>
    obtain ⟨due, r, rfl, hdue, h'⟩ := h.of_next_char hn
    obtain ⟨rfl, hname⟩ := hslash
    exact .error (by simp [readTagName, hblank, hname, ← hdue]) h'.taken_prefix
  | case8 name s c flagged s' hn _ hblank hclose hslash hflagged e s'' hscan =>
    obtain ⟨due, r, rfl, rfl, h'⟩ := h.of_next_char hn
    obtain rfl : due = none := by simpa using hflagged
    obtain ⟨rfl, hname⟩ := hslash
    simp only [Bool.not_eq_true'] at hname
    rw [hname] at h'
    obtain ⟨hread, htaken⟩ := (hscan ▸ follows_close rfl h').of_error
    exact .error (by simp [readTagName, hblank, hname, hread]) htaken
  | case9 name s c flagged s' hn _ hblank hclose hslash hflagged flagged' s'' hscan =>
    obtain ⟨due, r, rfl, rfl, h'⟩ := h.of_next_char hn
    obtain rfl : due = none := by simpa using hflagged
    obtain ⟨rfl, hname⟩ := hslash
    simp only [Bool.not_eq_true'] at hname
    rw [hname] at h'
    obtain ⟨⟨due, r⟩, hread, rfl, h''⟩ := (hscan ▸ follows_close rfl h').of_ok
    exact .ok (b := (_, some (.selfClosed due), r)) (by simp [readTagName, hblank, hname, hread])
      ⟨rfl, h''⟩
  | case10 name s c s' hblank hclose hslash hn _ =>
    obtain ⟨due, r, rfl, hdue, h'⟩ := h.of_next_char hn
    exact .error (by simp only [readTagName, hblank, hclose, hslash, ← hdue, ↓reduceIte,
      Bool.false_eq_true]) h'.taken_prefix
  | case11 name s c flagged s' hn _ hblank hclose hslash hflagged hpart ih =>
    obtain ⟨due, r, rfl, rfl, h'⟩ := h.of_next_char hn
    obtain rfl : due = none := by simpa using hflagged
    have hread : readTagName name (.char c none :: r) = readTagName (name ++ [c]) r := by
      simp only [readTagName, hblank, hclose, hslash, hpart, hflagged, ↓reduceIte,
        Bool.false_eq_true]
    rw [hread]
    refine ih ?_
    obtain ⟨hopening, hname⟩ := Place.behind_name hpart
    cases name <;> simpa [hopening, hname] using h'
  | case12 name s c flagged s' hn _ hblank hclose hslash hflagged hpart =>
    obtain ⟨due, r, rfl, rfl, h'⟩ := h.of_next_char hn
    obtain rfl : due = none := by simpa using hflagged
    exact .error (by simp only [readTagName, hblank, hclose, hslash, hpart, hflagged, ↓reduceIte,
      Bool.false_eq_true]) h'.taken_prefix

/-- In a component's opening tag only its end matters. -/
theorem follows_componentTag (h : s.InStep all none .component rest) :
    Follows all (scanComponentTag s) (readComponentTag rest) fun (close, r) out s' =>
      out = close.ending ∧ s'.InStep all close.due .content r := by
  fun_induction scanComponentTag s generalizing rest with
  | case1 s hn =>
    obtain rfl := h.of_next_none hn
    exact .error rfl h.taken_prefix
  | case2 s _ s' hn =>
    obtain ⟨k, r, rfl, h'⟩ := h.of_next_insertion hn
    exact .error rfl h'.taken_prefix
  | case3 s flagged s' hn _ =>
    obtain ⟨due, r, rfl, rfl, h'⟩ := h.of_next_char hn
    exact .ok (b := (.opened due, r)) (by simp [readComponentTag]) ⟨rfl, h'⟩
  | case4 s s' _ hn _ =>
    obtain ⟨due, r, rfl, hdue, h'⟩ := h.of_next_char hn
    exact .error (by simp [readComponentTag, ← hdue]) h'.taken_prefix
  | case5 s flagged s' hflagged e s₂ hscan hn _ _ =>
    obtain ⟨due, r, rfl, rfl, h'⟩ := h.of_next_char hn
    obtain rfl : due = none := by simpa using hflagged
    obtain ⟨hread, htaken⟩ := (hscan ▸ follows_close rfl h').of_error
    exact .error (by simp [readComponentTag, hread]) htaken
  | case6 s flagged s' hflagged flagged' s₂ hscan hn _ _ =>
    obtain ⟨due, r, rfl, rfl, h'⟩ := h.of_next_char hn
    obtain rfl : due = none := by simpa using hflagged
    obtain ⟨⟨due, r⟩, hread, rfl, h₂⟩ := (hscan ▸ follows_close rfl h').of_ok
    exact .ok (b := (.selfClosed due, r)) (by simp [readComponentTag, hread]) ⟨rfl, h₂⟩
  | case7 s c flagged s' hn _ hclose hslash hblank ih =>
    obtain ⟨due, r, rfl, rfl, h'⟩ := h.of_next_char hn
    obtain rfl : due = none := by simpa using hblank.2
    have hnext : readComponentTag (.char c none :: r) = readComponentTag r := by
      simp [readComponentTag, hclose, hslash, hblank.1]
    rw [hnext]
    refine ih ?_
    simpa [Place.behind, hclose] using h'
  | case8 s c flagged s' hn _ hclose hslash hblank =>
    obtain ⟨due, r, rfl, rfl, h'⟩ := h.of_next_char hn
    have hblank : ¬ (isBlank c ∧ due.isNone) := by simpa using hblank
    exact .error (by simp only [readComponentTag, hclose, hslash, hblank, if_false]) h'.taken_prefix

/-- In a closing tag only its end matters, from behind the slash on. -/
theorem Place.behind_ending {c : Char} (hp : p = .closing ∨ p = .ending) :
    p.behind c = if c = '>' then .content else .ending := by
  rcases hp with rfl | rfl <;> rfl

theorem follows_closingName {after : Bool} (hp : p = .closing ∨ p = .ending)
    (h : s.InStep all none p rest) :
    Follows all (scanClosingName name after s) (readClosingName name after rest)
      fun (tag, due, r) out s' => out = (tag, due.isSome) ∧ s'.InStep all due .content r := by
  fun_induction scanClosingName name after s generalizing rest p with
  | case1 name after s hn =>
    obtain rfl := h.of_next_none hn
    exact .error rfl h.taken_prefix
  | case2 name after s _ s' hn =>
    obtain ⟨k, r, rfl, h'⟩ := h.of_next_insertion hn
    exact .error rfl h'.taken_prefix
  | case3 name after s flagged s' hn _ =>
    obtain ⟨due, r, rfl, rfl, h'⟩ := h.of_next_char hn
    rw [Place.behind_ending hp, if_pos rfl] at h'
    exact .ok (b := (_, due, r)) (by simp [readClosingName]) ⟨rfl, h'⟩
  | case4 name after s c s' hclose hn _ =>
    obtain ⟨due, r, rfl, hdue, h'⟩ := h.of_next_char hn
    exact .error (by simp [readClosingName, hclose, ← hdue]) h'.taken_prefix
  | case5 name after s c flagged s' hn _ hclose hflagged hblank ih =>
    obtain ⟨due, r, rfl, rfl, h'⟩ := h.of_next_char hn
    obtain rfl : due = none := by simpa using hflagged
    rw [Place.behind_ending hp, if_neg hclose] at h'
    have hnext : readClosingName name after (.char c none :: r) =
        readClosingName name (!name.isEmpty) r := by
      simp [readClosingName, hclose, hblank]
    rw [hnext]
    exact ih (.inr rfl) h'
  | case6 name after s c flagged s' hn _ hclose hflagged hblank hpart ih =>
    obtain ⟨due, r, rfl, rfl, h'⟩ := h.of_next_char hn
    obtain rfl : due = none := by simpa using hflagged
    rw [Place.behind_ending hp, if_neg hclose] at h'
    obtain rfl : after = false := by simpa using hpart.2
    have hnext : readClosingName name false (.char c none :: r) =
        readClosingName (name ++ [c]) false r := by
      simp [readClosingName, hclose, hblank, hpart.1]
    rw [hnext]
    exact ih (.inr rfl) h'
  | case7 name after s c flagged s' hn _ hclose hflagged hblank hpart =>
    obtain ⟨due, r, rfl, rfl, h'⟩ := h.of_next_char hn
    exact .error (by simp only [readClosingName, hclose, hblank, hpart, hflagged, if_false,
      Bool.false_eq_true])
      h'.taken_prefix

theorem follows_closingEnd (h : s.InStep all none .ending rest) :
    Follows all (scanClosingEnd s) (readClosingEnd rest) fun (due, r) out s' =>
      out = due.isSome ∧ s'.InStep all due .content r := by
  fun_induction scanClosingEnd s generalizing rest with
  | case1 s hn =>
    obtain rfl := h.of_next_none hn
    exact .error rfl h.taken_prefix
  | case2 s _ s' hn =>
    obtain ⟨k, r, rfl, h'⟩ := h.of_next_insertion hn
    exact .error rfl h'.taken_prefix
  | case3 s flagged s' hn _ =>
    obtain ⟨due, r, rfl, rfl, h'⟩ := h.of_next_char hn
    exact .ok (b := (due, r)) (by simp [readClosingEnd]) ⟨rfl, h'⟩
  | case4 s c flagged s' hn _ hclose hblank ih =>
    obtain ⟨due, r, rfl, rfl, h'⟩ := h.of_next_char hn
    obtain rfl : due = none := by simpa using hblank.2
    rw [Place.behind_ending (.inr rfl), if_neg hclose] at h'
    have hnext : readClosingEnd (.char c none :: r) = readClosingEnd r := by
      simp [readClosingEnd, hclose, hblank.1]
    rw [hnext]
    exact ih h'
  | case5 s c flagged s' hn _ hclose hblank =>
    obtain ⟨due, r, rfl, rfl, h'⟩ := h.of_next_char hn
    have hblank : ¬ (isBlank c ∧ due.isNone) := by simpa using hblank
    exact .error (by simp only [readClosingEnd, hclose, hblank, if_false]) h'.taken_prefix

/-! ## Attributes -/

/-- A character of a quoted value that is neither a quote nor a backslash. -/
theorem readQuoted_step {pieces : List Piece} {run : List Char} {c : Char} {due : Option Nat}
    {r : List Step} (hquote : c ≠ '"') (hslash : c ≠ '\\') :
    readQuoted ins pieces run (.char c due :: r) =
      match due with
      | none => readQuoted ins pieces (run ++ [c]) r
      | some k =>
        match addInsertion ins pieces (run ++ [c]) k with
        | .error e => .error e
        | .ok pieces => readQuoted ins pieces [] r := by
  cases due with
  | none => rw [readQuoted] <;> simp_all
  | some k => rw [readQuoted] <;> first | rfl | simp_all

theorem Place.behind_quoted {c : Char} (hquote : c ≠ '"') (hslash : c ≠ '\\') :
    Place.quoted.behind c = .quoted := by
  simp [behind, hquote, hslash]

theorem Place.behind_value {c : Char} (hquote : c ≠ '"') (hblank : isBlank c = true) :
    Place.value.behind c = .value := by
  simp [behind, hquote, hblank]

theorem Place.behind_tag {c : Char} (hclose : c ≠ '>') (hequals : c ≠ '=') :
    Place.tag.behind c = .tag := by
  simp [behind, hclose, hequals]


section

variable (hnum : all.map Prod.snd = List.range all.length)
include hnum

theorem follows_piece {pieces : List Piece} {run : List Char} {k : Nat}
    (h : s.InStep all (some k) .quoted rest) :
    Follows all (scanPiece ins pieces run s) (addInsertion ins pieces run k) fun pieces out s' =>
      out = pieces ∧ s'.InStep all none .quoted rest := by
  unfold scanPiece
  cases hrun : addLiteral pieces run with
  | error e => exact .error (by rw [addInsertion, hrun]) h.taken_prefix
  | ok pieces =>
    obtain ⟨hk, h'⟩ := h.take hnum rfl
    simp only [hk]
    by_cases htext : (ins k).hasText
    · rw [if_pos htext]
      exact .ok (by simp only [addInsertion, hrun, if_pos htext]) ⟨rfl, h'⟩
    · rw [if_neg htext]
      exact .error (by simp only [addInsertion, hrun, if_neg htext]) h'.taken_prefix

theorem follows_quoted {pieces : List Piece} {run : List Char}
    (h : s.InStep all none .quoted rest) :
    Follows all (scanQuoted ins pieces run s) (readQuoted ins pieces run rest)
      fun (value, r) out s' => out = value ∧ s'.InStep all none .tag r := by
  fun_induction scanQuoted ins pieces run s generalizing rest with
  | case1 pieces run s hn =>
    obtain rfl := h.of_next_none hn
    exact .error rfl h.taken_prefix
  | case2 pieces run s _ s' hn e s'' hscan =>
    obtain ⟨k, r, rfl, h'⟩ := h.of_next_insertion hn
    obtain ⟨hread, htaken⟩ := (hscan ▸ follows_piece hnum h').of_error
    exact .error (by simp [readQuoted, hread]) htaken
  | case3 pieces run s _ s' hn pieces' s'' hscan ih =>
    obtain ⟨k, r, rfl, h'⟩ := h.of_next_insertion hn
    obtain ⟨_, hread, rfl, h''⟩ := (hscan ▸ follows_piece hnum h').of_ok
    have hnext : readQuoted ins pieces run (.insertion k :: r) = readQuoted ins pieces' [] r := by
      rw [readQuoted, hread]
    rw [hnext]
    exact ih h''
  | case4 pieces run s s' hn =>
    obtain ⟨due, r, rfl, hdue, h'⟩ := h.of_next_char hn
    exact .error (by simp [readQuoted, ← hdue]) h'.taken_prefix
  | case5 pieces run s flagged s' hflagged hn =>
    obtain ⟨due, r, rfl, rfl, h'⟩ := h.of_next_char hn
    obtain rfl : due = none := by simpa using hflagged
    cases hrun : addLiteral pieces run with
    | error e => exact .error (by simp [readQuoted, hrun]) h'.taken_prefix
    | ok pieces => exact .ok (b := (_, r)) (by simp [readQuoted, hrun]) ⟨rfl, h'⟩
  | case6 pieces run s s' hquote hn =>
    obtain ⟨due, r, rfl, hdue, h'⟩ := h.of_next_char hn
    obtain ⟨k, rfl⟩ := Option.isSome_iff_exists.1 hdue.symm
    refine .error ?_ h'.taken_prefix
    rcases r with _ | ⟨⟨c, _ | _⟩ | _, _⟩ <;> simp [readQuoted]
  | case7 pieces run s flagged s' hflagged hn' hn hquote =>
    obtain ⟨due, r, rfl, rfl, h'⟩ := h.of_next_char hn
    obtain rfl : due = none := by simpa using hflagged
    obtain rfl := h'.of_next_none hn'
    exact .error (by simp [readQuoted]) h'.taken_prefix
  | case8 pieces run s flagged s' hflagged _ s₂ hn' hn hquote =>
    obtain ⟨due, r, rfl, rfl, h'⟩ := h.of_next_char hn
    obtain rfl : due = none := by simpa using hflagged
    obtain ⟨k, r, rfl, h₂⟩ := h'.of_next_insertion hn'
    exact .error (by simp [readQuoted]) h₂.taken_prefix
  | case9 pieces run s flagged s' hflagged c s₂ e s₃ hscan hn hquote hn' =>
    obtain ⟨due, r, rfl, rfl, h'⟩ := h.of_next_char hn
    obtain rfl : due = none := by simpa using hflagged
    obtain ⟨due, r, rfl, hdue, h₂⟩ := h'.of_next_char hn'
    obtain ⟨k, rfl⟩ := Option.isSome_iff_exists.1 hdue.symm
    obtain ⟨hread, htaken⟩ := (hscan ▸ follows_piece hnum h₂).of_error
    exact .error (by simp [readQuoted, hread]) htaken
  | case10 pieces run s flagged s' hflagged c s₂ pieces' s₃ hscan hn hquote hn' ih =>
    obtain ⟨due, r, rfl, rfl, h'⟩ := h.of_next_char hn
    obtain rfl : due = none := by simpa using hflagged
    obtain ⟨due, r, rfl, hdue, h₂⟩ := h'.of_next_char hn'
    obtain ⟨k, rfl⟩ := Option.isSome_iff_exists.1 hdue.symm
    obtain ⟨_, hread, rfl, h₃⟩ := (hscan ▸ follows_piece hnum h₂).of_ok
    have hnext : readQuoted ins pieces run (.char '\\' none :: .char c (some k) :: r) =
        readQuoted ins pieces' [] r := by
      simp [readQuoted, hread]
    rw [hnext]
    exact ih h₃
  | case11 pieces run s flagged s' hflagged c flagged' s₂ hn' hflagged' hn hquote ih =>
    obtain ⟨due, r, rfl, rfl, h'⟩ := h.of_next_char hn
    obtain rfl : due = none := by simpa using hflagged
    obtain ⟨due, r, rfl, rfl, h₂⟩ := h'.of_next_char hn'
    obtain rfl : due = none := by simpa using hflagged'
    have hnext : readQuoted ins pieces run (.char '\\' none :: .char c none :: r) =
        readQuoted ins pieces (run ++ ['\\', c]) r := by
      simp [readQuoted]
    rw [hnext]
    exact ih h₂
  | case12 pieces run s c s' hquote hslash e s₂ hscan hn =>
    obtain ⟨due, r, rfl, hdue, h'⟩ := h.of_next_char hn
    obtain ⟨k, rfl⟩ := Option.isSome_iff_exists.1 hdue.symm
    rw [Place.behind_quoted hquote hslash] at h'
    obtain ⟨hread, htaken⟩ := (hscan ▸ follows_piece hnum h').of_error
    exact .error (by rw [readQuoted_step hquote hslash]; simp only [hread]) htaken
  | case13 pieces run s c s' hquote hslash pieces' s₂ hscan hn ih =>
    obtain ⟨due, r, rfl, hdue, h'⟩ := h.of_next_char hn
    obtain ⟨k, rfl⟩ := Option.isSome_iff_exists.1 hdue.symm
    rw [Place.behind_quoted hquote hslash] at h'
    obtain ⟨_, hread, rfl, h₂⟩ := (hscan ▸ follows_piece hnum h').of_ok
    rw [readQuoted_step hquote hslash]
    simp only [hread]
    exact ih h₂
  | case14 pieces run s c flagged s' hn hquote hslash hflagged ih =>
    obtain ⟨due, r, rfl, rfl, h'⟩ := h.of_next_char hn
    obtain rfl : due = none := by simpa using hflagged
    rw [readQuoted_step hquote hslash]
    exact ih (Place.behind_quoted hquote hslash ▸ h')

theorem follows_openQuoted {due : Option Nat} (h : s.InStep all due .quoted rest) :
    Follows all (scanOpenQuoted ins due.isSome s) (openQuoted ins due) fun pieces out s' =>
      out = pieces ∧ s'.InStep all none .quoted rest := by
  cases due with
  | none => exact .ok rfl ⟨rfl, h⟩
  | some k =>
    simp only [scanOpenQuoted, Option.isSome_some, if_true]
    exact follows_piece hnum h

theorem follows_value {name : String} (h : s.InStep all none .value rest) :
    Follows all (scanValue ins name s) (readValue ins name rest) fun (a, r) out s' =>
      out = a ∧ s'.InStep all none .tag r := by
  fun_induction scanValue ins name s generalizing rest with
  | case1 s hn =>
    obtain rfl := h.of_next_none hn
    exact .error rfl h.taken_prefix
  | case2 s _ s' hn k s₂ hk =>
    obtain ⟨k, r, rfl, h'⟩ := h.of_next_insertion hn
    obtain ⟨rfl, h₂⟩ := hk ▸ h'.take hnum rfl
    exact .ok (b := (_, r)) rfl ⟨rfl, h₂⟩
  | case3 s flagged s' e s₂ hopen hn _ =>
    obtain ⟨due, r, rfl, rfl, h'⟩ := h.of_next_char hn
    obtain ⟨hread, htaken⟩ := (hopen ▸ follows_openQuoted hnum h').of_error
    exact .error (by simp [readValue, hread]) htaken
  | case4 s flagged s' pieces s₂ hopen e s₃ hscan hn _ =>
    obtain ⟨due, r, rfl, rfl, h'⟩ := h.of_next_char hn
    obtain ⟨_, hread, rfl, h₂⟩ := (hopen ▸ follows_openQuoted hnum h').of_ok
    obtain ⟨hread', htaken⟩ := (hscan ▸ follows_quoted hnum h₂).of_error
    exact .error (by simp [readValue, hread, hread']) htaken
  | case5 s flagged s' pieces s₂ hopen value s₃ hscan hn _ =>
    obtain ⟨due, r, rfl, rfl, h'⟩ := h.of_next_char hn
    obtain ⟨_, hread, rfl, h₂⟩ := (hopen ▸ follows_openQuoted hnum h').of_ok
    obtain ⟨⟨_, r⟩, hread', rfl, h₃⟩ := (hscan ▸ follows_quoted hnum h₂).of_ok
    exact .ok (b := (_, r)) (by simp [readValue, hread, hread']) ⟨rfl, h₃⟩
  | case6 s c s' hquote hblank k s₂ hk hn _ =>
    obtain ⟨due, r, rfl, hdue, h'⟩ := h.of_next_char hn
    obtain ⟨k, rfl⟩ := Option.isSome_iff_exists.1 hdue.symm
    rw [Place.behind_value hquote hblank] at h'
    obtain ⟨rfl, h₂⟩ := hk ▸ h'.take hnum rfl
    exact .ok (b := (_, r)) (by simp [readValue, hquote, hblank]) ⟨rfl, h₂⟩
  | case7 s c flagged s' hn _ hquote hblank hflagged ih =>
    obtain ⟨due, r, rfl, rfl, h'⟩ := h.of_next_char hn
    obtain rfl : due = none := by simpa using hflagged
    have hnext : readValue ins name (.char c none :: r) = readValue ins name r := by
      simp [readValue, hquote, hblank]
    rw [hnext]
    exact ih (Place.behind_value hquote hblank ▸ h')
  | case8 s c flagged s' hn _ hquote hblank =>
    obtain ⟨due, r, rfl, rfl, h'⟩ := h.of_next_char hn
    exact .error (by simp [readValue, hquote, hblank]) h'.taken_prefix

theorem follows_attributes {read : List Attribute} {after : Bool} (h : s.InStep all none .tag rest) :
    Follows all (scanAttributes ins read name after s)
      ((readAttributes ins read name after rest).mapError Prod.fst) fun (attributes, close, r) out s' =>
        out = (attributes, close.ending) ∧ s'.InStep all close.due .content r := by
  fun_induction scanAttributes ins read name after s generalizing rest with
  | case1 read name after s hn =>
    obtain rfl := h.of_next_none hn
    exact .error (by simp [readAttributes, Except.mapError]) h.taken_prefix
  | case2 read name after s _ s' hn =>
    obtain ⟨k, r, rfl, h'⟩ := h.of_next_insertion hn
    exact .error (by simp [readAttributes, Except.mapError]) h'.taken_prefix
  | case3 read name after s flagged s' hn _ =>
    obtain ⟨due, r, rfl, rfl, h'⟩ := h.of_next_char hn
    exact .ok (b := (_, .opened due, r)) (by cases due <;> simp [readAttributes, Except.mapError]) ⟨rfl, h'⟩
  | case4 read name after s s' _ hn _ =>
    obtain ⟨due, r, rfl, hdue, h'⟩ := h.of_next_char hn
    obtain ⟨k, rfl⟩ := Option.isSome_iff_exists.1 hdue.symm
    exact .error (by simp [readAttributes, Except.mapError]) h'.taken_prefix
  | case5 read name after s flagged s' hflagged e s₂ hscan hn _ _ =>
    obtain ⟨due, r, rfl, rfl, h'⟩ := h.of_next_char hn
    obtain rfl : due = none := by simpa using hflagged
    obtain ⟨hread, htaken⟩ := (hscan ▸ follows_close rfl h').of_error
    exact .error (by simp [readAttributes, Except.mapError, hread]) htaken
  | case6 read name after s flagged s' hflagged flagged' s₂ hscan hn _ _ =>
    obtain ⟨due, r, rfl, rfl, h'⟩ := h.of_next_char hn
    obtain rfl : due = none := by simpa using hflagged
    obtain ⟨⟨due, r⟩, hread, rfl, h₂⟩ := (hscan ▸ follows_close rfl h').of_ok
    exact .ok (b := (_, .selfClosed due, r)) (by simp [readAttributes, Except.mapError, hread])
      ⟨rfl, h₂⟩
  | case7 read name after s flagged s' hname hn _ _ _ =>
    obtain ⟨due, r, rfl, rfl, h'⟩ := h.of_next_char hn
    exact .error (by cases due <;> simp [readAttributes, Except.mapError, hname]) h'.taken_prefix
  | case8 read name after s s' hname k s₂ hk _ _ hn _ ih =>
    obtain ⟨due, r, rfl, hdue, h'⟩ := h.of_next_char hn
    obtain ⟨k, rfl⟩ := Option.isSome_iff_exists.1 hdue.symm
    obtain ⟨rfl, h₂⟩ := hk ▸ h'.take hnum rfl
    have hnext : readAttributes ins read name after (.char '=' (some k) :: r) =
        readAttributes ins (read ++ [.inserted (String.ofList name) k]) [] false r := by
      rw [readAttributes]
      simp [hname]
    rw [hnext]
    exact ih h₂
  | case9 read name after s flagged s' hname hflagged e s₂ hscan hn _ _ _ =>
    obtain ⟨due, r, rfl, rfl, h'⟩ := h.of_next_char hn
    obtain rfl : due = none := by simpa using hflagged
    obtain ⟨hread, htaken⟩ := (hscan ▸ follows_value hnum h').of_error
    refine .error ?_ htaken
    rw [readAttributes_valued (by simpa using hname), hread]
    rfl
  | case10 read name after s flagged s' hname hflagged a s₂ hscan hn _ _ _ ih =>
    obtain ⟨due, r, rfl, rfl, h'⟩ := h.of_next_char hn
    obtain rfl : due = none := by simpa using hflagged
    obtain ⟨⟨_, r⟩, hread, rfl, h₂⟩ := (hscan ▸ follows_value hnum h').of_ok
    rw [readAttributes_valued (by simpa using hname), hread]
    exact ih h₂
  | case11 read name after s c s' hclose hslash hequals hblank hn _ =>
    obtain ⟨due, r, rfl, hdue, h'⟩ := h.of_next_char hn
    obtain ⟨k, rfl⟩ := Option.isSome_iff_exists.1 hdue.symm
    exact .error (by simp [readAttributes, Except.mapError, hclose, hslash, hequals, hblank])
      h'.taken_prefix
  | case12 read name after s c flagged s' hn _ hclose hslash hequals hblank hflagged ih =>
    obtain ⟨due, r, rfl, rfl, h'⟩ := h.of_next_char hn
    obtain rfl : due = none := by simpa using hflagged
    have hnext : readAttributes ins read name after (.char c none :: r) =
        readAttributes ins read name (!name.isEmpty) r := by
      rw [readAttributes]
      simp [hclose, hslash, hequals, hblank]
    rw [hnext]
    exact ih (Place.behind_tag hclose hequals ▸ h')
  | case13 read name after s c s' hclose hslash hequals hblank hpart hn _ =>
    obtain ⟨due, r, rfl, hdue, h'⟩ := h.of_next_char hn
    obtain ⟨k, rfl⟩ := Option.isSome_iff_exists.1 hdue.symm
    exact .error (by simp [readAttributes, Except.mapError, hclose, hslash, hequals, hblank, hpart])
      h'.taken_prefix
  | case14 read name s c flagged s' hn _ hclose hslash hequals hblank hpart hflagged ih =>
    obtain ⟨due, r, rfl, rfl, h'⟩ := h.of_next_char hn
    obtain rfl : due = none := by simpa using hflagged
    have hnext : readAttributes ins read name true (.char c none :: r) =
        readAttributes ins (addValueless read name) [c] false r := by
      rw [readAttributes]
      simp [hclose, hslash, hequals, hblank, hpart]
    rw [hnext]
    exact ih (Place.behind_tag hclose hequals ▸ h')
  | case15 read name after s c flagged s' hn _ hclose hslash hequals hblank hpart hflagged hafter ih =>
    obtain ⟨due, r, rfl, rfl, h'⟩ := h.of_next_char hn
    obtain rfl : due = none := by simpa using hflagged
    have hnext : readAttributes ins read name after (.char c none :: r) =
        readAttributes ins read (name ++ [c]) false r := by
      rw [readAttributes]
      simp [hclose, hslash, hequals, hblank, hpart, hafter]
    rw [hnext]
    exact ih (Place.behind_tag hclose hequals ▸ h')
  | case16 read name s c flagged s' hn _ hclose hslash hequals hblank hpart =>
    obtain ⟨due, r, rfl, rfl, h'⟩ := h.of_next_char hn
    exact .error (by cases due <;> simp [readAttributes, Except.mapError, hclose, hslash, hequals,
      hblank, hpart]) h'.taken_prefix
  | case17 read name after s c flagged s' hn _ hclose hslash hequals hblank hpart hafter =>
    obtain ⟨due, r, rfl, rfl, h'⟩ := h.of_next_char hn
    exact .error (by cases due <;> simp [readAttributes, Except.mapError, hclose, hslash, hequals,
      hblank, hpart, hafter]) h'.taken_prefix

theorem follows_elementTag (h : s.InStep all none .opening rest) :
    Follows all (scanElementTag ins s) ((readElementTag ins rest).mapError Prod.fst)
      fun (tag, attributes, close, r) out s' =>
        out = (tag, attributes, close.ending) ∧ s'.InStep all close.due .content r := by
  have hname : Follows all (scanTagName [] s) (readTagName [] rest) _ := follows_tagName h
  unfold scanElementTag
  split
  · next e s' hscan =>
    obtain ⟨hread, htaken⟩ := (hscan ▸ hname).of_error
    exact .error (by simp [readElementTag, Except.mapError, hread]) htaken
  · next tag ending s' hscan =>
    obtain ⟨⟨tag', close, r⟩, hread, hout, h'⟩ := (hscan ▸ hname).of_ok
    cases close with
    | none => cases hout
    | some close =>
      cases hout
      exact .ok (b := (_, [], close, r)) (by simp [readElementTag, Except.mapError, hread]) ⟨rfl, h'⟩
  · next tag s' hscan =>
    obtain ⟨⟨tag', close, r⟩, hread, hout, h'⟩ := (hscan ▸ hname).of_ok
    cases close with
    | some close => cases hout
    | none =>
      cases hout
      have hattributes : Follows all (scanAttributes ins [] [] false s')
          ((readAttributes ins [] [] false r).mapError Prod.fst) _ := follows_attributes hnum h'
      split
      · next e s₂ hscan' =>
        obtain ⟨hread', htaken⟩ := (hscan' ▸ hattributes).of_error
        refine .error ?_ htaken
        cases hr : readAttributes ins [] [] false r with
        | error fault =>
          rw [hr] at hread'
          cases hread'
          simp [readElementTag, Except.mapError, hread, hr]
        | ok out => rw [hr] at hread'; cases hread'
      · next attributes ending s₂ hscan' =>
        obtain ⟨⟨attributes', close, r'⟩, hread', hout, h₂⟩ := (hscan' ▸ hattributes).of_ok
        cases hout
        cases hr : readAttributes ins [] [] false r with
        | error fault => rw [hr] at hread'; cases hread'
        | ok out =>
          rw [hr] at hread'
          cases hread'
          exact .ok (b := (tag, attributes, close, r'))
            (by simp [readElementTag, Except.mapError, hread, hr]) ⟨rfl, h₂⟩

theorem follows_closingTag {due : Option Nat} (h : s.InStep all due .closing rest) :
    Follows all (scanClosingTag ins due.isSome s) (readClosingTag ins due rest)
      fun (tag, due, r) out s' => out = (tag, due.isSome) ∧ s'.InStep all due .content r := by
  cases due with
  | none =>
    have hname : Follows all (scanClosingName [] false s) (readClosingName [] false rest) _ :=
      follows_closingName (.inl rfl) h
    simp only [scanClosingTag, Option.isSome_none, Bool.false_eq_true, if_false]
    split
    · next e s' hscan =>
      obtain ⟨hread, htaken⟩ := (hscan ▸ hname).of_error
      exact .error (by simp [readClosingTag, hread]) htaken
    · next tag flagged s' hscan =>
      obtain ⟨⟨tag', due, r⟩, hread, hout, h'⟩ := (hscan ▸ hname).of_ok
      cases hout
      exact .ok (b := (.element tag, due, r)) (by simp [readClosingTag, hread]) ⟨rfl, h'⟩
  | some k =>
    obtain ⟨hk, h'⟩ := h.take hnum rfl
    simp only [scanClosingTag, Option.isSome_some, if_true, hk]
    split
    · next hcomponent =>
      exact .error (by simp [readClosingTag, hcomponent]) h'.taken_prefix
    · next hcomponent =>
      exact .error (by simp [readClosingTag, hcomponent]) h'.taken_prefix
    · next hcomponent =>
      have hend : Follows all (scanClosingEnd (s.take .pointer).2) (readClosingEnd rest) _ :=
        follows_closingEnd h'
      split
      · next e s' hscan =>
        obtain ⟨hread, htaken⟩ := (hscan ▸ hend).of_error
        exact .error (by simp [readClosingTag, hcomponent, hread]) htaken
      · next flagged s' hscan =>
        obtain ⟨⟨due, r⟩, hread, hout, h₂⟩ := (hscan ▸ hend).of_ok
        cases hout
        exact .ok (b := (_, due, r)) (by simp [readClosingTag, hcomponent, hread]) ⟨rfl, h₂⟩

end

/-! ## Content -/

section

variable {stack : List Frame} {done : List Markup} {run : List Char} {r : List Step}

theorem readContent_char {c : Char} (hc : c ≠ '<') (due : Option Nat) :
    readContent ins stack done run (.char c due :: r) =
      if stack.isEmpty then
        if isBlank c then readContent ins stack (insertDue done due) [] r
        else .error ⟨.expectedOpeningTag c, pending done stack⟩
      else
        match due with
        | none => readContent ins stack done (run ++ [c]) r
        | some k => readContent ins stack (addText done (run ++ [c]) ++ [.inserted k]) [] r := by
  cases due <;> rw [readContent] <;> simp_all

theorem readContent_componentTag {k : Nat} {name : String} {pointer : Bool}
    (hcomponent : (ins k).component? = some (name, pointer)) :
    readContent ins stack done run (.char '<' (some k) :: r) =
      match readComponentTag r with
      | .error e => .error ⟨e, pending (addText done run) stack⟩
      | .ok (.opened due, r) =>
        readContent ins (⟨.component k name, addText done run⟩ :: stack) (insertDue [] due) [] r
      | .ok (.selfClosed due, r) =>
        readContent ins stack (insertDue (addText done run ++ [.component k none]) due) [] r := by
  rw [readContent]
  simp only [hcomponent]
  split <;> rename_i h <;> simp only [h]

theorem readContent_closingTag {opening : Opening} {before : List Markup} {outer : List Frame}
    {slash : Option Nat} :
    readContent ins (⟨opening, before⟩ :: outer) done run (.char '<' none :: .char '/' slash :: r) =
      match readClosingTag ins slash r with
      | .error e => .error ⟨e, pending (addText done run) (⟨opening, before⟩ :: outer)⟩
      | .ok (tag, due, r) =>
        if opening.isClosedBy tag then
          readContent ins outer (insertDue (before ++ [opening.close (addText done run)]) due) [] r
        else
          .error ⟨.tagMismatch opening.name tag.name,
            pending (addText done run) (⟨opening, before⟩ :: outer)⟩ := by
  rw [readContent]
  simp only
  split <;> rename_i h <;> simp only [h]

theorem readContent_elementTag
    (hopening : ∀ opening before outer slash r', stack = ⟨opening, before⟩ :: outer →
      r = .char '/' slash :: r' → False) :
    readContent ins stack done run (.char '<' none :: r) =
      match readElementTag ins r with
      | .error (e, read) => .error ⟨e, pending (addText done run ++ read) stack⟩
      | .ok (tag, attributes, .opened due, r) =>
        readContent ins (⟨.element tag attributes, addText done run⟩ :: stack) (insertDue [] due) [] r
      | .ok (tag, attributes, .selfClosed due, r) =>
        readContent ins stack (insertDue (addText done run ++ [.element tag attributes []]) due) [] r
      := by
  rw [readContent]
  · simp only
    split <;> rename_i h <;> simp only [h]
  · exact hopening

end

section

variable (hnum : all.map Prod.snd = List.range all.length)
include hnum

theorem follows_child {done : List Markup} {due : Option Nat} (h : s.InStep all due .content rest) :
    (scanChild done due.isSome s).1 = insertDue done due ∧
      (scanChild done due.isSome s).2.InStep all none .content rest := by
  cases due with
  | none => exact ⟨rfl, h⟩
  | some k =>
    obtain ⟨hk, h'⟩ := h.take hnum rfl
    simp only [scanChild, Option.isSome_some, if_true, insertDue, hk]
    exact ⟨trivial, h'⟩

/-- Reading with a scanner goes like reading, and takes every argument at its place. -/
theorem follows_content {stack : List Frame} {done : List Markup} {run : List Char}
    (h : s.InStep all none .content rest) :
    Follows all (scanContent ins stack done run s)
      ((readContent ins stack done run rest).mapError Fault.error) fun ms out s' =>
        out = ms ∧ s'.InStep all none .content [] := by
  fun_induction scanContent ins stack done run s generalizing rest with
  | case1 stack done run s hn =>
    obtain rfl := h.of_next_none hn
    rw [readContent]
    cases stack with
    | nil => exact .ok rfl ⟨rfl, h⟩
    | cons f outer => exact .error rfl h.taken_prefix
  | case2 stack done run s _ s' hn done' s₂ hchild ih =>
    obtain ⟨k, r, rfl, h'⟩ := h.of_next_insertion hn
    obtain ⟨rfl, h₂⟩ := hchild ▸ follows_child hnum h'
    rw [readContent]
    exact ih h₂
  | case3 stack done run s s' k s₂ hk hcomponent hn =>
    obtain ⟨due, r, rfl, hdue, h'⟩ := h.of_next_char hn
    obtain ⟨k, rfl⟩ := Option.isSome_iff_exists.1 hdue.symm
    obtain ⟨rfl, h₂⟩ := hk ▸ h'.take hnum rfl
    refine .error ?_ h₂.taken_prefix
    rw [readContent]
    simp only [hcomponent]
    rfl
  | case4 stack done run s s' k s₂ hk name pointer hcomponent e s₃ htag hn =>
    obtain ⟨due, r, rfl, hdue, h'⟩ := h.of_next_char hn
    obtain ⟨k, rfl⟩ := Option.isSome_iff_exists.1 hdue.symm
    obtain ⟨rfl, h₂⟩ := hk ▸ h'.take hnum rfl
    obtain ⟨hread, htaken⟩ := (htag ▸ follows_componentTag h₂).of_error
    refine .error ?_ htaken
    rw [readContent_componentTag hcomponent, hread]
    rfl
  | case5 stack done run s s' k s₂ hk name pointer hcomponent flagged s₃ htag children s₄ hchild hn ih =>
    obtain ⟨due, r, rfl, hdue, h'⟩ := h.of_next_char hn
    obtain ⟨k, rfl⟩ := Option.isSome_iff_exists.1 hdue.symm
    obtain ⟨rfl, h₂⟩ := hk ▸ h'.take hnum rfl
    obtain ⟨⟨close, r⟩, hread, hclose, h₃⟩ := (htag ▸ follows_componentTag h₂).of_ok
    cases close with
    | selfClosed due => cases hclose
    | opened due =>
      cases hclose
      obtain ⟨rfl, h₄⟩ := hchild ▸ follows_child hnum h₃
      rw [readContent_componentTag hcomponent, hread]
      exact ih h₄
  | case6 stack done run s s' k s₂ hk name pointer hcomponent flagged s₃ htag done' s₄ hchild hn ih =>
    obtain ⟨due, r, rfl, hdue, h'⟩ := h.of_next_char hn
    obtain ⟨k, rfl⟩ := Option.isSome_iff_exists.1 hdue.symm
    obtain ⟨rfl, h₂⟩ := hk ▸ h'.take hnum rfl
    obtain ⟨⟨close, r⟩, hread, hclose, h₃⟩ := (htag ▸ follows_componentTag h₂).of_ok
    cases close with
    | opened due => cases hclose
    | selfClosed due =>
      cases hclose
      obtain ⟨rfl, h₄⟩ := hchild ▸ follows_child hnum h₃
      rw [readContent_componentTag hcomponent, hread]
      exact ih h₄
  | case7 done run s flagged s' hflagged opening before outer slash s₂ hn' e s₃ htag hn =>
    obtain ⟨due, r, rfl, rfl, h'⟩ := h.of_next_char hn
    obtain rfl : due = none := by simpa using hflagged
    obtain ⟨due, r, rfl, rfl, h₂⟩ := h'.of_next_char hn'
    obtain ⟨hread, htaken⟩ := (htag ▸ follows_closingTag hnum h₂).of_error
    refine .error ?_ htaken
    rw [readContent_closingTag, hread]
    rfl
  | case8 done run s flagged s' hflagged opening before outer slash s₂ hn' tag flagged' s₃ htag hclosed
      done' s₄ hchild hn ih =>
    obtain ⟨due, r, rfl, rfl, h'⟩ := h.of_next_char hn
    obtain rfl : due = none := by simpa using hflagged
    obtain ⟨due, r, rfl, rfl, h₂⟩ := h'.of_next_char hn'
    obtain ⟨⟨_, due, r⟩, hread, hout, h₃⟩ := (htag ▸ follows_closingTag hnum h₂).of_ok
    cases hout
    obtain ⟨rfl, h₄⟩ := hchild ▸ follows_child hnum h₃
    rw [readContent_closingTag, hread]
    simp only [hclosed, if_true]
    exact ih h₄
  | case9 done run s flagged s' hflagged opening before outer slash s₂ hn' tag flagged' s₃ htag hclosed
      hn =>
    obtain ⟨due, r, rfl, rfl, h'⟩ := h.of_next_char hn
    obtain rfl : due = none := by simpa using hflagged
    obtain ⟨due, r, rfl, rfl, h₂⟩ := h'.of_next_char hn'
    obtain ⟨⟨_, due, r⟩, hread, hout, h₃⟩ := (htag ▸ follows_closingTag hnum h₂).of_ok
    cases hout
    refine .error ?_ h₃.taken_prefix
    rw [readContent_closingTag, hread]
    simp only [hclosed]
    rfl
  | case10 done run s flagged s' hflagged stack e s₂ htag hopening hn =>
    obtain ⟨due, r, rfl, rfl, h'⟩ := h.of_next_char hn
    obtain rfl : due = none := by simpa using hflagged
    obtain ⟨hread, htaken⟩ := (htag ▸ follows_elementTag hnum h').of_error
    refine .error ?_ htaken
    rw [readContent_elementTag (h'.not_closing hopening)]
    cases hr : readElementTag ins r with
    | ok out => rw [hr] at hread; cases hread
    | error fault =>
      rw [hr] at hread
      cases hread
      rfl
  | case11 done run s flagged s' hflagged stack tag attributes flagged' s₂ htag children s₃ hchild
      hopening hn ih =>
    obtain ⟨due, r, rfl, rfl, h'⟩ := h.of_next_char hn
    obtain rfl : due = none := by simpa using hflagged
    obtain ⟨⟨_, _, close, r'⟩, hread, hout, h₂⟩ := (htag ▸ follows_elementTag hnum h').of_ok
    rw [readContent_elementTag (h'.not_closing hopening)]
    cases close with
    | selfClosed due => cases hout
    | opened due =>
      cases hout
      obtain ⟨rfl, h₃⟩ := hchild ▸ follows_child hnum h₂
      cases hr : readElementTag ins r with
      | error fault => rw [hr] at hread; cases hread
      | ok out =>
        rw [hr] at hread
        cases hread
        exact ih h₃
  | case12 done run s flagged s' hflagged stack tag attributes flagged' s₂ htag done' s₃ hchild
      hopening hn ih =>
    obtain ⟨due, r, rfl, rfl, h'⟩ := h.of_next_char hn
    obtain rfl : due = none := by simpa using hflagged
    obtain ⟨⟨_, _, close, r'⟩, hread, hout, h₂⟩ := (htag ▸ follows_elementTag hnum h').of_ok
    rw [readContent_elementTag (h'.not_closing hopening)]
    cases close with
    | opened due => cases hout
    | selfClosed due =>
      cases hout
      obtain ⟨rfl, h₃⟩ := hchild ▸ follows_child hnum h₂
      cases hr : readElementTag ins r with
      | error fault => rw [hr] at hread; cases hread
      | ok out =>
        rw [hr] at hread
        cases hread
        exact ih h₃
  | case13 stack done run s c flagged s' hn hc hstack hblank done' s₂ hchild ih =>
    obtain ⟨due, r, rfl, rfl, h'⟩ := h.of_next_char hn
    have hplace : Place.content.behind c = .content := if_neg hc
    obtain ⟨rfl, h₂⟩ := hchild ▸ follows_child hnum (hplace ▸ h')
    rw [readContent_char hc, if_pos hstack, if_pos hblank]
    exact ih h₂
  | case14 stack done run s c flagged s' hn hc hstack hblank =>
    obtain ⟨due, r, rfl, rfl, h'⟩ := h.of_next_char hn
    refine .error ?_ h'.taken_prefix
    rw [readContent_char hc, if_pos hstack, if_neg hblank]
    rfl
  | case15 stack done run s c s' hc hstack done' s₂ hchild hn ih =>
    obtain ⟨due, r, rfl, hdue, h'⟩ := h.of_next_char hn
    obtain ⟨k, rfl⟩ := Option.isSome_iff_exists.1 hdue.symm
    have hplace : Place.content.behind c = .content := if_neg hc
    obtain ⟨rfl, h₂⟩ := hchild ▸ follows_child hnum (hplace ▸ h')
    rw [readContent_char hc, if_neg hstack]
    exact ih h₂
  | case16 stack done run s c flagged s' hn hc hstack hflagged ih =>
    obtain ⟨due, r, rfl, rfl, h'⟩ := h.of_next_char hn
    obtain rfl : due = none := by simpa using hflagged
    have hplace : Place.content.behind c = .content := if_neg hc
    rw [readContent_char hc, if_neg hstack]
    exact ih (hplace ▸ h')

end

end

/-! ## Whole templates -/

namespace Place

variable (p : Place)

theorem roles_plain (t : List Char) : p.roles (t.map (.char · none)) = [] := by
  induction t generalizing p with
  | nil => rfl
  | cons c t ih => exact ih (p.behind c)

theorem roles_ofSegment (k : Nat) (t : List Char) (r : List Step) :
    p.roles (Step.ofSegment k t ++ r) =
      ((p.along t).role?, k) :: (p.along t).behindInsertion.roles r := by
  fun_induction Step.ofSegment k t generalizing p with
  | case1 => rfl
  | case2 c => rfl
  | case3 c d t ih => exact ih (p.behind c)

/-- The insertions of a template in order, each with what its place is for. -/
theorem roles_ofSegments (k : Nat) (segments : List String) :
    p.roles (Step.ofSegments k segments) =
      (List.range (segments.length - 1)).map fun i =>
        ((p.ofInsertion segments i).role?, k + i) := by
  fun_induction Step.ofSegments k segments generalizing p with
  | case1 => rfl
  | case2 => exact p.roles_plain _
  | case3 k t t' r ih =>
    rw [roles_ofSegment, ih]
    simp only [List.length_cons, Nat.add_sub_cancel, List.range_succ_eq_map, List.map_cons,
      List.map_map]
    congr 1
    refine List.map_congr_left fun i _ => ?_
    simp only [Function.comp_apply, ofInsertion, Prod.mk.injEq, true_and]
    omega

end Place

/-- The place of insertion `k` of a template. -/
def placeOf (segments : List String) (k : Nat) : Place := Place.content.ofInsertion segments k

/-- What all insertions of a template are for, going by their places. -/
def wanted (segments : List String) : List (Option Role × Nat) :=
  (List.range (segments.length - 1)).map fun k => ((placeOf segments k).role?, k)

/-- What is written right before an insertion at a place, after the insertion before it. -/
def Place.After (text : List Char) : Place → Prop
  | opening => ['<'] <:+ text
  | closing => ['<', '/'] <:+ text
  | value => ∃ blanks, (∀ c ∈ blanks, isBlank c) ∧ '=' :: blanks <:+ text
  | quoted => (text.reverse.takeWhile (· = '\\')).length % 2 = 0
  | escape => (text.reverse.takeWhile (· = '\\')).length % 2 = 1
  | content | ending | name | tag | component => True

namespace Place

variable {p : Place} {text : List Char}

theorem behindInsertion_after (p : Place) : p.behindInsertion.After [] := by
  cases p <;> simp [behindInsertion, After]

theorem After.behind (h : p.After text) (c : Char) : (p.behind c).After (text ++ [c]) := by
  cases p <;> simp only [Place.behind]
  case content =>
    split
    · next hc => exact ⟨text, by rw [hc]⟩
    · trivial
  case opening =>
    split
    · next hc =>
      obtain ⟨front, rfl⟩ := h
      exact ⟨front, by simp [hc]⟩
    · trivial
  case closing | ending | component => split <;> trivial
  case name => split <;> (try split) <;> trivial
  case tag =>
    split
    · trivial
    split
    · next hc => exact ⟨[], by simp, text, by rw [hc]⟩
    · trivial
  case value =>
    obtain ⟨blanks, hblanks, front, rfl⟩ := h
    split
    · next hc => simp [After, hc]
    split
    · next hc => exact ⟨blanks ++ [c], by grind, front, by simp⟩
    · trivial
  case quoted =>
    replace h : (text.reverse.takeWhile (· = '\\')).length % 2 = 0 := h
    split
    · trivial
    split
    · next hc =>
      simp only [After, hc, List.reverse_append, List.reverse_singleton, List.singleton_append,
        List.takeWhile_cons, decide_true, if_true, List.length_cons]
      omega
    · next hc => simp [After, hc]
  case escape =>
    replace h : (text.reverse.takeWhile (· = '\\')).length % 2 = 1 := h
    by_cases hc : c = '\\'
    · simp only [After, hc, List.reverse_append, List.reverse_singleton, List.singleton_append,
        List.takeWhile_cons, decide_true, if_true, List.length_cons]
      omega
    · simp [After, hc]

theorem After.along (h : p.After text) (more : List Char) : (p.along more).After (text ++ more) := by
  induction more generalizing p text with
  | nil => simpa [Place.along] using h
  | cons c more ih =>
    have := ih (h.behind c)
    rwa [List.append_assoc] at this

theorem ofInsertion_after (hp : p.After []) {segments : List String} {k : Nat} {t : String}
    (h : segments[k]? = some t) : (p.ofInsertion segments k).After t.toList := by
  induction segments generalizing p k with
  | nil => cases h
  | cons s r ih =>
    cases k with
    | zero =>
      cases h
      exact hp.along _
    | succ k => exact ih (behindInsertion_after _) h

end Place

/-- What is written before an insertion is as its place says. -/
theorem placeOf_after {segments : List String} {k : Nat} {t : String} (h : segments[k]? = some t) :
    (placeOf segments k).After t.toList :=
  Place.ofInsertion_after (p := .content) trivial h

@[simp] theorem length_wanted (segments : List String) :
    (wanted segments).length = segments.length - 1 := by
  simp [wanted]

theorem numbers_wanted (segments : List String) :
    (wanted segments).map Prod.snd = List.range (wanted segments).length := by
  simp [wanted, Function.comp_def]

theorem inStep_start (segments : List String) :
    (Scanner.start segments (segments.length - 1)).InStep (wanted segments) none .content
      (Step.ofSegments 0 segments) where
  steps := (Step.ofSegments_eq 0 segments).symm
  stands k hk := by cases hk
  account := by
    simp [Scanner.taken, Scanner.start, Place.dueRoles, Place.roles_ofSegments, wanted, placeOf]
  untaken k _ hk := by
    rw [length_wanted] at hk
    simp [Scanner.start, hk]

/-- Reading a template with a scanner comes to the same as reading it. Nothing is taken out of order,
and a reading that succeeds has taken everything. -/
theorem follows_scan {segments : List String} {ins : List Insertion}
    (hlen : segments.length = ins.length + 1) :
    Follows (wanted segments) (scan segments ins) ((read segments ins).mapError Fault.error)
      fun ms out s => out = ms ∧ s.taken = wanted segments := by
  have hcount : ins.length = segments.length - 1 := by omega
  rw [scan, read, if_pos hlen, if_pos hlen, hcount]
  have h : Follows (wanted segments)
      (scanContent (fun k => ins.getD k ⟨"empty", true, none⟩) [] [] []
        (.start segments (segments.length - 1))) _ _ :=
    follows_content (numbers_wanted segments) (inStep_start segments)
  generalize (readContent (fun k => ins.getD k ⟨"empty", true, none⟩) [] [] []
    (Step.ofSegments 0 segments)).mapError Fault.error = result at h ⊢
  cases result with
  | error e => exact h
  | ok ms =>
    obtain ⟨out, hout, rfl, hs⟩ := h
    refine ⟨_, hout, rfl, ?_⟩
    simpa [Place.dueRoles, Place.roles] using hs.account

end LivePage.Markup
