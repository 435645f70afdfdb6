import LivePage.Flow.Branches
import LivePage.Proofs.Node.Building

/-!
# A conditional renders once per run of true conditions

A conditional remembers its last branch and whether that was shown last. `gatedNode_cases` says what
its generator does with a condition: it shows nothing, it shows the remembered branch again, or it
calls the render function. Between two conditions anything can happen that leaves that memory alone,
as rendering does (`memos_gatedBranch`) and the generators of other conditionals do
(`memos_gatedNode_of_ne`). So along every sequence of conditions that reach the generator the render
function is called once for each maximal run of true ones, and what is shown is the branch of the
latest call or nothing (`conditional_calls`). The sequence is that of the conditions that are
delivered: a rebuild of a place that shows the same observable can end the delivery.
-/

namespace LivePage

open LivePage.Script

variable {call : Respond} {source : CellId} {render : Template} {label : Option String}
  {gate : MemoId} {w w₁ w' : World} {n : Node} {now : Bool} {told : List (Bool × Node)} {k d : Nat}

/-! ## What is remembered -/

/-- What a conditional remembers. -/
def World.memo (w : World) (gate : MemoId) : Memo := w.memos.getD gate.index ⟨none, false⟩

/-- The world with something else remembered. -/
def World.withMemo (w : World) (gate : MemoId) (m : Memo) : World :=
  { w with memos := w.memos.setIfInBounds gate.index m }

/-- Is the render function called when this is remembered and a condition comes? -/
def Memo.renders (m : Memo) (now : Bool) : Bool := now && !(m.shown && m.branch.isSome)

/-- A branch that was shown last is there. -/
def Memo.Sound (m : Memo) : Prop := m.shown = true → m.branch.isSome = true

theorem Memo.Sound.renders {m : Memo} (h : m.Sound) (now : Bool) :
    m.renders now = (now && !m.shown) := by
  unfold Memo.renders
  cases hs : m.shown with
  | false => simp
  | true => simp [h hs]

theorem Memo.renders_of_ne {m : Memo} (h : ∀ n, m = ⟨some n, true⟩ → False) :
    m.renders true = true := by
  obtain ⟨_ | n, _ | _⟩ := m
  case some.true => exact (h n rfl).elim
  all_goals rfl

theorem World.memo_of_eq (h : w'.memos[gate.index]? = w.memos[gate.index]?) :
    w'.memo gate = w.memo gate := by
  simp only [World.memo, Array.getD_eq_getD_getElem?, h]

theorem World.memo_withMemo (h : gate.index < w.memos.size) (m : Memo) :
    (w.withMemo gate m).memo gate = m := by
  simp [World.memo, World.withMemo, Array.getD_eq_getD_getElem?, h]

/-- Evaluation leaves alone what conditionals remember. -/
theorem building_memos (memos : Array Memo) : Building (·.memos = memos) fun _ => True where
  stable hw _ _ hmemos := hmemos.trans hw
  has _ _ := trivial
  empty := trivial
  text _ _ := trivial
  element _ _ _ _ _ _ := trivial
  deferred _ := trivial
  wrap _ _ := trivial

theorem memos_gatedBranch (h : (gatedBranch (respond d) render label).run w = .ok n w') :
    w'.memos = w.memos := by
  have B := building_memos w.memos
  have hgives : Gives (·.memos = w.memos) (·.All fun _ => True)
      (gatedBranch (respond d) render label) :=
    (B.gives_logLabel _ label).bind fun _ _ =>
      B.gives_calledTemplate (B.respond_builds d) Context.all_nil render
  exact (hgives w rfl n w' h).2

/-! ## One condition -/

/-- What the generator of a conditional does with a condition. -/
theorem gatedNode_cases (h : (gatedNode call render label gate now).run w = .ok n w') :
    (now = false ∧ n = .empty ∧ w' = w.withMemo gate { w.memo gate with shown := false }) ∨
    (now = true ∧ w.memo gate = ⟨some n, true⟩ ∧ w' = w.withMemo gate ⟨some n, true⟩) ∨
    (now = true ∧ (w.memo gate).renders true = true ∧ ∃ w₁,
      (gatedBranch call render label).run
        (w.withMemo gate { w.memo gate with shown := true }) = .ok n w₁ ∧
      w' = { w₁ with
        memos := w₁.memos.modify gate.index fun m => { m with branch := some n } }) := by
  unfold gatedNode at h
  rw [ok_get_bind] at h
  dsimp only at h
  rw [ok_set_bind] at h
  split at h
  · obtain ⟨rfl, rfl⟩ := ok_pure.1 h
    exact .inl ⟨rfl, rfl, rfl⟩
  · next m hlast =>
    obtain ⟨rfl, rfl⟩ := ok_pure.1 h
    exact .inr (.inl ⟨rfl, hlast, by rw [hlast]; rfl⟩)
  · next hnew =>
    obtain ⟨m, w₁, hbranch, h⟩ := ok_bind.1 h
    rw [ok_modify_bind] at h
    obtain ⟨rfl, rfl⟩ := ok_pure.1 h
    refine .inr (.inr ⟨rfl, ?_, w₁, hbranch, rfl⟩)
    exact Memo.renders_of_ne hnew

/-- What is remembered after a condition: the branch, if it was rendered, and the condition. -/
theorem memo_gatedNode (hgate : gate.index < w.memos.size)
    (h : (gatedNode (respond d) render label gate now).run w = .ok n w') :
    w'.memos.size = w.memos.size ∧ w'.memo gate =
      ⟨if (w.memo gate).renders now then some n else (w.memo gate).branch, now⟩ := by
  obtain ⟨rfl, rfl, rfl⟩ | ⟨rfl, hlast, rfl⟩ | ⟨rfl, hnew, w₁, hbranch, rfl⟩ := gatedNode_cases h
  · exact ⟨by simp [World.withMemo], by rw [World.memo_withMemo hgate]; simp [Memo.renders]⟩
  · refine ⟨by simp [World.withMemo], ?_⟩
    rw [World.memo_withMemo hgate, hlast]
    simp [Memo.renders]
  · have hmemos := memos_gatedBranch hbranch
    refine ⟨by simp [hmemos, World.withMemo], ?_⟩
    rw [if_pos hnew]
    simp [World.memo, hmemos, World.withMemo, Array.getD_eq_getD_getElem?, Array.getElem_modify,
      hgate]

theorem memos_gatedNode_of_ne {other : MemoId} (hne : other.index ≠ gate.index)
    (h : (gatedNode (respond d) render label other now).run w = .ok n w') :
    w'.memos[gate.index]? = w.memos[gate.index]? := by
  obtain ⟨-, -, rfl⟩ | ⟨-, -, rfl⟩ | ⟨-, -, w₁, hbranch, rfl⟩ := gatedNode_cases h
  · simp [World.withMemo, hne]
  · simp [World.withMemo, hne]
  · simp [memos_gatedBranch hbranch, World.withMemo, Array.getElem?_modify, hne]

theorem Memo.Sound.after {m : Memo} (h : m.Sound) (now : Bool) (n : Node) :
    Memo.Sound ⟨if m.renders now then some n else m.branch, now⟩ := by
  rintro rfl
  rw [h.renders]
  cases hs : m.shown with
  | false => simp
  | true => simpa [hs] using h hs

/-- The node that is shown for a condition. -/
theorem node_gatedNode (h : (gatedNode call render label gate now).run w = .ok n w') :
    (now = false → n = .empty) ∧
      (now = true → (w.memo gate).renders true = false → (w.memo gate).branch = some n) := by
  obtain ⟨rfl, rfl, -⟩ | ⟨rfl, hlast, -⟩ | ⟨rfl, hnew, -⟩ := gatedNode_cases h
  · simp
  · simp [hlast]
  · simp [hnew]

/-! ## Sequences of conditions -/

/-- The generator of a conditional is told one condition after the other, and shows a node for each;
in all it calls the render function a number of times. What else happens leaves what the
conditional remembers alone. -/
inductive Told (call : Respond) (render : Template) (label : Option String) (gate : MemoId) :
    World → List (Bool × Node) → Nat → World → Prop where
  | nil (w : World) : Told call render label gate w [] 0 w
  | between {w w₁ w' : World} {told : List (Bool × Node)} {k : Nat}
    (h : w₁.memos[gate.index]? = w.memos[gate.index]?)
    (hrest : Told call render label gate w₁ told k w') : Told call render label gate w told k w'
  | told {w w₁ w' : World} {now : Bool} {n : Node} {told : List (Bool × Node)} {k : Nat}
    (h : (gatedNode call render label gate now).run w = .ok n w₁)
    (hrest : Told call render label gate w₁ told k w') :
    Told call render label gate w ((now, n) :: told)
      (((w.memo gate).renders now).toNat + k) w'

/-- The number of maximal runs of true among conditions; `last` is the one before them. -/
def runsOfTrue (last : Bool) : List Bool → Nat
  | [] => 0
  | now :: rest => (now && !last).toNat + runsOfTrue now rest

/-- While the conditions are true, the nodes are the branch that was rendered when they became so;
else they are empty. -/
def ShowsLatest : Memo → List (Bool × Node) → Prop
  | _, [] => True
  | m, (false, n) :: rest => n = .empty ∧ ShowsLatest { m with shown := false } rest
  | ⟨branch, true⟩, (true, n) :: rest => branch = some n ∧ ShowsLatest ⟨branch, true⟩ rest
  | ⟨_, false⟩, (true, n) :: rest => ShowsLatest ⟨some n, true⟩ rest

/-- The render function is called once for each maximal run of true conditions. -/
theorem Told.calls (h : Told (respond d) render label gate w told k w')
    (hgate : gate.index < w.memos.size) (hsound : (w.memo gate).Sound) :
    k = runsOfTrue (w.memo gate).shown (told.map Prod.fst) ∧ ShowsLatest (w.memo gate) told := by
  induction h with
  | nil w => exact ⟨rfl, trivial⟩
  | @between w w₁ w' told k heq _ ih =>
    have hmemo := World.memo_of_eq heq
    rw [hmemo] at ih
    refine ih ?_ hsound
    have hsome : (w₁.memos[gate.index]?).isSome = true := by rw [heq]; simpa using hgate
    simpa using hsome
  | @told w w₁ w' now n told k hrun _ ih =>
    obtain ⟨hsize, hmemo⟩ := memo_gatedNode hgate hrun
    obtain ⟨hoff, hkept⟩ := node_gatedNode hrun
    rw [hmemo, hsize] at ih
    obtain ⟨hcalls, hshows⟩ := ih hgate (hsound.after now n)
    rw [hsound.renders] at hcalls hshows ⊢
    refine ⟨by simp [runsOfTrue, hcalls], ?_⟩
    rw [hsound.renders] at hkept
    generalize w.memo gate = m at hkept hshows
    obtain ⟨branch, _ | _⟩ := m <;> cases now <;> simp_all [ShowsLatest]

/-- What a new conditional shows and remembers. -/
theorem ok_conditional (h : (conditional (respond d) source render label).run w = .ok n w') :
    ∃ branch c, n = fragmentOf (branch.getD .empty) (some c) ∧
      branch.isSome = (w.shownCurrent source).isTrue ∧
      w'.memos = w.memos.push ⟨branch, (w.shownCurrent source).isTrue⟩ := by
  unfold conditional at h
  rw [ok_get_bind] at h
  dsimp only at h
  split at h
  · next htrue =>
    obtain ⟨m, w₁, hbranch, h⟩ := ok_bind.1 h
    rw [ok_get_bind, ok_set_bind] at h
    obtain ⟨c, w₂, hderive, h⟩ := ok_bind.1 h
    obtain ⟨rfl, rfl⟩ := ok_pure.1 h
    cases hderive
    refine ⟨some m, _, rfl, htrue.symm, ?_⟩
    rw [htrue, ← memos_gatedBranch hbranch]
  · next hfalse =>
    rw [Bool.not_eq_true] at hfalse
    obtain ⟨m, w₁, hempty, h⟩ := ok_bind.1 h
    obtain ⟨rfl, rfl⟩ := ok_pure.1 hempty
    rw [ok_get_bind, ok_set_bind] at h
    obtain ⟨c, w₂, hderive, h⟩ := ok_bind.1 h
    obtain ⟨rfl, rfl⟩ := ok_pure.1 h
    cases hderive
    exact ⟨none, _, rfl, hfalse.symm, by rw [hfalse]⟩

/-- From its making on, a conditional calls its render function once for each maximal run of true
among the condition that it was made with and those that it is told, and shows the branch of the
latest call or nothing. -/
theorem conditional_calls {w₀ : World}
    (hmade : (conditional (respond d) source render label).run w = .ok n w₀)
    (htold : Told (respond d) render label ⟨w.memos.size⟩ w₀ told k w') :
    (w.shownCurrent source).isTrue.toNat + k =
        runsOfTrue false ((w.shownCurrent source).isTrue :: told.map Prod.fst) ∧
      ∃ branch c, n = fragmentOf (branch.getD .empty) (some c) ∧
        ShowsLatest ⟨branch, (w.shownCurrent source).isTrue⟩ told := by
  obtain ⟨branch, c, hn, hbranch, hmemos⟩ := ok_conditional hmade
  have hmemo : w₀.memo ⟨w.memos.size⟩ = ⟨branch, (w.shownCurrent source).isTrue⟩ := by
    simp [World.memo, hmemos]
  have hsound : (w₀.memo ⟨w.memos.size⟩).Sound := by
    rw [hmemo]
    exact fun h => hbranch.trans h
  obtain ⟨hcalls, hshows⟩ := htold.calls (by simp [hmemos]) hsound
  rw [hmemo] at hcalls hshows
  exact ⟨by simp [runsOfTrue, hcalls], branch, c, hn, hshows⟩

end LivePage
