import LivePage.Proofs.Network.Basic

/-!
# Generators as functions of their sources

Two kinds of generators whose results are functions of the values of the sources: programs that only
compute with the variables for these values, and text templates with observables of scalars in them.
-/

namespace LivePage

open LivePage.Script

variable {T : Typing} {w w' : World} {c : CellId} {n : Nat} {call : Respond}

namespace Network

/-! ## Text templates -/

/-- The texts of scalars between the segments. -/
def interleaved : List String → List Held → String
  | [], _ => ""
  | [s], _ => s
  | s :: rest, [] => s ++ interleaved rest []
  | s :: rest, .value (.scalar x) :: inputs => s ++ x.text ++ interleaved rest inputs
  | s :: rest, _ :: inputs => s ++ interleaved rest inputs

theorem insertedText_scalar {x : Scalar} {out : String} (hx : (w.cell c).held = .value (.scalar x))
    (h : (respond n (.insertedText (.observable c))).run w = .ok out w') :
    out = x.text ∧ w' = w := by
  have hcurrent : w.current c = .scalar x := by
    rw [World.current, World.content, hx]
    rfl
  cases n with
  | zero => exact absurd h not_ok_throw
  | succ n =>
    have h : (respond n (.insertedText (w.current c))).run w = .ok out w' := ok_get_bind.1 h
    rw [hcurrent] at h
    cases n with
    | zero => exact absurd h not_ok_throw
    | succ n => exact ok_pure.1 (ok_get_bind.1 h)

theorem interleave_scalars {sources : List CellId} {segments : List String} {out : String}
    (hscalar : ∀ c ∈ sources, ∃ x, (w.cell c).held = .value (.scalar x))
    (h : (interleave (respond n) segments (sources.map .observable)).run w = .ok out w') :
    out = interleaved segments (sources.map fun c => (w.cell c).held) := by
  induction segments generalizing sources w w' out with
  | nil => exact (ok_pure.1 h).1
  | cons s rest ih =>
    cases rest with
    | nil => cases sources <;> exact (ok_pure.1 h).1
    | cons t rest =>
      cases sources with
      | nil =>
        obtain ⟨tail, w₁, htail, h⟩ := ok_bind.1 h
        obtain ⟨rfl, -⟩ := ok_pure.1 h
        have htail : (interleave (respond n) (t :: rest)
            (([] : List CellId).map Value.observable)).run w = .ok tail w₁ := htail
        rw [ih hscalar htail]
        rfl
      | cons c sources =>
        obtain ⟨inserted, w₁, hinserted, h⟩ := ok_bind.1 h
        obtain ⟨tail, w₂, htail, h⟩ := ok_bind.1 h
        obtain ⟨rfl, -⟩ := ok_pure.1 h
        obtain ⟨x, hx⟩ := hscalar c (by simp)
        obtain ⟨rfl, rfl⟩ := insertedText_scalar hx hinserted
        rw [ih (fun e he => hscalar e (by simp [he])) htail, List.map_cons, hx]
        rfl

theorem looks_template (segments : List String) {sources : List CellId}
    (hscalar : ∀ c ∈ sources, ∀ held, T c held → ∃ x, held = .value (.scalar x)) :
    (Generator.template segments (sources.map .observable)).Looks T sources
      fun inputs => .value (.str (interleaved segments inputs)) := by
  intro depth w w' out htyped h
  obtain ⟨s, w₁, hs, h⟩ := ok_bind.1 h
  obtain ⟨rfl, -⟩ := ok_pure.1 h
  rw [interleave_scalars (fun c hc => hscalar c hc _ (htyped c hc)) hs]

/-! ## Programs -/

/-- The expression only computes with variables; its value is this function of them. -/
inductive OfVariables : Expr → (Context → Value) → Prop where
  | scalar (s : Scalar) : OfVariables (.scalar s) fun _ => .scalar s
  | var (name : String) : OfVariables (.var name) fun ctx => (Entries.get? name ctx).getD .empty
  | add {a b : Expr} {f g : Context → Value} : OfVariables a f → OfVariables b g →
      OfVariables (.add a b) fun ctx => (f ctx).add (g ctx)
  | mul {a b : Expr} {f g : Context → Value} : OfVariables a f → OfVariables b g →
      OfVariables (.mul a b) fun ctx => (f ctx).mul (g ctx)
  | equal {a b : Expr} {f g : Context → Value} : OfVariables a f → OfVariables b g →
      OfVariables (.equal a b) fun ctx => .bool ((f ctx).same (g ctx))
  | less {a b : Expr} {f g : Context → Value} : OfVariables a f → OfVariables b g →
      OfVariables (.less a b) fun ctx => .bool ((f ctx).less (g ctx))
  | not {a : Expr} {f : Context → Value} : OfVariables a f →
      OfVariables (.not a) fun ctx => .bool (!(f ctx).isTrue)
  | cond {e a b : Expr} {f g h : Context → Value} : OfVariables e f → OfVariables a g →
      OfVariables b h → OfVariables (.cond e a b) fun ctx => if (f ctx).isTrue then g ctx else h ctx

theorem evalExpr_ofVariables {e : Expr} {f : Context → Value} (h : OfVariables e f)
    (ctx : Context) (w : World) : (evalExpr call ctx e).run.run w = .ok (.ok (f ctx)) w := by
  induction h with
  | scalar s => rfl
  | var name => rfl
  | add _ _ iha ihb | mul _ _ iha ihb | equal _ _ iha ihb | less _ _ iha ihb =>
    rw [evalExpr, ok_ebind]
    refine ⟨_, w, iha, ?_⟩
    rw [ok_ebind]
    exact ⟨_, w, ihb, rfl⟩
  | not _ iha =>
    rw [evalExpr, ok_ebind]
    exact ⟨_, w, iha, rfl⟩
  | cond _ _ _ ihe iha ihb =>
    rw [evalExpr, ok_ebind]
    refine ⟨_, w, ihe, ?_⟩
    dsimp only
    split
    · exact iha
    · exact ihb

/-- The variables for values handed over by the sources. -/
def inputContext (inputs : List Held) : Context :=
  inputs.mapIdx fun i held =>
    ("v" ++ toString i, match held with
      | .value v => v
      | .element _ | .absent => .empty)

theorem sourceContext_eq {inputs : List Held} (h : ∀ held ∈ inputs, ∃ v, held = .value v) :
    sourceContext w inputs = inputContext inputs := by
  unfold sourceContext inputContext
  refine List.ext_getElem (by simp) fun i hi hi' => ?_
  rw [List.length_mapIdx] at hi
  obtain ⟨v, hv⟩ := h inputs[i] (List.getElem_mem hi)
  simp [hv, World.shown]

theorem computes_program {body : Expr} {f : Context → Value} (h : OfVariables body f)
    {sources : List CellId} (hvalues : ∀ c ∈ sources, ∀ held, T c held → ∃ v, held = .value v) :
    (Generator.program body none .any).Computes T sources
      fun inputs => .value (f (inputContext inputs)) := by
  intro depth w w' inputs out htyped hrun
  have hinputs : ∀ held ∈ inputs, ∃ v, held = .value v := by
    intro held hmem
    obtain ⟨i, hi, rfl⟩ := List.getElem_of_mem hmem
    have hlt : i < sources.length := by rw [htyped.length_eq]; exact hi
    exact hvalues _ (List.getElem_mem hlt) _ (List.Forall₂.get htyped hlt hi)
  have hvalue : (calledExpr (respond depth) (sourceContext w inputs) body).run w =
      .ok (f (inputContext inputs)) w := by
    rw [sourceContext_eq hinputs]
    exact ok_bind.2 ⟨_, w, evalExpr_ofVariables h _ w, rfl⟩
  obtain ⟨_, w₀, hlog, hbody⟩ := ok_bind.1 hrun
  obtain ⟨-, rfl⟩ := ok_pure.1 hlog
  rw [ok_get_bind, ok_bind] at hbody
  obtain ⟨v, w₁, hv, hbody⟩ := hbody
  rw [hvalue] at hv
  cases hv
  rw [ok_get_bind] at hbody
  exact (ok_pure.1 hbody).1

end Network

end LivePage
