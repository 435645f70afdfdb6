import LivePage.Proofs.Chronicle.Moments
import LivePage.Proofs.Chronicle.Steps

/-!
# How long what is on a page keeps its observable

Something on a page that follows an observable keeps it, and is told of it, until somebody removes
all subscriptions of the observable, which the teardown of a record does to those that it mentions
(`World.Sustains`). An observable that is alive although nothing else holds it is mentioned by a
record that has not been torn down, or by something that is being realized or could not be
(`Standing`). Both are facts about every moment of every run, whoever drops what and when
(`mounted_keeps_source`): the first goes forward from a subscription change by change, the second
goes back from a subscription to the realization that made it.
-/

namespace LivePage

open LivePage.Script

variable {w w' v : World} {c : CellId} {key : Nat} {r : Reaction} {es : List Episode} {m : Teardown}

/-! ## Episodes inside of episodes -/

theorem Chronicle.of_mem_allOf (h : Chronicle es w w') {e : Episode} (he : e ∈ Episode.allOf es) :
    e.move.Changes e.start e.finish ∨
      e.move.Spans e.inner e.start e.finish ∧ Chronicle e.inner e.start e.finish := by
  induction h with
  | still pins => cases he
  | change pins hm _ ih =>
    simp only [Episode.allOf_cons, Episode.allOf_nil, List.nil_append, List.mem_cons] at he
    rcases he with rfl | he
    · exact .inl hm
    · exact ih he
  | during pins hs hinner _ ihinner ih =>
    simp only [Episode.allOf_cons, List.mem_cons, List.mem_append] at he
    rcases he with rfl | he | he
    · exact .inr ⟨hs, hinner⟩
    · exact ihinner he
    · exact ih he

/-- An episode ends at a moment. -/
theorem Episode.finish_mem_momentsOf {e : Episode} (he : e ∈ es) :
    ⟨e.move, true, e.finish⟩ ∈ momentsOf es := by
  obtain ⟨fs, gs, rfl⟩ := List.append_of_mem he
  obtain ⟨move, start, inner, finish⟩ := e
  simp

/-- During its teardown, all subscriptions of an observable that a record mentions are removed. -/
theorem Chronicle.exists_clears (h : Chronicle es w w') {e : Episode}
    (he : e ∈ Episode.allOf es) (hkill : e.move = .killed m) (hc : c ∈ m.mentions) :
    ∃ x ∈ e.moments, x.Clears c := by
  obtain ⟨move, start, inner, finish⟩ := e
  obtain rfl : move = .killed m := hkill
  rcases h.of_mem_allOf he with hm | ⟨⟨hclears, -⟩, -⟩
  · exact hm.elim
  · obtain ⟨e, he, hmove⟩ := (hclears.iff c).2 hc
    refine ⟨⟨e.move, true, e.finish⟩, ?_, rfl, hmove⟩
    simp [Episode.moments, Episode.finish_mem_momentsOf he]

/-- The episode is a realization of something that mentions the observable, or it fails. -/
def Move.Realizes (c : CellId) : Move → Prop
  | .realized m => c ∈ m.mentions
  | .failed => True
  | _ => False

theorem Move.Realizes.exists_record {move : Move} (h : move.Realizes c) (hne : move ≠ .failed) :
    ∃ m, move = .realized m ∧ c ∈ m.mentions := by
  cases move with
  | realized m => exact ⟨m, rfl, h⟩
  | failed => exact absurd rfl hne
  | _ => exact h.elim

theorem Hands.exists_told {held : Held} {snapshot : List (Nat × Reaction)}
    (h : Hands c held snapshot es w) {e : Episode} (he : e ∈ es) :
    ∃ key r, e.move = .told c key r held := by
  induction h with
  | done => cases he
  | told pins hkey hmove _ ih =>
    rcases List.mem_cons.1 he with rfl | he
    · exact ⟨_, _, hmove⟩
    · exact ih he
  | gone _ _ ih => exact ih he

/-- Only realizations subscribe by themselves what does something to a page. -/
theorem Move.Spans.realizes {move : Move} (h : move.Spans es w w') (hr : r.onPage) {e : Episode}
    (he : e ∈ es) (hmove : e.move = .subscribed c key r) : move.Realizes c := by
  have hclean : ¬ e.move.Clean := by
    rw [hmove]
    exact fun hnot => hnot hr
  cases move with
  | emission d =>
    obtain ⟨_, _, htold⟩ := h.1.exists_told he
    rw [hmove] at htold
    cases htold
  | told => exact absurd (h.1 e he) hclean
  | realized m => exact h.1 e he hmove hr
  | failed => trivial
  | killed m => exact absurd (h.1.clean e he) hclean
  | _ => exact h.elim

/-- What is subscribed and does something to a page is subscribed by one of the episodes themselves,
or during a realization, whose end comes afterwards. -/
theorem Chronicle.exists_realization (h : Chronicle es w w') (hr : r.onPage)
    {before after : List Moment} {u : World}
    (hms : Episode.momentsOf es = before ++ ⟨.subscribed c key r, true, u⟩ :: after) :
    (∃ e ∈ es, e.move = .subscribed c key r) ∨
      ∃ e ∈ Episode.allOf es, e.move.Realizes c ∧ (∃ e' ∈ e.inner, e'.move = .subscribed c key r) ∧
        ⟨e.move, false, e.start⟩ ∈ before ∧
        ∃ past future, after = past ++ ⟨e.move, true, e.finish⟩ :: future := by
  induction h generalizing before after with
  | still pins => simp at hms
  | @change w w₁ w' move es pins hm _ ih =>
    rw [Episode.momentsOf_cons, Episode.momentsOf_nil, List.nil_append] at hms
    match before, hms with
    | [], hms => cases hms
    | [_], hms =>
      cases hms
      exact .inl ⟨_, List.mem_cons_self, rfl⟩
    | _ :: _ :: before, hms =>
      simp only [List.cons_append, List.cons.injEq] at hms
      rcases ih hms.2.2 with ⟨e, he, hmove⟩ | ⟨e, he, hreal, hsub, hstart, hend⟩
      · exact .inl ⟨e, List.mem_cons_of_mem _ he, hmove⟩
      · exact .inr ⟨e, by simp [he], hreal, hsub, by simp [hstart], hend⟩
  | @during w w₁ w' move inner es pins hs _ _ ihinner ih =>
    rw [Episode.momentsOf_cons] at hms
    have hne : ∀ {u}, (⟨move, true, w₁⟩ : Moment) ≠ ⟨.subscribed c key r, true, u⟩ := by
      rintro u he
      cases he
      exact hs
    match before, hms with
    | [], hms => cases hms
    | _ :: before, hms =>
      simp only [List.cons_append, List.cons.injEq] at hms
      obtain ⟨rfl, hms⟩ := hms
      rcases List.append_eq_append_iff.1 hms with ⟨rest, rfl, hrest⟩ | ⟨rest, hinner, hrest⟩
      · -- The subscription comes after the episode.
        match rest, hrest with
        | [], hrest => exact absurd (List.cons.inj hrest).1 hne
        | _ :: rest, hrest =>
          rcases ih (List.cons.inj hrest).2 with ⟨e, he, hmove⟩ | ⟨e, he, hreal, hsub, hstart, hend⟩
          · exact .inl ⟨e, List.mem_cons_of_mem _ he, hmove⟩
          · exact .inr ⟨e, by simp [he], hreal, hsub, by simp [hstart], hend⟩
      · -- It comes during the episode.
        match rest, hrest with
        | [], hrest => exact absurd (List.cons.inj hrest).1.symm hne
        | _ :: rest, hrest =>
          obtain rfl := (List.cons.inj hrest).1
          have hafter : after = rest ++ ⟨move, true, w₁⟩ :: Episode.momentsOf es :=
            (List.cons.inj hrest).2
          refine .inr ?_
          rcases ihinner hinner with ⟨e, he, hmove⟩ |
            ⟨e, he, hreal, hsub, hstart, past, future, rfl⟩
          · exact ⟨_, List.mem_cons_self, hs.realizes hr he hmove, ⟨e, he, hmove⟩,
              List.mem_cons_self, rest, _, hafter⟩
          · rw [List.append_assoc, List.cons_append] at hafter
            exact ⟨e, by simp [he], hreal, hsub, by simp [hstart], past, _, hafter⟩

/-! ## Why an observable is bound -/

/-- Why something on a page follows the observable at some moment of a run, where `past` and
`future` are the moments before and after. -/
inductive Standing (es : List Episode) (past future : List Moment) (c : CellId) : Prop where
  /-- A record that mentions the observable has been given, and not been torn down since. -/
  | mounted {m : Teardown} {before after : List Moment} {u : World} : c ∈ m.mentions →
      past = before ++ ⟨.realized m, true, u⟩ :: after →
      (∀ e ∈ Episode.allOf es, e.move = .killed m → ¬ e.moments <:+: after) →
      Standing es past future c
  /-- Something that mentions it is being realized. -/
  | underway {e : Episode} : e ∈ Episode.allOf es → e.move.Realizes c →
      ⟨e.move, false, e.start⟩ ∈ past → ⟨e.move, true, e.finish⟩ ∈ future →
      Standing es past future c
  /-- A realization that failed has subscribed something to it, and nobody has removed all its
  subscriptions since. -/
  | failed {e : Episode} {key : Nat} {r : Reaction} {before after : List Moment} {u : World} :
      e ∈ Episode.allOf es → e.move = .failed → r.onPage →
      (∃ e' ∈ e.inner, e'.move = .subscribed c key r) →
      past = before ++ ⟨.subscribed c key r, true, u⟩ :: after → (∀ x ∈ after, ¬ x.Clears c) →
      Standing es past future c

/-- The episodes are those of a run of programs: by themselves programs subscribe nothing that does
something to a page. -/
structure Annals (es : List Episode) (w w' : World) : Prop where
  chronicle : Chronicle es w w'
  clean : ∀ e ∈ es, e.move.Clean

/-- If something on a page is subscribed to an observable, there is a reason for it. -/
theorem Annals.standing (h : Annals es w w') (hw : w.Parted) (hempty : ¬ w.Bound c)
    {past future : List Moment} (hms : Episode.momentsOf es = past ++ future)
    (hv : Elapses past w v) (hb : v.Bound c) : Standing es past future c := by
  obtain ⟨key, r, hreg, hr⟩ := hb
  rcases hv.made hw hr hreg with ⟨hold, -⟩ | ⟨before, u, after, rfl, hafter⟩
  · exact absurd ⟨key, r, hold, hr⟩ hempty
  rw [List.append_assoc, List.cons_append] at hms
  rcases h.chronicle.exists_realization hr hms with ⟨e, he, hmove⟩ |
    ⟨e, he, hreal, hsub, hstart, gone, coming, hend⟩
  · have hclean := h.clean e he
    rw [hmove] at hclean
    exact absurd hr hclean
  by_cases hfailed : e.move = .failed
  · exact .failed he hfailed hr hsub rfl hafter
  rcases List.append_eq_append_iff.1 hend with ⟨rest, rfl, hrest⟩ | ⟨rest, rfl, hrest⟩
  · -- The end of the realization is still to come.
    exact .underway he hreal (List.mem_append_left _ hstart) (by simp [hrest])
  match rest, hrest with
  | [], hrest =>
    have hfuture : ⟨e.move, true, e.finish⟩ :: coming = future := hrest
    exact .underway he hreal (List.mem_append_left _ hstart) (hfuture ▸ List.mem_cons_self)
  | _ :: rest, hrest =>
    obtain rfl := (List.cons.inj hrest).1
    obtain ⟨m, hm, hmentions⟩ := hreal.exists_record hfailed
    have hpast : before ++ ⟨.subscribed c key r, true, u⟩ ::
        (gone ++ ⟨e.move, true, e.finish⟩ :: rest) =
        (before ++ ⟨.subscribed c key r, true, u⟩ :: gone) ++
          ⟨.realized m, true, e.finish⟩ :: rest := by
      rw [hm]
      simp
    refine .mounted hmentions hpast fun k hk hkill hin => ?_
    obtain ⟨x, hx, hclears⟩ := h.chronicle.exists_clears hk hkill hmentions
    exact hafter x (by simp [hin.subset hx]) hclears

/-! ## Emissions reach what is on pages -/

/-- Of the subscriptions to which a value is handed, one that does something to a page is told it,
unless all subscriptions of the observable are removed before its turn comes. -/
theorem Hands.reaches {held : Held} {snapshot : List (Nat × Reaction)}
    (h : Hands c held snapshot es w) (hc : Chronicle es w w') (hw : w.Parted) (hr : r.onPage)
    (hsnapshot : (key, r) ∈ snapshot) (hreg : (key, r) ∈ (w.cell c).registry) :
    (∃ e ∈ es, e.move = .told c key r held) ∨ ∃ x ∈ Episode.momentsOf es, x.Clears c := by
  induction h with
  | done => cases hsnapshot
  | @told w key' r' rest e es pins hkey hmove _ ih =>
    rcases List.mem_cons.1 hsnapshot with he | hrest
    · cases he
      exact .inl ⟨e, List.mem_cons_self, hmove⟩
    cases hc with
    | @change _ _ _ move _ pins' hm _ =>
      obtain rfl : move = .told c key' r' held := hmove
      exact hm.elim
    | @during _ w₁ _ move inner _ pins' hs hinner hes =>
      by_cases hclears : ∃ x ∈ Episode.momentsOf inner, x.Clears c
      · obtain ⟨x, hx, hclears⟩ := hclears
        exact .inr ⟨x, by simp [hx], hclears⟩
      push Not at hclears
      have helapses := hinner.elapses
      have hreg' := helapses.registered (hw.repin pins') hr hreg hclears
      have hw' := helapses.parted (hw.repin pins')
      rcases ih (hes.pinning pins) (hw'.repin pins) hrest hreg' with ⟨e, he, hmove⟩ | ⟨x, hx, hx'⟩
      · exact .inl ⟨e, List.mem_cons_of_mem _ he, hmove⟩
      · exact .inr ⟨x, by simp [hx], hx'⟩
  | @gone w key' r' rest es hkey _ ih =>
    rcases List.mem_cons.1 hsnapshot with he | hrest
    · cases he
      have hsub : (w.cell c).isSubscribed key = true :=
        Cell.isSubscribed_eq_true.2 (List.mem_map.2 ⟨_, hreg, rfl⟩)
      rw [hkey] at hsub
      cases hsub
    · exact ih hc hw hrest hreg

/-- The subscription keeps its observable, and is told of it. -/
structure World.Sustains (w : World) (c : CellId) (key : Nat) (r : Reaction) : Prop where
  registered : (key, r) ∈ (w.cell c).registry
  /-- A weak handle of the observable can be upgraded. -/
  alive : w.isAlive (.cell c)
  /-- A source that holds the observable only weakly generates its values. -/
  generated {others : List CellId} {act : Run Unit} : (∀ d ∈ others, w.isAlive (.cell d)) →
    (whileAlive (c :: others) act).run w = (holding ((c :: others).map .cell) act).run w
  /-- An emission from here on tells the subscription what the observable held at its start, unless
  all subscriptions of the observable are removed during it. -/
  told {n : Nat} {w' : World} : (emit (respond n) c).run w = .ok ⟨⟩ w' →
    ∃ es, Chronicle es w w' ∧ Hands c (w.cell c).held (w.cell c).registry es w ∧
      ((∃ e ∈ es, e.move = .told c key r (w.cell c).held) ∨
        ∃ x ∈ Episode.momentsOf es, x.Clears c)

theorem World.Parted.sustains (hw : w.Parted) (hr : r.onPage)
    (hreg : (key, r) ∈ (w.cell c).registry) : w.Sustains c key r := by
  have halive : w.isAlive (.cell c) := World.Bound.isAlive hw.following ⟨key, r, hreg, hr⟩
  refine ⟨hreg, halive, fun {others act} hothers => ?_, fun {n w'} hrun => ?_⟩
  · have hall : ((c :: others).all fun d => w.isAlive (.cell d)) = true := by
      simpa [halive] using hothers
    show EStateM.run (if (c :: others).all (fun d => w.isAlive (.cell d)) then
      holding ((c :: others).map .cell) act else pure ()) w = _
    rw [if_pos hall]
  · obtain ⟨es, hc, hands, -⟩ := exists_emission (respond_chronicled n) hrun
    exact ⟨es, hc, hands, hands.reaches hc hw hr hreg hreg⟩

/-! ## Runs of programs -/

theorem World.not_bound_empty : ¬ World.Bound {} c := by
  rintro ⟨key, r, hreg, -⟩
  rw [World.cell_of_size_le (Nat.zero_le _)] at hreg
  cases hreg

/-- A text that follows an observable, which is derived from a state. The program drops the
observable, the fragment and the record. -/
def droppedText : List Step :=
  [.document "page", .enter "page", .new "state" .state .str (.scalar (.str "a")) [],
    .derive "derived" .str ["state"] .fromOne (.var "v0") none .empty,
    .realize (.textOf (.scalar (.str "a")) (some "derived")) "record" "fragment" false,
    .drop "derived", .drop "record", .drop "fragment"]

theorem ends_droppedText : (ended? (performAll (respond 8) droppedText) {}).isSome := by
  decide +kernel

end LivePage
