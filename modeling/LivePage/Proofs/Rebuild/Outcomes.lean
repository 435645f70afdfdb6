import LivePage.Proofs.Rebuild.Edited

/-!
# How realizations and rebuilds end

Realizing a node fails exactly if its walk comes to a render function that gives a function, with the
name of the first such function; in particular no page operation fails. On a page that has been edited
by realizing only, rebuilding a place panics in the same case, for the node of the value that is told
to it, and setting an attribute or a style always succeeds. `World.fails_at_renders_only` states both.
The former is `Node.tries`; for the latter the old contents of the place have been killed when the
walk begins (`Clears`), and the new ones can be put there (`World.Renewable.run_put`).
-/

namespace LivePage

variable {α β : Type} {w w' w₁ u b : World} {D : CellId → Prop} {c : CellId} {key d : Nat} {s : SiteId}
  {site : Site} {v : Value} {content n : PageNode} {node : Node} {r : Reaction} {S : Prop}
  {Q : World → Prop} {G : String → Prop} {act : Realizing α} {call : Respond} {surface : Surface}
  {l : RecordsId} {variant : String} {held : Held}

/-! ## Emissions that panic -/

/-- The text of the panic of an emission that cannot be carried out. -/
def failedEmission (e : RealizationError) : String :=
  "failed to re-render after an emission: " ++ e.message

/-- The stop is no panic, or that of an emission that comes to a render function which gives a
function, called as `G` says. -/
def Stop.Renders (G : String → Prop) (e : Stop) : Prop :=
  e.calm ∨ ∃ variant, G variant ∧ e = .panic (failedEmission (.unresolvableRender variant))

theorem stopped_bind {x : Run α} {f : α → Run β} {e : Stop} (h : x.run w = .error e w') :
    (x >>= f).run w = .error e w' := by
  rw [EStateM.run_bind, h]

theorem stopped_holding {x : Run α} {held : List Entity} {e : Stop}
    (h : x.run (w.pinned held) = .error e w') : (holding held x).run w = .error e w' := by
  rw [run_holding, h]

/-- What an emission does to a page panics if it fails. -/
theorem failed_duringEmission {e : RealizationError} (h : act.run.run w = .ok (.error e) w') :
    ∃ w₁, (duringEmission act).run w = .error (.panic (failedEmission e)) w₁ := by
  rw [duringEmission, EStateM.run_bind, h]
  exact ⟨_, rfl⟩

theorem FailsOnly.duringEmission (h : FailsOnly Q (fun variant _ => G variant) S w act) :
    KeepsAt (fun _ => Q) (Stop.Renders G) w (duringEmission act) := by
  cases hrun : act.run.run w with
  | error e w₁ =>
    rw [KeepsAt, LivePage.duringEmission, EStateM.run_bind, hrun]
    exact .inl (h.stopped hrun).1
  | ok r w₁ =>
    cases r with
    | ok a =>
      rw [KeepsAt, ok_duringEmission.2 hrun]
      exact h.ok hrun
    | error e =>
      obtain ⟨w₂, hpanic⟩ := failed_duringEmission hrun
      obtain ⟨variant, rfl, hG⟩ := h.failed hrun
      rw [KeepsAt, hpanic]
      exact .inr ⟨variant, hG, rfl⟩

/-! ## New contents of a place -/

/-- The old contents of a place, those of the list `l`, have been killed, and `content` is going to be
filled with the node of the value. -/
inductive Clears (call : Respond) (surface : Surface) (l : RecordsId) (v : Value) (w : World) :
    PageNode → Node → World → Prop where
  | kill {content : PageNode} {node : Node} {w₁ w₂ w₃ : World} :
      (killAll call (w.recordsIn l)).run (w.taken l) = .ok ⟨⟩ w₁ →
      (createNode surface.page .fragment).run w₁ = .ok content w₂ →
      (childNode v).run w₂ = .ok node w₃ → Clears call surface l v w content node w₃

/-- Realizing the new contents and putting them into the place. -/
def fill (call : Respond) (site : Site) (content : PageNode) (node : Node) : Realizing Teardown := do
  let m ← node.realize call site.surface content
  realizingWith m.holds (pageStep (site.target.put content))
  return m

/-- The contents of a place are replaced by killing the old ones and filling it. -/
theorem Clears.run (h : Clears call site.surface site.records v w content node u) :
    (replaceContents call site v).run w =
      (holding [.slot content] (duringEmission (fill call site content node)) >>=
        pushRecord site.records).run u := by
  obtain ⟨hkill, hcreate, hchild⟩ := h
  rw [replaceContents, EStateM.run_bind, run_takeRecords]
  simp only [EStateM.run_bind, hkill, hcreate, hchild]
  rfl

/-- Either killing the old contents stops, or the place comes to be filled. -/
theorem clears_or_stopped (call : Respond) (site : Site) (v : Value) (w : World) :
    (∃ content node u, Clears call site.surface site.records v w content node u) ∨
      ∃ e w', (killAll call (w.recordsIn site.records)).run (w.taken site.records) = .error e w' ∧
        (replaceContents call site v).run w = .error e w' := by
  cases hkill : (killAll call (w.recordsIn site.records)).run (w.taken site.records) with
  | error e w' =>
    refine .inr ⟨e, w', rfl, ?_⟩
    rw [replaceContents, EStateM.run_bind, run_takeRecords]
    simp only [EStateM.run_bind, hkill]
  | ok _ w₁ =>
    obtain ⟨w₃, hchild⟩ := run_childNode v (w₁.withPage site.surface.page
      ((w₁.page site.surface.page).created (w₁.heldSlots site.surface.page) .fragment).2)
    exact .inl ⟨_, _, _, .kill hkill (run_createNode ..) hchild⟩

namespace World.Renewable

variable (h : w.Renewable s site) (ht : w.Tidy) (hh : w.Hears D True)
include h ht hh

/-- Filling the place fails only at a render function that gives a function. -/
theorem failsOnly_fill (hc : Clears (respond d) site.surface site.records v w content node u)
    (haloof : ¬ node.Comes (Node.Follows D) site.surface d content (u.pinned [.slot content])) :
    FailsOnly (World.NoSites D)
      (fun variant _ => node.Meets site.surface d content (u.pinned [.slot content]) variant)
      (node.Stalls site.surface d content (u.pinned [.slot content])) (u.pinned [.slot content])
      (fill (respond d) site content node) := by
  obtain ⟨hkill, hcreate, hchild⟩ := hc
  rename_i w₂ w₃
  have hrel := (kills_place hh h.record).ok hkill
  have h₂ := h.releases hrel
  have ht₂ := ht.releases hrel
  have hh₂ := hrel.hears hh
  have hquiet := (reads_childNode v).ok hchild
  have hblank : World.Blank D content w₂ u :=
    ((createNode_spec ht₂.sound h₂.lt hcreate).blank ht₂.sound).quiet hquiet
  have hpage : content.page = site.surface.page := by
    rw [run_createNode] at hcreate
    cases hcreate
    rfl
  have hhu : u.Hears D True := by
    rw [run_createNode] at hcreate
    cases hcreate
    exact hquiet.murmur.hears (hh₂.withPage ..)
  have hrec := hblank.receives hhu hpage.symm
  refine FailsOnly.bind ((node.tries d hrec haloof).mono (fun _ h => h) (fun _ _ h => h.1) id)
    fun m w₅ hrun hh₅ => ?_
  obtain ⟨x, hd, -⟩ := hblank.drafted hh₂.wired hh₂.tracks hpage hrun hh₅.noSites
  have h₅ := (h₂.drafted ht₂ hd).pinned m.holds
  have ht₅ : (w₅.pinned m.holds).Tidy := (hd.tidy ht₂).repin _
  have hslot : (w₅.pinned m.holds).slot content = _ := hd.slot
  obtain ⟨w₆, hput⟩ := h₅.run_put ht₅ hslot hpage fun n hn hp => h₂.not_up hd hn hp
  have hsites : w₆.sites = w₅.sites :=
    (h₅.tidy_put ht₅ (hd.stand.repin _) hd.nodup hslot hput).2.1
  refine .after (ok_realizingWith.2 ⟨w₆, ok_pageStep.2 hput, rfl⟩) (.pure fun k site hs => ?_)
  exact hh₅.noSites k site (by rw [← hsites]; exact hs)

/-- Replacing the contents of the place panics only if it comes to a render function that gives a
function. -/
theorem keepsAt_replaceContents
    (haloof : ∀ content node u, Clears (respond d) site.surface site.records v w content node u →
      ¬ node.Comes (Node.Follows D) site.surface d content (u.pinned [.slot content])) :
    KeepsAt (fun _ w' => w'.NoSites D)
      (Stop.Renders fun variant => ∃ content node u,
        Clears (respond d) site.surface site.records v w content node u ∧
          node.Meets site.surface d content (u.pinned [.slot content]) variant)
      w (replaceContents (respond d) site v) := by
  rcases clears_or_stopped (respond d) site v w with ⟨content, node, u, hc⟩ | ⟨e, w', hkill, hrun⟩
  · have hfill := (h.failsOnly_fill ht hh hc (haloof _ _ _ hc)).mono (fun _ h => h)
      (fun variant _ hm => (⟨_, _, _, hc, hm⟩ : ∃ content node u,
        Clears (respond d) site.surface site.records v w content node u ∧
          node.Meets site.surface d content (u.pinned [.slot content]) variant)) id
    rw [KeepsAt, hc.run]
    exact KeepsAt.seq (R := fun _ => World.NoSites D)
      (hfill.duringEmission.holding (R := fun _ => World.NoSites D) id) fun _ _ _ hn => hn
  · have hk := kills_place hh h.record (d := d)
    rw [KeepsAt, hkill] at hk
    rw [KeepsAt, hrun]
    exact .inl (hk trivial)

end World.Renewable

/-! ## What is told to a place -/

/-- Told the value, with the depth `d` left for its contents, the place kills what it has and comes to
realize `node` below `content` in the world `u`. -/
inductive SiteId.Redraws (s : SiteId) (v : Value) (w : World) (d : Nat) :
    Surface → PageNode → Node → World → Prop where
  | clear {site : Site} {content : PageNode} {node : Node} {u : World} :
      w.sites[s.index]? = some site →
      Clears (respond d) site.surface site.records v ((w.busied s).pinned v.holds) content node u →
      Redraws s v w d site.surface content node (u.pinned [.slot content])

/-- On its way a place that is told the value comes to a render function that gives a function, called
`variant`. -/
def SiteId.Meets (s : SiteId) (v : Value) (w : World) (d : Nat) (variant : String) : Prop :=
  ∃ surface content node u, s.Redraws v w d surface content node u ∧
    node.Meets surface d content u variant

theorem run_react_rebuild (d : Nat) (s : SiteId) (held : Held) (w : World) :
    (respond (d + 1) (.react (.rebuild s) held)).run w =
      (s.onEmission (respond d) (w.heldArgument held)).run w := by
  change (do let w ← get; s.onEmission (respond d) (w.heldArgument held) : Run Unit).run w = _
  rw [EStateM.run_bind, EStateM.run_get]

namespace World.AtRest

variable (h : w.AtRest) (hr : (key, .rebuild s) ∈ (w.cell c).registry)
  (hpin : .site s ∈ w.pins.flatten)
include h hr hpin

/-- A place panics only if it comes to a render function that gives a function. -/
theorem keepsAt_told (hh : w.Hears D True)
    (haloof : ∀ surface content node u, s.Redraws v w d surface content node u →
      ¬ node.Comes (Node.Follows D) surface d content u) :
    KeepsAt (fun _ _ => True) (Stop.Renders (s.Meets v w d)) w
      (s.onEmission (respond (d + 1)) v) := by
  obtain ⟨site, hsite, hrest, htidy, hren⟩ := h.busied hr hpin v.holds
  have hev : Evolves w (w.busied s) := evolves_mark w s _ fun _ => rfl
  have hb : w.Beside (w.busied s) := .mark w s _ fun _ => rfl
  have hhears : ((w.busied s).pinned v.holds).Hears D True :=
    (hh.transfer hb.evolves hb.registry hb.sites).pinned _
  have hreplace := hren.keepsAt_replaceContents htidy hhears fun content node u hc =>
    haloof site.surface content node _ (.clear hsite hc)
  have hhold : KeepsAt (fun _ w' => w'.NoSites D) (Stop.Renders (s.Meets v w d)) (w.busied s)
      (holding v.holds (replaceContents (respond d) { site with busy := true } v)) := by
    refine KeepsAt.holding (hreplace.mono (fun hn => hn) fun he => he.imp_right ?_) fun hn => hn
    rintro ⟨variant, ⟨content, node, u, hc, hm⟩, he⟩
    exact ⟨variant, ⟨site.surface, content, node, _, .clear hsite hc, hm⟩, he⟩
  have hrebuild : KeepsAt (fun _ _ => True) (Stop.Renders (s.Meets v w d)) (w.busied s)
      (s.rebuild (respond d) v) := by
    rw [SiteId.rebuild]
    refine keepsAt_get_bind ?_
    rw [show (w.busied s).sites.getD s.index default = _ from getD_site hren.record]
    refine KeepsAt.seq (R := fun _ _ => True) hhold fun _ w₁ hrun hn => keepsAt_get_bind ?_
    -- nothing has been told to the place meanwhile
    obtain ⟨w₂, hreplaced, rfl⟩ := ok_holding.1 hrun
    rw [(h.rebuilt hh.wired hh.tracks hr hpin hsite hreplaced hn).2]
    exact trivial
  rw [KeepsAt, run_onEmission_of_idle hsite hrest.1]
  exact hrebuild

/-- A place that comes to a render function which gives a function panics. -/
theorem panics_of_meets (hm : s.Meets v w d variant) :
    ∃ w', (s.onEmission (respond (d + 1)) v).run w =
      .error (.panic (failedEmission (.unresolvableRender variant))) w' := by
  obtain ⟨_, content, node, _, hredraws, hm⟩ := hm
  obtain ⟨site, hsite, hrest, -, hren⟩ := h.busied hr hpin []
  obtain @⟨_, _, _, u, hsite', hclear⟩ := hredraws
  cases hsite.symm.trans hsite'
  generalize hbusy : { site with busy := true } = site' at hren
  have hclear' : Clears (respond d) site'.surface site'.records v ((w.busied s).pinned v.holds)
      content node u := by rwa [← hbusy]
  have hm' : node.Meets site'.surface d content (u.pinned [.slot content]) variant := by
    rwa [← hbusy]
  obtain ⟨w₁, hfail⟩ := hm'.failed
  have hfill : (fill (respond d) site' content node).run.run (u.pinned [.slot content]) =
      .ok (.error (.unresolvableRender variant)) w₁ := failed_ebind hfail
  obtain ⟨w₂, hpanic⟩ := failed_duringEmission hfill
  have hrebuild : (s.rebuild (respond d) v).run (w.busied s) =
      .error (.panic (failedEmission (.unresolvableRender variant))) w₂ := by
    rw [SiteId.rebuild, EStateM.run_bind, EStateM.run_get]
    dsimp only
    rw [show (w.busied s).sites.getD s.index default = _ from getD_site hren.record]
    refine stopped_bind (stopped_holding ?_)
    rw [hclear'.run]
    exact stopped_bind (stopped_holding hpanic)
  rw [run_onEmission_of_idle hsite hrest.1]
  exact ⟨w₂, hrebuild⟩

omit hr hpin in
/-- Setting an attribute or a style succeeds. -/
theorem run_marks (hh : w.Hears D True) (hr : (key, r) ∈ (w.cell c).registry) (hm : r.Marks n)
    (d : Nat) (held : Held) : ∃ w', (respond (d + 1) (.react r held)).run w = .ok ⟨⟩ w' := by
  have hdress : w.Dressing D n := ⟨hh, h.tidy.marks hr hm⟩
  change ∃ w', (r.run (respond d) held).run w = .ok ⟨⟩ w'
  cases r with
  | «attribute» e name source =>
    cases hm
    obtain ⟨_, w', hrun, -⟩ :=
      (failsOnly_putAttribute hdress name (w.heldArgument held)).exists_ok
    exact ⟨w', ok_get_bind.2 (ok_duringEmission.2 hrun)⟩
  | styleProperty e property source =>
    cases hm
    obtain ⟨_, w', hrun, -⟩ :=
      (failsOnly_putProperty hdress property (w.heldArgument held)).exists_ok
    exact ⟨w', ok_get_bind.2 (ok_duringEmission.2 hrun)⟩
  | _ => exact hm.elim

end World.AtRest

/-! ## Realizations and rebuilds -/

/-- Realizing a node for a page fails exactly if it comes to a render function that gives a function,
with the name of the first one that it comes to; otherwise it succeeds, unless an evaluation on its way
stops it. On a page that has been edited by realizing only, telling a value to a place panics exactly
if the node of the value comes to such a render function, and setting an attribute or a style for an
emission succeeds. -/
theorem World.fails_at_renders_only (D : CellId → Prop) :
    (∀ {w : World} (d : Nat) (labelled : Bool) (page : PageId) (node : Node), w.Sound →
      w.Hears D True → w.activePage = some page → page.index < w.pages.size →
      ∃ content u, w.Begins page node content u ∧
        (¬ node.Comes (Node.Follows D) ⟨page, labelled⟩ d content u →
          (∀ e, (∃ w', (realize (respond d) labelled node).run.run w = .ok (.error e) w') ↔
            ∃ variant, e = .unresolvableRender variant ∧
              node.Meets ⟨page, labelled⟩ d content u variant) ∧
          (∀ stop w', (realize (respond d) labelled node).run.run w = .error stop w' →
            stop.calm ∧ node.Stalls ⟨page, labelled⟩ d content u) ∧
          ((∀ variant, ¬ node.Meets ⟨page, labelled⟩ d content u variant) →
            ¬ node.Stalls ⟨page, labelled⟩ d content u →
            ∃ r w', (realize (respond d) labelled node).run.run w = .ok (.ok r) w'))) ∧
    ∀ {w : World} {c : CellId} {key : Nat} {r : Reaction} (held : Held), w.Edited D →
      (key, r) ∈ (w.cell c).registry → (∀ e ∈ w.reactionHolds r, e ∈ w.pins.flatten) →
      (∀ s d, r = .rebuild s →
        (∀ surface content node u, s.Redraws (w.heldArgument held) w d surface content node u →
          ¬ node.Comes (Node.Follows D) surface d content u) →
        ∀ text, (∃ w', (respond (d + 2) (.react r held)).run w = .error (.panic text) w') ↔
          ∃ variant, text = failedEmission (.unresolvableRender variant) ∧
            s.Meets (w.heldArgument held) w d variant) ∧
      ∀ n d, r.Marks n → ∃ w', (respond (d + 1) (.react r held)).run w = .ok ⟨⟩ w' := by
  refine ⟨fun {w} d labelled page node hs hh hpage hp => ?_,
    fun {w c key r} held hedited hr hheld => ⟨?_, fun n d hm => ?_⟩⟩
  · obtain ⟨content, u, hb⟩ := w.exists_begins page node
    refine ⟨content, u, hb, fun haloof => ?_⟩
    have hrun := hb.failsOnly_realize hs hh hp hpage haloof
    refine ⟨fun e => ⟨?_, ?_⟩, fun stop w' h => hrun.stopped h, fun hm hs => ?_⟩
    · rintro ⟨w', h⟩
      obtain ⟨variant, he, hm, -⟩ := hrun.failed h
      exact ⟨variant, he, hm⟩
    · rintro ⟨variant, rfl, hm⟩
      exact hb.failed hpage hm
    · cases hend : (realize (respond d) labelled node).run.run w with
      | error stop w' => exact absurd (hrun.stopped hend).2 hs
      | ok r w' =>
        cases r with
        | ok r => exact ⟨r, w', rfl⟩
        | error e =>
          obtain ⟨variant, -, hv, -⟩ := hrun.failed hend
          exact absurd hv (hm variant)
  · rintro s d rfl haloof text
    have hrest := hedited.atRest
    have hpin : .site s ∈ w.pins.flatten := hheld _ (by simp [World.reactionHolds])
    rw [run_react_rebuild]
    constructor
    · rintro ⟨w', h⟩
      have hk := hrest.keepsAt_told hr hpin hedited.hears haloof
      rw [KeepsAt, h] at hk
      rcases hk with hcalm | ⟨variant, hm, he⟩
      · exact hcalm.elim
      · exact ⟨variant, Stop.panic.inj he, hm⟩
    · rintro ⟨variant, rfl, hm⟩
      exact hrest.panics_of_meets hr hpin hm
  · exact hedited.atRest.run_marks hedited.hears hr hm d held

/-! ### A section that is told to show a handler -/

/-- What on a page the subscription is for: a place that it rebuilds, or an element that it changes. -/
def Reaction.subject : Reaction → Option (SiteId ⊕ PageNode)
  | .rebuild s => some (.inl s)
  | .attribute e .. | .styleProperty e .. => some (.inr e)
  | _ => none

theorem Reaction.eq_rebuild (h : r.subject = some (.inl s)) : r = .rebuild s := by
  cases r with
  | rebuild s' =>
    cases h
    rfl
  | _ => cases h

theorem Reaction.marks_of_subject (h : r.subject = some (.inr n)) : r.Marks n := by
  cases r with
  | «attribute» e name source =>
    cases h
    rfl
  | styleProperty e property source =>
    cases h
    rfl
  | _ => cases h

/-- The text of the panic with which the run stops. -/
def panicked? (x : Run Unit) (w : World) : Option String :=
  match x.run w with
  | .error (.panic text) _ => some text
  | _ => none

theorem run_of_panicked {x : Run Unit} {text : String} (h : panicked? x w = some text) :
    ∃ w', x.run w = .error (.panic text) w' := by
  unfold panicked? at h
  split at h
  · next hx =>
    cases h
    exact ⟨_, hx⟩
  · cases h

/-- A handler is never expanded. -/
theorem not_follows_handler {h : HandlerId} :
    ¬ (Node.deferred (.handler h)).Comes (Node.Follows D) surface d content w := by
  rintro ⟨d', n', u, hv, hf⟩
  cases hv with
  | here =>
    obtain ⟨c, hc, -⟩ := hf
    cases hc
  | inside he => cases he
  | expanded hrender hkind =>
    cases hrender
    exact hkind rfl

namespace World

/-- A section with a title that follows an observable, and contents that follow another. -/
def titled : Node := .element "section" [("title", .observable ⟨1⟩)] [] [] (some ⟨0⟩)

theorem not_follows_titled :
    ¬ titled.Comes (Node.Follows counterRooted.RefFed) surface d content w := by
  rintro ⟨d', n', u, hv, hf⟩
  generalize hn : titled = n at hv
  cases hv with
  | here =>
    subst hn
    obtain ⟨c, hc, hD⟩ := hf
    rw [refFed_counterRooted hD] at hc
    exact absurd hc (by decide)
  | inside he hp _ =>
    subst hn
    cases hp
  | expanded => cases hn

theorem realized_titled :
    (succeeded? (realize (respond 8) false titled).run counterRooted).isSome := by decide +kernel

/-- The section has been realized; its contents and its title are held. -/
def titledWorld : World :=
  ((succeeded? _ _).get realized_titled).2.pinned [.site ⟨0⟩, .slot ⟨⟨0⟩, 2⟩, .cell ⟨1⟩]

theorem hears_counterRooted : counterRooted.Hears counterRooted.RefFed True := by
  refine ⟨wired_counterRooted, counterRooted.tracks_refFed, fun s site hs => ?_, fun _ c s _ hs => ?_⟩
  · rw [show counterRooted.sites = #[] from rfl] at hs
    cases hs
  · rw [registry_counterRooted] at hs
    cases hs

theorem edited_titledWorld : titledWorld.Edited counterRooted.RefFed := by
  have hu : counterRooted.Untouched := ⟨sound_counterRooted.forest, rfl, fun hr _ => by
    rw [registry_counterRooted] at hr
    cases hr⟩
  obtain ⟨r, w', hrun, he⟩ : ∃ r w', (realize (respond 8) false titled).run.run counterRooted =
      .ok (.ok r) w' ∧ titledWorld = w'.pinned [.site ⟨0⟩, .slot ⟨⟨0⟩, 2⟩, .cell ⟨1⟩] :=
    ⟨_, _, run_of_succeeded realized_titled, rfl⟩
  have hpage : counterRooted.activePage = some ⟨0⟩ := rfl
  have hsize : (⟨0⟩ : PageId).index < counterRooted.pages.size := by decide
  obtain ⟨content, u, hb⟩ := counterRooted.exists_begins ⟨0⟩ titled
  have hh := (hb.failsOnly_realize sound_counterRooted hears_counterRooted hsize hpage
    not_follows_titled).ok hrun
  have hrealized := (Edited.start hu hears_counterRooted).step
    (.realizes hpage hsize (fun _ _ _ => not_follows_titled) hrun) hh
  rw [he]
  exact hrealized.step (.aside ⟨fun _ => .refl _, fun hr _ => hr, rfl, rfl, rfl⟩) (hh.pinned _)

theorem registered_titled :
    (∃ x ∈ (titledWorld.cell ⟨0⟩).registry, x.2.subject = some (.inl ⟨0⟩) ∧
      ∀ e ∈ titledWorld.reactionHolds x.2, e ∈ titledWorld.pins.flatten) ∧
    ∃ x ∈ (titledWorld.cell ⟨1⟩).registry, x.2.subject = some (.inr ⟨⟨0⟩, 2⟩) ∧
      ∀ e ∈ titledWorld.reactionHolds x.2, e ∈ titledWorld.pins.flatten := by
  decide +kernel

theorem panicked_titled :
    panicked? (respond 8 (.react (.rebuild ⟨0⟩) (.value (.handler ⟨0⟩)))) titledWorld =
      some (failedEmission (.unresolvableRender "event handler")) := by
  decide +kernel

/-- A handler cannot be realized, nor can the section be told to show one, but its title can be told
anything. -/
theorem fails_at_renders_only_of_titled :
    (∃ w', (realize (respond 8) false (.deferred (.handler ⟨0⟩))).run.run counterRooted =
      .ok (.error (.unresolvableRender "event handler")) w') ∧
    (∃ w', (respond 8 (.react (.rebuild ⟨0⟩) (.value (.handler ⟨0⟩)))).run titledWorld =
      .error (.panic (failedEmission (.unresolvableRender "event handler"))) w') ∧
    (∃ variant, (⟨0⟩ : SiteId).Meets (.handler ⟨0⟩) titledWorld 6 variant) ∧
    ∃ key r w', (key, r) ∈ (titledWorld.cell ⟨1⟩).registry ∧ r.Marks ⟨⟨0⟩, 2⟩ ∧
      (respond 8 (.react r (.value (.handler ⟨0⟩)))).run titledWorld = .ok ⟨⟩ w' := by
  obtain ⟨hrealize, hemit⟩ := fails_at_renders_only counterRooted.RefFed
  obtain ⟨⟨⟨key, r⟩, hr, hsub, hheld⟩, ⟨key', r'⟩, hr', hsub', hheld'⟩ := registered_titled
  obtain rfl := Reaction.eq_rebuild hsub
  have hpanic := run_of_panicked panicked_titled
  have haloof : ∀ surface content node u,
      (⟨0⟩ : SiteId).Redraws (.handler ⟨0⟩) titledWorld 6 surface content node u →
      ¬ node.Comes (Node.Follows counterRooted.RefFed) surface 6 content u := by
    rintro _ content node u ⟨-, hclear⟩
    obtain ⟨-, -, hchild⟩ := hclear
    obtain rfl : node = .deferred (.handler ⟨0⟩) := ok_childNode hchild
    exact not_follows_handler
  refine ⟨?_, hpanic, ?_, ?_⟩
  · obtain ⟨content, u, -, hends⟩ := hrealize 8 false ⟨0⟩ (.deferred (.handler ⟨0⟩))
      sound_counterRooted hears_counterRooted rfl (by decide)
    exact ((hends not_follows_handler).1 _).2 ⟨_, rfl, .here (.render rfl rfl rfl)⟩
  · obtain ⟨variant, -, hm⟩ := ((hemit (.value (.handler ⟨0⟩)) edited_titledWorld hr hheld).1
      ⟨0⟩ 6 rfl haloof _).1 hpanic
    exact ⟨variant, hm⟩
  · have hm := Reaction.marks_of_subject hsub'
    obtain ⟨w', hrun⟩ := (hemit (.value (.handler ⟨0⟩)) edited_titledWorld hr' hheld').2 _ 7 hm
    exact ⟨key', r', w', hr', hm, hrun⟩

end World

end LivePage
