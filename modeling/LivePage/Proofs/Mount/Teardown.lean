import LivePage.Proofs.Mount.Mounting
import LivePage.Proofs.Page.Document

/-!
# Teardown

Trees that have been mounted stay mounted while observables are emitted and others add listeners:
emissions only refill places. Killing their record then releases all that the trees have by that
time, and nothing else changes (`TornDown`). What is left standing has no subscription any more, so
no later emission reaches it; the main result is `Realizes.tornDown_by_kill`.
-/

namespace LivePage

open LivePage.Script

variable {w w' : World} {root n : PageNode} {D : CellId → Prop} {m : Teardown} {g g₀ : Mounts}
  {pg : PageId} {q : Nat} {P : World → Prop} {A : SiteId → World → Prop}

/-! ## What happens after mounting -/

/-- Trees stay standing when listeners are added to an element. -/
theorem Mounts.Stand.listened {el : Element} {others : List (String × HandlerId)} (hw : w.Fixed w')
    (hc : (w.slot n).content = .element el)
    (hn : w'.slot n =
      { w.slot n with content := .element { el with listeners := el.listeners ++ others } })
    (hslot : ∀ a, a ≠ n → w'.slot a = w.slot a) (hlist : ∀ l, w'.recordsIn l = w.recordsIn l)
    (h : g.Stand w pg q) : g.Stand w' pg q := by
  have hat : ∀ {l ms}, w.ListAt l ms → w'.ListAt l ms := fun h =>
    ⟨Nat.lt_of_lt_of_le h.lt hw.size, (hlist _).trans h.records⟩
  have hsame : ∀ {a}, (w.slot a).content.type ≠ .element → w'.slot a = w.slot a := by
    intro a ha
    refine hslot a ?_
    rintro rfl
    rw [hc] at ha
    exact ha rfl
  induction g generalizing q with
  | nil => trivial
  | text i data l rest ih =>
    obtain ⟨h1, h2, h3⟩ := h
    exact ⟨(hsame (by rw [h1]; simp [Content.type])).trans h1, hat h2, ih h3⟩
  | element e inner rest ihi ihr =>
    obtain ⟨h1, h2, h3⟩ := h
    refine ⟨?_, ihi h2, ihr h3⟩
    by_cases he : (⟨pg, e.slot⟩ : PageNode) = n
    · subst he
      obtain ⟨el', others', hc', htag, hl⟩ := h1.content
      obtain rfl : el' = el := Content.element.inj (hc'.symm.trans hc)
      refine ⟨?_, ?_, ?_, hat h1.records, fun hd => (h1.site hd).fixed hw⟩
      · rw [hn]
        exact h1.parent
      · rw [hn]
        exact h1.children
      · rw [hn]
        exact ⟨_, others' ++ others, rfl, htag, by simp [hl]⟩
    · have hs := hslot _ he
      exact h1.frame hw (by rw [hs]) (by rw [hs]) (by rw [hs]; exact h1.children) (hat h1.records)
  | region r inner rest ihi ihr =>
    obtain ⟨h1, h2, h3⟩ := h
    have hcomment : ∀ {i}, (∃ data, w.slot ⟨pg, i⟩ = { content := .comment data, parent := some q }) →
        (w.slot ⟨pg, i⟩).Alike True (w'.slot ⟨pg, i⟩) := by
      rintro i ⟨data, hi⟩
      rw [hsame (by rw [hi]; simp [Content.type])]
      exact .refl _ _
    exact ⟨h1.frame hw (hcomment h1.start) (hcomment h1.finish) (hat h1.records), ihi h2, ihr h3⟩
  | group l inner rest ihi ihr =>
    obtain ⟨h1, h2, h3⟩ := h
    exact ⟨hat h1, ihi h2, ihr h3⟩

namespace World

/-- Listeners that others add to an element keep trees mounted. -/
theorem Mounted.listened {type : String} {handler : HandlerId} (h : w.Mounted D root m g)
    (hrun : (n.listen type handler).run w = .ok (.ok ()) w') : w'.Mounted D root m g := by
  obtain ⟨el, hel, rfl⟩ := ok_listen hrun
  obtain ⟨content, hcontent⟩ : ∃ content, content =
    Content.element { el with listeners := el.listeners ++ [(type, handler)] } := ⟨_, rfl⟩
  rw [← hcontent]
  have ho : w.Occupied n := (h.sound.forest n.page).occupied_of_type (by
    rw [show ((w.page n.page).slot n.slot).content = _ from hel]
    simp [Content.type])
  have hshape := shaped_withContent (show content.type = (w.slot n).content.type by
    rw [hcontent, hel]
    rfl)
  have hocc : ∀ {a}, w.Occupied a → (w.withContent n content).Occupied a := fun ha =>
    (hshape _).occupied.2 ha
  have hf : w.Fixed (w.withContent n content) := (w.within_withPage n.page _).toFixed
  refine ⟨⟨fun p => (hshape p).forest (h.sound.forest p), fun hr hp => ?_⟩,
    ⟨h.wired.reading, h.wired.keyed, h.wired.follows, h.wired.unfed⟩,
    ⟨h.tracks.ofRef, h.tracks.feeds⟩, h.named, hocc h.occupied, ?_, ?_, h.teardowns, h.nodup,
    h.nodupLists, fun hr hp => (h.apart hr hp).imp_right fun ha => ?_⟩
  · have hpl := h.sound.placed hr hp
    exact hpl.mono hf (fun _ he => he.congr (by rfl) (by rfl) (by rfl))
      fun _ he => hocc (hpl.exists_of_reaches he)
  · have hn : (w.withContent n content).slot n = { w.slot n with
        content := .element { el with listeners := el.listeners ++ [(type, handler)] } } := by
      rw [slot_withContent ho, if_pos rfl, hcontent]
    refine h.stand.listened hf hel hn (fun a ha => ?_) fun _ => rfl
    rw [slot_withContent ho, if_neg ha]
  · exact ((hshape root.page).children root.slot).trans h.children
  · refine ⟨fun he => ha.reaches (he.congr (by rfl) (by rfl) (by rfl)), fun hrs hsite => ?_⟩
    rw [show (w.withContent n content).pages.size = w.pages.size by simp [withContent, withPage]]
    exact ha.target hrs hsite

/-- An observable has been emitted, perhaps after an assignment. -/
inductive Emits : World → World → Prop where
  | emit {w w' : World} {d : Nat} {c : CellId} :
      (LivePage.emit (respond d) c).run w = .ok ⟨⟩ w' → Emits w w'
  | assign {w w' : World} {d : Nat} {c : CellId} {held : Held} :
      (holdAndEmit (respond d) c held).run w = .ok ⟨⟩ w' → Emits w w'

/-- An observable has been emitted, somebody has added a listener to an element, or names have come
to stand for other things, while one still stands for `root`. -/
inductive Happens (root : PageNode) : World → World → Prop where
  | emits {w w' : World} : Emits w w' → Happens root w w'
  | listens {w w' : World} {n : PageNode} {type : String} {handler : HandlerId} :
      (n.listen type handler).run w = .ok (.ok ()) w' → Happens root w w'
  | names {w : World} {names : Names} : .slot root ∈ namesHold names →
      Happens root w { w with names := names }

theorem Emits.evolves (h : Emits w w') (hr : w.Reading) : Evolves w w' := by
  cases h with
  | emit h => exact (lives_emit (respond_lives _) _).ok h hr
  | assign h => exact (lives_holdAndEmit (respond_lives _) _ _).ok h hr

theorem evolves_of_emits (h : Relation.ReflTransGen Emits w w') (hr : w.Reading) :
    Evolves w w' := by
  induction h with
  | refl => exact .refl w
  | tail _ hstep ih => exact ih.trans (hstep.evolves (ih.reading hr))

/-- Whatever happens, callbacks still only read, and no place has gone. -/
theorem Happens.keeps (h : Happens root w w') (hr : w.Reading) :
    w'.Reading ∧ (w'.NoSites D → w.NoSites D) := by
  cases h with
  | emits h =>
    have hev := h.evolves hr
    exact ⟨hev.reading hr, fun hn => hn.of_evolves hev⟩
  | listens h =>
    obtain ⟨el, -, rfl⟩ := ok_listen h
    exact ⟨hr, id⟩
  | names => exact ⟨hr, id⟩

end World

/-- What lasts through one emission lasts through many. -/
theorem Lasting.emits (h : Lasting D P A) (hs : Relation.ReflTransGen World.Emits w w') (hP : P w)
    (hn : w'.NoSites D) : P w' := by
  induction hs with
  | refl => exact hP
  | @tail b c hs hstep ih =>
    have hr := (h.wired hP).reading
    have hP := ih (hn.of_evolves (hstep.evolves ((World.evolves_of_emits hs hr).reading hr)))
    cases hstep with
    | emit hrun => exact h.emit hP hn hrun
    | assign hrun => exact h.holdAndEmit hP hn hrun

namespace World

theorem keeps_of_happens (h : Relation.ReflTransGen (Happens root) w w') (hr : w.Reading) :
    w'.Reading ∧ (w'.NoSites D → w.NoSites D) := by
  induction h with
  | refl => exact ⟨hr, id⟩
  | tail _ hstep ih =>
    obtain ⟨hr', hn⟩ := hstep.keeps (D := D) ih.1
    exact ⟨hr', fun h => ih.2 (hn h)⟩

/-- Whatever happens, the trees stay mounted, with places refilled. -/
theorem Holds.happens (h : w.Holds D root m g₀) (hs : Relation.ReflTransGen (Happens root) w w')
    (hr : w.Reading) (hn : w'.NoSites D) : w'.Holds D root m g₀ := by
  induction hs with
  | refl => exact h
  | @tail b c hs hstep ih =>
    have hb := ih ((hstep.keeps (keeps_of_happens (D := D) hs hr).1).2 hn)
    cases hstep with
    | emits hstep => exact (mounted_lasts D root m g₀).emits (.single hstep) hb hn
    | listens hrun =>
      obtain ⟨g, hg, hb⟩ := hb
      exact ⟨g, hg, hb.listened hrun⟩
    | names hnames =>
      obtain ⟨g, hg, hb⟩ := hb
      exact ⟨g, hg, hb.renamed _ hnames⟩

/-! ## What is left after a teardown -/

/-- What stands below the page node belongs to the trees. -/
theorem Sealed.mem_of_up {O : CellId → Reaction → Prop} (h : w.Sealed D root g O) {i : Nat}
    (hi : (w.page root.page).Up i root.slot) : i = root.slot ∨ i ∈ g.slots := by
  obtain ⟨k, hk⟩ := hi
  generalize hr : root.slot = r at hk
  induction hk with
  | refl => exact .inl rfl
  | step hp _ ih => exact .inr (h.child (hr ▸ ih hr) ((h.sound.forest _).up hp).2.2)

/-- Trees whose records have been killed own no subscription any more. -/
theorem Mounted.sealed_of_killed (h : w.Mounted D root m g) (hk : g.Killed D root.page w w') :
    w'.Sealed D root g fun _ _ => False where
  sound := hk.releases.sound h.sound
  wired := h.wired.evolves hk.releases.evolves
  tracks := h.tracks.evolves hk.releases.evolves
  named := by
    rw [hk.releases.evolves.names]
    exact h.named
  occupied := hk.releases.occupied.2 h.occupied
  hangs i hi := by
    obtain ⟨p, hp, hpg⟩ := h.stand.hangs i hi
    exact ⟨p, ((hk.releases.page _).parent i).trans hp, hpg⟩
  child {p i} hp hi := by
    have hc : (w'.slot ⟨root.page, p⟩).children = (w.slot ⟨root.page, p⟩).children :=
      (hk.releases.page _).children p
    rw [hc] at hi
    exact h.sealed.child hp hi
  list hl := by
    rw [hk.releases.records]
    exact h.stand.lt_of_lists hl
  apart {c key r} hr hp := by
    rcases h.apart (hk.releases.registry_subset c hr) hp with ho | ha
    · rw [hk.registry (.inl ho.cases.1)] at hr
      cases hr
    · refine .inr ⟨fun he => ha.reaches (hk.releases.reaches he), fun hrs hsite => ?_⟩
      rw [hk.releases.sites] at hsite
      rw [hk.releases.evolves.pages]
      exact ha.target hrs hsite

end World

theorem Mounts.Stand.elements (h : g.Stand w pg q) {e : MountedElement} (he : e ∈ g.elements) :
    ∃ p tops ms, e.Stands w pg p tops ms := by
  induction g generalizing q with
  | nil => exact absurd he List.not_mem_nil
  | text i data l rest ih => exact ih h.2.2 he
  | element e' inner rest ihi ihr =>
    simp only [Mounts.elements, List.mem_cons, List.mem_append] at he
    rcases he with rfl | he | he
    · exact ⟨_, _, _, h.1⟩
    · exact ihi h.2.1 he
    · exact ihr h.2.2 he
  | region r inner rest ihi ihr => exact (List.mem_append.1 he).elim (ihi h.2.1) (ihr h.2.2)
  | group l inner rest ihi ihr => exact (List.mem_append.1 he).elim (ihi h.2.1) (ihr h.2.2)

namespace World

/-- The references, and whatever is told by them. -/
inductive RefFed (w : World) : CellId → Prop where
  | ref {c : CellId} : (w.cell c).flavour = .ref → RefFed w c
  | fed {c d : CellId} {s : Nat × Reaction} : RefFed w c → s ∈ (w.cell c).registry →
      w.Feeds s.2 d → RefFed w d

theorem tracks_refFed (w : World) : w.Tracks w.RefFed := ⟨.ref, .fed⟩

/-- All that the trees have is released, nothing else has changed, and later emissions change nothing
below the page node. -/
structure TornDown (D : CellId → Prop) (root : PageNode) (g : Mounts) (w w' : World) : Prop where
  registry {c : CellId} : c ∈ g.cells → (w'.cell c).registry = []
  ref {c : CellId} : c ∈ g.refs → (w'.cell c).held = .absent ∧ (w'.cell c).registry = []
  other {c : CellId} : c ∉ g.cells → c ∉ g.refs → (w'.cell c).registry = (w.cell c).registry
  /-- Own listeners are gone, and those of others have stayed. -/
  listeners {e : MountedElement} : e ∈ g.elements → ∃ el others,
    (w.slot ⟨root.page, e.slot⟩).content = .element el ∧
    el.listeners = (e.listeners.map fun l => (l.event, l.handler)) ++ others ∧
    w'.slot ⟨root.page, e.slot⟩ = { w.slot ⟨root.page, e.slot⟩ with
      content := .element { el with listeners := others } }
  page (p : PageId) : (w.page p).Shaped (w'.page p)
  muted (n : PageNode) : (w'.slot n).muted = (w.slot n).muted
  slot {n : PageNode} : ¬ g.Covers root.page (.slot n) → w'.slot n = w.slot n
  still {w'' : World} : Relation.ReflTransGen Emits w' w'' → w''.NoSites D →
    (w''.slot root).children = (w'.slot root).children ∧
      ∀ i, (w'.page root.page).Up i root.slot → i ≠ root.slot →
        w''.slot ⟨root.page, i⟩ = w'.slot ⟨root.page, i⟩

/-- Killing the record of mounted trees tears them down. -/
theorem Mounted.tornDown {d : Nat} (h : w.Mounted D root m g) (hns : w.NoSites D)
    (hnm : w.NoMarks D) :
    KeepsAt (TornDown D root g) Stop.calm w (holding m.holds (respond d (.kill m))) := by
  have hears : w.Hears D True := ⟨h.wired, h.tracks, hns, fun _ => hnm⟩
  cases hrun : (holding m.holds (respond d (.kill m))).run w with
  | error e w' =>
    have hk : KeepsAt (Releases D fun _ => True) (fun e => True → e.calm) w
        (holding m.holds (respond d (.kill m))) :=
      (releases_kill (hears.pinned _) (fun _ _ _ _ => ⟨trivial, fun _ _ => trivial⟩)
        ⟨trivial, fun _ _ => trivial⟩).holding .unpinned
    rw [KeepsAt, hrun] at hk ⊢
    exact hk trivial
  | ok u w' =>
    have hall : (killAll (respond d) (g.teardowns root.page)).run w = .ok ⟨⟩ w' := by
      rw [h.teardowns]
      exact ok_bind.2 ⟨⟨⟩, w', by simpa using hrun, ok_pure.2 ⟨rfl, rfl⟩⟩
    have hk := kills_mounts g hears h.stand h.nodup h.nodupLists hall
    have hsealed := h.sealed_of_killed hk
    rw [KeepsAt, hrun]
    refine {
      registry := fun hc => hk.registry (.inl hc)
      ref := fun hc => ⟨hk.held hc, hk.registry (.inr hc)⟩
      other := hk.other
      listeners := fun {e} he => ?_
      page := hk.releases.page
      muted := fun n => hk.releases.muted (hnm.unmarked n)
      slot := fun hn => (hk.releases.slot hn).eq (hnm.unmarked _)
      still := fun hs hn => ?_ }
    · obtain ⟨p, tops, ms, hst⟩ := h.stand.elements he
      obtain ⟨el, others, hc, -, hl⟩ := hst.content
      refine ⟨el, others, hc, hl, hk.listeners (List.mem_map.2 ⟨e, he, rfl⟩) ?_
        (hnm.unmarked _) hc hl⟩
      exact h.stand.occupied h.sound (Mounts.slot_mem_of_elements he)
    · obtain ⟨hend, hsp⟩ := (sealed_lasts w').emits hs ⟨hsealed, .refl w'⟩ hn
      exact ⟨hsp.children, fun i hi hne =>
        (hsp.slot ((hsealed.mem_of_up hi).resolve_left hne)).eq trivial⟩

/-- Killing the record of what has been realized below a page node, whatever was emitted since then,
tears down the trees that are mounted there by then: they have grown from the node, and places of
them have been refilled. -/
theorem Realizes.tornDown_by_kill {d k : Nat} {labelled : Bool} {node : Node} {w₀ w₁ w₂ : World}
    (hs : w₀.Sound) (hw : w₀.Wired) (hbare : w₀.Bare root)
    (h₁ : Realizes d labelled root node m w₀ w₁)
    (h₂ : Relation.ReflTransGen (Happens root) w₁ w₂)
    (hns : w₂.NoSites w₀.RefFed) (hnm : w₂.NoMarks w₀.RefFed) :
    ∃ g₀ g, Grows [node] g₀ ∧ Relation.ReflTransGen Mounts.Refills g₀ g ∧
      w₂.Mounted w₀.RefFed root m g ∧
      KeepsAt (TornDown w₀.RefFed root g) Stop.calm w₂
        (holding m.holds (respond k (.kill m))) := by
  have hread := h₁.reading hw.reading
  obtain ⟨g₀, hgrows, hmounted⟩ :=
    h₁.mounted hs hw w₀.tracks_refFed hbare ((keeps_of_happens h₂ hread).2 hns)
  obtain ⟨g, hrefills, hm⟩ := Holds.happens ⟨g₀, .refl, hmounted⟩ h₂ hread hns
  exact ⟨g₀, g, hgrows, hrefills, hm, hm.tornDown hns hnm⟩

/-! ### A counter with a title -/

/-- A section with a title that follows an observable, a listener, a reference to it, and a number. -/
def counter : Node :=
  .element "section" [("title", .observable ⟨1⟩), ("ref", .ref ⟨2⟩)] [⟨"click", ⟨0⟩⟩]
    [.text "0" (some ⟨0⟩)] none

def counterRoot : PageNode := ⟨⟨0⟩, 0⟩

/-- A number, a title, a reference, and an empty page. -/
def counterWorld : World where
  cells := #[⟨.state [], .any, .value (.scalar (.int 0)), []⟩,
    ⟨.state [], .any, .value (.scalar (.str "count")), []⟩, ⟨.ref, .any, .absent, []⟩]
  pages := #[{}]
  entered := [⟨0⟩]
  names := { pageNodes := [("root", counterRoot)] }

/-- The page has a root. -/
def counterRooted : World :=
  counterWorld.withPage ⟨0⟩ (((counterWorld.page ⟨0⟩).created (counterWorld.heldSlots ⟨0⟩)
    (.element { tag := "main" })).2)

theorem registry_counterRooted (c : CellId) : (counterRooted.cell c).registry = [] := by
  obtain ⟨i⟩ := c
  obtain _ | _ | _ | i := i
  · rfl
  · rfl
  · rfl
  · rw [World.cell_of_size_le (w := counterRooted) (c := ⟨i + 3⟩) (Nat.le_add_left 3 i)]
    rfl

theorem refFed_counterRooted {c : CellId} (h : counterRooted.RefFed c) : c = ⟨2⟩ := by
  induction h with
  | @ref c hc =>
    obtain ⟨i⟩ := c
    obtain _ | _ | _ | i := i
    · cases hc
    · cases hc
    · rfl
    · rw [World.cell_of_size_le (w := counterRooted) (c := ⟨i + 3⟩) (Nat.le_add_left 3 i)] at hc
      cases hc
  | fed _ hs _ =>
    rw [registry_counterRooted] at hs
    cases hs

theorem sound_counterRooted : counterRooted.Sound := by
  have hs : counterWorld.Sound := by
    refine ⟨fun p => ?_, fun {c key r} hr _ => ?_⟩
    · have hpage : counterWorld.page p = {} := by
        obtain ⟨i⟩ := p
        obtain _ | i := i
        · rfl
        · exact World.page_of_size_le (Nat.le_add_left 1 i)
      rw [hpage]
      exact Document.sound_empty.forest
    · rw [show (counterWorld.cell c).registry = [] from registry_counterRooted c] at hr
      cases hr
  exact (createNode_spec hs (by decide) (run_createNode ..)).sound

theorem wired_counterRooted : counterRooted.Wired where
  reading := by
    intro acts ha
    simp [counterRooted, withPage, counterWorld] at ha
  keyed c := by simp [Cell.keys, registry_counterRooted]
  follows hs := by
    rw [registry_counterRooted] at hs
    cases hs
  unfed hs := by
    rw [registry_counterRooted] at hs
    cases hs

theorem rendered_counter :
    (succeeded? (renderInto (respond 8) false counterRoot counter).run counterRooted).isSome :=
  by decide +kernel

/-- The counter has been rendered. -/
def counterRendered : Teardown × World := (succeeded? _ _).get rendered_counter

theorem assigned_counter :
    (ended? (holdAndEmit (respond 8) ⟨0⟩ (.value (.scalar (.int 5)))) counterRendered.2).isSome :=
  by decide +kernel

/-- The number has changed. -/
def counterAssigned : World := (ended? _ _).get assigned_counter

theorem listened_counter :
    (succeeded? ((⟨⟨0⟩, 2⟩ : PageNode).listen "click" ⟨1⟩) counterAssigned).isSome :=
  by decide +kernel

/-- Somebody listens to the section. -/
def counterListened : World := ((succeeded? _ _).get listened_counter).2

theorem killed_counter :
    (ended? (holding counterRendered.1.holds (respond 8 (.kill counterRendered.1)))
      counterListened).isSome :=
  by decide +kernel

/-- The counter is torn down after its number has changed and somebody else listens to it. -/
theorem tornDown_by_kill_of_counter :
    ∃ m w₁ w₂ w₃, Realizes 8 false counterRoot counter m counterRooted w₁ ∧
      Relation.ReflTransGen (Happens counterRoot) w₁ w₂ ∧
      (holding m.holds (respond 8 (.kill m))).run w₂ = .ok ⟨⟩ w₃ ∧
      ∃ g₀ g, Grows [counter] g₀ ∧ Relation.ReflTransGen Mounts.Refills g₀ g ∧
        w₂.Mounted counterRooted.RefFed counterRoot m g ∧
        TornDown counterRooted.RefFed counterRoot g w₂ w₃ := by
  have hrender : (renderInto (respond 8) false counterRoot counter).run.run counterRooted =
      .ok (.ok counterRendered.1) counterRendered.2 := run_of_succeeded rendered_counter
  have hassign : (holdAndEmit (respond 8) ⟨0⟩ (.value (.scalar (.int 5)))).run counterRendered.2 =
      .ok ⟨⟩ counterAssigned := run_of_ended assigned_counter
  obtain ⟨⟨⟩, hlisten⟩ : ∃ u, ((⟨⟨0⟩, 2⟩ : PageNode).listen "click" ⟨1⟩).run counterAssigned =
      .ok (.ok u) counterListened := ⟨_, run_of_succeeded listened_counter⟩
  have h₁ := Realizes.render (by decide) ⟨by decide +kernel, by decide +kernel⟩ hrender
  have h₂ : Relation.ReflTransGen (Happens counterRoot) counterRendered.2 counterListened :=
    .tail (.single (.emits (.assign hassign))) (.listens hlisten)
  have hbare : counterRooted.Bare counterRoot := by
    intro c key r hr _
    rw [registry_counterRooted] at hr
    cases hr
  have hns : counterListened.NoSites counterRooted.RefFed := by
    have hall : (counterListened.sites.all fun s => decide (s.source ≠ ⟨2⟩)) = true := by
      decide +kernel
    intro s site hs hr
    have := Array.all_eq_true_iff_forall_mem.1 hall site (Array.mem_of_getElem? hs)
    exact of_decide_eq_true this (refFed_counterRooted hr)
  have hnm : counterListened.NoMarks counterRooted.RefFed := by
    have hnil : (counterListened.cell ⟨2⟩).registry.isEmpty = true := by decide +kernel
    intro c s hc hs _
    rw [refFed_counterRooted hc, List.isEmpty_iff.1 hnil] at hs
    cases hs
  have hrun := run_of_ended killed_counter
  refine ⟨_, _, _, _, h₁, h₂, hrun, ?_⟩
  exact (Realizes.tornDown_by_kill (k := 8) sound_counterRooted wired_counterRooted hbare h₁ h₂ hns
    hnm).imp fun _ => Exists.imp fun _ => And.imp_right <| And.imp_right <| And.imp_right
      (KeepsAt.ok · hrun)

end World

end LivePage
