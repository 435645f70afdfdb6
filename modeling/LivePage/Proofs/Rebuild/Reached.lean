import LivePage.Proofs.Mount.Mounting
import LivePage.Proofs.Page.Refusal
import LivePage.Proofs.Rebuild.Programs

/-!
# Worlds in which nothing is being rebuilt

Before anything has been put on a page there are no places and no records, so the world is in order
and nothing is being rebuilt (`World.Unbuilt.amid`). Realizations and renders that succeed keep it so
(`World.Amid.realize`, `World.Amid.renderInto`), and so do page edits and the steps by which programs
take part. What can be done again and again is `World.Works`; every world that is reached by it is in
order (`World.Reached.amid`), and the places in it are ready to be told of emissions
(`World.Reached.place`).
-/

namespace LivePage

open LivePage.Script

variable {w w' : World} {B C : List SiteId} {n child root : PageNode} {l : RecordsId} {m : Teardown}
  {name : String} {d : Nat} {labelled : Bool} {node : Node} {r : Realization}

namespace World

/-! ## What is done to pages -/

theorem Amid.remove (hw : w.Amid B C) (h : n.remove.run w = .ok ⟨⟩ w') : Meanwhile B C w w' := by
  obtain ⟨a, w₁, h₁, h₂⟩ := ok_bind.1 h
  obtain ⟨page, hpage, rfl⟩ := ok_onPage.1 h₁
  obtain ⟨-, rfl⟩ := ok_pure.1 h₂
  obtain ⟨-, rfl⟩ := Prod.mk.inj hpage
  exact hw.withPage_of_occupied ((hw.forest _).detach _) (fun _ => Page.occupied_detach.2)
    fun i => by rw [Page.content_detach]

theorem Amid.removeChild (hw : w.Amid B C) {a : Except PageError Unit}
    (h : (n.removeChild child).run w = .ok a w') : Meanwhile B C w w' := by
  unfold PageNode.removeChild at h
  split at h
  · obtain ⟨page, hpage, rfl⟩ := ok_onPage.1 h
    cases a with
    | ok u =>
      obtain ⟨-, rfl⟩ := Page.removeChild_eq.1 hpage
      exact hw.withPage_of_occupied ((hw.forest _).detach _) (fun _ => Page.occupied_detach.2)
        fun i => by rw [Page.content_detach]
    | error e =>
      obtain ⟨-, -, rfl⟩ := Page.removeChild_refused_iff.1 hpage
      exact hw.withPage_of_occupied (hw.forest _) (fun _ => id) fun _ => rfl
  · obtain ⟨-, rfl⟩ := ok_pure.1 h
    exact .refl hw

/-- Something is realized for the active page. -/
theorem Amid.realize (hw : w.Amid B C) (hp : ∀ p, w.activePage = some p → p.index < w.pages.size)
    (h : (realize (respond d) labelled node).run.run w = .ok (.ok r) w') :
    Meanwhile B C w w' ∧ w.Drafts r.teardown.children w' := by
  obtain ⟨p, w₁, w₂, hpage, h₁, h₂, rfl⟩ := ok_realize h
  obtain ⟨hm₁, ho, hfragment, -⟩ := (hw.pinned node.holds).createNode (hp p hpage) h₁
  have hm₁ := hm₁.unpinned
  have hin : (w₁.unpinned.pinned [.slot r.fragment]).Accepts B C ⟨p, labelled⟩ r.fragment :=
    ⟨hm₁.amid.pinned _, by
      show p.index < w₁.unpinned.pages.size
      rw [hm₁.pages]
      exact hp p hpage, .pinned (List.mem_append_left _ List.mem_cons_self), ho⟩
  obtain ⟨hm₂, hd⟩ := (completes_node (respond_abides d) _ _ hin).of_ok h₂
  have hm₂ := hm₂.unpinned
  exact ⟨hm₁.trans hm₂, Nat.le_trans hm₁.fixed.size hd.new, hd.lt, hd.lacks⟩

/-- Something is rendered in place of the children of a page node that is held. -/
theorem Amid.renderInto (hw : w.Amid B C) (hp : ∀ p, w.activePage = some p → p.index < w.pages.size)
    (hg : w.Grasps root) (ho : w.Occupied root)
    (h : (renderInto (respond d) labelled root node).run.run w = .ok (.ok m) w') :
    Meanwhile B C w w' ∧ w.Drafts m.children w' := by
  obtain ⟨r, w₁, h₁, h⟩ := ok_ebind.1 h
  obtain ⟨_, w₂, h₂, h⟩ := ok_ebind.1 h
  obtain ⟨rfl, rfl⟩ := ok_epure.1 h
  obtain ⟨w₃, h₃, rfl⟩ := ok_realizingWith.1 h₂
  obtain ⟨hm, hd⟩ := hw.realize hp h₁
  have hput := (hm.amid.pinned r.teardown.holds).replaceChildren (hm.kept hg ho).1
    (ok_pageStep.1 h₃)
  exact ⟨hm.trans hput.unpinned, hd.after hput.unpinned.toPasses⟩

/-! ## Naming records -/

/-- The world in which a record has a name. -/
def withRecord (w : World) (name : String) (m : Teardown) : World :=
  { w with names := { w.names with teardowns := Entries.set name m w.names.teardowns } }

theorem Files.of_withRecord {x : Teardown} (h : (w.withRecord name m).Files x) :
    w.Files x ∨ x = m := by
  rcases h with ⟨k, hx⟩ | ⟨k, hx⟩
  · exact .inl (.inl ⟨k, hx⟩)
  · rcases Entries.of_mem_set hx with hx | he
    · exact .inl (.inr ⟨k, hx⟩)
    · exact .inr (Prod.mk.inj he).2

/-- A record that stands nowhere gets a name. -/
theorem Amid.withRecord (hw : w.Amid B C) (hlt : m.children.index < w.records.size)
    (hlacks : w.Lacks m.children) : (w.withRecord name m).Amid B C where
  forest := hw.forest
  acts := hw.acts
  seats := hw.seats
  subscribers := hw.subscribers
  filed hx := by
    rcases hx.of_withRecord with hx | rfl
    · exact hw.filed hx
    · exact hlt
  distinct := hw.distinct
  sole {l x} hx y hy := by
    have hy : ((w.taken l).withRecord name m).Files y := hy
    rcases hy.of_withRecord with hy | rfl
    · exact hw.sole hx y hy
    · exact fun he => hlacks x (.inl ⟨l, hx⟩) he.symm
  listed := hw.listed
  apart := hw.apart
  busy := hw.busy
  idle := hw.idle
  there := hw.there
  empty := hw.empty

/-! ## Worlds that are reached -/

/-- Nothing has been realized yet: there are no places and no records. -/
structure Unbuilt (w : World) : Prop where
  forest (p : PageId) : (w.page p).Forest
  acts : ∀ acts ∈ w.callbacks.map (·.acts), ∀ a ∈ acts, a.Emits
  registry {c : CellId} {key : Nat} {s : SiteId} : (key, .rebuild s) ∉ (w.cell c).registry
  subscribers {e : String × Nat × Reaction} {s : SiteId} : e ∈ w.names.subscribers →
    e.2.2 ≠ .rebuild s
  sites : w.sites = #[]
  lists (l : RecordsId) : w.recordsIn l = []
  teardowns : w.names.teardowns = []

theorem Unbuilt.amid (hw : w.Unbuilt) : w.Amid [] [] := by
  have hfiles : ∀ {m}, ¬ w.Files m := by
    rintro m (⟨l, hm⟩ | ⟨_, hm⟩)
    · rw [hw.lists] at hm
      cases hm
    · rw [hw.teardowns] at hm
      cases hm
  have hsites : ∀ {i : Nat} {x : Site}, w.sites[i]? ≠ some x := by simp [hw.sites]
  exact {
    forest := hw.forest
    acts := hw.acts
    seats := fun h => absurd h hw.registry
    subscribers := hw.subscribers
    filed := fun h => absurd h hfiles
    distinct := fun l => by rw [hw.lists]; exact List.nodup_nil
    sole := fun {l m} h => absurd (.inl ⟨l, h⟩) hfiles
    listed := fun h => absurd h hsites
    apart := fun h => absurd h hsites
    busy := fun h => absurd h hsites
    idle := fun h => absurd h hsites
    there := nofun
    empty := nofun }

/-- What may be done from outside, again and again: a step by which programs take part, anything else
that leaves pages, places and records alone, a new page node, a page edit, a realization and a
render. -/
inductive Works : World → World → Prop where
  | step {w w' : World} {d : Nat} {step : Step} {a : Except Report Report} : step.Emits →
      (stepAnswer (respond d) step).run.run w = .ok a w' → Works w w'
  | mild {w w' : World} : Mild w w' → Works w w'
  | create {w w' : World} {p : PageId} {content : Content} {n : PageNode} :
      p.index < w.pages.size → (createNode p content).run w = .ok n w' → Works w w'
  | insert {w w' : World} {n child : PageNode} {reference : Option PageNode} : w.Occupied n →
      (n.insertBefore child reference).run w = .ok (.ok ()) w' → Works w w'
  | removeChild {w w' : World} {n child : PageNode} {a : Except PageError Unit} :
      (n.removeChild child).run w = .ok a w' → Works w w'
  | remove {w w' : World} {n : PageNode} : n.remove.run w = .ok ⟨⟩ w' → Works w w'
  | replace {w w' : World} {n child : PageNode} : w.Occupied n →
      (n.replaceChildren child).run w = .ok (.ok ()) w' → Works w w'
  | realize {w w' : World} {d : Nat} {labelled : Bool} {node : Node} {r : Realization}
      {name : String} : (∀ p, w.activePage = some p → p.index < w.pages.size) →
      (LivePage.realize (respond d) labelled node).run.run w = .ok (.ok r) w' →
      Works w (w'.withRecord name r.teardown)
  | render {w w' : World} {d : Nat} {labelled : Bool} {root : PageNode} {node : Node}
      {m : Teardown} {name : String} : (∀ p, w.activePage = some p → p.index < w.pages.size) →
      w.Occupied root →
      (LivePage.renderInto (respond d) labelled root node).run.run (w.pinned [.slot root]) =
        .ok (.ok m) w' →
      Works w (w'.unpinned.withRecord name m)

theorem Works.amid (h : Works w w') (hw : w.Amid B C) : w'.Amid B C := by
  cases h with
  | step he h => exact ((abides_step (respond_abides _) he).ok h hw).amid
  | mild h => exact (hw.mild h).amid
  | create hp h => exact (hw.createNode hp h).1.amid
  | insert ho h => exact (hw.insertBefore ho h).amid
  | removeChild h => exact (hw.removeChild h).amid
  | remove h => exact (hw.remove h).amid
  | replace ho h => exact (hw.replaceChildren ho h).amid
  | realize hp h =>
    obtain ⟨hm, hd⟩ := hw.realize hp h
    exact hm.amid.withRecord hd.lt hd.lacks
  | render hp ho h =>
    obtain ⟨hm, hd⟩ := (hw.pinned _).renderInto hp
      (.pinned (List.mem_append_left _ List.mem_cons_self)) ho h
    exact hm.unpinned.amid.withRecord hd.lt hd.lacks

/-- The world is reached from one in which nothing has been realized. -/
def Reached (w : World) : Prop := ∃ b, b.Unbuilt ∧ Relation.ReflTransGen Works b w

/-- In every world that is reached nothing is being rebuilt, and it is in order. -/
theorem Reached.amid (h : w.Reached) : w.Amid [] [] := by
  obtain ⟨b, hb, h⟩ := h
  induction h with
  | refl => exact hb.amid
  | tail _ hstep ih => exact hstep.amid ih

/-- A place that is subscribed is there, at rest, and held while its subscription is told of
something. -/
theorem Reached.place (h : w.Reached) {c : CellId} {key : Nat} {s : SiteId}
    (hr : (key, .rebuild s) ∈ (w.cell c).registry) :
    (∃ x, w.sites[s.index]? = some x ∧ x.source = c ∧ x.busy = false ∧ x.queued = none) ∧
      (w.pinned (w.reactionHolds (.rebuild s))).Seats s ∧
      .site s ∈ (w.pinned (w.reactionHolds (.rebuild s))).pins.flatten := by
  obtain ⟨⟨x, hx, hc⟩, hs⟩ := h.amid.seats hr
  exact ⟨⟨x, hx, hc, h.amid.not_busy hx List.not_mem_nil, h.amid.idle hx List.not_mem_nil⟩, hs,
    List.mem_cons_self⟩

end World

end LivePage
