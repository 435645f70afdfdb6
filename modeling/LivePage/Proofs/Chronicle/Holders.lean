import LivePage.Proofs.Chronicle.Basic
import LivePage.Proofs.World.Ownership

/-!
# Why something is alive

Letting go in rounds ends in a fixpoint: something is alive if and only if it is held from outside
or by something alive (`World.isAlive_iff`). So an observable to which something on a page is
subscribed is alive (`World.Bound.isAlive`), and an observable that is alive without that is held
apart from what is on pages: from outside, by what something alive holds as a value, or by the
closure of a subscription that does nothing to a page; or a record in a list that is alive mentions
it (`World.held_of_isAlive`).
-/

namespace LivePage

variable {w : World} {c : CellId} {e : Entity}

namespace World

/-! ## The fixpoint -/

theorem settle_subset {roots : List Entity} {k : Nat} {owners : List Owner} :
    settle roots k owners ⊆ owners := by
  induction k generalizing owners with
  | zero => exact List.Subset.refl _
  | succ k ih =>
    simp only [settle]
    split
    · exact List.Subset.refl _
    · exact List.Subset.trans ih (List.filter_subset_self _)

/-- Whoever stays is held by a root or by one who stays. -/
theorem self_mem_of_mem_settle {roots : List Entity} {k : Nat} {owners : List Owner}
    (hk : owners.length ≤ k) {o : Owner} (ho : o ∈ settle roots k owners) :
    o.self ∈ roots ++ (settle roots k owners).flatMap (·.holds) := by
  induction k generalizing owners with
  | zero =>
    rw [List.eq_nil_of_length_eq_zero (Nat.le_zero.1 hk)] at ho
    cases ho
  | succ k ih =>
    simp only [settle] at ho ⊢
    split at ho
    · next hlength =>
      rw [if_pos hlength]
      have hall := List.length_filter_eq_length_iff.1 hlength o ho
      rwa [List.contains_iff_mem] at hall
    · next hlength =>
      rw [if_neg hlength]
      have hle : (heldOwners roots owners).length ≤ owners.length := List.length_filter_le ..
      exact ih (by omega) ho

theorem isAlive_eq_true : w.isAlive e = true ↔ e ∈ w.heldEntities := List.contains_iff_mem

theorem of_mem_livingOwners {o : Owner} (h : o ∈ w.livingOwners) :
    o.self ∈ w.owners ∧ w.isAlive o.self ∧ o.holds = w.holds o.self := by
  obtain ⟨e, he, rfl⟩ := List.mem_map.1 (settle_subset h)
  exact ⟨he, isAlive_eq_true.2 (self_mem_of_mem_settle (Nat.le_refl _) h), rfl⟩

theorem mem_livingOwners {o : Entity} (hin : o ∈ w.owners) (ho : w.isAlive o) :
    ⟨o, w.holds o⟩ ∈ w.livingOwners := by
  refine mem_settle (K := fun x => x.self ∈ w.owners ∧ w.isAlive x.self ∧
    x.holds = w.holds x.self) ?_ ?_ ⟨hin, ho, rfl⟩
  · rintro x ⟨-, halive, -⟩
    have hheld := isAlive_eq_true.1 halive
    rw [heldEntities, List.mem_append, List.mem_flatMap] at hheld
    exact hheld.imp_right fun ⟨y, hy, hxy⟩ => ⟨y, of_mem_livingOwners hy, hxy⟩
  · rintro ⟨x, l⟩ ⟨hx, -, hl⟩
    exact List.mem_map.2 ⟨x, hx, congrArg (Owner.mk x) (Eq.symm hl)⟩

/-- Something is alive if and only if it is held from outside or by something alive. -/
theorem isAlive_iff :
    w.isAlive e ↔ e ∈ w.roots ∨ ∃ o ∈ w.owners, w.isAlive o ∧ e ∈ w.holds o := by
  rw [isAlive_eq_true, heldEntities, List.mem_append, List.mem_flatMap]
  refine or_congr_right ⟨fun ⟨o, ho, he⟩ => ?_, fun ⟨o, hin, ho, he⟩ =>
    ⟨_, mem_livingOwners hin ho, he⟩⟩
  obtain ⟨hin, halive, hholds⟩ := of_mem_livingOwners ho
  exact ⟨o.self, hin, halive, hholds ▸ he⟩

/-! ## Subscriptions of pages -/

/-- Something on a page is subscribed to the observable. -/
def Bound (w : World) (c : CellId) : Prop := ∃ key r, (key, r) ∈ (w.cell c).registry ∧ r.onPage

/-- What is subscribed and does something to a page follows the observable at which it stands. -/
def Following (w : World) : Prop :=
  ∀ {c key r}, (key, r) ∈ (w.cell c).registry → r.onPage → w.Follows c r

/-- An observable to which something on a page is subscribed is alive: the two hold each other, and
nobody else needs to hold them. -/
theorem Bound.isAlive (hw : w.Following) (h : w.Bound c) : w.isAlive (.cell c) := by
  obtain ⟨key, r, hr, hp⟩ := h
  have hin : Entity.cell c ∈ w.owners := mem_owners_of_registry hr
  have hf := hw hr hp
  rw [isAlive_eq_true]
  have hself (hc : Entity.cell c ∈ w.reactionHolds r) : Entity.cell c ∈ w.heldEntities := by
    have hholds := reactionHolds_subset hr hc
    refine heldEntities_of_closed (K := (· = .cell c)) ?_ ?_ rfl hholds
    · rintro _ rfl
      exact hin
    · rintro _ rfl
      exact .inr ⟨_, rfl, hholds⟩
  cases r with
  | rebuild s =>
    obtain ⟨site, hsite, hsource⟩ := hf
    have hlt : s.index < w.sites.size := (Array.getElem?_eq_some_iff.1 hsite).1
    have hsin : Entity.site s ∈ w.owners := by
      simp only [owners, List.mem_append, List.mem_map, List.mem_range]
      exact .inl (.inl (.inr ⟨s.index, hlt, rfl⟩))
    have hcell : .cell c ∈ w.holds (.site s) := by simp [holds, hsite, hsource]
    have hsite : .site s ∈ w.holds (.cell c) := reactionHolds_subset hr (by simp [reactionHolds])
    refine heldEntities_of_closed (K := fun x => x = .cell c ∨ x = .site s) ?_ ?_ (.inr rfl) hcell
    · rintro x (rfl | rfl)
      · exact hin
      · exact hsin
    · rintro x (rfl | rfl)
      · exact .inr ⟨_, .inr rfl, hcell⟩
      · exact .inr ⟨_, .inl rfl, hsite⟩
  | «attribute» n name source =>
    cases hf
    exact hself (by simp [reactionHolds])
  | styleProperty n name source =>
    cases hf
    exact hself (by simp [reactionHolds])
  | _ => exact hp.elim

/-! ## Holders apart from pages -/

/-- What a subscription holds that does nothing to a page. -/
def closureHolds (w : World) : Reaction → List Entity
  | .rebuild _ | .attribute .. | .styleProperty .. => []
  | r => w.reactionHolds r

/-- What a shared thing holds, apart from what its subscriptions on pages hold, the observable that
a place on a page follows, and those that the records of what stands there mention. -/
def holdsApart (w : World) : Entity → List Entity
  | .cell c =>
    let cell := w.cell c
    let fields := match cell.flavour with
      | .store fields => fields.named.map (.cell ·.2)
      | _ => []
    cell.held.holds ++ cell.registry.flatMap (fun r => w.closureHolds r.2) ++ fields
  | .site s => ((w.sites[s.index]?.bind (·.queued)).map Value.holds).getD []
  | .records _ => []
  | e => w.holds e

/-- The observable of a place. -/
def siteSource (w : World) : Entity → List Entity
  | .site s => (w.sites[s.index]?.map fun site => Entity.cell site.source).toList
  | _ => []

/-- Everything that is held apart from what stands on pages: from outside, which includes operations
under way and the places that they are concerned with, and by what is alive. -/
def heldApart (w : World) : List Entity :=
  w.roots ++ w.roots.flatMap w.siteSource ++ w.livingOwners.flatMap fun o => w.holdsApart o.self

/-- The observables that records mention which stand in a list that is alive. -/
def recorded (w : World) : List CellId :=
  w.livingOwners.flatMap fun o =>
    match o.self with
    | .records l => (w.recordsIn l).flatMap Teardown.mentions
    | _ => []

theorem mem_heldApart {o : Entity} (hin : o ∈ w.owners) (ho : w.isAlive o)
    (he : e ∈ w.holdsApart o) : e ∈ w.heldApart :=
  List.mem_append_right _ (List.mem_flatMap.2 ⟨_, mem_livingOwners hin ho, he⟩)

theorem mem_recorded {l : RecordsId} {m : Teardown} (hin : .records l ∈ w.owners)
    (hl : w.isAlive (.records l)) (hm : m ∈ w.recordsIn l) (hc : c ∈ m.mentions) :
    c ∈ w.recorded :=
  List.mem_flatMap.2 ⟨_, mem_livingOwners hin hl, List.mem_flatMap.2 ⟨m, hm, hc⟩⟩

theorem closureHolds_or_onPage (r : Reaction) :
    w.closureHolds r = w.reactionHolds r ∨ r.onPage := by
  cases r with
  | rebuild | «attribute» | styleProperty => exact .inr trivial
  | _ => exact .inl rfl

end World

/-! ## Who holds places -/

/-- It is an observable or a handler: values and nodes hold nothing else. -/
def Entity.Light : Entity → Prop
  | .cell _ | .handler _ => True
  | _ => False

theorem Style.light {style : Style} : ∀ e ∈ Style.holds style, e.Light := by
  intro e he
  obtain ⟨⟨key, value⟩, -, hv⟩ := List.mem_filterMap.1 he
  cases value with
  | text => cases hv
  | observable c =>
    cases hv
    trivial

theorem AttributeValue.light (a : AttributeValue) : ∀ e ∈ a.holds, e.Light := by
  cases a with
  | «observable» c | ref c => simp [AttributeValue.holds, Entity.Light]
  | style s => exact Style.light
  | text | list => simp [AttributeValue.holds]

theorem light_drivingHolds (driving : Option CellId) : ∀ e ∈ drivingHolds driving, e.Light := by
  cases driving <;> simp [drivingHolds, Entity.Light]

mutual

theorem Value.light : ∀ v : Value, ∀ e ∈ v.holds, e.Light
  | .observable c | .ref c | .handler h => by simp [Value.holds, Entity.Light]
  | .node n => by
    rw [Value.holds]
    exact Node.light n
  | .render r => by
    rw [Value.holds]
    exact Render.light r
  | .component _ _ props => by
    rw [Value.holds]
    exact Value.light props
  | .style s => by
    rw [Value.holds]
    exact Style.light
  | .record fields => by
    rw [Value.holds]
    exact light_contextHolds fields
  | .empty | .scalar _ | .list _ => by simp [Value.holds]

theorem Node.light : ∀ n : Node, ∀ e ∈ n.holds, e.Light
  | .empty => by simp [Node.holds]
  | .text _ driving => by
    rw [Node.holds]
    exact light_drivingHolds driving
  | .element _ attributes listeners children driving => by
    rw [Node.holds]
    simp only [List.forall_mem_append, List.forall_mem_flatMap, List.forall_mem_map]
    exact ⟨⟨⟨fun a _ => a.2.light, fun _ _ => trivial⟩, light_nodesHold children⟩,
      light_drivingHolds driving⟩
  | .fragment children driving => by
    rw [Node.holds]
    exact List.forall_mem_append.2 ⟨light_nodesHold children, light_drivingHolds driving⟩
  | .deferred r => by
    rw [Node.holds]
    exact Render.light r

theorem Render.light : ∀ r : Render, ∀ e ∈ r.holds, e.Light
  | .program _ _ context => by
    rw [Render.holds]
    exact light_contextHolds context
  | .handler h | .pending h => by simp [Render.holds, Entity.Light]
  | .component _ props => by
    rw [Render.holds]
    exact Value.light props

theorem light_contextHolds : ∀ fields : List (String × Value), ∀ e ∈ contextHolds fields, e.Light
  | [] => by simp [contextHolds]
  | (_, v) :: rest => by
    rw [contextHolds]
    exact List.forall_mem_append.2 ⟨Value.light v, light_contextHolds rest⟩

theorem light_nodesHold : ∀ ns : List Node, ∀ e ∈ nodesHold ns, e.Light
  | [] => by simp [nodesHold]
  | n :: rest => by
    rw [nodesHold]
    exact List.forall_mem_append.2 ⟨Node.light n, light_nodesHold rest⟩

end

namespace World

theorem light_generatorHolds (g : Generator) : ∀ e ∈ w.generatorHolds g, e.Light := by
  cases g with
  | template segments arguments => exact List.forall_mem_flatMap.2 fun v _ => v.light
  | gated render label memo =>
    rw [generatorHolds]
    cases (w.memos.getD memo.index default).branch with
    | none => simp
    | some n => exact n.light
  | _ => simp [generatorHolds]

theorem light_held (held : Held) {s : SiteId} : Entity.site s ∉ held.holds := by
  cases held with
  | value v => exact fun h => v.light _ h
  | _ => simp [Held.holds]

theorem eq_rebuild_of_holds_site {r : Reaction} {s : SiteId} (h : .site s ∈ w.reactionHolds r) :
    r = .rebuild s := by
  cases r with
  | rebuild s' => simpa [reactionHolds, eq_comm] using h
  | derive target g | combineFirst target second g | combineSecond target first g
  | combineAll target sources g | recompute target g =>
    exact (light_generatorHolds g _ h).elim
  | _ => simp [reactionHolds] at h

/-- A place is held by nothing but the subscription that rebuilds it. -/
theorem exists_of_holds_site {o : Entity} {s : SiteId} (h : .site s ∈ w.holds o) :
    ∃ c key, o = .cell c ∧ (key, .rebuild s) ∈ (w.cell c).registry := by
  cases o with
  | cell c =>
    simp only [holds, List.mem_append, List.mem_flatMap] at h
    rcases h with (h | ⟨⟨key, r⟩, hr, h⟩) | h
    · exact absurd h (light_held _)
    · obtain rfl : r = .rebuild s := eq_rebuild_of_holds_site h
      exact ⟨c, key, rfl, hr⟩
    · split at h <;> simp at h
  | records l =>
    obtain ⟨m, -, h⟩ := List.mem_flatMap.1 h
    simp [Teardown.holds, drivingHolds] at h
  | region r =>
    simp only [holds] at h
    split at h <;> simp at h
  | site s' =>
    simp only [holds] at h
    split at h
    · next site hsite =>
      have hq : .site s ∉ (site.queued.map Value.holds).getD [] := by
        cases site.queued with
        | none => simp
        | some v => exact fun h => v.light _ h
      simp only [List.cons_append, List.nil_append, List.mem_cons] at h
      rcases h with h | h | h | h
      · cases h
      · cases h
      · cases htarget : site.target <;> simp [htarget] at h
      · exact absurd h hq
    · cases h
  | boundary b =>
    simp only [holds] at h
    split at h
    · next boundary hb =>
      rcases List.mem_cons.1 h with h | h
      · cases h
      · cases hcontent : boundary.content with
        | none => simp [hcontent] at h
        | some n =>
          have hn : .site s ∈ n.holds := by simpa [hcontent] using h
          exact (n.light _ hn).elim
    · cases h
  | handler h' =>
    simp only [holds] at h
    split at h
    · next r hr => exact (r.light _ h).elim
    · cases h
  | slot n => cases h

/-- An observable that is alive is held apart from what stands on pages, or a record mentions it, or
something on a page is subscribed to it. -/
theorem held_of_isAlive (hw : w.Following) (h : w.isAlive (.cell c)) :
    .cell c ∈ w.heldApart ∨ c ∈ w.recorded ∨ w.Bound c := by
  rcases isAlive_iff.1 h with h | ⟨o, hin, ho, h⟩
  · exact .inl (List.mem_append_left _ (List.mem_append_left _ h))
  have hapart : .cell c ∈ w.holdsApart o → .cell c ∈ w.heldApart := mem_heldApart hin ho
  cases o with
  | cell d =>
    simp only [holds, List.mem_append, List.mem_flatMap] at h
    rcases h with (h | ⟨⟨key, r⟩, hr, h⟩) | h
    · exact .inl (hapart (List.mem_append_left _ (List.mem_append_left _ h)))
    · rcases w.closureHolds_or_onPage r with hclosure | hp
      · refine .inl (hapart (List.mem_append_left _ (List.mem_append_right _ ?_)))
        exact List.mem_flatMap.2 ⟨_, hr, hclosure ▸ h⟩
      · -- What an attribute or a style holds is the observable at which it stands.
        have hf := hw hr hp
        obtain rfl : d = c := by
          cases r with
          | «attribute» n name source | styleProperty n name source =>
            cases hf
            simpa [reactionHolds, eq_comm] using h
          | rebuild s => simp [reactionHolds] at h
          | _ => exact hp.elim
        exact .inr (.inr ⟨key, r, hr, hp⟩)
    · exact .inl (hapart (List.mem_append_right _ h))
  | site s =>
    simp only [holds] at h
    split at h
    · next site hsite =>
      simp only [List.cons_append, List.nil_append, List.mem_cons] at h
      rcases h with h | h | h | h
      · -- The place is alive: it is held from outside, or by the subscription that rebuilds it.
        rcases isAlive_iff.1 ho with hroot | ⟨o, -, -, hs⟩
        · refine .inl (List.mem_append_left _ (List.mem_append_right _ ?_))
          exact List.mem_flatMap.2 ⟨_, hroot, by simp [siteSource, hsite, h]⟩
        · obtain ⟨d, key, rfl, hr⟩ := exists_of_holds_site hs
          obtain ⟨site', hsite', rfl⟩ := hw hr trivial
          cases hsite.symm.trans hsite'
          cases h
          exact .inr (.inr ⟨key, _, hr, trivial⟩)
      · cases h
      · cases htarget : site.target <;> simp [htarget] at h
      · exact .inl (hapart (by simpa [holdsApart, hsite] using h))
    · cases h
  | records l =>
    obtain ⟨m, hm, h⟩ := List.mem_flatMap.1 h
    refine .inr (.inl (mem_recorded hin ho hm ?_))
    simpa [Teardown.holds, Teardown.mentions, drivingHolds] using h
  | _ => exact .inl (hapart h)

/-! ## Observables that are on no page -/

end World

/-- The subscription of a program, of something derived by a function that holds nothing, or of a
text. -/
def Reaction.OffPage : Reaction → Prop
  | .subscriber .. | .watch .. | .derive _ (.program ..) | .combineFirst _ _ (.program ..)
  | .combineSecond _ _ (.program ..) | .combineAll _ _ (.program ..) | .recompute _ (.program ..)
  | .recompute _ (.template ..) => True
  | _ => False

/-- Of these, only that of a text holds an observable. -/
theorem Reaction.OffPage.eq_template {r : Reaction} (hoff : r.OffPage)
    (h : .cell c ∈ w.reactionHolds r) :
    ∃ target segments arguments, r = .recompute target (.template segments arguments) := by
  cases r with
  | subscriber | watch => cases h
  | derive _ g | combineFirst _ _ g | combineSecond _ _ g | combineAll _ _ g =>
    cases g with
    | program => cases h
    | _ => exact hoff.elim
  | recompute target g =>
    cases g with
    | program => cases h
    | template segments arguments => exact ⟨target, segments, arguments, rfl⟩
    | _ => exact hoff.elim
  | _ => exact hoff.elim

/-- Observables and what is derived from them: nothing else is alive that could hold any, and no
value and no field does. -/
structure World.Graph (w : World) : Prop where
  owners : ∀ e ∈ w.owners, w.isAlive e → ∃ d, e = .cell d
  reactions (d : CellId) : ∀ s ∈ (w.cell d).registry, s.2.OffPage
  values (d e : CellId) : .cell e ∉ (w.cell d).held.holds
  flavours (d : CellId) (fields : Fields) : (w.cell d).flavour ≠ .store fields

/-- What is derived does not keep its sources alive, nor sources what is derived from them. An
observable that nobody holds from outside is kept alive only by the template of a text that has it
as an argument, which stands in the registry of an observable that is alive. -/
theorem World.Graph.exists_template (hw : w.Graph) (hroot : .cell c ∉ w.roots)
    (h : w.isAlive (.cell c)) :
    ∃ d key target segments arguments, w.isAlive (.cell d) ∧
      (key, .recompute target (.template segments arguments)) ∈ (w.cell d).registry ∧
      .cell c ∈ arguments.flatMap Value.holds := by
  obtain ⟨o, hin, ho, h⟩ := (World.isAlive_iff.1 h).resolve_left hroot
  obtain ⟨d, rfl⟩ := hw.owners o hin ho
  simp only [World.holds, List.mem_append, List.mem_flatMap] at h
  rcases h with (h | ⟨⟨key, r⟩, hr, h⟩) | h
  · exact absurd h (hw.values d c)
  · have hoff := hw.reactions d _ hr
    obtain ⟨target, segments, arguments, rfl⟩ := hoff.eq_template h
    exact ⟨d, key, target, segments, arguments, ho, hr, h⟩
  · split at h
    · next fields hflavour => exact absurd hflavour (hw.flavours d fields)
    · cases h

end LivePage
