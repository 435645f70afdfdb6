import LivePage.Proofs.Mount.Succeeding
import LivePage.Proofs.Mount.Static
import LivePage.Proofs.Mount.Upkeep

/-!
# Realizations fail at render functions only

A realization whose nodes do not follow references fails exactly if it comes to a render function that
gives a function, with the name of what the first one gives; no page operation fails. It stops only
where an evaluation on its way does, and never with a panic (`Node.tries`). Each form of node is put
together from steps that succeed; the proof is by induction on the depth of requests and, at each
depth, on the node.
-/

namespace LivePage

variable {α : Type} {b w w' w₁ : World} {q content : PageNode} {D : CellId → Prop} {r : Surface}
  {m : Teardown} {l : RecordsId} {g : Mounts} {ns : List Node} {d : Nat} {c : CellId} {n : Node}
  {F : String → World → Prop} {G : String → Prop} {S : Prop} {ms : List Teardown}

/-! ## Where nodes can be realized -/

/-- A world in which nodes can be realized below the container `q`, and in which nothing on a page
follows an observable of the set. -/
structure World.Receives (D : CellId → Prop) (r : Surface) (q : PageNode) (w : World) : Prop
    extends World.Ready D r q w where
  container : (w.slot q).content.type.isContainer = true
  noSites : w.NoSites D
  noMarks : w.NoMarks D

namespace World.Receives

variable (h : World.Receives D r q w)
include h

theorem hears : w.Hears D True := ⟨h.wired, h.tracks, h.noSites, fun _ => h.noMarks⟩

omit h in
theorem of_hears (hr : World.Ready D r q w) (hcon : (w.slot q).content.type.isContainer = true)
    (hh : w.Hears D True) : World.Receives D r q w :=
  ⟨hr, hcon, hh.noSites, hh.noMarks trivial⟩

theorem pinned (held : List Entity) : World.Receives D r q (w.pinned held) :=
  ⟨h.toReady.pinned held, h.container, h.noSites, h.noMarks⟩

theorem grown (hg : Grown D q w w' ms g) (hh : w'.Hears D True) : World.Receives D r q w' :=
  .of_hears (h.toReady.built hg.built) (by rw [hg.self.type]; exact h.container) hh

theorem lt : q.page.index < w.pages.size := World.lt_of_occupied (h.safe.occupied h.sound)

end World.Receives

/-- A realization can fail at a render function that gives a function, called as `G` says. If it ends
well, still nothing on a page follows an observable of the set; if it fails, what it leaves is new and
tidy. -/
abbrev FailsBelow (D : CellId → Prop) (q : PageNode) (b : World) (G : String → Prop) :
    Prop → World → Realizing α → Prop :=
  FailsOnly (World.Hears D True) fun variant w' => G variant ∧ World.Left D q b w'

namespace FailsBelow

variable {y : Realizing α}

/-- What is pinned does not matter. -/
theorem held {held : List Entity} (h : FailsBelow D q b G S (w.pinned held) y) :
    FailsBelow D q b G S w (realizingWith held y) :=
  h.realizingWith (fun h => h.repin _) fun h => ⟨h.1, h.2.repin _⟩

/-- A part of a realization. -/
theorem part {e : PageNode} {v : World} {G' : String → Prop} {S' : Prop}
    (h : FailsBelow D e v G S w y) (hG : ∀ variant, G variant → G' variant) (hS : S → S')
    (hleft : ∀ {w'}, World.Left D e v w' → World.Left D q b w') : FailsBelow D q b G' S' w y :=
  h.mono (fun _ h => h) (fun _ _ h => ⟨hG _ h.1, hleft h.2⟩) hS

end FailsBelow

/-- Realizing the node fails only at a render function on its way that gives a function, and stops only
where an evaluation on its way does. -/
def Node.Tries (D : CellId → Prop) (d : Nat) (n : Node) : Prop :=
  ∀ {r : Surface} {q : PageNode} {b : World}, World.Receives D r q b →
    ¬ n.Comes (Node.Follows D) r d q b →
    FailsBelow D q b (n.Meets r d q b) (n.Stalls r d q b) b (n.realize (respond d) r q)

/-- So does realizing the nodes. -/
def TriesAll (D : CellId → Prop) (d : Nat) (ns : List Node) : Prop :=
  ∀ {r : Surface} {q : PageNode} {b w : World} {l : RecordsId} {g : Mounts},
    World.Receives D r q b → Growing D q b w l g → w.Hears D True →
    ¬ ComesAmong (Node.Follows D) r d q l ns w →
    FailsBelow D q b (fun variant => ComesAmong (Node.Unresolvable variant) r d q l ns w)
      (ComesAmong (Node.Halts r) r d q l ns w) w (realizeAll (respond d) r q l ns)

/-! ## Texts and groups -/

theorem tries_empty : Node.empty.Tries D d := by
  intro r q b hr _
  rw [Node.realize]
  exact .of_ok (ok_lift.2 rfl) hr.hears.withList

theorem tries_text (data : String) : (Node.text data none).Tries D d := by
  intro r q b hr _
  rw [Node.realize, hr.page]
  obtain ⟨n, w₁, hcreate⟩ : ∃ n w₁, (createNode q.page (.text data)).run b = .ok n w₁ :=
    ⟨_, _, run_createNode ..⟩
  have hc := createNode_spec hr.sound hr.lt hcreate
  have hq := hc.slot_of_safe hr.safe
  obtain ⟨page, happend⟩ := ((Built.refl (D := D) hr.sound).create hc).run_append hr.safe
    (by rw [hq]) (by rw [hq]; exact hr.container) hc.fresh (by rw [hc.slot_self]) hc.page
  obtain ⟨page₁, rfl⟩ := hc.eq
  exact .after (ok_lift.2 hcreate) <| .after (ok_pageStep.2 happend) <|
    .of_ok (ok_lift.2 rfl) ((hr.hears.withPage ..).withPage ..).withList

theorem triesAll_nil : TriesAll D d [] := by
  intro r q b w l g _ _ hh _
  rw [realizeAll]
  exact .pure hh

theorem triesAll_cons (hn : n.Tries D d) (hns : TriesAll D d ns) : TriesAll D d (n :: ns) := by
  intro r q b w l g hr hg hh haloof
  have hrw : World.Receives D r q (w.pinned (.slot q :: nodesHold ns)) := (hr.grown hg.grown hh).pinned _
  have hfirst : ∀ {P}, n.Comes P r d q (w.pinned (.slot q :: nodesHold ns)) →
      ComesAmong P r d q l (n :: ns) w := .first
  rw [realizeAll]
  have htidy : b.Tidy → (w.pinned (.slot q :: nodesHold ns)).Tidy := fun hb =>
    (hg.grown.tidy hr.safe hb).repin _
  refine ((hn hrw fun h => haloof (hfirst h)).part (fun _ => hfirst) hfirst fun hl =>
    (hg.grown.built.pinned _).left htidy hl (.inl rfl)).held.bind fun m w₁ h₁ hh₁ => ?_
  obtain ⟨v₁, hrun, rfl⟩ := ok_realizingWith.1 h₁
  obtain ⟨g₁, hg₁, -⟩ := n.realizes d hrw.toReady (show v₁.NoSites D from hh₁.noSites) hrun
  have hpush := hg.push (hr.grown hg.grown hh).safe (hg₁.of_pinned (hg.grown.built.sound))
  have hlater : ∀ {P}, ComesAmong P r d q l ns (v₁.unpinned.pushed l m) →
      ComesAmong P r d q l (n :: ns) w := .later hrun
  exact .after (ok_lift.2 (run_pushRecord ..)) <| (hns hr hpush (hh₁.pushed l m) fun h =>
    haloof (hlater h)).part (fun _ => hlater) hlater id

theorem tries_fragment (hns : TriesAll D d ns) : (Node.fragment ns none).Tries D d := by
  intro r q b hr haloof
  have hinside : ∀ {P}, ComesAmong P r d q ⟨b.records.size⟩ ns
      (b.withList.pinned [.records ⟨b.records.size⟩]) → (Node.fragment ns none).Comes P r d q b :=
    .inside .fragment
  have hall := (hns hr ((Growing.start hr.sound).pinned _) (hr.hears.withList.pinned _) fun h =>
    haloof (hinside h)).part (fun _ => hinside) hinside id
  rw [Node.realize]
  exact .after (ok_lift.2 (run_newRecords b)) <|
    hall.held.bind fun _ _ _ hh => .pure hh

/-! ## Render functions -/

theorem FailsOnly.throw {variant : String} (h : F variant w) :
    FailsOnly (World.Hears D True) F S w
      (throw (RealizationError.unresolvableRender variant) : Realizing α) := by
  have hrun : (MonadExcept.throw (RealizationError.unresolvableRender variant) : Realizing α).run.run w =
      .ok (.error (.unresolvableRender variant)) w := rfl
  refine ⟨fun h' => ?_, fun h' => ?_, fun h' => ?_⟩
  · cases hrun.symm.trans h'
  · cases hrun.symm.trans h'
    exact ⟨variant, rfl, h⟩
  · cases hrun.symm.trans h'

/-- Calling a render function on the way. -/
theorem failsOnly_render (r : Surface) (q : PageNode) (b : World) (f : Render) :
    FailsOnly (Quiet b) F ((Node.deferred f).Stalls r d q b) b
      (realizingWith f.holds (liftM (respond d (.render f)))) := by
  have hreads := (respond_reads d (.render f) trivial).start (b.pinned f.holds)
  have hstop : ∀ {e w'}, (respond d (.render f)).run (b.pinned f.holds) = .error e w' →
      (Node.deferred f).Stalls r d q b := fun h => .here (.render h)
  exact (FailsOnly.of_keeps (F := fun _ _ => False) hreads hstop id).realizingWith Quiet.unpinned
    False.elim

theorem tries_deferred_zero (f : Render) : (Node.deferred f).Tries D 0 := by
  intro r q b hr _
  rw [Node.realize]
  refine FailsOnly.bind (failsOnly_render r q b f) fun v w₁ hrun _ => ?_
  obtain ⟨w₂, hrun, -⟩ := ok_realizingWith.1 hrun
  exact absurd (ok_lift.1 hrun) not_ok_throw

theorem tries_deferred (hn : ∀ n : Node, n.Tries D d) (f : Render) :
    (Node.deferred f).Tries D (d + 1) := by
  intro r q b hr haloof
  rw [Node.realize]
  refine FailsOnly.bind (failsOnly_render r q b f) fun v w₁ h₁ hquiet => ?_
  obtain ⟨w₂, hrun, rfl⟩ := ok_realizingWith.1 h₁
  have hrender := ok_lift.1 hrun
  split
  · next hkind =>
    have hg : Grown D q b w₂.unpinned [] .nil := (Grown.refl hr.sound).quiet hquiet
    exact .throw ⟨.here (.render hrender hkind rfl), hg.left hr.safe⟩
  · next hkind =>
    obtain ⟨w₃, hchild⟩ := run_childNode v w₂.unpinned
    have hquiet := hquiet.trans ((reads_childNode v).ok hchild)
    have hg : Grown D q b w₃ [] .nil := (Grown.refl hr.sound).quiet hquiet
    have hr₃ := (hr.grown hg (hquiet.murmur.hears hr.hears)).pinned f.holds
    have hcome : ∀ {P}, (w₂.unpinned.nodeOf v).Comes P r d q (w₃.pinned f.holds) →
        (Node.deferred f).Comes P r (d + 1) q b := fun h => .expanded hrender hkind hchild h
    refine .after (ok_lift.2 hchild) ?_
    exact ((hn _ hr₃ fun h => haloof (hcome h)).part (fun _ h => hcome h) hcome fun hl =>
      (hg.built.pinned _).left (fun hb => (hg.tidy hr.safe hb).repin _) hl (.inl rfl)).held

/-! ## Regions -/

theorem run_label (r : Surface) (w : World) : ∃ label, r.label.run w = .ok label w := by
  unfold Surface.label
  split
  · exact ⟨_, rfl⟩
  · exact ⟨_, rfl⟩

/-- A region is opened, and nothing follows an observable that it did not follow. -/
theorem World.Receives.opens (hr : World.Receives D r q b) (held : List Entity)
    (label : Option String) :
    ∃ region start finish w, (openRegion q label).run (b.pinned held) = .ok (.ok region) w ∧
      World.Opened D q b w.unpinned region start finish ∧ w.unpinned.Hears D True := by
  have hp := hr.pinned held
  obtain ⟨region, w, hopen⟩ := run_openRegion hp.sound hp.safe hp.container label
  obtain ⟨start, finish, ho⟩ := ok_openRegion hr.toReady
    (ok_realizingWith.2 ⟨w, ok_pageStep.2 hopen, rfl⟩)
  exact ⟨region, start, finish, w, hopen, ho, hr.hears.built ho.built ho.cells ho.sites⟩

/-- The contents of a region go into place. -/
theorem World.Prepared.failsOnly_splice {region : RegionId} {start finish : PageNode}
    (hp : World.Prepared D q b w region start finish content) (hq : b.Safe q)
    (hcon : (b.slot q).content.type.isContainer) (hin : Grown D content w w₁ ms g)
    (hh : w₁.Hears D True) :
    FailsOnly (World.Hears D True) F S w₁ (pageStep (region.splice content)) := by
  obtain ⟨w₂, hsplice⟩ := hp.run_splice hq hcon hin
  refine .of_ok (ok_pageStep.2 hsplice) ?_
  obtain ⟨page, rfl⟩ := (hp.moves hq hin hsplice).1.eq
  have hh₂ : (w₁.reparented region q).Hears D True :=
    hh.transfer (w₁.evolves_reparented region q) (fun _ => rfl) rfl
  exact hh₂.withPage ..

theorem failsOnly_followAt (hh : w.Hears D True) (hc : ¬ D c) (l : RecordsId) (t : Target) :
    FailsOnly (World.Hears D True) F S w (liftM (followAt r c l t)) :=
  .of_ok (ok_lift.2 (run_followAt ..)) (hh.following hc r l t)

theorem tries_drivenText (data : String) (c : CellId) : (Node.text data (some c)).Tries D d := by
  intro r q b hr haloof
  have hc : ¬ D c := fun hc => haloof (.here ⟨c, by simp [Node.sources], hc⟩)
  rw [Node.realize]
  obtain ⟨label, hlabel⟩ := run_label r b
  obtain ⟨region, start, finish, w₁, hopen, ho, hh₁⟩ := hr.opens [.cell c] label
  refine .after (ok_lift.2 hlabel) <| .after (ok_realizingWith.2 ⟨w₁, ok_pageStep.2 hopen, rfl⟩) <|
    FailsBelow.held ?_
  refine .after (ok_lift.2 (run_newRecords _)) ?_
  rw [hr.page]
  obtain ⟨content, w₂, hcreate, hh₂⟩ : ∃ content w₂, (createNode q.page .fragment).run
      (w₁.unpinned.pinned [.region region, .cell c]).withList = .ok content w₂ ∧
      w₂.Hears D True :=
    ⟨_, _, run_createNode .., ((hh₁.pinned _).withList).withPage ..⟩
  refine .after (ok_lift.2 hcreate) ?_
  have hpins : w₂.pins = [.region region, .cell c] :: b.pins := by
    rw [pins_createNode hcreate]
    exact congrArg _ ho.pins
  obtain ⟨u, hu, hp, hru, hsize, -⟩ := ho.begun hr.toReady hcreate (ho.pins ▸ List.suffix_cons _ _)
    ([.slot content] :: [.region region, .cell c] :: b.pins)
    ((List.suffix_cons _ _).trans (List.suffix_cons _ _)) (by simp)
  have hw₂ : w₂.pinned [.slot content] = u.withList := by rw [← hu, World.pinned, hpins]
  have hhu : u.withList.Hears D True := hw₂ ▸ hh₂.pinned _
  have hl : (⟨(w₁.unpinned.pinned [.region region, .cell c]).records.size⟩ : RecordsId) =
      ⟨u.records.size⟩ := congrArg _ hsize.symm
  rw [hl]
  -- the text comes into the fragment, and the fragment into the region
  refine FailsOnly.bind (FailsBelow.held ?_) fun _ w₃ _ hh₃ =>
    (failsOnly_followAt hh₃ hc _ _).bind fun _ _ _ hh => .pure hh
  rw [hw₂]
  have hru' := hru.built (Built.refl (D := D) (q := content) hru.sound).newRecords
  have hslot : u.withList.slot content = { content := .fragment } := hp.content_slot
  obtain ⟨n, x₁, hn⟩ : ∃ n x₁, (createNode content.page (.text data)).run u.withList = .ok n x₁ :=
    ⟨_, _, run_createNode ..⟩
  have hcr := createNode_spec hru'.sound (World.lt_of_occupied (hru'.safe.occupied hru'.sound)) hn
  have hslot₁ := (hcr.slot_of_safe hru'.safe).trans hslot
  obtain ⟨page, happend⟩ := ((Built.refl (D := D) hru'.sound).create hcr).run_append hru'.safe
    (by rw [hslot₁, hslot]) (by rw [hslot₁]; rfl) hcr.fresh (by rw [hcr.slot_self]) hcr.page
  have hg := (Growing.start (D := D) (q := content) hru.sound).push hru'.safe
    (grown_text hru'.sound hru'.safe hn happend)
  obtain ⟨page₁, rfl⟩ := hcr.eq
  rw [← hp.content_page]
  refine .after (ok_lift.2 hn) <| .after (ok_pageStep.2 happend) <| .after (ok_lift.2 rfl) <|
    .after (ok_lift.2 (run_pushRecord ..)) <| hp.failsOnly_splice hr.safe hr.container hg.grown ?_
  exact (((hhu.withPage ..).withPage ..).withList).pushed ..

theorem tries_drivenFragment (hns : TriesAll D d ns) (c : CellId) :
    (Node.fragment ns (some c)).Tries D d := by
  intro r q b hr haloof
  have hc : ¬ D c := fun hc => haloof (.here ⟨c, by simp [Node.sources], hc⟩)
  rw [Node.realize]
  obtain ⟨label, hlabel⟩ := run_label r b
  obtain ⟨region, start, finish, w₁, hopen, ho, hh₁⟩ := hr.opens (.cell c :: nodesHold ns) label
  refine .after (ok_lift.2 hlabel) <| .after (ok_realizingWith.2 ⟨w₁, ok_pageStep.2 hopen, rfl⟩) <|
    FailsBelow.held ?_
  refine .after (ok_lift.2 (run_newRecords _)) ?_
  obtain ⟨content, v₂, hcreate, hh₂⟩ : ∃ content v₂, (createNode r.page .fragment).run
      ((w₁.unpinned.pinned [.region region, .cell c]).withList.pinned (nodesHold ns)) =
        .ok content v₂ ∧ v₂.Hears D True :=
    ⟨_, _, run_createNode .., (((hh₁.pinned _).withList).pinned _).withPage ..⟩
  have hinside : ∀ {P}, ComesAmong P r d content ⟨w₁.unpinned.records.size⟩ ns
      (v₂.unpinned.pinned [.slot content, .records ⟨w₁.unpinned.records.size⟩]) →
      (Node.fragment ns (some c)).Comes P r d q b := fun h =>
    .inside (.region hlabel hopen hcreate) h
  refine .after (ok_realizingWith.2 ⟨v₂, ok_lift.2 hcreate, rfl⟩) ?_
  rw [hr.page] at hcreate
  have hpins : v₂.pins = nodesHold ns :: [.region region, .cell c] :: b.pins := by
    rw [pins_createNode hcreate, ← ho.pins]
    rfl
  obtain ⟨u, hu, hp, hru, hsize, -⟩ := ho.begun hr.toReady hcreate
    (ho.pins ▸ (List.suffix_cons _ _).trans (List.suffix_cons _ _))
    ([.slot content, .records ⟨w₁.unpinned.records.size⟩] :: [.region region, .cell c] :: b.pins)
    ((List.suffix_cons _ _).trans (List.suffix_cons _ _)) (by simp)
  have hw₂ : v₂.unpinned.pinned [.slot content, .records ⟨w₁.unpinned.records.size⟩] =
      u.withList := by
    rw [← hu, World.pinned, World.unpinned, hpins]
    rfl
  have hl : (⟨(w₁.unpinned.pinned [.region region, .cell c]).records.size⟩ : RecordsId) =
      ⟨w₁.unpinned.records.size⟩ := rfl
  rw [hl]
  rw [hw₂, ← hsize] at hinside
  have hhu : u.withList.Hears D True := hw₂ ▸ (hh₂.repin _).pinned _
  have hrec : World.Receives D r content u :=
    ⟨hru, by rw [hp.content_slot]; rfl, hhu.noSites, hhu.noMarks trivial⟩
  -- the children come into the fragment, and the fragment into the region
  refine FailsOnly.bind (FailsBelow.held ?_) fun _ w₃ _ hh₃ =>
    (failsOnly_followAt hh₃ hc _ _).bind fun _ _ _ hh => .pure hh
  rw [hw₂, ← hsize]
  refine ((hns hrec (Growing.start hru.sound) hhu fun h => haloof (hinside h)).part
    (fun _ => hinside) hinside fun hl => hp.built.left (hp.tidy hr.safe) hl
      (.inr hp.content_fresh)).bind fun _ x hall hhx => ?_
  obtain ⟨g, hg, -⟩ := realizesAll d ns hru (Growing.start hru.sound) hhx.noSites hall
  exact hp.failsOnly_splice hr.safe hr.container hg.grown hhx

/-! ## Elements -/

theorem tries_element (hns : TriesAll D d ns) (tag : String)
    (attributes : List (String × AttributeValue)) (listeners : List Listener)
    (driving : Option CellId) :
    (Node.element tag attributes listeners ns driving).Tries D d := by
  intro r q b hr haloof
  have hsources : ∀ c ∈ attributes.flatMap (·.2.sources) ++ driving.toList, ¬ D c :=
    fun c hc hD => haloof (.here ⟨c, hc, hD⟩)
  rw [List.forall_mem_append] at hsources
  rw [Node.realize]
  obtain ⟨e, v₁, hcreate, hh₁⟩ : ∃ e v₁, (createNode r.page (.element { tag })).run (b.pinned
      (attributes.flatMap (·.2.holds) ++ nodesHold ns ++ drivingHolds driving)) = .ok e v₁ ∧
      v₁.Hears D True := ⟨_, _, run_createNode .., (hr.hears.pinned _).withPage ..⟩
  have hcreates : Node.Creates r b (.element tag attributes listeners ns driving) e _ :=
    .element hcreate
  refine .after (ok_realizingWith.2 ⟨v₁, ok_lift.2 hcreate, rfl⟩) (FailsBelow.held ?_)
  -- its attributes and listeners
  have hf₁ := ok_createElement (.slot e :: drivingHolds driving) hr.toReady hcreate
  have hd : World.Dressing D e (v₁.unpinned.pinned (.slot e :: drivingHolds driving)) := by
    obtain ⟨el, hslot, -⟩ := hf₁.slot
    exact ⟨(hh₁.repin _).pinned _, by rw [hslot]; rfl⟩
  have hbinds := failsOnly_bindAttributes (d := d) (F := fun _ _ => False) (hd.pinned
    (listeners.map (Entity.handler ·.handler) ++ nodesHold ns)) hsources.1 {}
  refine FailsOnly.bind (Q := World.Dressing D e) ((hbinds.stops.mono (fun _ h => h)
    (fun _ _ => id) ?_).realizingWith World.Dressing.unpinned False.elim) fun bound w₂ hbound hd₂ => ?_
  · rintro ⟨stop, w', hstop⟩
    exact .here (.attributes hcreates hstop)
  obtain ⟨v₂, hbind, rfl⟩ := ok_realizingWith.1 hbound
  obtain ⟨hf₂, -, hev₂⟩ := hf₁.bound hr.toReady hbind (show v₂.NoSites D from hd₂.hears.noSites)
  obtain ⟨el, hslot, -⟩ := hf₂.slot
  obtain ⟨w₃, hlisten, hh₃⟩ : ∃ w₃, (addListeners e listeners).run.run v₂.unpinned =
      .ok (.ok ⟨⟩) w₃ ∧ w₃.Hears D True :=
    ⟨_, run_addListeners hf₂.occupied (by rw [hslot]) listeners, hd₂.hears.withPage ..⟩
  obtain ⟨hf₃, hpins⟩ := hf₂.heard hlisten
  have hpins : w₃.pins = (.slot e :: drivingHolds driving) :: b.pins := by
    rw [hpins, hev₂.pins]
    exact congrArg _ (congrArg List.tail (pins_createNode hcreate))
  have hr₃ : World.Ready D r e w₃ := hf₃.ready hr.toReady (by rw [hpins]; simp)
  refine .after hlisten (.after (ok_lift.2 (run_newRecords _)) ?_)
  -- its children
  have hrec : World.Receives D r e w₃ := by
    obtain ⟨el, hslot, -⟩ := hf₃.slot
    exact .of_hears hr₃ (by rw [hslot]; rfl) hh₃
  have hinside : ∀ {P}, ComesAmong P r d e ⟨w₃.records.size⟩ ns (w₃.withList.pinned
      (bound.holds ++ listeners.map (Entity.handler ·.handler) ++ [.records ⟨w₃.records.size⟩])) →
      (Node.element tag attributes listeners ns driving).Comes P r d q b := fun h =>
    .inside (.element hcreates hbind hlisten) h
  refine FailsOnly.bind (((hns hrec ((Growing.start hr₃.sound).pinned _) (hh₃.withList.pinned _)
    fun h => haloof (hinside h)).part (fun _ => hinside) hinside fun hl =>
      (hf₃.built.elsewhere hf₃.fresh q).left hf₃.tidy hl (.inr hf₃.fresh)).held)
    fun _ w₅ h₅ hh₅ => ?_
  obtain ⟨v₅, hall, rfl⟩ := ok_realizingWith.1 h₅
  obtain ⟨g, hg, -⟩ := realizesAll d ns hr₃ ((Growing.start hr₃.sound).pinned _)
    (show v₅.NoSites D from hh₅.noSites) hall
  have hev₅ := (lives_realizeAll (respond_lives d) r e _ ns).ok hall
    (hrec.hears.withList.pinned _).wired.reading
  have hraised := hf₃.raised hr₃.safe (hg.unpinned (List.suffix_refl _) hev₅.pins)
  -- its place
  have hqe : q ≠ e := fun he => hf₃.fresh (he ▸ hr.safe)
  have hput : ∀ {F S w me}, World.Raised D e b w me g → w.Hears D True →
      FailsOnly (World.Hears D True) F S w (pageStep (q.append e)) := by
    intro F S w me h hh
    have halike := h.built.slot hr.safe hqe
    obtain ⟨page, happend⟩ := (h.built.elsewhere h.fresh q).run_append hr.safe halike.parent
      (by rw [halike.type]; exact hr.container) h.fresh h.root hf₃.page
    exact .of_ok (ok_pageStep.2 happend) (hh.withPage ..)
  cases driving with
  | none => exact (hput hraised hh₅).bind fun _ _ _ hh => .pure hh
  | some c =>
    have hc : ¬ D c := hsources.2 c (by simp)
    exact .after (ok_lift.2 (run_followAt ..)) <| (hput (hraised.follow hr.wired.keyed hr₃.page c)
      (hh₅.following hc ..)).bind fun _ _ _ hh => .pure hh

/-! ## At every depth -/

mutual

theorem tries_node (hdeferred : ∀ f, (Node.deferred f).Tries D d) : ∀ n : Node, n.Tries D d
  | .empty => tries_empty
  | .text data none => tries_text data
  | .text data (some c) => tries_drivenText data c
  | .element tag attributes listeners children driving =>
    tries_element (tries_nodes hdeferred children) tag attributes listeners driving
  | .fragment children none => tries_fragment (tries_nodes hdeferred children)
  | .fragment children (some c) => tries_drivenFragment (tries_nodes hdeferred children) c
  | .deferred f => hdeferred f

theorem tries_nodes (hdeferred : ∀ f, (Node.deferred f).Tries D d) : ∀ ns : List Node, TriesAll D d ns
  | [] => triesAll_nil
  | n :: rest => triesAll_cons (tries_node hdeferred n) (tries_nodes hdeferred rest)

end

/-- Realizing a node fails only at a render function on its way that gives a function, and stops only
where an evaluation on its way does. -/
theorem Node.tries (d : Nat) (n : Node) : n.Tries D d := by
  induction d generalizing n with
  | zero => exact tries_node tries_deferred_zero n
  | succ d ih => exact tries_node (tries_deferred ih) n

end LivePage
