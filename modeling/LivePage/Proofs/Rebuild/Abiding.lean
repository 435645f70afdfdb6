import LivePage.Proofs.Rebuild.Changes

/-!
# What runs while places are being rebuilt

An emission, a teardown, the rebuilding of another place and a realization below a node that is held:
each of them changes no more than may happen meanwhile, if the answers to the requests that it makes
do (`Respond.Abides`). A subscription that rebuilds a place is told of something only while the place
is pinned, so the element is there whose contents the place is; the place that is to be rebuilt next
is `World.Due`.
-/

namespace LivePage

open LivePage.Script

variable {α β : Type} {w w' w₁ b : World} {B C : List SiteId} {s t : SiteId} {x : Site} {c : CellId}
  {n parent : PageNode} {l : RecordsId} {m : Teardown} {r : Surface} {v : Value} {p : PageId}
  {call : Respond}

/-! ## Where nodes can be realized -/

/-- Nodes can be realized on the surface below this node: it is there and held. -/
structure World.Accepts (w : World) (B C : List SiteId) (r : Surface) (parent : PageNode) :
    Prop where
  amid : w.Amid B C
  page : r.page.index < w.pages.size
  grasps : w.Grasps parent
  occupied : w.Occupied parent

namespace World.Accepts

theorem after (h : w.Accepts B C r parent) (hm : Meanwhile B C w w') :
    w'.Accepts B C r parent :=
  ⟨hm.amid, by rw [hm.pages]; exact h.page, hm.grasps h.grasps,
    (hm.kept h.grasps h.occupied).1⟩

theorem pin (h : w.Accepts B C r parent) (held : List Entity) :
    (w.pinned held).Accepts B C r parent :=
  ⟨h.amid.pinned held, h.page, h.grasps.pin held, h.occupied⟩

/-- Below another node that is there, while that is pinned. -/
theorem below (h : w.Accepts B C r parent) (ho : w.Occupied n) (held : List Entity) :
    (w.pinned (.slot n :: held)).Accepts B C r n :=
  ⟨h.amid.pinned _, h.page, .pinned (List.mem_append_left _ List.mem_cons_self), ho⟩

end World.Accepts

/-! ## Places that are to be rebuilt -/

/-- The place has been marked as busy, it is there and held, and its records have not been taken. -/
structure World.Due (B C : List SiteId) (s : SiteId) (x : Site) (w : World) : Prop where
  amid : w.Amid (s :: B) C
  outer : s ∉ B
  full : s ∉ C
  place : w.sites[s.index]? = some x
  seat : w.Seats s
  pinned : .site s ∈ w.pins.flatten

namespace World.Due

/-- The place is still to be rebuilt after something that has left it busy. -/
theorem after {x' : Site} (hw : w.Due B C t x) (h : Passes (t :: B) w w')
    (hamid : w'.Amid (t :: B) C) (hx : w'.sites[t.index]? = some x') : w'.Due B C t x' :=
  ⟨hamid, hw.outer, hw.full, hx, h.seats hw.seat hw.pinned, by
    rw [h.pins]
    exact hw.pinned⟩

/-- The records of the place have been taken. -/
theorem taken (hw : w.Due B C t x) (held : List Entity) :
    ((w.pinned held).taken x.records).Amid (t :: B) (t :: C) where
  toKempt := (hw.amid.toKempt.repin _).taken x.records
  busy := hw.amid.busy
  idle := hw.amid.idle
  there := hw.amid.there
  empty {s} hs := by
    rcases List.mem_cons.1 hs with rfl | hs
    · exact ⟨x, hw.place, (hw.amid.busy hw.place).2 List.mem_cons_self, by
        rw [recordsIn_taken, if_pos rfl]⟩
    · obtain ⟨y, hy, hb, he⟩ := hw.amid.empty hs
      refine ⟨y, hy, hb, ?_⟩
      rw [recordsIn_taken]
      split
      · rfl
      · exact he

/-- The place does not wait any more for what it was told. -/
theorem dequeued (hw : w.Due B C t x) :
    Passes B w (w.dequeued t) ∧
      (w.dequeued t).Due B C t { x with queued := none } := by
  have hf : ∀ x : Site, ({ x with queued := none } : Site).still = x.still := fun _ => rfl
  exact ⟨w.passes_marked hf t fun h => absurd h hw.outer,
    hw.amid.marked hf (fun _ _ => Iff.rfl)
      (fun y hy => show y.busy = true ↔ _ from hw.amid.busy hy) (fun _ _ _ => rfl)
      (fun h => hw.amid.there h) fun _ => List.mem_cons_self,
    hw.outer, hw.full, site_marked hw.place, hw.seat.marked hf t, hw.pinned⟩

/-- The place is not busy any more. -/
theorem freed (hw : w.Due B C t x) (hx : x.queued = none) :
    Meanwhile B C w (w.freed t) := by
  have hf : ∀ x : Site, ({ x with busy := false } : Site).still = x.still := fun _ => rfl
  refine ⟨w.passes_marked hf t fun h => absurd h hw.outer, hw.amid.marked hf (fun s hs => ?_)
    (fun _ _ => ?_) (fun y hy _ => ?_) (fun h => absurd h hw.outer) fun h => absurd h hw.full⟩
  · simp [hs]
  · simp [hw.outer]
  · obtain rfl : x = y := Option.some.inj (hw.place.symm.trans hy)
    exact hx

end World.Due

/-- The place is marked as busy. -/
theorem World.Amid.due (hw : w.Amid B C) (hB : t ∉ B) (hx : w.sites[t.index]? = some x)
    (ht : w.Seats t) (hp : .site t ∈ w.pins.flatten) :
    Passes B w (w.marked t fun x => { x with busy := true }) ∧
      (w.marked t fun x => { x with busy := true }).Due B C t { x with busy := true } := by
  have hf : ∀ x : Site, ({ x with busy := true } : Site).still = x.still := fun _ => rfl
  have hC : t ∉ C := fun h => by
    obtain ⟨y, hy, hb, -⟩ := hw.empty h
    exact hB ((hw.busy hy).1 hb)
  refine ⟨w.passes_marked hf t fun h => absurd h hB, hw.marked hf (fun s hs => ?_) (fun _ _ => ?_)
    (fun y hy h => ?_) (fun _ => ?_) (fun _ => List.mem_cons_self), hB, hC, site_marked hx,
    ht.marked hf t, hp⟩
  · simp [hs]
  · simp
  · exact absurd List.mem_cons_self h
  · exact (Array.getElem?_eq_some_iff.1 hx).1

/-! ## Answers to requests -/

/-- Answers to requests read where they evaluate, and change no more than may happen meanwhile. A
subscription to a place and its rebuilding need the place to be there and pinned; a rebuilding begins
when the place has been marked as busy and ends with it at rest. A realization that succeeds gives a
new record. -/
structure Respond.Abides (call : Respond) : Prop where
  reads : call.Reads
  perform {B C : List SiteId} {acts : List Step} : (∀ a ∈ acts, a.Emits) →
    LivePage.Abides B C (call (.perform acts))
  kill {B C : List SiteId} (m : Teardown) : LivePage.Abides B C (call (.kill m))
  react {B C : List SiteId} {w w' : World} {r : Reaction} {held : Held} : w.Amid B C →
    (∀ t, r = .rebuild t → w.Seats t ∧ .site t ∈ w.pins.flatten) →
    (call (.react r held)).run w = .ok ⟨⟩ w' → Meanwhile B C w w'
  rebuild {B C : List SiteId} {w w' : World} {t : SiteId} {x : Site} {v : Value} :
    w.Due B C t x → (call (.rebuild t v)).run w = .ok ⟨⟩ w' → Meanwhile B C w w'
  realize {B C : List SiteId} {w : World} {r : Surface} {n : Node} {parent : PageNode} :
    w.Accepts B C r parent → Completes B C w w (ExceptT.mk (call (.realize r n parent)))
      fun m w' => w.Drafts m.children w'

section

variable (hc : call.Abides)
include hc

/-! ## Emissions -/

theorem abides_notify {held : Held} {snapshot : List (Nat × Reaction)} (hw : w.Amid B C)
    (hs : ∀ e ∈ snapshot, ∀ t, e.2 = .rebuild t → w.Seats t)
    (h : (notify call c held snapshot).run w = .ok ⟨⟩ w') : Meanwhile B C w w' := by
  induction snapshot generalizing w with
  | nil =>
    obtain ⟨-, rfl⟩ := ok_pure.1 h
    exact .refl hw
  | cons e rest ih =>
    obtain ⟨key, r⟩ := e
    rw [notify, ok_get_bind] at h
    dsimp only at h
    split at h
    · obtain ⟨_, w₁, h₁, h₂⟩ := ok_bind.1 h
      obtain ⟨w₂, hrun, rfl⟩ := ok_holding.1 h₁
      -- what comes later is pinned too, so its places are still there when its turn comes
      have hpin : ∀ e ∈ (key, r) :: rest, ∀ t, e.2 = .rebuild t →
          .site t ∈ (w.pinned (((key, r) :: rest).flatMap fun s => w.reactionHolds s.2)).pins.flatten :=
        fun e he t ht => List.mem_append_left _ (List.mem_flatMap.2 ⟨e, he, by
          rw [ht]
          exact List.mem_cons_self⟩)
      have hm := hc.react (hw.pinned _) (fun t ht => ⟨hs _ List.mem_cons_self t ht,
        hpin _ List.mem_cons_self t ht⟩) hrun
      refine hm.unpinned.trans (ih hm.unpinned.amid (fun e he t ht => ?_) h₂)
      exact hm.seats (hs e (List.mem_cons_of_mem _ he) t ht)
        (hpin e (List.mem_cons_of_mem _ he) t ht)
    · exact ih hw (fun e he => hs e (List.mem_cons_of_mem _ he)) h

theorem abides_emit (c : CellId) : Abides B C (emit call c) := by
  refine abides_of_ok fun {w _ _} hw h => ?_
  rw [emit, ok_get_bind] at h
  obtain ⟨w₁, h₁, rfl⟩ := ok_holding.1 h
  refine Meanwhile.unpinned (abides_notify hc (hw.pinned _) (fun e he t ht => ?_) h₁)
  obtain ⟨key, r⟩ := e
  obtain rfl : r = .rebuild t := ht
  exact (hw.seats he).2

theorem abides_holdAndEmit (c : CellId) (held : Held) : Abides B C (holdAndEmit call c held) :=
  (abides_hold c held).bind fun _ => abides_emit hc c

omit hc in
theorem abides_withRef {act : Run Unit} (h : Abides B C act) (c : CellId) :
    Abides B C (withRef c act) := by
  refine keeps_get.bind fun w => ?_
  split
  · exact h
  · exact keeps_throw trivial

theorem abides_attach (c : CellId) (element : PageNode) : Abides B C (attach call c element) :=
  abides_withRef (abides_holdAndEmit hc _ _) c

theorem abides_killRef (c : CellId) : Abides B C (killRef call c) :=
  abides_withRef ((abides_holdAndEmit hc _ _).bind fun _ => abides_unsubscribeAll c) c

theorem abides_regenerate (target : CellId) (g : Generator) (sources : List Held) :
    Abides B C (regenerate call target g sources) :=
  (reads_generator hc.reads g sources).abides.bind fun _ => abides_holdAndEmit hc _ _

omit hc in
theorem abides_whileAlive {act : Run Unit} (h : Abides B C act) (cells : List CellId) :
    Abides B C (whileAlive cells act) := by
  refine keeps_get.bind fun w => ?_
  split
  · exact h.holding
  · exact keeps_pure _

theorem abides_updateState (c : CellId) (candidate : Held) :
    Abides B C (updateState call c candidate) := by
  refine keeps_get.bind fun w => ?_
  dsimp only
  refine (reads_allAccept hc.reads _ _ _).abides.bind fun b => ?_
  split
  · exact (abides_holdAndEmit hc _ _).bind fun _ => keeps_pure _
  · exact keeps_pure _

theorem abides_syncFields (record : Value) (cells : List CellId) :
    Abides B C (syncFields call record cells) := by
  induction cells with
  | nil => exact keeps_pure _
  | cons c rest ih =>
    have hsync : Abides B C (syncField call record c) := by
      refine keeps_get.bind fun w => ?_
      split
      · split
        · exact (abides_holdAndEmit hc _ _).holding
        · exact keeps_pure _
      · exact keeps_pure _
    exact hsync.bind fun _ => ih

theorem abides_updateStore (c : CellId) (held : Held) :
    Abides B C (updateStore call c held) :=
  (abides_hold c held).bind fun _ => keeps_get.bind fun _ =>
    (abides_syncFields hc _ _).holding.bind fun _ => abides_emit hc c

theorem abides_writeBack (store : CellId) (part : Part) (v : Value) :
    Abides B C (writeBack call store part v) := by
  refine keeps_get.bind fun w => ?_
  split
  · exact (abides_holdAndEmit hc _ _).holding
  · exact keeps_pure _

theorem abides_updateField (c store : CellId) (part : Part) (held : Held) :
    Abides B C (updateField call c store part held) :=
  (abides_hold c held).bind fun _ => keeps_get.bind fun _ =>
    (abides_writeBack hc _ _ _).bind fun _ => abides_emit hc c

theorem abides_arrive (b : BoundaryId) : Abides B C (b.arrive call) := by
  refine keeps_get.bind fun w => ?_
  dsimp only
  split
  · exact keeps_pure _
  · split
    · exact (abides_modifyBoundary _ _).bind fun _ =>
        (abides_updateState hc _ _).bind fun _ => keeps_pure _
    · exact abides_modifyBoundary _ _

/-! ## Programs that are called back -/

theorem abides_callback (program : CallbackId) : Abides B C (program.run call) := by
  refine abides_of_ok fun {w _ _} hw h => ?_
  rw [CallbackId.run, ok_get_bind] at h
  split at h
  · next acts remaining hget =>
    rw [ok_set_bind] at h
    have hm := hw.mild (quiet_counted hget).mild
    exact hm.trans ((hc.perform (hw.acts acts (acts_mem hget))).ok h hm.amid)
  · obtain ⟨-, rfl⟩ := ok_pure.1 h
    exact .refl hw

theorem abides_runOnEither (c : CellId) : Abides B C (runOnEither call c) := by
  refine keeps_get.bind fun w => ?_
  split
  · exact (reads_log _).abides.bind fun _ => abides_callback hc _
  · exact keeps_pure _

theorem abides_runOnFailure (c : CellId) (message : String) :
    Abides B C (runOnFailure call c message) := by
  refine keeps_get.bind fun w => ?_
  split
  · exact (reads_log _).abides.bind fun _ => abides_callback hc _
  · exact keeps_pure _

theorem abides_resolve (c : CellId) (v : Value) : Abides B C (resolve call c v) := by
  refine keeps_get.bind fun w => ?_
  split
  · exact keeps_pure _
  · exact (abides_modifySettlement _ _).bind fun _ => (abides_holdAndEmit hc _ _).bind fun _ =>
      abides_runOnEither hc c

theorem abides_reject (c : CellId) (message : String) :
    Abides B C (reject call c message) := by
  refine keeps_get.bind fun w => ?_
  split
  · exact keeps_pure _
  · exact (abides_modifySettlement _ _).bind fun _ => (abides_runOnFailure hc _ _).bind fun _ =>
      abides_runOnEither hc c

/-! ## Realizing -/

omit hc in
theorem abides_bindStyle (element : PageNode) (bound : Bindings) (style : Style) :
    Abides B C (bindStyle element bound style).run := by
  induction style generalizing bound with
  | nil => exact keeps_epure _
  | cons entry rest ih =>
    obtain ⟨key, value⟩ := entry
    cases value with
    | text text =>
      exact (Dresses.abides (E := fun _ => True)
        (dresses_setStyle element _ text)).pageStep.ebind fun _ => ih _
    | observable c =>
      exact keeps_get.lift.ebind fun _ =>
        (Dresses.abides (E := fun _ => True) (dresses_putProperty ..)).ebind fun _ =>
        (abides_subscribe c (r := .styleProperty ..) nofun).lift.ebind fun _ => ih _

omit hc in
theorem abides_putAttribute (element : PageNode) (name : String) (v : Value) :
    Abides B C (element.putAttribute name v).run :=
  Dresses.abides (dresses_putAttribute (E := fun _ => True) (fun _ => trivial) element name v)

theorem abides_bindAttribute (element : PageNode) (bound : Bindings) (name : String)
    (value : AttributeValue) : Abides B C (bindAttribute call element bound name value).run := by
  have hset : ∀ text, Abides B C (element.setAttribute name text) := fun text =>
    Dresses.abides (E := fun _ => True) (dresses_setAttribute element name text)
  cases value with
  | text text => exact (hset text).pageStep.ebind fun _ => keeps_epure _
  | list items => exact (hset _).pageStep.ebind fun _ => keeps_epure _
  | ref c => exact (abides_attach hc _ _).lift.ebind fun _ => keeps_epure _
  | style style => exact abides_bindStyle ..
  | observable c =>
    exact keeps_get.lift.ebind fun _ => (abides_putAttribute ..).ebind fun _ =>
      (abides_subscribe c (r := .attribute ..) nofun).lift.ebind fun _ => keeps_epure _

theorem abides_bindAttributes (element : PageNode) (bound : Bindings)
    (attributes : List (String × AttributeValue)) :
    Abides B C (bindAttributes call element bound attributes).run := by
  induction attributes generalizing bound with
  | nil => exact keeps_epure _
  | cons a rest ih =>
    obtain ⟨name, value⟩ := a
    refine Keeps.ebind ?_ fun _ => ih _
    rw [ExceptT.run_mk]
    exact (abides_bindAttribute hc ..).holding

omit hc in
theorem abides_addListeners (element : PageNode) (listeners : List Listener) :
    Abides B C (addListeners element listeners).run := by
  induction listeners with
  | nil => exact keeps_epure _
  | cons l rest ih =>
    have hlisten : Abides B C (element.listen l.event l.handler) :=
      abides_editPage fun _ _ h => Page.shaped_updateElement h
    exact hlisten.pageStep.ebind fun _ => ih

omit hc in
theorem abides_label (r : Surface) : Abides B C r.label := by
  unfold Surface.label
  split
  · exact keeps_get.bind fun _ => keeps_pure _
  · exact keeps_pure _

omit hc in
theorem completes_createNode {content : Content} (hw : w.Amid B C)
    (hp : p.index < w.pages.size) :
    Completes B C w w (liftM (createNode p content)) fun n w' => w'.Occupied n :=
  .lift fun h => (hw.createNode hp h).imp_right And.left

omit hc in
theorem completes_createPinned {content : Content} (hw : w.Accepts B C r parent)
    (held : List Entity) :
    Completes B C w w (realizingWith held (liftM (createNode r.page content))) fun n w' =>
      w'.Occupied n :=
  (completes_createNode (hw.pin held).amid hw.page).holding fun _ _ => id

omit hc in
theorem completes_append {child : PageNode} (hw : w.Amid B C) (ho : w.Occupied n) :
    Completes B C w w (pageStep (n.append child)) fun _ _ => True :=
  .pageStep fun h => hw.insertBefore ho h

omit hc in
/-- A list of records is made. -/
theorem completes_newRecords (hw : Meanwhile B C b w) :
    Completes B C b w (liftM newRecords) fun l w' => b.Drafts l w' ∧ w'.Vacant l := by
  refine .lift fun h => ?_
  rw [run_newRecords] at h
  cases h
  obtain ⟨hm, hd⟩ := hw.amid.withList
  exact ⟨hw.trans hm, hd.since hw.toPasses, fun _ _ hx => hd.ne hw.amid.toKempt hx⟩

omit hc in
theorem completes_emptyTeardown (hw : w.Amid B C) :
    Completes B C w w (liftM emptyTeardown) fun m w' => w.Drafts m.children w' := by
  refine .lift fun h => ?_
  obtain ⟨l, w₁, h₁, h₂⟩ := ok_bind.1 h
  obtain ⟨rfl, rfl⟩ := ok_pure.1 h₂
  rw [run_newRecords] at h₁
  cases h₁
  exact hw.withList

omit hc in
theorem completes_openRegion {label : Option String} (hw : w.Accepts B C r parent) :
    Completes B C w w (pageStep (openRegion parent label)) fun _ _ => True :=
  .pageStep fun h => hw.amid.openRegion hw.grasps hw.occupied h

omit hc in
theorem completes_splice {region : RegionId} {content : PageNode} (hw : w.Amid B C) :
    Completes B C w w (pageStep (region.splice content)) fun _ _ => True :=
  .pageStep fun h => hw.splice h

omit hc in
/-- A place gets a list that has been made since and not been given to another one. -/
theorem completes_followAt {target : Target} (hw : Meanwhile B C b w)
    (hp : r.page.index < w.pages.size) (hl : b.Drafts l w) (hv : w.Vacant l)
    (ho : ∀ n, target = .contents n → w.Occupied n) :
    Completes B C b w (liftM (followAt r c l target)) fun _ w' => b.Drafts l w' :=
  .lift fun h => hw.followAt hl hv hp ho h

mutual

theorem completes_node (r : Surface) : ∀ (n : Node) {w : World} {parent : PageNode},
    w.Accepts B C r parent →
    Completes B C w w (n.realize call r parent) fun m w' => w.Drafts m.children w'
  | .empty, w, parent, hw => by
    rw [Node.realize]
    exact completes_emptyTeardown hw.amid
  | .text _ none, w, parent, hw => by
    rw [Node.realize]
    refine (completes_createNode hw.amid hw.page).bind fun n w₁ h₁ _ => ?_
    have hw₁ := hw.after h₁
    refine ((completes_append hw₁.amid hw₁.occupied).since h₁).bind fun _ w₂ h₂ _ => ?_
    exact (completes_emptyTeardown h₂.amid).drafted h₂
  | .text _ (some c), w, parent, hw => by
    rw [Node.realize]
    refine (Completes.of_abides (abides_label r).lift hw.amid).bind fun label w₁ h₁ _ => ?_
    refine ((completes_openRegion ((hw.after h₁).pin _)).pinning.since h₁).bind
      fun region w₂ h₂ _ => ?_
    have hw₂ := (hw.after h₂).pin [.region region, .cell c]
    refine (Completes.drafting ?_).drafted h₂
    refine (completes_newRecords (.refl hw₂.amid)).bind fun l w₃ h₃ ⟨hl, hv⟩ => ?_
    have hw₃ := hw₂.after h₃
    refine ((completes_createNode hw₃.amid hw₃.page).since h₃).bind fun content w₄ h₄ ⟨g₄, ho⟩ => ?_
    have hw₄ := hw₂.after h₄
    refine (Completes.since h₄ (Completes.pinning ?_)).bind fun _ w₅ h₅ ⟨g₅, _⟩ => ?_
    · have hin := hw₄.below ho []
      refine (completes_createNode hin.amid hin.page).bind fun n w₆ h₆ _ => ?_
      have hin₆ := hin.after h₆
      refine ((completes_append hin₆.amid hin₆.occupied).since h₆).bind fun _ w₇ h₇ _ => ?_
      have hs := (hl.evades hw₂.amid).after h₄.fixed
      refine ((completes_emptyTeardown h₇.amid).drafted h₇).pushing hs fun w₈ h₈ => ?_
      exact ((completes_splice h₈.amid).since h₈).mono fun _ _ _ => trivial
    · have g := g₄.trans g₅
      have hw₅ := hw₂.after h₅
      refine (completes_followAt h₅ hw₅.page (hl.after g.toPasses) (g.vacant hl.lt hv)
        fun _ h => by cases h).bind fun _ w₆ h₆ hd => ?_
      exact .pure h₆ hd
  | .element _ attributes listeners children driving, w, parent, hw => by
    rw [Node.realize]
    refine (completes_createPinned hw _).bind fun element w₁ h₁ ho => ?_
    have hw₁ := hw.after h₁
    refine (Completes.drafting ?_).drafted h₁
    have hin := hw₁.below ho (drivingHolds driving)
    refine (Completes.of_abides (abides_realizingWith (abides_bindAttributes hc element {}
      attributes)) hin.amid).bind fun bound w₂ h₂ _ => ?_
    refine ((Completes.of_abides (abides_addListeners element listeners) h₂.amid).since h₂).bind
      fun _ w₃ h₃ _ => ?_
    refine (completes_newRecords h₃).bind fun l w₄ h₄ ⟨hl, hv⟩ => ?_
    have hs := (hl.evades hin.amid).after h₄.fixed
    refine (Completes.since h₄ (completes_all r children ((hin.after h₄).pin _) hs).pinning).bind
      fun _ w₅ h₅ ⟨g₅, _⟩ => ?_
    have hin₅ := hin.after h₅
    have hl₅ := hl.after g₅.toPasses
    have hparent := (hw₁.pin (.slot element :: drivingHolds driving)).after h₅
    cases driving with
    | none =>
      refine ((completes_append hparent.amid hparent.occupied).since h₅).bind
        fun _ w₆ h₆ ⟨g₆, _⟩ => ?_
      exact .pure h₆ (hl₅.after g₆.toPasses)
    | some c =>
      refine (completes_followAt h₅ hin₅.page hl₅ (g₅.vacant hl.lt hv) fun n hn => ?_).bind
        fun _ w₆ h₆ hl₆ => ?_
      · cases hn
        exact hin₅.occupied
      have hparent₆ := (hw₁.pin (.slot element :: drivingHolds (some c))).after h₆
      refine ((completes_append hparent₆.amid hparent₆.occupied).since h₆).bind
        fun _ w₇ h₇ ⟨g₇, _⟩ => ?_
      exact .pure h₇ (hl₆.after g₇.toPasses)
  | .fragment children none, w, parent, hw => by
    rw [Node.realize]
    refine (completes_newRecords (.refl hw.amid)).bind fun l w₁ h₁ ⟨hl, _⟩ => ?_
    have hs := (hl.evades hw.amid).after h₁.fixed
    refine (Completes.since h₁ (completes_all r children ((hw.after h₁).pin _) hs).pinning).bind
      fun _ w₂ h₂ ⟨g₂, _⟩ => ?_
    exact .pure h₂ (hl.after g₂.toPasses)
  | .fragment children (some c), w, parent, hw => by
    rw [Node.realize]
    refine (Completes.of_abides (abides_label r).lift hw.amid).bind fun label w₁ h₁ _ => ?_
    refine ((completes_openRegion ((hw.after h₁).pin _)).pinning.since h₁).bind
      fun region w₂ h₂ _ => ?_
    have hw₂ := (hw.after h₂).pin [.region region, .cell c]
    refine (Completes.drafting ?_).drafted h₂
    refine (completes_newRecords (.refl hw₂.amid)).bind fun l w₃ h₃ ⟨hl, hv⟩ => ?_
    have hw₃ := hw₂.after h₃
    refine ((completes_createPinned hw₃ _).since h₃).bind fun content w₄ h₄ ⟨g₄, ho⟩ => ?_
    have hw₄ := hw₂.after h₄
    refine (Completes.since h₄ (Completes.pinning ?_)).bind fun _ w₅ h₅ ⟨g₅, _⟩ => ?_
    · have hs := (hl.evades hw₂.amid).after h₄.fixed
      refine (completes_all r children (hw₄.below ho _) hs).bind fun _ w₆ h₆ _ => ?_
      exact ((completes_splice h₆.amid).since h₆).mono fun _ _ _ => trivial
    · have g := g₄.trans g₅
      have hw₅ := hw₂.after h₅
      refine (completes_followAt h₅ hw₅.page (hl.after g.toPasses) (g.vacant hl.lt hv)
        fun _ h => by cases h).bind fun _ w₆ h₆ hd => ?_
      exact .pure h₆ hd
  | .deferred render, w, parent, hw => by
    rw [Node.realize]
    refine (Completes.of_abides (abides_realizingWith
      (hc.reads (.render render) trivial).abides.lift) hw.amid).bind fun v w₁ h₁ _ => ?_
    split
    · exact ⟨fun h => absurd h not_ok_ethrow⟩
    · refine ((Completes.of_abides (reads_childNode v).abides.lift h₁.amid).since h₁).bind
        fun n w₂ h₂ _ => ?_
      exact (Completes.drafting (hc.realize ((hw.after h₂).pin _))).drafted h₂

theorem completes_all (r : Surface) : ∀ (ns : List Node) {w : World} {parent : PageNode}
    {l : RecordsId}, w.Accepts B C r parent → w.Evades C l →
    Completes B C w w (realizeAll call r parent l ns) fun _ _ => True
  | [], w, parent, l, hw, hl => by
    rw [realizeAll]
    exact .pure (.refl hw.amid) trivial
  | n :: rest, w, parent, l, hw, hl => by
    rw [realizeAll]
    refine (completes_node r n (hw.pin _)).drafting.pushing hl fun w₁ h₁ => ?_
    exact (Completes.since h₁ (completes_all r rest (hw.after h₁) (hl.after h₁.fixed))).mono
      fun _ _ _ => trivial

end

/-! ## Teardown -/

theorem abides_killRefs (refs : List CellId) : Abides B C (killRefs call refs) := by
  induction refs with
  | nil => exact keeps_pure _
  | cons c rest ih => exact (abides_killRef hc c).holding.bind fun _ => ih

theorem abides_killAll (ms : List Teardown) : Abides B C (killAll call ms) := by
  induction ms with
  | nil => exact keeps_pure _
  | cons m rest ih => exact (hc.kill m).holding.bind fun _ => ih

theorem abides_kill (m : Teardown) : Abides B C (m.kill call) := by
  refine (keeps_forM fun _ _ => abides_unsubscribeAll _).bind fun _ =>
    (abides_killRefs hc _).bind fun _ => (keeps_forM fun _ _ => abides_unsubscribeAll _).bind
    fun _ => ?_
  have hrest := (abides_takeRecords (B := B) (C := C) m.children).bind fun ms =>
    abides_killAll hc ms
  split
  · exact (keeps_forM fun _ _ => abides_unlisten ..).bind fun _ => hrest
  · exact hrest

/-! ## Rebuilding -/

omit hc in
theorem World.Amid.put {content : PageNode} {target : Target} (hw : w.Amid B C)
    (ho : ∀ n, target = .contents n → w.Occupied n)
    (h : (target.put content).run w = .ok (.ok ()) w') : Meanwhile B C w w' := by
  cases target with
  | region r => exact hw.splice h
  | contents n => exact hw.replaceChildren (ho n rfl) h

omit hc in
/-- The contents of a place are replaced, between taking its records out and adding the new one: the
old records are killed, a node for the value is realized in a fragment of its own, which gives the
record `m`, and the fragment is put into the place. -/
structure Refills (call : Respond) (x : Site) (v : Value) (killed : List Teardown)
    (fragment : PageNode) (m : Teardown) (w realized w' : World) : Prop where
  realizes : ∃ w₁ w₂ w₃, (killAll call killed).run w = .ok ⟨⟩ w₁ ∧
    (createNode x.surface.page .fragment).run w₁ = .ok fragment w₂ ∧
    (childNode v).run w₂ = .ok (w₂.nodeOf v) w₃ ∧
    (Node.realize call x.surface fragment (w₂.nodeOf v)).run.run (w₃.pinned [.slot fragment]) =
      .ok (.ok m) realized
  puts : ∃ w₄, (x.target.put fragment).run (realized.pinned m.holds) = .ok (.ok ()) w₄ ∧
    w' = w₄.unpinned.unpinned

omit hc in
theorem exists_refills (h : (replaceContents call x v).run w = .ok ⟨⟩ w') :
    ∃ fragment m realized w₁, Refills call x v (w.recordsIn x.records) fragment m
      (w.taken x.records) realized w₁ ∧ w' = w₁.pushed x.records m := by
  obtain ⟨w₁, fragment, w₂, node, w₃, m, realized, w₄, h₁, h₂, h₃, h₄, h₅, rfl⟩ :=
    ok_replaceContents h
  obtain rfl := ok_childNode h₃
  exact ⟨fragment, m, realized, _, ⟨⟨w₁, w₂, w₃, h₁, h₂, h₃, h₄⟩, w₄, h₅, rfl⟩, rfl⟩

namespace Refills

variable {ms : List Teardown} {fragment : PageNode} {realized : World}
  (h : Refills call x v ms fragment m w realized w')
include h

/-- Up to where the new contents are put into the place. -/
theorem drafts (hw : w.Amid B C) (hp : x.surface.page.index < w.pages.size) :
    ∃ w₁, Meanwhile B C w w₁ ∧ Meanwhile B C (w₁.pinned [.slot fragment]) realized ∧
      w.Drafts m.children realized ∧ fragment.page = x.surface.page ∧ realized.Occupied fragment ∧
      (realized.slot fragment).content.type = .fragment := by
  obtain ⟨w₁, w₂, w₃, h₁, h₂, h₃, h₄⟩ := h.realizes
  have hm₁ := (abides_killAll hc ms).ok h₁ hw
  obtain ⟨hm₂, ho, hpage, hslot⟩ := hm₁.amid.createNode (by rwa [hm₁.pages]) h₂
  have hq := (reads_childNode v).ok h₃
  have hm := hm₁.trans (hm₂.trans (hm₂.amid.mild hq.mild))
  have hin : (w₃.pinned [.slot fragment]).Accepts B C x.surface fragment :=
    ⟨hm.amid.pinned _, by rwa [← hm.pages] at hp,
      .pinned (List.mem_append_left _ List.mem_cons_self), by
        show (w₃.page fragment.page).Occupied fragment.slot
        rwa [hq.page]⟩
  obtain ⟨hm₄, hd⟩ := (completes_node hc _ _ hin).of_ok h₄
  obtain ⟨hocc, htype⟩ := hm₄.kept hin.grasps hin.occupied
  refine ⟨w₃, hm, hm₄, ⟨Nat.le_trans hm.fixed.size hd.new, hd.lt, hd.lacks⟩, hpage, hocc,
    htype.trans ?_⟩
  show ((w₃.page fragment.page).slot fragment.slot).content.type = .fragment
  rw [hq.page]
  exact congrArg (fun i => i.content.type) hslot

theorem meanwhile (hw : w.Amid B C) (hp : x.surface.page.index < w.pages.size)
    (ht : ∀ n, x.target = .contents n → w.Grasps n ∧ w.Occupied n) :
    Meanwhile B C w w' ∧ w.Drafts m.children w' := by
  obtain ⟨w₁, hm₁, hm₂, hd, -⟩ := h.drafts hc hw hp
  obtain ⟨w₄, h₅, rfl⟩ := h.puts
  have hput := (hm₂.amid.pinned m.holds).put (fun n hn => by
    obtain ⟨hg, ho⟩ := ht n hn
    exact (hm₂.kept ((hm₁.grasps hg).pin _) (hm₁.kept hg ho).1).1) h₅
  exact ⟨hm₁.trans (hm₂.trans hput.unpinned).unpinned, hd.new, Nat.lt_of_lt_of_le hd.lt
    hput.fixed.size, hput.lacks hd.lt hd.lacks⟩

end Refills

/-- Replacing the contents of the place, up to the new record. -/
theorem World.Due.refilled {fragment : PageNode} {realized : World} {ms : List Teardown}
    (hw : w.Due B C t x)
    (h : Refills call x v ms fragment m ((w.pinned v.holds).taken x.records) realized w₁) :
    Meanwhile (t :: B) (t :: C) ((w.pinned v.holds).taken x.records) w₁ ∧
      ((w.pinned v.holds).taken x.records).Drafts m.children w₁ := by
  obtain ⟨y, hy, hp, ho⟩ := hw.seat
  obtain rfl : x = y := Option.some.inj (hw.place.symm.trans hy)
  exact h.meanwhile hc (hw.taken _) hp fun n hn =>
    ⟨.site (List.mem_append_right _ hw.pinned) hw.place hn, ho n hn⟩

/-- Replacing the contents of the place. -/
theorem World.Due.replaced {fragment : PageNode} {realized : World} {ms : List Teardown}
    (hw : w.Due B C t x)
    (h : Refills call x v ms fragment m ((w.pinned v.holds).taken x.records) realized w₁) :
    Meanwhile (t :: B) C w (w₁.pushed x.records m).unpinned := by
  obtain ⟨hm, hd⟩ := hw.refilled hc h
  have hpass : Passes (t :: B) (w.pinned v.holds) w₁ :=
    ((w.pinned v.holds).passes_taken x.records).trans hm.toPasses
  have hd : (w.pinned v.holds).Drafts m.children w₁ :=
    hd.since ((w.pinned v.holds).passes_taken (B := B) x.records)
  have hkempt := hm.amid.toKempt.pushed (l := x.records) hd.lt hd.lacks
  refine ⟨(hpass.pushed hd).unpinned, hkempt.repin _, hm.amid.busy, hm.amid.idle, hm.amid.there,
    fun {s} hs => ?_⟩
  obtain ⟨y, hy, hb, he⟩ := hm.amid.empty (List.mem_cons_of_mem t hs)
  refine ⟨y, hy, hb, ?_⟩
  show (w₁.pushed x.records m).recordsIn y.records = []
  rw [recordsIn_pushed, if_neg, he]
  -- the list belongs to another place
  rintro ⟨hrecords, -⟩
  obtain ⟨x', hx', hstill⟩ := hm.fixed.sites hw.place
  have hindex := hm.amid.apart hy hx' (hrecords.trans (Site.records_of_still hstill).symm)
  exact hw.full (by cases s; cases t; cases hindex; exact hs)

omit hc in
/-- A round of rebuilding, and then another one for what the place has been told meanwhile, or none. -/
theorem ok_rebuild (hx : w.sites[t.index]? = some x) (h : (t.rebuild call v).run w = .ok ⟨⟩ w') :
    ∃ fragment m realized w₁, Refills call x v (w.recordsIn x.records) fragment m
      ((w.pinned v.holds).taken x.records) realized w₁ ∧
      ∀ y, (w₁.pushed x.records m).unpinned.sites[t.index]? = some y →
        (∃ next, y.queued = some next ∧ (call (.rebuild t next)).run
          ((w₁.pushed x.records m).unpinned.dequeued t) = .ok ⟨⟩ w') ∨
        y.queued = none ∧ w' = (w₁.pushed x.records m).unpinned.freed t := by
  rw [SiteId.rebuild, ok_get_bind, World.getD_site hx] at h
  obtain ⟨_, w₁, h₁, h₂⟩ := ok_bind.1 h
  obtain ⟨w₂, hrun, rfl⟩ := ok_holding.1 h₁
  obtain ⟨fragment, m, realized, w₃, hr, rfl⟩ := exists_refills hrun
  refine ⟨fragment, m, realized, w₃, hr, fun y hy => ?_⟩
  rw [ok_get_bind, World.getD_site hy] at h₂
  split at h₂
  · next next hnext =>
    rw [ok_set_bind] at h₂
    exact .inl ⟨next, hnext, h₂⟩
  · next hnone => exact .inr ⟨hnone, ok_set.1 h₂⟩

theorem abides_rebuild (hw : w.Due B C t x) (h : (t.rebuild call v).run w = .ok ⟨⟩ w') :
    Meanwhile B C w w' := by
  obtain ⟨fragment, m, realized, w₁, hr, hthen⟩ := ok_rebuild hw.place h
  have hm := hw.replaced hc hr
  obtain ⟨y, hy, -⟩ := hm.fixed.sites hw.place
  have hdue := hw.after hm.toPasses hm.amid hy
  have hpass : Passes B w _ := hm.toPasses.mono fun _ => List.mem_cons_of_mem t
  rcases hthen y hy with ⟨next, -, hrun⟩ | ⟨hnone, rfl⟩
  · obtain ⟨hpass', hdue'⟩ := hdue.dequeued
    have hrest := hc.rebuild hdue' hrun
    exact ⟨hpass.trans (hpass'.trans hrest.toPasses), hrest.amid⟩
  · have hfree := hdue.freed hnone
    exact ⟨hpass.trans hfree.toPasses, hfree.amid⟩

theorem abides_onEmission (hw : w.Amid B C) (ht : w.Seats t) (hp : .site t ∈ w.pins.flatten)
    (h : (t.onEmission call v).run w = .ok ⟨⟩ w') : Meanwhile B C w w' := by
  obtain ⟨x, hx, -⟩ := id ht
  by_cases hB : t ∈ B
  · have hb := (hw.busy hx).2 hB
    have hrun := h
    rw [run_onEmission_of_busy hx hb] at h
    cases h
    have hf : ∀ x : Site, ({ x with queued := some v } : Site).still = x.still := fun _ => rfl
    exact ⟨w.passes_marked hf t fun _ => ⟨[v], .told .start hx hb hrun⟩,
      hw.marked hf (fun _ _ => Iff.rfl) (fun y hy => show y.busy = true ↔ _ from hw.busy hy)
        (fun _ _ h => absurd hB h) (fun h => hw.there h) fun _ => hB⟩
  · rw [run_onEmission_of_idle hx (hw.not_busy hx hB)] at h
    obtain ⟨hpass, hdue⟩ := hw.due hB hx ht hp
    have hm := hc.rebuild hdue h
    exact ⟨hpass.trans hm.toPasses, hm.amid⟩

/-! ## Subscriptions -/

omit hc in
theorem abides_duringEmission {act : Realizing α} (h : Abides B C act.run) :
    Abides B C (duringEmission act) := by
  refine h.bind fun r => ?_
  split
  · exact keeps_pure _
  · exact (reads_log _).abides.bind fun _ => keeps_throw trivial

/-- Subscriptions that rebuild no place. -/
theorem abides_reaction {r : Reaction} (hr : ∀ t, r ≠ .rebuild t) (held : Held) :
    Abides B C (r.run call held) := by
  cases r with
  | rebuild t => exact absurd rfl (hr t)
  | subscriber name program | watch name program =>
    exact keeps_get.bind fun _ => (reads_log _).abides.bind fun _ => abides_callback hc program
  | derive target g => exact abides_whileAlive (abides_regenerate hc _ _ _) _
  | combineFirst target second g | combineSecond target first g =>
    exact abides_whileAlive (keeps_get.bind fun _ => abides_regenerate hc _ _ _) _
  | combineAll target sources g =>
    exact abides_whileAlive (keeps_get.bind fun _ => abides_regenerate hc _ _ _) _
  | recompute target g => exact abides_whileAlive (abides_regenerate hc _ _ _) _
  | «attribute» e name source =>
    exact keeps_get.bind fun _ => abides_duringEmission (abides_putAttribute ..)
  | styleProperty e property source =>
    exact keeps_get.bind fun _ => abides_duringEmission
      (Dresses.abides (E := fun _ => True) (dresses_putProperty ..))
  | awaited b =>
    show Abides B C (b.onAwaited call held)
    unfold BoundaryId.onAwaited
    split
    · exact abides_arrive hc b
    · exact keeps_pure _

theorem abides_react {r : Reaction} {held : Held} (hw : w.Amid B C)
    (hr : ∀ t, r = .rebuild t → w.Seats t ∧ .site t ∈ w.pins.flatten)
    (h : (r.run call held).run w = .ok ⟨⟩ w') : Meanwhile B C w w' := by
  by_cases hrebuild : ∃ t, r = .rebuild t
  · obtain ⟨t, rfl⟩ := hrebuild
    obtain ⟨ht, hp⟩ := hr t rfl
    rw [Reaction.run, ok_get_bind] at h
    exact abides_onEmission hc hw ht hp h
  · exact (abides_reaction hc (fun t he => hrebuild ⟨t, he⟩) held).ok h hw

end

end LivePage
