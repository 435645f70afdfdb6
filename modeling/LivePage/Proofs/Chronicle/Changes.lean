import LivePage.Proofs.Chronicle.Basic
import LivePage.Proofs.Run.Living
import LivePage.Proofs.Run.Murmur

/-!
# Operations that spare observables

What is done to pages, records, regions, places, boundaries and names, and new observables: none of
it concerns what observables hold or who is subscribed to them. The single changes that do concern
it are at the end.
-/

namespace LivePage

open LivePage.Script

variable {α : Type} {w w' : World} {c : CellId} {P : Move → Prop}

/-! ## Pages -/

theorem sparing_onPage (p : PageId) (f : Page → Page.Outcome) : Sparing (onPage p f) :=
  keeps_update (fun _ => spares_of_same rfl rfl rfl rfl) fun _ => keeps_pure _

theorem sparing_editPage (p : PageId) (f : Page → Except PageError Page) :
    Sparing (editPage p f) :=
  sparing_onPage ..

theorem sparing_newPage : Sparing newPage :=
  keeps_update (fun _ => spares_of_same rfl rfl rfl rfl) fun _ => keeps_pure _

theorem sparing_createNode (p : PageId) (content : Content) : Sparing (createNode p content) :=
  keeps_update (fun _ => spares_of_same rfl rfl rfl rfl) fun _ => keeps_pure _

theorem sparing_countNodes (p : PageId) : Sparing (countNodes p) :=
  keeps_update (fun _ => spares_of_same rfl rfl rfl rfl) fun _ => keeps_pure _

theorem sparing_insertBefore (n child : PageNode) (reference : Option PageNode) :
    Sparing (n.insertBefore child reference) := by
  unfold PageNode.insertBefore
  split
  · exact sparing_onPage ..
  · exact keeps_pure _

theorem sparing_removeChild (n child : PageNode) : Sparing (n.removeChild child) := by
  unfold PageNode.removeChild
  split
  · exact sparing_onPage ..
  · exact keeps_pure _

theorem sparing_replaceChildren (n content : PageNode) :
    Sparing (n.replaceChildren content) := by
  refine (sparing_onPage ..).bind fun r => ?_
  split
  · exact sparing_insertBefore ..
  · exact keeps_pure _

theorem sparing_remove (n : PageNode) : Sparing n.remove :=
  (sparing_onPage ..).bind fun _ => keeps_pure _

theorem sparing_unlisten (n : PageNode) (type : String) (h : HandlerId) :
    Sparing (n.unlisten type h) :=
  (sparing_onPage ..).bind fun _ => keeps_pure _

theorem Dresses.sparing {n : PageNode} {E : Stop → Prop} {x : Run α} (h : Keeps (Dresses n) E x) :
    Sparing x :=
  h.mono (fun h => spares_of_same h.cells h.sites h.nextKey h.evolves.names) fun _ => trivial

theorem sparing_putAttribute (n : PageNode) (name : String) (v : Value) :
    Sparing (n.putAttribute name v).run :=
  Dresses.sparing (dresses_putAttribute (E := fun _ => True) (fun _ => trivial) n name v)

theorem sparing_putProperty (n : PageNode) (property : String) (v : Value) :
    Sparing (n.putProperty property v).run :=
  Dresses.sparing (dresses_putProperty (E := fun _ => True) n property v)

theorem sparing_addListeners (element : PageNode) (listeners : List Listener) :
    Sparing (addListeners element listeners).run := by
  induction listeners with
  | nil => exact keeps_epure _
  | cons l rest ih => exact (sparing_editPage ..).pageStep.ebind fun _ => ih

/-! ## Records, regions, places and boundaries -/

theorem sparing_newRecords : Sparing newRecords :=
  keeps_update (fun _ => spares_of_same rfl rfl rfl rfl) fun _ => keeps_pure _

theorem sparing_emptyTeardown : Sparing emptyTeardown :=
  sparing_newRecords.bind fun _ => keeps_pure _

theorem sparing_pushRecord (r : RecordsId) (m : Teardown) : Sparing (pushRecord r m) :=
  keeps_modify fun _ => spares_of_same rfl rfl rfl rfl

theorem sparing_takeRecords (r : RecordsId) : Sparing (takeRecords r) :=
  keeps_update (fun _ => spares_of_same rfl rfl rfl rfl) fun _ => keeps_pure _

theorem sparing_openRegion (parent : PageNode) (label : Option String) :
    Sparing (openRegion parent label) := by
  refine (sparing_createNode ..).bind fun start => Sparing.holding ?_
  refine (sparing_createNode ..).bind fun finish => (sparing_insertBefore ..).bind fun r => ?_
  split
  · exact keeps_pure _
  · refine (sparing_insertBefore ..).bind fun r => ?_
    split
    · exact keeps_pure _
    · exact keeps_update (fun _ => spares_of_same rfl rfl rfl rfl) fun _ => keeps_pure _

theorem sparing_splice (r : RegionId) (content : PageNode) : Sparing (r.splice content) := by
  refine keeps_get_bind fun w => ?_
  dsimp only
  split
  · exact (keeps_pure _).start w
  · refine KeepsAt.bind (keepsAt_set ?_) fun _ => (sparing_onPage ..).bind fun e => ?_
    · exact spares_of_same rfl rfl rfl rfl
    · split
      · exact keeps_pure _
      · exact sparing_insertBefore ..

theorem sparing_put (t : Target) (content : PageNode) : Sparing (t.put content) := by
  cases t with
  | region r => exact sparing_splice ..
  | contents element => exact sparing_replaceChildren ..

theorem sparing_label (r : Surface) : Sparing r.label := by
  unfold Surface.label
  split
  · exact keeps_get.bind fun _ => keeps_pure _
  · exact keeps_pure _

/-- Places keep their sources. -/
theorem spares_sites {f : Array Site → Array Site}
    (h : ∀ (s : Nat) (site : Site), w.sites[s]? = some site →
      ∃ site', (f w.sites)[s]? = some site' ∧ site'.source = site.source) :
    Spares w { w with sites := f w.sites } :=
  { Spares.refl w with
    registry := fun _ => rfl
    held := fun _ => rfl
    source := h _ _ }

theorem spares_mark (w : World) (s : SiteId) {f : Site → Site}
    (hf : ∀ x, (f x).source = x.source) :
    Spares w { w with sites := w.sites.modify s.index f } := by
  refine spares_sites (f := (·.modify s.index f)) fun i site h =>
    ⟨_, getElem?_modify_of_some f h, ?_⟩
  split
  · exact hf site
  · rfl

theorem sparing_modifyBoundary (b : BoundaryId) (f : Boundary → Boundary) :
    Sparing (modifyBoundary b f) :=
  keeps_modify fun _ => spares_of_same rfl rfl rfl rfl

/-! ## Observables, names and programs -/

theorem spares_grown {x : Cell} (hx : x.registry = []) : Spares w (w.grown x) where
  registry c := by
    rw [World.cell_grown]
    split
    · next h =>
      rw [hx, World.cell_of_size_le (Nat.le_of_eq h.symm)]
      rfl
    · rfl
  held hc := by rw [World.cell_grown_of_lt hc]
  size := by simp [World.grown]
  nextKey := rfl
  source h := ⟨_, h, rfl⟩
  subscribers _ h := h
  watches _ h := h

theorem sparing_newCell (flavour : Flavour) (type : ValueType) (held : Held) :
    Sparing (newCell flavour type held) :=
  keeps_update (fun _ => spares_grown (x := { flavour, type, held }) rfl) fun _ => keeps_pure _

theorem sparing_modifyCell {f : Cell → Cell} (hr : ∀ x, (f x).registry = x.registry)
    (hh : ∀ x, (f x).held = x.held) (c : CellId) : Sparing (modifyCell c f) := by
  refine keeps_modify fun w => ?_
  exact { Spares.refl w with
    registry := fun d => by
      show ((w.withCell c f).cell d).registry = _
      rw [World.cell_withCell]
      split
      · exact hr _
      · rfl
    held := fun {d} _ => by
      show ((w.withCell c f).cell d).held = _
      rw [World.cell_withCell]
      split
      · exact hh _
      · rfl
    size := by simp }

theorem sparing_modifySettlement (f : Settlement → Settlement) (c : CellId) :
    Sparing (modifyCell c (·.modifySettlement f)) := by
  refine sparing_modifyCell (fun x => ?_) (fun x => ?_) c
  all_goals
    unfold Cell.modifySettlement
    split <;> rfl

theorem sparing_modifyNames {f : Names → Names}
    (hs : ∀ n, ∀ e ∈ (f n).subscribers, e ∈ n.subscribers)
    (hw : ∀ n, ∀ e ∈ (f n).watches, e ∈ n.watches) : Sparing (modifyNames f) :=
  keeps_modify fun w => { Spares.refl w with
    registry := fun _ => rfl
    held := fun _ => rfl
    subscribers := hs _
    watches := hw _ }

/-- A change of names that leaves those of subscribers and watches. -/
theorem sparing_naming {f : Names → Names} (hs : ∀ n, (f n).subscribers = n.subscribers)
    (hw : ∀ n, (f n).watches = n.watches) : Sparing (modifyNames f) :=
  sparing_modifyNames (fun n e he => by rwa [hs] at he) fun n e he => by rwa [hw] at he

theorem sparing_nameCell (name : String) (c : CellId) : Sparing (nameCell name c) :=
  sparing_naming (fun _ => rfl) fun _ => rfl

theorem sparing_modifyTasks (f : Entries Task → Entries Task) : Sparing (modifyTasks f) :=
  sparing_naming (f := fun n => { n with tasks := f n.tasks }) (fun _ => rfl) fun _ => rfl

theorem sparing_newCallback (acts : List Step) (times : Nat) : Sparing (newCallback acts times) :=
  keeps_update (fun _ => spares_of_same rfl rfl rfl rfl) fun _ => keeps_pure _

/-! ## Single changes of subscriptions -/

theorem goes_hold (hP : ∀ held, P (.assigned c held)) (held : Held) : Goes P (hold c held) :=
  keeps_modify fun _ => .single (hP held) rfl

theorem goes_unsubscribeAll (hP : P (.cleared c)) : Goes P (unsubscribeAll c) :=
  keeps_modify fun _ => .single hP rfl

theorem Names.Enrols.refl (n : Names) (key : Nat) (r : Reaction) : n.Enrols n key r :=
  ⟨fun _ => .inl, fun _ => .inl⟩

/-- A subscription under a new key that no program knows. -/
theorem changes_subscribed {r : Reaction} (hf : r.onPage → w.Follows c r) :
    (Move.subscribed c w.nextKey r).Changes w (w.subscribed c r) :=
  ⟨rfl, hf, w.names, rfl, .refl ..⟩

theorem chronicled_subscribe {r : Reaction} (hr : ¬ r.onPage) (c : CellId) :
    Chronicled (subscribe c r) := by
  refine keeps_of_ok fun w => ⟨_, _, run_subscribe c r w, ?_⟩
  exact .single (by exact hr) (changes_subscribed fun h => absurd h hr)

theorem chronicled_subscribeToAll {r : Reaction} (hr : ¬ r.onPage) (cells : List CellId) :
    Chronicled (subscribeToAll r cells) := by
  induction cells with
  | nil => exact keeps_pure _
  | cons c rest ih => exact (chronicled_subscribe hr c).bind fun _ => ih

end LivePage
