import LivePage.Proofs.Mount.Uptake

/-!
# Realizations that fail

However a realization ends, the world has taken up exactly what the node asks for until then
(`takes_realize`, `takes_renderInto`). In particular a realization that fails at a render function
lets go of nothing: the subscriptions that it has made stay, and the references that it has attached
stay attached (`left_of_realize`, `left_of_renderInto`).
-/

namespace LivePage

variable {α β : Type} {w w' w₁ : World} {D : CellId → Prop} {c : CellId} {d : Nat}

/-! ## Realizations that take something up -/

/-- How a realization has ended, and what was taken up: `P` if it ended well, `S` if it stopped at a
render function. -/
def Ends (P S : Uptake → Prop) : Except RealizationError α → Uptake → Prop
  | .ok _, t => P t
  | .error (.unresolvableRender _), t => S t
  | .error .noDocument, _ | .error (.page _), _ => True

/-- However the realization ends, the world has taken up what `P` and `S` say, as long as no place
on a page follows what is in `D`. -/
structure Takes (D : CellId → Prop) (P S : Uptake → Prop) (x : Realizing α) : Prop where
  lives : Lives x.run
  taken {w w' : World} {r : Except RealizationError α} : x.run.run w = .ok r w' → w.Wired →
    w.Tracks D → w'.NoSites D → ∃ t, Ends P S r t ∧ t.Taken D w w'

/-- The realization takes nothing up, and does not stop at a render function. -/
abbrev Idle (D : CellId → Prop) (x : Realizing α) : Prop := Takes D (· = {}) (fun _ => False) x

namespace Takes

variable {P P' S S' Q T : Uptake → Prop} {x : Realizing α} {f : α → Realizing β}

theorem mono (h : Takes D P S x) (hP : ∀ t, P t → P' t) (hS : ∀ t, S t → S' t) :
    Takes D P' S' x where
  lives := h.lives
  taken {w w' r} hx hw ht hn := by
    obtain ⟨t, he, hu⟩ := h.taken hx hw ht hn
    refine ⟨t, ?_, hu⟩
    match r, he with
    | .ok _, he => exact hP t he
    | .error (.unresolvableRender _), he => exact hS t he
    | .error .noDocument, _ | .error (.page _), _ => trivial

/-- One after the other. -/
theorem bind (hx : Takes D P S x) (hf : ∀ a, Takes D Q T (f a))
    (hP : ∀ t t', P t → Q t' → P' (t ++ t')) (hS : ∀ t, S t → S' t)
    (hT : ∀ t t', P t → T t' → S' (t ++ t')) : Takes D P' S' (x >>= f) where
  lives := hx.lives.ebind fun a => (hf a).lives
  taken {w w' r} h hw ht hn := by
    obtain ⟨e, h₁, rfl⟩ | ⟨a, w₁, h₁, h₂⟩ := ended_ebind h
    · obtain ⟨t, he, hu⟩ := hx.taken h₁ hw ht hn
      refine ⟨t, ?_, hu⟩
      match e, he with
      | .unresolvableRender _, he => exact hS t he
      | .noDocument, _ | .page _, _ => trivial
    · have hev := hx.lives.ok h₁ hw.reading
      have hev' := (hf a).lives.ok h₂ (hev.reading hw.reading)
      obtain ⟨t, he, hu⟩ := hx.taken h₁ hw ht (hn.of_evolves hev')
      obtain ⟨t', he', hu'⟩ := (hf a).taken h₂ (hw.evolves hev) (ht.evolves hev) hn
      refine ⟨t ++ t', ?_, hu.trans hu'⟩
      match r, he' with
      | .ok _, he' => exact hP t t' he he'
      | .error (.unresolvableRender _), he' => exact hT t t' he he'
      | .error .noDocument, _ | .error (.page _), _ => trivial

/-- Nothing is taken up before. -/
theorem after (hx : Idle D x) (hf : ∀ a, Takes D P S (f a)) : Takes D P S (x >>= f) :=
  hx.bind hf (fun _ _ h h' => by rwa [h, Uptake.nil_append]) (fun _ h => h.elim)
    fun _ _ h h' => by rwa [h, Uptake.nil_append]

/-- Nothing is taken up afterwards. -/
theorem before (hx : Takes D P S x) (hf : ∀ a, Idle D (f a)) : Takes D P S (x >>= f) :=
  hx.bind hf (fun _ _ h h' => by rwa [h', Uptake.append_nil]) (fun _ h => h) fun _ _ _ h => h.elim

theorem holding {y : Run (Except RealizationError α)} {held : List Entity}
    (h : Takes D P S (ExceptT.mk y)) : Takes D P S (ExceptT.mk (LivePage.holding held y)) where
  lives := lives_holding h.lives
  taken {w w' r} hx hw ht hn := by
    obtain ⟨w₁, hy, rfl⟩ := ok_holding.1 hx
    obtain ⟨t, he, hu⟩ := h.taken hy (hw.pinned held) (ht.pinned held) hn
    exact ⟨t, he, hu.unpinned⟩

theorem realizingWith {held : List Entity} (h : Takes D P S x) :
    Takes D P S (realizingWith held x) := h.holding

theorem get {g : World → Realizing α} (h : ∀ w, Takes D P S (g w)) :
    Takes D P S ((liftM (MonadState.get : Run World) : Realizing World) >>= g) where
  lives := keeps_get.lift.ebind fun w => (h w).lives
  taken {w w' r} hx hw ht hn := by
    obtain ⟨e, hget, -⟩ | ⟨v, w₁, hget, hg⟩ := ended_ebind hx
    · obtain ⟨_, he, -⟩ := ended_lift hget
      cases he
    · obtain ⟨rfl, rfl⟩ := ok_get.1 (ok_lift.1 hget)
      exact (h _).taken hg hw ht hn

end Takes

/-! ## What takes nothing up -/

/-- The run leaves observables alone. -/
abbrev Unfelt (x : Run α) : Prop := Keeps (fun w w' => w'.cells = w.cells) (fun _ => True) x

instance : IsPreorder World fun w w' => w'.cells = w.cells where
  refl _ := rfl
  trans _ _ _ h h' := h'.trans h

theorem idle_lift {x : Run α} (h : Lives x) (hx : Unfelt x) : Idle D (liftM x) where
  lives := h.lift
  taken {w w' r} hr hw _ _ := by
    obtain ⟨a, rfl, hrun⟩ := ended_lift hr
    exact ⟨{}, rfl, .of_cells (h.ok hrun hw.reading) (hx.ok hrun)⟩

theorem idle_pageStep {x : Run (Except PageError α)} (h : Lives x) (hx : Unfelt x) :
    Idle D (pageStep x) where
  lives := h.pageStep
  taken {w w' r} hr hw _ _ := by
    obtain ⟨a, hrun, hends⟩ := ended_pageStep hr
    refine ⟨{}, ?_, .of_cells (h.ok hrun hw.reading) (hx.ok hrun)⟩
    obtain ⟨b, rfl⟩ | ⟨e, rfl⟩ := hends
    · exact rfl
    · exact trivial

theorem idle_pure (a : α) : Idle D (pure a : Realizing α) :=
  idle_lift (keeps_pure a) (keeps_pure a)

theorem Reads.unfelt {x : Run α} (h : Reads x) : Unfelt x := h.mono (·.cells) fun _ => trivial

theorem idle_reads {x : Run α} (h : Reads x) : Idle D (liftM x) := idle_lift h.lives h.unfelt

theorem unfelt_onPage (p : PageId) (f : Page → Page.Outcome) : Unfelt (onPage p f) :=
  keeps_update (fun _ => rfl) fun _ => keeps_pure _

theorem unfelt_createNode (p : PageId) (content : Content) : Unfelt (createNode p content) :=
  keeps_update (fun _ => rfl) fun _ => keeps_pure _

theorem unfelt_insertBefore (n child : PageNode) (reference : Option PageNode) :
    Unfelt (n.insertBefore child reference) :=
  keeps_ite (unfelt_onPage ..) (keeps_pure _)

theorem unfelt_replaceChildren (n content : PageNode) : Unfelt (n.replaceChildren content) := by
  refine (unfelt_onPage ..).bind fun r => ?_
  split
  · exact unfelt_insertBefore ..
  · exact keeps_pure _

theorem unfelt_openRegion (parent : PageNode) (label : Option String) :
    Unfelt (openRegion parent label) := by
  refine (unfelt_createNode ..).bind fun start => Keeps.holding ?_ fun h => h
  refine (unfelt_createNode ..).bind fun finish => (unfelt_insertBefore ..).bind fun r => ?_
  split
  · exact keeps_pure _
  · refine (unfelt_insertBefore ..).bind fun r => ?_
    split
    · exact keeps_pure _
    · exact keeps_update (fun _ => rfl) fun _ => keeps_pure _

theorem unfelt_splice (r : RegionId) (content : PageNode) : Unfelt (r.splice content) := by
  refine keeps_get_bind fun w => ?_
  dsimp only
  split
  · exact (keeps_pure _).start w
  · refine KeepsAt.bind (R := fun w w' => w'.cells = w.cells) (keepsAt_set rfl) fun _ =>
      (unfelt_onPage ..).bind fun e => ?_
    split
    · exact keeps_pure _
    · exact unfelt_insertBefore ..

theorem idle_createNode (p : PageId) (content : Content) :
    Idle D (liftM (createNode p content)) :=
  idle_lift (lives_createNode ..) (unfelt_createNode ..)

theorem idle_append (n child : PageNode) : Idle D (pageStep (n.append child)) :=
  idle_pageStep (lives_insertBefore ..) (unfelt_insertBefore ..)

theorem idle_splice (r : RegionId) (content : PageNode) : Idle D (pageStep (r.splice content)) :=
  idle_pageStep (lives_splice ..) (unfelt_splice ..)

theorem idle_editPage (p : PageId) (f : Page → Except PageError Page) :
    Idle D (pageStep (editPage p f)) :=
  idle_pageStep (lives_editPage ..) (unfelt_onPage ..)

theorem idle_newRecords : Idle D (liftM newRecords) :=
  idle_lift lives_newRecords (keeps_update (fun _ => rfl) fun _ => keeps_pure _)

theorem idle_emptyTeardown : Idle D (liftM emptyTeardown) :=
  idle_lift lives_emptyTeardown
    (Keeps.bind (keeps_update (fun _ => rfl) fun _ => keeps_pure _) fun _ => keeps_pure _)

theorem idle_pushRecord (l : RecordsId) (m : Teardown) : Idle D (liftM (pushRecord l m)) :=
  idle_lift (lives_pushRecord ..) (keeps_modify fun _ => rfl)

theorem idle_label (r : Surface) : Idle D (liftM r.label) := by
  refine idle_lift (lives_label r) ?_
  unfold Surface.label
  exact keeps_ite (keeps_get.bind fun _ => keeps_pure _) (keeps_pure _)

theorem idle_putStyle (n : PageNode) (property : String) (value : Option String) :
    Idle D (pageStep (n.putStyle property value)) := by
  cases value with
  | none => exact idle_editPage n.page fun p => p.removeStyle n.slot property
  | some s => exact idle_editPage n.page fun p => p.setStyle n.slot property s

theorem idle_putStyles (n : PageNode) (style : Style) : Idle D (n.putStyles style) := by
  induction style with
  | nil => exact idle_pure _
  | cons s rest ih => exact .get fun w => .after (idle_putStyle ..) fun _ => ih

theorem idle_putAttribute (n : PageNode) (name : String) (v : Value) :
    Idle D (n.putAttribute name v) := by
  unfold PageNode.putAttribute
  split
  · exact idle_editPage ..
  · exact idle_putStyles ..
  · refine .get fun w => ?_
    split
    · exact idle_editPage ..
    · exact .after (idle_reads (reads_warn _)) fun _ => idle_editPage ..

theorem idle_putProperty (n : PageNode) (property : String) (v : Value) :
    Idle D (n.putProperty property v) :=
  .get fun _ => idle_putStyle ..

theorem idle_addListeners (element : PageNode) (listeners : List Listener) :
    Idle D (addListeners element listeners) := by
  induction listeners with
  | nil => exact idle_pure _
  | cons l rest ih => exact .after (idle_editPage ..) fun _ => ih

/-! ## Attributes and places -/

/-- A realization that takes up `t` and does not stop at a render function. -/
abbrev TakesUp (D : CellId → Prop) (t : Uptake) (x : Realizing α) : Prop :=
  Takes D (· = t) (fun _ => False) x

theorem TakesUp.bind {t t' : Uptake} {x : Realizing α} {f : α → Realizing β} (hx : TakesUp D t x)
    (hf : ∀ a, TakesUp D t' (f a)) : TakesUp D (t ++ t') (x >>= f) :=
  Takes.bind hx hf (fun _ _ h h' => by rw [h, h']) (fun _ h => h) fun _ _ _ h => h

theorem takesUp_subscribe {r : Reaction} (hp : r.onPage) (hf : ∀ w : World, w.Follows c r) :
    TakesUp D (.follow c) (liftM (subscribe c r)) where
  lives := (lives_subscribe hp hf).lift
  taken {w w' r'} h hw _ _ := by
    obtain ⟨key, rfl, hrun⟩ := ended_lift h
    rw [run_subscribe] at hrun
    cases hrun
    exact ⟨_, rfl, .subscribed hw.keyed hp (hf w)⟩

theorem takesUp_followAt (surface : Surface) (l : RecordsId) (target : Target) :
    TakesUp D (.follow c) (liftM (followAt surface c l target)) where
  lives := (lives_followAt ..).lift
  taken {w w' r} h hw _ _ := by
    obtain ⟨_, rfl, hrun⟩ := ended_lift h
    rw [run_followAt] at hrun
    cases hrun
    have hsite : Evolves w (w.withSite ⟨surface, c, l, target, false, none⟩) :=
      evolves_sites (f := (·.push _)) fun s site h => ⟨site, getElem?_push_of_some h, rfl⟩
    have hfollows : (w.withSite ⟨surface, c, l, target, false, none⟩).Follows c
        (.rebuild ⟨w.sites.size⟩) := ⟨_, Array.getElem?_push_size .., rfl⟩
    have hidle : Uptake.Taken D {} w (w.withSite ⟨surface, c, l, target, false, none⟩) :=
      .of_cells hsite rfl
    have hone := Uptake.Taken.subscribed (D := D) (hsite.keyed hw.keyed) (c := c)
      (r := .rebuild ⟨w.sites.size⟩) trivial hfollows
    exact ⟨_, rfl, hidle.trans hone⟩

theorem takesUp_attach (e : PageNode) :
    TakesUp D ⟨[], [c]⟩ (liftM (attach (respond d) c e)) where
  lives := (lives_attach (respond_lives d) c e).lift
  taken {w w' r} h hw ht hn := by
    obtain ⟨_, rfl, hrun⟩ := ended_lift h
    have hn := hn.of_evolves ((lives_attach (respond_lives d) c e).ok hrun hw.reading)
    rw [attach, withRef, ok_get_bind] at hrun
    split at hrun
    · next hf =>
      obtain ⟨_, w₁, h₁, h₂⟩ := ok_bind.1 hrun
      rw [hold, run_modifyCell] at h₁
      cases h₁
      have hev : Evolves w (w.withCell c fun cell => { cell with held := .element e }) :=
        evolves_withCell (fun _ => rfl) fun _ => .refl _
      have hm : Murmur D _ w' := (murmurs d (x := False) ⟨hw.evolves hev, ht.evolves hev, hn,
        False.elim⟩ (ht.ofRef hf)).ok h₂
      exact ⟨_, rfl, .attaching hf (ht.ofRef hf) hm⟩
    · exact absurd hrun not_ok_unknown

theorem takesUp_bindStyle (element : PageNode) (bound : Bindings) (style : Style) :
    TakesUp D (.ofStyle style) (bindStyle element bound style) := by
  induction style generalizing bound with
  | nil => exact idle_pure _
  | cons s rest ih =>
    obtain ⟨key, value⟩ := s
    cases value with
    | text s => exact .after (idle_editPage ..) fun _ => ih _
    | observable c =>
      exact .get fun _ => .after (idle_putProperty ..) fun _ =>
        TakesUp.bind (takesUp_subscribe (r := .styleProperty ..) trivial fun _ => rfl) fun _ => ih _

theorem takesUp_bindAttribute (element : PageNode) (bound : Bindings) (name : String)
    (value : AttributeValue) :
    TakesUp D (.ofAttribute value) (bindAttribute (respond d) element bound name value) := by
  cases value with
  | text s => exact .after (idle_editPage ..) fun _ => idle_pure _
  | list items => exact .after (idle_editPage ..) fun _ => idle_pure _
  | ref c => exact .before (takesUp_attach element) fun _ => idle_pure _
  | style style => exact takesUp_bindStyle ..
  | observable c =>
    exact .get fun _ => .after (idle_putAttribute ..) fun _ =>
      .before (takesUp_subscribe (r := .attribute ..) trivial fun _ => rfl) fun _ => idle_pure _

theorem takesUp_bindAttributes (element : PageNode) (bound : Bindings)
    (attributes : List (String × AttributeValue)) :
    TakesUp D (.ofAttributes attributes)
      (bindAttributes (respond d) element bound attributes) := by
  induction attributes generalizing bound with
  | nil => exact idle_pure _
  | cons a rest ih =>
    obtain ⟨name, value⟩ := a
    rw [Uptake.ofAttributes_cons]
    exact TakesUp.bind (Takes.holding (takesUp_bindAttribute ..)) fun _ => ih _

/-! ## Nodes -/

/-- However the realization of nodes ends, the world has taken up what they ask for until then. -/
abbrev TakesNodes (D : CellId → Prop) (ns : List Node) (x : Realizing α) : Prop :=
  Takes D (Asks ns) (Stops ns) x

theorem idle_openRegion (held : List Entity) (parent : PageNode) (label : Option String) :
    Idle D (realizingWith held (pageStep (openRegion parent label))) :=
  Takes.realizingWith (idle_pageStep (lives_openRegion ..) (unfelt_openRegion ..))

theorem takes_text (r : Surface) (parent : PageNode) (data : String) (driving : Option CellId) :
    TakesNodes D [.text data driving] ((Node.text data driving).realize (respond d) r parent) := by
  refine Takes.mono (P := (· = .ofDriving driving)) (S := fun _ => False) ?_ ?_ fun _ => False.elim
  · cases driving with
    | none =>
      rw [Node.realize]
      exact .after (idle_createNode ..) fun _ => .after (idle_append ..) fun _ => idle_emptyTeardown
    | some c =>
      rw [Node.realize]
      refine .after (idle_label r) fun _ => .after (idle_openRegion ..) fun _ =>
        Takes.realizingWith ?_
      refine .after idle_newRecords fun _ => .after (idle_createNode ..) fun _ =>
        .after (Takes.realizingWith ?_) fun _ => .before (takesUp_followAt ..) fun _ => idle_pure _
      exact .after (idle_createNode ..) fun _ => .after (idle_append ..) fun _ =>
        .after idle_emptyTeardown fun _ => .after (idle_pushRecord ..) fun _ => idle_splice ..
  · rintro t rfl
    have := Asks.text data driving .nil
    rwa [Uptake.append_nil] at this

section

variable {children : List Node}

theorem takes_element (r : Surface) (parent : PageNode) (tag : String)
    (attributes : List (String × AttributeValue)) (listeners : List Listener)
    (driving : Option CellId)
    (hc : ∀ element l, TakesNodes D children (realizeAll (respond d) r element l children)) :
    TakesNodes D [.element tag attributes listeners children driving]
      ((Node.element tag attributes listeners children driving).realize (respond d) r parent) := by
  rw [Node.realize]
  refine .after (Takes.realizingWith (idle_createNode ..)) fun element => Takes.realizingWith ?_
  refine Takes.bind (Takes.realizingWith (takesUp_bindAttributes ..))
    (Q := fun t => ∃ t', Asks children t' ∧ t = t' ++ .ofDriving driving) (T := Stops children)
    (fun bound => .after (idle_addListeners ..) fun _ => .after idle_newRecords fun l =>
      Takes.bind (Takes.realizingWith (hc element l)) (Q := (· = .ofDriving driving))
        (T := fun _ => False) (fun _ => ?_) (fun t t' h h' => ⟨t, h, by rw [h']⟩) (fun _ h => h)
        fun _ _ _ h => h.elim)
    ?_ (fun _ h => h.elim) ?_
  · cases driving with
    | none => exact .after (idle_append ..) fun _ => idle_pure _
    | some c =>
      exact .before (takesUp_followAt ..) fun _ => .after (idle_append ..) fun _ => idle_pure _
  · rintro t _ rfl ⟨t', h, rfl⟩
    have := Asks.element tag attributes listeners driving h .nil
    rwa [Uptake.append_nil] at this
  · rintro t t' rfl h
    exact .element tag attributes listeners driving [] h

theorem takes_fragment (r : Surface) (parent : PageNode) (driving : Option CellId)
    (hc : ∀ content l, TakesNodes D children (realizeAll (respond d) r content l children)) :
    TakesNodes D [.fragment children driving]
      ((Node.fragment children driving).realize (respond d) r parent) := by
  refine Takes.mono (P := fun t => ∃ t', Asks children t' ∧ t = t' ++ .ofDriving driving)
    (S := Stops children) ?_ ?_ fun t h => .fragment driving [] h
  · cases driving with
    | none =>
      rw [Node.realize]
      refine .after idle_newRecords fun l => .before (Takes.realizingWith ?_) fun _ => idle_pure _
      exact (hc parent l).mono (fun t h => ⟨t, h, (Uptake.append_nil t).symm⟩) fun _ h => h
    | some c =>
      rw [Node.realize]
      refine .after (idle_label r) fun _ => .after (idle_openRegion ..) fun _ =>
        Takes.realizingWith ?_
      refine .after idle_newRecords fun l => .after (Takes.realizingWith (idle_createNode ..))
        fun content => Takes.bind (Takes.realizingWith (.before (hc content l) fun _ =>
          idle_splice ..)) (fun _ => .before (takesUp_followAt ..) fun _ => idle_pure _)
          (fun t t' h h' => ⟨t, h, by rw [h']; rfl⟩) (fun _ h => h) fun _ _ _ h => h.elim
  · rintro _ ⟨t, h, rfl⟩
    have := Asks.fragment driving h .nil
    rwa [Uptake.append_nil] at this

end

theorem takes_deferred (r : Surface) (parent : PageNode) (render : Render)
    (hc : ∀ n, TakesNodes D [n] (ExceptT.mk (respond d (.realize r n parent)))) :
    TakesNodes D [.deferred render] ((Node.deferred render).realize (respond d) r parent) where
  lives := lives_realizeNode (respond_lives d) r parent _
  taken {w w' ended} h hw ht hn := by
    rw [Node.realize] at h
    obtain ⟨e, h, -⟩ | ⟨v, w₁, h₁, h⟩ := ended_ebind h
    · obtain ⟨w₁, h, -⟩ := ok_holding.1 h
      obtain ⟨_, he, -⟩ := ended_lift h
      cases he
    have hrender : (holding render.holds (respond d (.render render))).run w = .ok v w₁ := by
      obtain ⟨w₂, h₂, rfl⟩ := ok_realizingWith.1 h₁
      exact ok_holding.2 ⟨w₂, ok_lift.1 h₂, rfl⟩
    have hquiet₁ : Quiet w w₁ := by
      obtain ⟨w₂, h₂, rfl⟩ := ok_holding.1 hrender
      exact (((respond_reads d) (.render render) trivial).ok h₂).unpinned
    split at h
    · next hv =>
      obtain ⟨rfl, rfl⟩ := ok_pure.1 h
      exact ⟨{}, .here [] ⟨d, w, w', v, hrender, hv⟩, .of_cells hquiet₁.evolves hquiet₁.cells⟩
    · obtain ⟨e, h, -⟩ | ⟨n, w₂, h₂, h⟩ := ended_ebind h
      · obtain ⟨_, he, -⟩ := ended_lift h
        cases he
      have hn₂ := ok_lift.1 h₂
      have hquiet : Quiet w w₂ := hquiet₁.trans ((reads_childNode v).ok hn₂)
      have hgives : render.Gives n := ⟨d, w, w₁, w₂, v, hrender, hn₂⟩
      have hbefore : Uptake.Taken D {} w w₂ := .of_cells hquiet.evolves hquiet.cells
      obtain ⟨t, he, hu⟩ := (hc n).holding.taken h (hw.evolves hquiet.evolves)
        (ht.evolves hquiet.evolves) hn
      refine ⟨t, ?_, hbefore.trans hu⟩
      match ended, he with
      | .ok _, he =>
        have := Asks.deferred hgives he .nil
        rwa [Uptake.append_nil] at this
      | .error (.unresolvableRender _), he => exact .deferred [] hgives he
      | .error .noDocument, _ | .error (.page _), _ => trivial

/-! ## At every depth -/

/-- Realizing nodes on request takes up what they ask for. -/
abbrev Serves (D : CellId → Prop) (d : Nat) : Prop :=
  ∀ (r : Surface) (parent : PageNode) (n : Node),
    TakesNodes D [n] (ExceptT.mk (respond d (.realize r n parent)))

mutual

theorem takes_node (hd : Serves D d) (r : Surface) (parent : PageNode) :
    ∀ n : Node, TakesNodes D [n] (n.realize (respond d) r parent)
  | .empty => by
    rw [Node.realize]
    exact idle_emptyTeardown.mono (fun t h => h ▸ .empty .nil) fun _ => False.elim
  | .text data driving => takes_text r parent data driving
  | .element tag attributes listeners children driving =>
    takes_element r parent tag attributes listeners driving fun element l =>
      takes_all hd r element l children
  | .fragment children driving => takes_fragment r parent driving fun content l =>
      takes_all hd r content l children
  | .deferred render => takes_deferred r parent render (hd r parent)

theorem takes_all (hd : Serves D d) (r : Surface) (parent : PageNode) (l : RecordsId) :
    ∀ ns : List Node, TakesNodes D ns (realizeAll (respond d) r parent l ns)
  | [] => by
    rw [realizeAll]
    exact (idle_pure _).mono (fun t h => h ▸ .nil) fun _ => False.elim
  | n :: rest => by
    rw [realizeAll]
    refine Takes.bind (Takes.realizingWith (takes_node hd r parent n)) (fun m =>
      .after (idle_pushRecord ..) fun _ => takes_all hd r parent l rest) ?_ ?_ ?_
    · exact fun t t' h h' => h.cons h'
    · exact fun t h => h.cons rest
    · exact fun t t' h h' => .later h h'

end

theorem takes_throw {P S : Uptake → Prop} {e : Stop} :
    Takes D P S (ExceptT.mk (throw e) : Realizing α) where
  lives := keeps_throw trivial
  taken h := absurd h not_ok_throw

/-- However the realization of a node ends, the world has taken up what the node asks for until
then. -/
theorem takes_realizeNode (d : Nat) (r : Surface) (parent : PageNode) (n : Node) :
    TakesNodes D [n] (n.realize (respond d) r parent) := by
  induction d generalizing r parent n with
  | zero => exact takes_node (fun _ _ _ => takes_throw) r parent n
  | succ d ih => exact takes_node (d := d + 1) (fun r parent n => ih r parent n) r parent n

/-! ## Realizing for a page -/

theorem takes_noDocument {P S : Uptake → Prop} :
    Takes D P S (throw .noDocument : Realizing α) where
  lives := keeps_ethrow _
  taken h _ _ _ := by
    obtain ⟨rfl, rfl⟩ := ok_pure.1 h
    exact ⟨{}, trivial, .of_cells (.refl _) rfl⟩

theorem takes_realize (d : Nat) (labelled : Bool) (n : Node) :
    TakesNodes D [n] (realize (respond d) labelled n) := by
  refine .get fun w => ?_
  split
  · exact takes_noDocument
  · exact .after (Takes.realizingWith (idle_createNode ..)) fun _ =>
      .before (Takes.realizingWith (takes_realizeNode ..)) fun _ => idle_pure _

theorem takes_renderInto (d : Nat) (labelled : Bool) (root : PageNode) (n : Node) :
    TakesNodes D [n] (renderInto (respond d) labelled root n) :=
  .before (takes_realize d labelled n) fun _ => .before (Takes.realizingWith
    (idle_pageStep (lives_replaceChildren ..) (unfelt_replaceChildren ..))) fun _ => idle_pure _

/-- A realization that fails at a render function leaves behind exactly what it has taken up before:
the subscriptions of what it has realized, and references that are attached to it. -/
theorem left_of_realize {labelled : Bool} {n : Node} {variant : String} (hw : w.Wired)
    (ht : w.Tracks D) (hn : w'.NoSites D)
    (h : (realize (respond d) labelled n).run.run w =
      .ok (.error (.unresolvableRender variant)) w') : ∃ t, Stops [n] t ∧ t.Taken D w w' :=
  (takes_realize d labelled n).taken h hw ht hn

/-- So does rendering that fails there. -/
theorem left_of_renderInto {labelled : Bool} {root : PageNode} {n : Node} {variant : String}
    (hw : w.Wired) (ht : w.Tracks D) (hn : w'.NoSites D)
    (h : (renderInto (respond d) labelled root n).run.run w =
      .ok (.error (.unresolvableRender variant)) w') : ∃ t, Stops [n] t ∧ t.Taken D w w' :=
  (takes_renderInto d labelled root n).taken h hw ht hn

end LivePage
