import LivePage.Proofs.Mount.Realization
import LivePage.Proofs.Page.Printing

/-!
# Laying out what follows nothing

A node that follows no observable is realized by making new page nodes and putting them below a node
that is there. `World.Laid q b w s` says that the world `w` comes from `b` in this way, and that the
new children of `q` are printed as `s`. What is laid behind one another is printed one after the other
(`World.Laid.append`).
-/

namespace LivePage

variable {b w w' w'' : World} {q e child n : PageNode} {l : RecordsId} {s s' : String}
  {content content' : Content} {p : PageId}

/-! ## Worlds that differ in pages and records only -/

/-- Pages, teardown records, what is pinned, and what reading changes can be different. -/
structure Steady (w w' : World) : Prop where
  cells : w'.cells = w.cells
  entered : w'.entered = w.entered
  regions : w'.regions = w.regions
  sites : w'.sites = w.sites
  boundaries : w'.boundaries = w.boundaries
  components : w'.components = w.components
  nextKey : w'.nextKey = w.nextKey
  names : w'.names = w.names
  acts : w'.callbacks.map (·.acts) = w.callbacks.map (·.acts)

theorem Quiet.steady (h : Quiet w w') : Steady w w' := { h with }

namespace Steady

theorem refl (w : World) : Steady w w := by constructor <;> rfl

theorem trans (h : Steady w w') (h' : Steady w' w'') : Steady w w'' where
  cells := h'.cells.trans h.cells
  entered := h'.entered.trans h.entered
  regions := h'.regions.trans h.regions
  sites := h'.sites.trans h.sites
  boundaries := h'.boundaries.trans h.boundaries
  components := h'.components.trans h.components
  nextKey := h'.nextKey.trans h.nextKey
  names := h'.names.trans h.names
  acts := h'.acts.trans h.acts

section

variable (h : Steady w w')
include h

theorem repin (pins : List (List Entity)) : Steady w { w' with pins := pins } := { h with }

theorem repin_left (pins : List (List Entity)) : Steady { w with pins := pins } w' := { h with }

theorem withPage (page : Page) : Steady w (w'.withPage p page) := { h with }

theorem withList : Steady w w'.withList := { h with }

theorem pushed (m : Teardown) : Steady w (w'.pushed l m) := { h with }

theorem cellText : w'.cellText = w.cellText := by
  funext k
  induction k with
  | zero => rfl
  | succ k ih => funext c; simp [World.cellText, World.content, World.cell, h.cells, ih]

theorem insertable : w'.insertable = w.insertable := by
  funext v
  simp [World.insertable, h.cellText, h.cells]

theorem cellNode : w'.cellNode = w.cellNode := by
  have hcurrent : w'.current = w.current := by
    funext c
    simp [World.current, World.content, World.cell, h.insertable, h.cells]
  funext k
  induction k with
  | zero => rfl
  | succ k ih => funext c; simp [World.cellNode, World.nodeWith, hcurrent, h.insertable, ih]

/-- Values stand for the same nodes. -/
theorem nodeOf (v : Value) : w'.nodeOf v = w.nodeOf v := by
  simp [World.nodeOf, World.nodeWith, h.insertable, h.cellNode, h.cells]

end

end Steady

/-! ## Building while no observable changes -/

namespace Built

variable (h : Built (fun _ => False) q b w)
include h

theorem slot_eq (hn : b.Safe n) (hq : n ≠ q) : w.slot n = b.slot n :=
  (h.slot hn hq).eq fun _ _ hc => hc.elim

/-- A safe tree that `q` is not in is printed as before. -/
theorem outerHtml_eq (hs : b.Sound) (hn : b.Safe n) (hq : ¬ b.Up q n) :
    (w.page n.page).outerHtml n.slot = (b.page n.page).outerHtml n.slot := by
  refine (hs.forest n.page).outerHtml_congr (h.sound.forest n.page) fun j hj => ?_
  have hne : (⟨n.page, j⟩ : PageNode) ≠ q := by
    rintro rfl
    exact hq ⟨rfl, hj⟩
  have heq := h.slot_eq (hn.down hj) hne
  exact ⟨congrArg Slot.content heq, congrArg Slot.children heq⟩

end Built

/-! ## What is laid -/

/-- The world `w` comes from `b` by making nodes and putting them behind the children of `q`; the new
children are printed as `s`. -/
structure World.Laid (q : PageNode) (b w : World) (s : String) : Prop where
  built : Built (fun _ => False) q b w
  steady : Steady b w
  tops : ∃ tops, w.slot q = { b.slot q with children := (b.slot q).children ++ tops } ∧
    String.join (tops.map (w.page q.page).outerHtml) = s

namespace World.Laid

theorem refl (hs : b.Sound) : Laid q b b "" :=
  ⟨.refl hs, .refl b, [], by simp, rfl⟩

theorem of_pinned {held : List Entity} (h : Laid q (b.pinned held) w s) (hs : b.Sound) :
    Laid q b w.unpinned s :=
  ⟨h.built.of_pinned hs, (h.steady.repin_left b.pins).repin _, h.tops⟩

section

variable (h : Laid q b w s)
include h

theorem repin {pins : List (List Entity)} (hp : b.pins <:+ pins) :
    Laid q b { w with pins := pins } s :=
  ⟨h.built.repin hp, h.steady.repin pins, h.tops⟩

theorem withList : Laid q b w.withList s := ⟨h.built.newRecords, h.steady.withList, h.tops⟩

theorem pushed (hl : b.records.size ≤ l.index) (hu : w.Unreached l) (m : Teardown) :
    Laid q b (w.pushed l m) s :=
  ⟨h.built.pushRecord hl hu m, h.steady.pushed m, h.tops⟩

theorem quiet (hq : Quiet w w') : Laid q b w' s := by
  refine ⟨h.built.murmur hq.murmur, h.steady.trans hq.steady, ?_⟩
  rw [World.slot, hq.page]
  exact h.tops

theorem parent_eq : (w.slot q).parent = (b.slot q).parent := by
  obtain ⟨tops, htops, -⟩ := h.tops
  rw [htops]

theorem content_eq : (w.slot q).content = (b.slot q).content := by
  obtain ⟨tops, htops, -⟩ := h.tops
  rw [htops]

theorem innerHtml_eq (hq : (b.slot q).children = []) : (w.page q.page).innerHtml q.slot = s := by
  obtain ⟨tops, htops, hs⟩ := h.tops
  have hchildren : ((w.page q.page).slot q.slot).children = tops := by
    have := congrArg Slot.children htops
    rwa [hq, List.nil_append] at this
  rw [Page.innerHtml, hchildren, hs]

/-- What is laid behind something is printed behind it. -/
theorem append (hq : w.Safe q) (h' : Laid q w w' s') : Laid q b w' (s ++ s') := by
  obtain ⟨tops, htops, hs⟩ := h.tops
  obtain ⟨tops', htops', hs'⟩ := h'.tops
  refine ⟨h.built.trans h'.built (.inl rfl), h.steady.trans h'.steady, tops ++ tops', ?_, ?_⟩
  · rw [htops', htops]
    simp
  have hf := h.built.sound.forest q.page
  have hkept : tops.map (w'.page q.page).outerHtml = tops.map (w.page q.page).outerHtml := by
    refine List.map_congr_left fun i hi => ?_
    have hchild : i ∈ (w.slot q).children := by
      rw [htops]
      exact List.mem_append_right _ hi
    have hparent := hf.down hchild
    exact h'.built.outerHtml_eq (n := ⟨q.page, i⟩) h.built.sound (hq.down (.parent hparent))
      fun hu => hf.not_up_of_parent hparent hu.2
  rw [List.map_append, String.join_append, hkept, hs, hs']

end

end World.Laid

/-! ## New nodes -/

/-- `e` is a new node of a page that nothing else has happened to. -/
structure World.Adds (b w : World) (p : PageId) (e : PageNode) (content : Content) : Prop where
  built : Built (fun _ => False) e b w
  steady : Steady b w
  page : e.page = p
  fresh : ¬ b.Safe e
  occupied : w.Occupied e
  slot : w.slot e = { content }

theorem adds_createNode (hs : b.Sound) (hp : p.index < b.pages.size) (content : Content) :
    ∃ e w, (createNode p content).run b = .ok e w ∧ w.pins = b.pins ∧ b.Adds w p e content := by
  have hrun := run_createNode p content b
  have hc := createNode_spec hs hp hrun
  exact ⟨_, _, hrun, rfl, (Built.refl hs).create hc, (Steady.refl b).withPage _, hc.page, hc.fresh,
    hc.occupied_self, hc.slot_self⟩

namespace World.Adds

theorem of_pinned {held : List Entity} (h : (b.pinned held).Adds w p e content) (hs : b.Sound) :
    b.Adds w.unpinned p e content :=
  { h with
    built := h.built.of_pinned hs
    steady := (h.steady.repin_left b.pins).repin _
    fresh := fun he => h.fresh (he.pinned hs held) }

theorem pinned (h : b.Adds w p e content) (held : List Entity) :
    b.Adds (w.pinned held) p e content :=
  { h with
    built := h.built.pinned held
    steady := h.steady.repin _ }

theorem withContent (h : b.Adds w p e content) (ht : content'.type = content.type) :
    b.Adds (w.withContent e content') p e content' := by
  have ht : content'.type = (w.slot e).content.type := by rw [h.slot, ht]
  refine ⟨h.built.withContent h.occupied h.fresh ht, h.steady.withPage _, h.page, h.fresh,
    (World.shaped_withContent ht e.page).occupied.2 h.occupied, ?_⟩
  rw [World.slot_withContent h.occupied, if_pos rfl, h.slot]

end World.Adds

theorem adds_realizingWith (hs : b.Sound) (hp : p.index < b.pages.size) (content : Content)
    (held : List Entity) :
    ∃ e w, (realizingWith held (liftM (createNode p content))).run.run b = .ok (.ok e) w ∧
      w.pins = b.pins ∧ b.Adds w p e content := by
  obtain ⟨e, w, h, hpins, ha⟩ := adds_createNode (hs.pinned held) hp content
  exact ⟨e, _, ok_realizingWith.2 ⟨w, ok_lift.2 h, rfl⟩, congrArg List.tail hpins, ha.of_pinned hs⟩

/-- A new node without a parent can be put below a safe one that can have children. -/
theorem World.Laid.put (h : Built (fun _ => False) q b w) (hst : Steady b w)
    (hq : b.Safe q) (hself : w.slot q = b.slot q)
    (hcon : (b.slot q).content.type.isContainer) (hc : ¬ b.Safe child)
    (hroot : (w.slot child).parent = none) (hpage : child.page = q.page)
    (htype : (w.slot child).content.type ≠ .fragment) :
    ∃ w', (q.append child).run w = .ok (.ok ()) w' ∧ w'.pins = w.pins ∧
      World.Laid q b w' ((w.page q.page).outerHtml child.slot) := by
  have hf := h.sound.forest q.page
  have hup : ¬ (w.page q.page).Up q.slot child.slot := by
    intro hu
    have := h.safe_of_up (fun _ => congrArg Slot.parent hself) hq hu
    rw [← hpage] at this
    exact hc this
  have hrun := (ok_append hf hroot hpage).2 ⟨by rwa [hself], hup, rfl⟩
  obtain ⟨ha, hb⟩ := h.append (.inl rfl) (h.occupied hq) hc hroot hpage htype hrun
  refine ⟨_, hrun, rfl, hb, hst.withPage _, [child.slot], ?_, ?_⟩
  · rw [ha.parent, hself]
  · simp only [List.map_cons, List.map_nil, String.join_cons, String.join_nil, String.append_empty]
    refine hf.outerHtml_congr (hb.sound.forest q.page) fun j hj => ?_
    by_cases hjc : j = child.slot
    · have hchild : child = ⟨q.page, j⟩ := by rw [hjc, ← hpage]
      have hslot := ha.inserted
      generalize w.withPage q.page _ = w' at hslot ⊢
      rw [hchild] at hslot
      have hcontent := congrArg Slot.content hslot
      have hchildren := congrArg Slot.children hslot
      exact ⟨hcontent, hchildren⟩
    · have hne : (⟨q.page, j⟩ : PageNode) ≠ q := by
        rintro hjq
        exact hup (by rw [← hjq]; exact hj)
      have := ha.other hne fun he => hjc (congrArg PageNode.slot he)
      exact ⟨congrArg Slot.content this, congrArg Slot.children this⟩

/-! ## Collecting records -/

/-- While something is laid below `q`, records are added to a new list that nothing leads to. -/
structure World.Laying (q : PageNode) (b w : World) (l : RecordsId) (s : String) : Prop where
  laid : Laid q b w s
  new : b.records.size ≤ l.index
  lt : l.index < w.records.size
  unreached : w.Unreached l

namespace World.Laying

theorem start (hs : b.Sound) : Laying q b b.withList ⟨b.records.size⟩ "" :=
  ⟨(Laid.refl hs).withList, Nat.le_refl _, by simp [World.withList], hs.unreached_withList⟩

theorem repin (h : Laying q b w l s) {pins : List (List Entity)} (hp : b.pins <:+ pins) :
    Laying q b { w with pins := pins } l s :=
  ⟨h.laid.repin hp, h.new, h.lt,
    fun c key r hr he => h.unreached c key r hr (he.congr (by rfl) (by rfl) (by rfl))⟩

/-- Something more is laid, and its record is added to the list. -/
theorem push (h : Laying q b w l s) (hq : w.Safe q) (h' : Laid q w w' s') (m : Teardown) :
    Laying q b (w'.pushed l m) l (s ++ s') := by
  have hu : w'.Unreached l := h'.built.unreached h.lt h.unreached
  have hlt : l.index < w'.records.size := Nat.lt_of_lt_of_le h.lt h'.built.evolves.records
  exact ⟨(h.laid.append hq h').pushed h.new hu m, h.new, by simpa [World.pushed] using hlt,
    fun c key r hr he => hu c key r hr (he.of_pushed (hu _ _ _ hr))⟩

end World.Laying

end LivePage
