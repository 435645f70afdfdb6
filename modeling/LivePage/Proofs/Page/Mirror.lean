import LivePage.Proofs.Page.Document

/-!
# Pages that mirror one another

A page that reuses freed slots is compared with one that never frees any. `Mirrored f p q` says that
the nodes of `p` stand in `q` too, under the numbers that `f` gives them and with the same content
and links, while `q` may hold nodes besides that `p` has freed. Every edit of `p` at nodes that are
there succeeds on `q` as well and leaves mirrored pages behind, and so does a sweep of `p` alone.
-/

namespace LivePage

/-- The slot with its links under other numbers. -/
def Slot.rename (f : Nat → Nat) (s : Slot) : Slot :=
  { s with parent := s.parent.map f, children := s.children.map f }

@[simp] theorem Slot.content_rename (f : Nat → Nat) (s : Slot) :
    (s.rename f).content = s.content := rfl

@[simp] theorem Slot.parent_rename (f : Nat → Nat) (s : Slot) :
    (s.rename f).parent = s.parent.map f := rfl

@[simp] theorem Slot.children_rename (f : Nat → Nat) (s : Slot) :
    (s.rename f).children = s.children.map f := rfl

/-- Numbers that the links of a slot do not mention may be given away. -/
theorem Slot.rename_congr {f g : Nat → Nat} {s : Slot} (hp : ∀ q, s.parent = some q → f q = g q)
    (hc : ∀ j ∈ s.children, f j = g j) : s.rename f = s.rename g := by
  obtain ⟨content, parent, children⟩ := s
  have hparent : parent.map f = parent.map g := Option.map_congr fun q hq => hp q hq
  have hchildren : children.map f = children.map g := List.map_congr_left hc
  simp [rename, hparent, hchildren]

namespace Page

variable {f : Nat → Nat} {p q p' q' : Page} {i j a b k host child : Nat} {l : List Nat}

/-- The nodes of `p` stand in `q` under the numbers that `f` gives them, with the same content and
links; `q` has no free slots. -/
structure Mirrored (f : Nat → Nat) (p q : Page) : Prop where
  forest : p.Forest
  full : q.Forest
  noneFree : q.free = []
  there {i : Nat} : p.Occupied i → q.Occupied (f i)
  inj {i j : Nat} : p.Occupied i → p.Occupied j → f i = f j → i = j
  slot {i : Nat} : p.Occupied i → q.slot (f i) = (p.slot i).rename f

/-- Puts a new node into a new slot. -/
def extend (p : Page) (content : Content) : Nat × Page :=
  (p.slots.size, { p with slots := p.slots.push { content } })

theorem place_eq_extend (h : p.free = []) (content : Content) : p.place content = p.extend content := by
  simp [place, extend, h]

namespace Mirrored

variable (h : Mirrored f p q)
include h

/-! ## Looking around -/

theorem content (hi : p.Occupied i) : (q.slot (f i)).content = (p.slot i).content := by
  rw [h.slot hi, Slot.content_rename]

theorem parent (hi : p.Occupied i) : (q.slot (f i)).parent = (p.slot i).parent.map f := by
  rw [h.slot hi, Slot.parent_rename]

theorem children (hi : p.Occupied i) : (q.slot (f i)).children = (p.slot i).children.map f := by
  rw [h.slot hi, Slot.children_rename]

theorem occupied_parent (hp : (p.slot i).parent = some j) : p.Occupied j := (h.forest.up hp).2.1

theorem occupied_child (hj : j ∈ (p.slot i).children) : p.Occupied j :=
  (h.forest.up (h.forest.down hj)).1

theorem map_eq_iff (hi : p.Occupied i) (hj : p.Occupied j) : f i = f j ↔ i = j :=
  ⟨h.inj hi hj, congrArg f⟩

theorem mem_map (hl : ∀ x ∈ l, p.Occupied x) (hi : p.Occupied i) : f i ∈ l.map f ↔ i ∈ l := by
  rw [List.mem_map]
  constructor
  · rintro ⟨x, hx, hxi⟩
    rwa [← h.inj (hl x hx) hi hxi]
  · exact fun hi => ⟨i, hi, rfl⟩

theorem idxOf?_map (hl : ∀ x ∈ l, p.Occupied x) (hi : p.Occupied i) :
    (l.map f).idxOf? (f i) = l.idxOf? i := by
  induction l with
  | nil => rfl
  | cons x l ih =>
    have hx := hl x List.mem_cons_self
    have ih := ih fun y hy => hl y (List.mem_cons_of_mem _ hy)
    by_cases hxi : x = i
    · simp [List.idxOf?_cons, hxi]
    · have hne : f x ≠ f i := fun he => hxi (h.inj hx hi he)
      simp [List.idxOf?_cons, hxi, hne, ih]

theorem filter_map (hl : ∀ x ∈ l, p.Occupied x) {m : List Nat} (hm : ∀ x ∈ m, p.Occupied x) :
    (l.map f).filter (· ∉ m.map f) = (l.filter (· ∉ m)).map f := by
  rw [List.filter_map]
  congr 1
  refine List.filter_congr fun x hx => ?_
  simp only [Function.comp_apply, h.mem_map hm (hl x hx)]

/-- What stands above a node is what stands above it in the other page. -/
theorem up_iff (hi : p.Occupied i) : q.Up (f i) b ↔ ∃ a, p.Up i a ∧ f a = b := by
  constructor
  · rintro ⟨k, hk⟩
    generalize hx : f i = x at hk
    induction hk generalizing i with
    | refl x => exact ⟨i, .refl p i, hx⟩
    | step hp _ ih =>
      subst hx
      rw [h.parent hi] at hp
      obtain ⟨j, hj, rfl⟩ := Option.map_eq_some_iff.1 hp
      obtain ⟨a, ha, hb⟩ := ih (h.occupied_parent hj) rfl
      exact ⟨a, .step hj ha, hb⟩
  · rintro ⟨a, ⟨k, hk⟩, rfl⟩
    induction hk with
    | refl i => exact .refl q _
    | @step i j a k hp _ ih =>
      refine .step (q := f j) ?_ (ih (h.occupied_parent hp))
      rw [h.parent hi, hp]
      rfl

/-- What stands below a node is what stands below it in the other page. -/
theorem down_iff (hi : p.Occupied i) : q.Up b (f i) ↔ ∃ j, p.Up j i ∧ f j = b := by
  constructor
  · rintro ⟨k, hk⟩
    generalize hx : f i = x at hk
    induction hk generalizing i with
    | refl x => exact ⟨i, .refl p i, hx⟩
    | step hp _ ih =>
      obtain ⟨c, hc, rfl⟩ := ih hi hx
      have hoc : p.Occupied c := by
        rcases hc.eq_or_parent with rfl | ⟨r, hr, -⟩
        · exact hi
        · exact (h.forest.up hr).1
      have hmem := (h.full.up hp).2.2
      rw [h.children hoc] at hmem
      obtain ⟨j, hj, rfl⟩ := List.mem_map.1 hmem
      exact ⟨j, .step (h.forest.down hj) hc, rfl⟩
  · rintro ⟨j, hj, rfl⟩
    have hoj : p.Occupied j := by
      rcases hj.eq_or_parent with rfl | ⟨r, hr, -⟩
      · exact hi
      · exact (h.forest.up hr).1
    exact (h.up_iff hoj).2 ⟨i, hj, rfl⟩

theorem up_map (hi : p.Occupied i) (ha : p.Occupied a) : q.Up (f i) (f a) ↔ p.Up i a := by
  rw [h.up_iff hi]
  constructor
  · rintro ⟨b, hb, he⟩
    rwa [← h.inj (h.forest.occupied_of_up hi hb) ha he]
  · exact fun ha => ⟨a, ha, rfl⟩

theorem nextSibling (hi : p.Occupied i) : q.nextSibling (f i) = (p.nextSibling i).map f := by
  simp only [Page.nextSibling, h.parent hi]
  cases hp : (p.slot i).parent with
  | none => rfl
  | some r =>
    have hr := h.occupied_parent hp
    simp only [Option.map_some, h.children hr]
    rw [h.idxOf?_map (fun x hx => h.occupied_child hx) hi]
    cases (p.slot r).children.idxOf? i with
    | none => rfl
    | some k => simp

theorem neighbours (hi : p.Occupied i) (direction : Direction) :
    q.neighbours (f i) direction = (p.neighbours i direction).map f := by
  cases direction with
  | parent =>
    simp only [Page.neighbours, h.parent hi]
    cases (p.slot i).parent <;> rfl
  | children => exact h.children hi
  | firstChild =>
    simp only [Page.neighbours, h.children hi]
    cases (p.slot i).children <;> rfl
  | nextSibling =>
    simp only [Page.neighbours, h.nextSibling hi]
    cases p.nextSibling i <;> rfl

/-! ## Moving nodes -/

theorem detach (hi : p.Occupied i) : Mirrored f (p.detach i) (q.detach (f i)) := by
  cases hp : (p.slot i).parent with
  | none =>
    rwa [detach_of_root hp, detach_of_root (by rw [h.parent hi, hp]; rfl)]
  | some r =>
    have hpq : (q.slot (f i)).parent = some (f r) := by rw [h.parent hi, hp]; rfl
    have hr := h.occupied_parent hp
    refine ⟨h.forest.detach i, h.full.detach (f i), by simpa using h.noneFree,
      fun hj => occupied_detach.2 (h.there (occupied_detach.1 hj)),
      fun hi hj => h.inj (occupied_detach.1 hi) (occupied_detach.1 hj), fun {j} hj => ?_⟩
    have hj := occupied_detach.1 hj
    rw [slot_detach h.forest.rooted hp, slot_detach h.full.rooted hpq]
    simp only [h.map_eq_iff hj hi, h.map_eq_iff hj hr]
    split
    · next hji => rw [h.slot hi]; rfl
    · split
      · have hfilter := h.filter_map (l := (p.slot r).children) (m := [i])
          (fun x hx => h.occupied_child hx) (by simpa using hi)
        simp only [List.map_cons, List.map_nil, List.mem_singleton] at hfilter
        rw [h.slot hr]
        simp only [Slot.rename, hfilter]
      · exact h.slot hj

theorem detachAll (hl : ∀ x ∈ l, p.Occupied x) :
    Mirrored f (p.detachAll l) (q.detachAll (l.map f)) := by
  induction l generalizing p q with
  | nil => exact h
  | cons i l ih =>
    have hi := hl i List.mem_cons_self
    exact ih (h.detach hi) fun x hx => occupied_detach.2 (hl x (List.mem_cons_of_mem _ hx))

theorem moved (hc : p.Occupied child) : q.moved (f child) = (p.moved child).map f := by
  unfold Page.moved
  rw [h.content hc, h.children hc]
  split <;> rfl

theorem insertionIndex (hq : p.Occupied host) {reference : Option Nat}
    (hr : ∀ r, reference = some r → p.Occupied r) :
    q.insertionIndex (f host) (reference.map f) = p.insertionIndex host reference := by
  cases reference with
  | none => simp [Page.insertionIndex, h.children hq]
  | some r =>
    simp only [Page.insertionIndex, Option.map_some, h.children hq]
    exact h.idxOf?_map (fun x hx => h.occupied_child hx) (hr r rfl)

theorem graft (hc : (p.slot child).parent = none) (ho : p.Occupied child) (hq : p.Occupied host)
    (hcon : (p.slot host).content.type.isContainer) (hu : ¬ p.Up host child) (k : Nat) :
    Mirrored f (p.graft host child k) (q.graft (f host) (f child) k) := by
  have hcq : (q.slot (f child)).parent = none := by rw [h.parent ho, hc]; rfl
  have huq : ¬ q.Up (f host) (f child) := fun hup => hu ((h.up_map hq ho).1 hup)
  have hconq : (q.slot (f host)).content.type.isContainer := by rwa [h.content hq]
  have hne : ∀ {p : Page} {i j : Nat}, ¬ p.Up i j → i ≠ j := fun hu he => hu (he ▸ .refl _ _)
  refine ⟨h.forest.graft hc hq hcon hu k, h.full.graft hcq (h.there hq) hconq huq k,
    by simpa using h.noneFree, fun hj => occupied_graft.2 (h.there (occupied_graft.1 hj)),
    fun hi hj => h.inj (occupied_graft.1 hi) (occupied_graft.1 hj), fun {j} hj => ?_⟩
  have hj := occupied_graft.1 hj
  have hm := h.mem_map (l := p.moved child) (fun _ => h.forest.occupied_of_mem_moved) hj
  rw [slot_graft h.forest hc hq (hne hu), slot_graft h.full hcq (h.there hq) (hne huq), h.moved ho,
    h.content hj, h.parent hj, h.children hj, h.content ho]
  simp only [hm, h.map_eq_iff hj hq, h.map_eq_iff hj ho, Slot.rename, Slot.mk.injEq, true_and]
  constructor
  · split <;> rfl
  · split
    · simp [List.map_take, List.map_drop]
    · split <;> rfl

end Mirrored

/-! ## Insertions -/

namespace Mirrored

variable (h : Mirrored f p q)
include h

theorem isChildOrNone (hq : p.Occupied host) {reference : Option Nat}
    (hr : ∀ r, reference = some r → p.Occupied r) :
    q.isChildOrNone (f host) (reference.map f) = p.isChildOrNone host reference := by
  cases reference with
  | none => rfl
  | some r =>
    simp only [Page.isChildOrNone, Option.map_some, h.parent (hr r rfl)]
    cases hp : (p.slot r).parent with
    | none => rfl
    | some x =>
      rw [Bool.eq_iff_iff]
      simpa using h.map_eq_iff (h.occupied_parent hp) hq

theorem insertBefore (hq : p.Occupied host) (hc : p.Occupied child) {reference : Option Nat}
    (hr : ∀ r, reference = some r → p.Occupied r)
    (hp : p.insertBefore host child reference = (.ok (), p')) :
    ∃ q', q.insertBefore (f host) (f child) (reference.map f) = (.ok (), q') ∧
      Mirrored f p' q' := by
  obtain ⟨hcon, hu, hchild, k, hk, rfl⟩ := (insertBefore_iff h.forest).1 hp
  have hd := h.detach hc
  have hroot : ((p.detach child).slot child).parent = none := by
    rw [parent_detach h.forest.rooted, if_pos rfl]
  have hcon' : ((p.detach child).slot host).content.type.isContainer := by
    rwa [content_detach]
  refine ⟨(q.detach (f child)).graft (f host) (f child) k,
    (insertBefore_iff h.full).2 ⟨?_, ?_, ?_, k, ?_, rfl⟩, ?_⟩
  · rwa [h.content hq]
  · exact fun hup => hu ((h.up_map hq hc).1 hup)
  · rwa [h.isChildOrNone hq hr]
  · rwa [hd.insertionIndex (occupied_detach.2 hq) fun r he => occupied_detach.2 (hr r he)]
  · exact hd.graft hroot (occupied_detach.2 hc) (occupied_detach.2 hq) hcon'
      (fun hup => hu (up_of_up_detach h.forest hup)) k

theorem removeChild (hc : p.Occupied child)
    (hp : p.removeChild host child = (.ok (), p')) :
    ∃ q', q.removeChild (f host) (f child) = (.ok (), q') ∧ Mirrored f p' q' := by
  obtain ⟨hpar, rfl⟩ := removeChild_eq.1 hp
  refine ⟨_, removeChild_eq.2 ⟨?_, rfl⟩, h.detach hc⟩
  rw [h.parent hc, hpar]
  rfl

theorem replaceChildren (hq : p.Occupied host) (hc : p.Occupied child)
    (hp : p.replaceChildren host child = (.ok (), p')) :
    ∃ q', q.replaceChildren (f host) (f child) = (.ok (), q') ∧ Mirrored f p' q' := by
  have hchild : ∀ x ∈ (p.slot host).children, p.Occupied x := fun x hx => h.occupied_child hx
  unfold Page.replaceChildren at hp
  split at hp
  swap
  · next hne => exact absurd hp (hne p')
  next p₁ hp₁ =>
  obtain ⟨-, -, rfl⟩ := (removeChildren_eq h.forest).1 hp₁
  have hq₁ : q.removeChildren (f host) (q.slot (f host)).children =
      (.ok (), q.detachAll ((p.slot host).children.map f)) := by
    refine (removeChildren_eq h.full).2 ⟨h.full.nodup _, fun x hx => h.full.down hx, ?_⟩
    rw [h.children hq]
  obtain ⟨q', hq', hm⟩ := (h.detachAll hchild).insertBefore (occupied_detachAll.2 hq)
    (occupied_detachAll.2 hc) (fun r he => by cases he) hp
  refine ⟨q', ?_, hm⟩
  rw [Page.replaceChildren, hq₁]
  exact hq'

/-! ## What nodes are -/

/-- A change that concerns only what one node is. -/
theorem modify (hi : p.Occupied i) {g : Slot → Slot} (hp : p.Shaped (p.modify i g))
    (hq : q.Shaped (q.modify (f i) g))
    (hg : g ((p.slot i).rename f) = (g (p.slot i)).rename f) :
    Mirrored f (p.modify i g) (q.modify (f i) g) := by
  refine ⟨hp.forest h.forest, hq.forest h.full, h.noneFree, fun hj => hq.occupied.2 (h.there (hp.occupied.1 hj)),
    fun hi hj => h.inj (hp.occupied.1 hi) (hp.occupied.1 hj), fun {j} hj => ?_⟩
  have hj := hp.occupied.1 hj
  rw [slot_modify, slot_modify]
  by_cases hij : i = j
  · subst hij
    rw [if_pos ⟨rfl, (h.there hj).1⟩, if_pos ⟨rfl, hj.1⟩, h.slot hj, hg]
  · rw [if_neg fun he => hij (h.inj hi hj he.1), if_neg fun he => hij he.1, h.slot hj]

theorem updateElement (hi : p.Occupied i) {operation : String} {g : Element → Element}
    (hp : p.updateElement i operation g = .ok p') :
    ∃ q', q.updateElement (f i) operation g = .ok q' ∧ Mirrored f p' q' := by
  have helement : q.element? (f i) = p.element? i := by
    simp only [Page.element?, h.content hi]
  have hshape := shaped_updateElement hp
  unfold Page.updateElement at hp ⊢
  rw [helement]
  split at hp
  · next e he =>
    cases hp
    have hq : q.updateElement (f i) operation g =
        .ok (q.modify (f i) fun s => { s with content := .element (g e) }) := by
      rw [Page.updateElement, helement, he]
    exact ⟨_, rfl, h.modify hi hshape (shaped_updateElement hq) rfl⟩
  · cases hp

theorem unlisten (hi : p.Occupied i) (type : String) (handler : HandlerId) :
    Mirrored f (p.unlisten i type handler) (q.unlisten (f i) type handler) := by
  refine h.modify hi (shaped_unlisten ..) (shaped_unlisten ..) ?_
  obtain ⟨content, parent, children⟩ := p.slot i
  cases content <;> rfl

/-! ## Sweeping and creating -/

/-- What a sweep frees is missed by nothing that stays. -/
theorem sweep (held : List Nat) : Mirrored f (p.sweep held) q where
  forest := h.forest.sweep held
  full := h.full
  noneFree := h.noneFree
  there hi := h.there (occupied_sweep.1 hi).1
  inj hi hj := h.inj (occupied_sweep.1 hi).1 (occupied_sweep.1 hj).1
  slot {i} hi := by
    obtain ⟨hi, hn⟩ := occupied_sweep.1 hi
    rw [slot_sweep, if_neg hn, h.slot hi]

/-- The new node takes a slot that it may have to share with freed nodes in `p`, and one of its own
in `q`. -/
theorem created (held : List Nat) (content : Content) :
    Mirrored (Function.update f (p.created held content).1 (q.extend content).1)
      (p.created held content).2 (q.extend content).2 := by
  have hc := created_spec h.forest.rooted held content
  have hf := h.forest.created held content
  generalize (p.created held content).1 = i at hc ⊢
  generalize (p.created held content).2 = p' at hc hf ⊢
  have hfull := h.full.place content
  have hslot := slot_place h.full.rooted content
  have hocc := fun x => occupied_place (j := x) h.full.rooted content
  have hfree := place_fst_not_occupied q content
  rw [place_eq_extend h.noneFree content] at hfull hslot hocc hfree
  have hold : ∀ {j}, p'.Occupied j → j ≠ i → p.Occupied j := fun hj hji => (hc.of_occupied hj hji).1
  have hnew : ∀ {j}, p.Occupied j → f j ≠ (q.extend content).1 := fun hj he => hfree (he ▸ h.there hj)
  refine ⟨hf, hfull, h.noneFree, fun {j} hj => ?_, fun {j k} hj hk he => ?_, fun {j} hj => ?_⟩
  · rw [hocc]
    by_cases hji : j = i
    · exact .inr (by rw [hji, Function.update_self])
    · exact .inl (by rw [Function.update_of_ne hji]; exact h.there (hold hj hji))
  · by_cases hji : j = i <;> by_cases hki : k = i
    · rw [hji, hki]
    · rw [hji, Function.update_self, Function.update_of_ne hki] at he
      exact absurd he.symm (hnew (hold hk hki))
    · rw [hki, Function.update_self, Function.update_of_ne hji] at he
      exact absurd he (hnew (hold hj hji))
    · rw [Function.update_of_ne hji, Function.update_of_ne hki] at he
      exact h.inj (hold hj hji) (hold hk hki) he
  · by_cases hji : j = i
    · rw [hji, Function.update_self, hc.slot_self, hslot, if_pos rfl]
      rfl
    · -- Nothing that was there before has a link to the new node.
      obtain ⟨ho, hs⟩ := hc.of_occupied hj hji
      rw [Function.update_of_ne hji, hslot, if_neg (hnew ho), h.slot ho, ← hs]
      refine Slot.rename_congr (fun x hx => ?_) fun x hx => ?_
      · refine (Function.update_of_ne ?_ _ _).symm
        rintro rfl
        have := (hf.up hx).2.2
        rw [hc.slot_self] at this
        cases this
      · refine (Function.update_of_ne ?_ _ _).symm
        rintro rfl
        have := hf.down hx
        rw [hc.slot_self] at this
        cases this

end Mirrored

end Page

end LivePage
