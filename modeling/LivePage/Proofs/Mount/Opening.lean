import LivePage.Proofs.Mount.Grown

/-!
# Nodes and regions come into place

The steps that realization builds with: a new node comes behind the children of a node
(`Built.append`), a text is put there (`grown_text`), and a region is opened (`built_openRegion`).
-/

namespace LivePage

variable {b w w₁ w₂ w' : World} {q n child : PageNode} {D : CellId → Prop} {r : RegionId}

/-! ## Appending -/

/-- `child` has come behind the children of `n`. -/
structure World.Appends (w : World) (n child : PageNode) (w' : World) : Prop where
  page : child.page = n.page
  eq : ∃ page, w' = w.withPage n.page page
  occupied {m : PageNode} : w.Occupied m → w'.Occupied m
  parent : w'.slot n = { w.slot n with children := (w.slot n).children ++ [child.slot] }
  inserted : w'.slot child = { w.slot child with parent := some n.slot }
  other {m : PageNode} : m ≠ n → m ≠ child → w'.slot m = w.slot m

/-- A new node that is no fragment is put behind the children of a node. -/
theorem Built.append (h : Built D q b w) (hn : n = q ∨ ¬ b.Safe n) (ho : w.Occupied n)
    (hc : ¬ b.Safe child) (hroot : (w.slot child).parent = none) (hpage : child.page = n.page)
    (htype : (w.slot child).content.type ≠ .fragment)
    (hok : (n.append child).run w = .ok (.ok ()) w') :
    w.Appends n child w' ∧ Built D q b w' := by
  obtain ⟨pg, i⟩ := n
  obtain ⟨pg', j⟩ := child
  obtain rfl : pg' = pg := hpage
  have hf := h.sound.forest pg'
  have hlt := World.lt_of_occupied ho
  obtain ⟨hcon, hup, rfl⟩ := (ok_append (n := ⟨pg', i⟩) hf hroot rfl).1 hok
  have hne : i ≠ j := fun h => hup (h ▸ .refl _ _)
  have hmoved : (w.page pg').moved j = [j] := if_neg htype
  have hslot := Page.slot_graft hf hroot ho hne ((w.slot ⟨pg', i⟩).children.length)
  simp only [hmoved, List.mem_singleton] at hslot
  have hself := World.slot_withPage_self hlt
    ((w.page pg').graft i j (w.slot ⟨pg', i⟩).children.length)
  have hother : ∀ m : Nat, m ≠ i → m ≠ j →
      ((w.page pg').graft i j (w.slot ⟨pg', i⟩).children.length).slot m = (w.page pg').slot m := by
    intro m hmi hmj
    rw [hslot, if_neg hmj, if_neg hmi, if_neg fun h => hmj h.1]
  have hocc : ∀ m, (w.page pg').Occupied m →
      ((w.page pg').graft i j (w.slot ⟨pg', i⟩).children.length).Occupied m :=
    fun m => Page.occupied_graft.2
  refine ⟨⟨rfl, ⟨_, rfl⟩, fun {m} hm => ?_, ?_, ?_, fun {m} hmn hmc => ?_⟩, ?_⟩
  · by_cases hmp : m.page = pg'
    · subst hmp
      rw [World.Occupied, World.page_withPage_self hlt]
      exact hocc _ hm
    · rwa [World.Occupied, World.page_withPage_of_ne hmp]
  · rw [hself, hslot, if_neg hne, if_pos rfl]
    simp [World.slot]
  · rw [hself, hslot, if_pos rfl, if_neg hne.symm, if_neg fun h => htype h.2]
    rfl
  · by_cases hmp : m.page = pg'
    · obtain ⟨pg, m⟩ := m
      obtain rfl : pg = pg' := hmp
      rw [hself, hother m (fun h => hmn (by rw [h])) fun h => hmc (by rw [h])]
      rfl
    · exact World.slot_withPage_of_ne hmp _
  · refine h.edit (hf.graft hroot ho hcon hup _) hocc (fun m k hm hp => ?_) fun m hm hmq => ?_
    · have hmj : m ≠ j := fun h => hc (h ▸ hm)
      rw [hslot, if_neg hmj]
      exact hp
    · refine hother m ?_ fun h => hc (h ▸ hm)
      rintro rfl
      exact hn.elim hmq fun hn => hn hm

/-- A text grows below a node. -/
theorem grown_text {data : String} (hs : b.Sound) (hq : b.Safe q)
    (hcreate : (createNode q.page (.text data)).run b = .ok n w₁)
    (happ : (q.append n).run w₁ = .ok (.ok ()) w₂) :
    Grown D q b w₂.withList [{ children := ⟨w₂.records.size⟩ }]
      (.text n.slot data ⟨w₂.records.size⟩ .nil) := by
  have hc := createNode_spec hs (World.lt_of_occupied (hq.occupied hs)) hcreate
  have hb : Built D q b w₁ := (Built.refl hs).create hc
  obtain ⟨ha, hb⟩ := hb.append (.inl rfl) (hb.occupied hq) hc.fresh (by rw [hc.slot_self])
    hc.page (by rw [hc.slot_self]; exact NodeType.noConfusion) happ
  obtain ⟨page, rfl⟩ := hc.eq
  obtain ⟨page', rfl⟩ := ha.eq
  have hn : (⟨q.page, n.slot⟩ : PageNode) = n := by rw [← hc.page]
  refine ⟨hb.newRecords, ?_, ?_, rfl, ?_, by simp [Mounts.slots], ?_, by simp [Mounts.lists],
    by simp [Mounts.sites], by simp [Mounts.sites], fun hr _ => .inl hr⟩
  · have hself := ha.parent
    rw [hc.slot_of_safe hq] at hself
    exact hself ▸ .refl _ _
  · refine ⟨?_, ⟨by simp [World.withList], ?_⟩, trivial⟩
    · rw [hn]
      exact ha.inserted.trans (by rw [hc.slot_self])
    · rw [recordsIn_withList]
      simp [World.recordsIn]
  · intro i hi
    obtain rfl := List.mem_singleton.1 hi
    rw [hn]
    exact hc.fresh
  · intro l hl
    obtain rfl := List.mem_singleton.1 hl
    exact Nat.le_refl _

/-! ## Regions -/

/-- An empty region has been opened behind the children of `q`. -/
structure World.Opened (D : CellId → Prop) (q : PageNode) (b w : World) (r : RegionId)
    (start finish : PageNode) : Prop where
  built : Built D q b w
  cells : w.cells = b.cells
  records : w.records = b.records
  sites : w.sites = b.sites
  pins : w.pins = b.pins
  region : w.regions[r.index]? = some ⟨start, finish, q⟩
  slot : w.slot q = { b.slot q with children := (b.slot q).children ++ [start.slot, finish.slot] }
  start_page : start.page = q.page
  start_slot : ∃ data, w.slot start = { content := .comment data, parent := some q.slot }
  start_fresh : ¬ b.Safe start
  finish_page : finish.page = q.page
  finish_slot : ∃ data, w.slot finish = { content := .comment data, parent := some q.slot }
  finish_fresh : ¬ b.Safe finish
  ne : start ≠ finish

theorem built_openRegion {label : Option String} (hs : b.Sound) (hq : b.Safe q)
    (h : (openRegion q label).run b = .ok (.ok r) w') :
    ∃ start finish, World.Opened D q b w' r start finish := by
  have hlt := World.lt_of_occupied (hq.occupied hs)
  rw [openRegion] at h
  generalize anchorTexts label = texts at h
  obtain ⟨text, text'⟩ := texts
  obtain ⟨start, w₁, h₁, h⟩ := ok_bind.1 h
  obtain ⟨w₅, h₅, rfl⟩ := ok_holding.1 h
  have hc₁ := createNode_spec hs hlt h₁
  have hb₁ : Built D q b w₁ := (Built.refl hs).create hc₁
  have hsafe : (w₁.pinned [.slot q, .slot start]).Safe start :=
    World.safe_of_pinned (by simp) hc₁.occupied_self
  have hb₁ := hb₁.pinned [.slot q, .slot start]
  obtain ⟨finish, w₂, h₂, h₅⟩ := ok_bind.1 h₅
  have hlt' : q.page.index < (w₁.pinned [.slot q, .slot start]).pages.size :=
    World.lt_of_occupied (hb₁.occupied hq)
  have hc₂ := createNode_spec hb₁.sound hlt' h₂
  have hb₂ := hb₁.create hc₂
  have hfinish : ¬ b.Safe finish := fun hf => hc₂.fresh (hb₁.safe hf)
  have hne : start ≠ finish := fun h => hc₂.fresh (h ▸ hsafe)
  have hsq : start ≠ q := fun h => hc₁.fresh (h ▸ hq)
  have hfq : finish ≠ q := fun h => hfinish (h ▸ hq)
  have hstart : w₂.slot start = { content := .comment text } :=
    (hc₂.slot_of_safe hsafe).trans hc₁.slot_self
  obtain ⟨e | _, w₃, h₃, h₅⟩ := ok_bind.1 h₅
  · exact absurd (ok_pure.1 h₅).1 (by simp)
  obtain ⟨ha₃, hb₃⟩ := hb₂.append (.inl rfl) (hb₂.occupied hq) hc₁.fresh (by rw [hstart])
    hc₁.page (by rw [hstart]; exact NodeType.noConfusion) h₃
  have hfin : w₃.slot finish = { content := .comment text' } :=
    (ha₃.other hfq hne.symm).trans hc₂.slot_self
  obtain ⟨e | _, w₄, h₄, h₅⟩ := ok_bind.1 h₅
  · exact absurd (ok_pure.1 h₅).1 (by simp)
  obtain ⟨ha₄, hb₄⟩ := hb₃.append (.inl rfl) (hb₃.occupied hq) hfinish (by rw [hfin])
    hc₂.page (by rw [hfin]; exact NodeType.noConfusion) h₄
  have h₅ := ok_set_bind.1 (ok_get_bind.1 h₅)
  obtain ⟨hr, rfl⟩ := ok_pure.1 h₅
  cases hr
  have hb₅ : Built D q b { w₄ with regions := w₄.regions.push ⟨start, finish, q⟩ } :=
    hb₄.regions (f := (·.push ⟨start, finish, q⟩)) fun _ region hr =>
      ⟨region, getElem?_push_of_some hr, rfl⟩
  have hslot : w₄.slot q =
      { b.slot q with children := (b.slot q).children ++ [start.slot, finish.slot] } := by
    have hq₂ : w₂.slot q = b.slot q :=
      (hc₂.slot_of_safe (hb₁.safe hq)).trans (hc₁.slot_of_safe hq)
    rw [ha₄.parent, ha₃.parent, hq₂]
    simp
  have hstart₄ : w₄.slot start =
      { content := .comment text, parent := some q.slot } := by
    rw [ha₄.other hsq hne, ha₃.inserted, hstart]
  have hfin₄ : w₄.slot finish =
      { content := .comment text', parent := some q.slot } := by
    rw [ha₄.inserted, hfin]
  have hsame : ∃ pages, w₄ = { b with pages, pins := [.slot q, .slot start] :: b.pins } := by
    obtain ⟨p₁, e₁⟩ := hc₁.eq
    obtain ⟨p₂, e₂⟩ := hc₂.eq
    obtain ⟨p₃, e₃⟩ := ha₃.eq
    obtain ⟨p₄, e₄⟩ := ha₄.eq
    exact ⟨_, by rw [e₄, e₃, e₂, e₁]; rfl⟩
  obtain ⟨pages, hsame⟩ := hsame
  have hpins : w₄.pins.tail = b.pins := by rw [hsame]; rfl
  exact ⟨start, finish, {
    built := hb₅.repin (by rw [hpins])
    cells := by show w₄.cells = _; rw [hsame]
    records := by show w₄.records = _; rw [hsame]
    sites := by show w₄.sites = _; rw [hsame]
    pins := hpins
    region := Array.getElem?_push_size
    slot := hslot
    start_page := hc₁.page
    start_slot := ⟨_, hstart₄⟩
    start_fresh := hc₁.fresh
    finish_page := hc₂.page
    finish_slot := ⟨_, hfin₄⟩
    finish_fresh := hfinish
    ne := hne }⟩

end LivePage
