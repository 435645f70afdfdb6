import LivePage.Proofs.Mount.Contents
import LivePage.Proofs.Mount.Growing

/-!
# Filling regions

A region is opened, its contents are realized in a fragment, and they are moved between its comments
before the region follows its observable. The three states on the way are `World.Opened`,
`World.Prepared` and `World.Filled`; in the end the region has grown with its contents
(`World.Prepared.grown`).
-/

namespace LivePage

variable {b w w' : World} {n q content start finish : PageNode} {D : CellId → Prop} {c : CellId}
  {l : RecordsId} {r : RegionId} {g : Mounts} {ms : List Teardown}

/-- A region has been opened behind the children of `q`, and a fragment `content` is there to
realize in what will stand in it. -/
structure World.Prepared (D : CellId → Prop) (q : PageNode) (b w : World) (r : RegionId)
    (start finish content : PageNode) : Prop where
  built : Built D q b w
  cells : w.cells = b.cells
  region : ∃ region, w.regions[r.index]? = some region ∧ region.anchors = (start, finish)
  slot : w.slot q = { b.slot q with children := (b.slot q).children ++ [start.slot, finish.slot] }
  start_page : start.page = q.page
  start_slot : ∃ data, w.slot start = { content := .comment data, parent := some q.slot }
  start_fresh : ¬ b.Safe start
  finish_page : finish.page = q.page
  finish_slot : ∃ data, w.slot finish = { content := .comment data, parent := some q.slot }
  finish_fresh : ¬ b.Safe finish
  ne : start ≠ finish
  content_page : content.page = q.page
  content_slot : w.slot content = { content := .fragment }
  content_occupied : w.Occupied content
  content_fresh : ¬ b.Safe content
  content_ne : content ≠ start ∧ content ≠ finish

/-- An open region is given a list and a fragment, which could as well be there before the list. -/
theorem World.Opened.prepared {w₁ w₂ : World} (ho : World.Opened D q b w₁ r start finish)
    (hq : b.Safe q) {pins pins' : List (List Entity)} (hp : b.pins <:+ pins)
    (hp' : b.pins <:+ pins')
    (hc : (createNode q.page .fragment).run { w₁.withList with pins := pins } = .ok content w₂) :
    ∃ u : World, { w₂ with pins := pins' } = u.withList ∧
      World.Prepared D q b u r start finish content ∧ u.records.size = w₁.records.size := by
  have hb := ho.built.repin hp
  have hsafe : ∀ {n : PageNode}, n.page = q.page →
      (∃ data, w₁.slot n = { content := .comment data, parent := some q.slot }) →
      World.Safe { w₁ with pins := pins } n := by
    rintro ⟨pg, i⟩ hn ⟨data, hs⟩
    obtain rfl : pg = q.page := hn
    refine (hb.safe hq).down (.parent ?_)
    show (w₁.slot ⟨q.page, i⟩).parent = _
    rw [hs]
  have hs := hsafe ho.start_page ho.start_slot
  have hf := hsafe ho.finish_page ho.finish_slot
  have hlist : World.withList { w₁ with pins := pins } = { w₁.withList with pins := pins } := rfl
  rw [← hlist] at hc
  obtain ⟨u, rfl, hcr⟩ := (createNode_spec hb.newRecords.sound
    (World.lt_of_occupied (hb.newRecords.occupied hq)) hc).of_withList hb.sound
  have hu := (hb.create hcr).repin hp'
  obtain ⟨page, rfl⟩ := hcr.eq
  refine ⟨_, rfl, {
    built := hu
    cells := ho.cells
    region := ⟨_, ho.region, rfl⟩
    slot := (hcr.slot_of_safe (hb.safe hq)).trans ho.slot
    start_page := ho.start_page
    start_slot := ?_
    start_fresh := ho.start_fresh
    finish_page := ho.finish_page
    finish_slot := ?_
    finish_fresh := ho.finish_fresh
    ne := ho.ne
    content_page := hcr.page
    content_slot := hcr.slot_self
    content_occupied := hcr.occupied_self
    content_fresh := fun h => hcr.fresh (hb.safe h)
    content_ne := ⟨fun h => hcr.fresh (h ▸ hs), fun h => hcr.fresh (h ▸ hf)⟩ }, rfl⟩
  · obtain ⟨data, hd⟩ := ho.start_slot
    exact ⟨data, (hcr.slot_of_safe hs).trans hd⟩
  · obtain ⟨data, hd⟩ := ho.finish_slot
    exact ⟨data, (hcr.slot_of_safe hf).trans hd⟩

namespace World.Prepared

variable {w₁ w₂ : World} (hp : World.Prepared D q b w r start finish content) (hq : b.Safe q)
  (hin : Grown D content w w₁ ms g)
include hp hq

theorem safe_of_child {n : PageNode} (hn : n.page = q.page)
    (hs : ∃ data, w.slot n = { content := .comment data, parent := some q.slot }) : w.Safe n := by
  obtain ⟨pg, i⟩ := n
  obtain ⟨data, hs⟩ := hs
  obtain rfl : pg = q.page := hn
  refine (hp.built.safe hq).down (.parent ?_)
  show (w.slot ⟨q.page, i⟩).parent = _
  rw [hs]

include hin

/-- The comments are where they were when the contents have grown. -/
theorem comment_after {n : PageNode} (hn : n.page = q.page) (hne : content ≠ n)
    (hs : ∃ data, w.slot n = { content := .comment data, parent := some q.slot }) :
    ∃ data, w₁.slot n = { content := .comment data, parent := some q.slot } :=
  (hin.built.slot (hp.safe_of_child hq hn hs) hne.symm).comment hs

/-- The contents stand in their fragment, and nothing stands between the comments of the region, which
are the last children of `q`. -/
theorem awaiting : ∃ region data, w₁.regions[r.index]? = some region ∧
    region.anchors = (start, finish) ∧
    w₁.slot start = { content := .comment data, parent := some q.slot } ∧
    w₁.slot content = { content := .fragment, children := g.tops } ∧
    (w₁.slot q).children = (b.slot q).children ++ [start.slot, finish.slot] ∧
    (w₁.page q.page).between start.slot finish.slot = [] ∧
    (w₁.slot q).children.idxOf? finish.slot = some ((b.slot q).children.length + 1) := by
  have hb₁ := hp.built.trans hin.built (.inr hp.content_fresh)
  have hqc : q ≠ content := fun h => hp.content_fresh (h ▸ hq)
  have hchildren : (w₁.slot q).children =
      (b.slot q).children ++ start.slot :: ([] ++ finish.slot :: []) := by
    rw [(hin.built.slot (hp.built.safe hq) hqc).children, hp.slot]
    rfl
  have hfragment : w₁.slot content = { content := .fragment, children := g.tops } := by
    have := hin.self
    rw [hp.content_slot] at this
    exact (this.eq_of_type (by simp [Content.type])).trans (by simp)
  obtain ⟨data, hs⟩ := hp.comment_after hq hin hp.start_page hp.content_ne.1 hp.start_slot
  obtain ⟨region₀, hr₀, ha₀⟩ := hp.region
  obtain ⟨region, hr, ha⟩ := hin.built.fixed.regions hr₀
  have hf : (w₁.page q.page).Forest := hb₁.sound.forest q.page
  refine ⟨region, data, hr, ha.trans ha₀, hs, hfragment, hchildren, hf.between_eq hchildren, ?_⟩
  have hnotin : finish.slot ∉ (b.slot q).children ++ [start.slot] := by
    have hn := hf.nodup q.slot
    rw [show ((w₁.page q.page).slot q.slot).children = _ from hchildren] at hn
    intro h
    simp only [List.nil_append, List.nodup_append, List.nodup_cons] at hn
    rcases List.mem_append.1 h with h | h
    · exact hn.2.2 _ h _ (by simp) rfl
    · exact hn.2.1.1 (by simpa [eq_comm] using h)
  rw [hchildren, List.nil_append, List.append_cons, Page.idxOf?_append_cons hnotin]
  simp

/-- Filling the region moves the contents between its comments. -/
theorem moves (hsplice : (r.splice content).run w₁ = .ok (.ok ()) w₂) :
    (w₁.reparented r q).Moves q [] content ((b.slot q).children.length + 1) w₂ ∧
      (w₁.slot q).children = (b.slot q).children ++ [start.slot, finish.slot] ∧
      (w₁.slot content).children = g.tops := by
  have hb₁ := hp.built.trans hin.built (.inr hp.content_fresh)
  obtain ⟨region, data, hr, ha, hs, hfragment, hchildren, hbetween, hindex⟩ := hp.awaiting hq hin
  obtain rfl : region.start = start := congrArg Prod.fst ha
  obtain rfl : region.finish = finish := congrArg Prod.snd ha
  rcases (ok_splice hr (hb₁.sound.forest _) (by rw [hfragment])).1 hsplice with
    ⟨h, -⟩ | ⟨q', hpage, hq', hfit, -, k, hk, rfl⟩
  · rw [hs] at h
    cases h
  obtain rfl : q' = q := by
    rw [hs] at hq'
    obtain ⟨pg, i⟩ := q
    obtain ⟨pg', i'⟩ := q'
    cases hpage.trans hp.start_page
    cases hq'
    rfl
  rw [hbetween] at hfit hk ⊢
  obtain rfl : k = (b.slot q').children.length + 1 := Option.some.inj (hk.symm.trans hindex)
  have hs' : (w₁.reparented r q').Sound := (hb₁.regions (f := fun regions => regions.modify r.index
    fun region => { region with parent := q' }) fun i region h =>
      ⟨_, getElem?_modify_of_some _ h, by split <;> rfl⟩).sound
  exact ⟨World.Fits.moves hs' (hb₁.occupied hq)
    ⟨hfit.page, hfit.nodup, hfit.parent, hfit.container, hfit.notUp⟩
    (by show (w₁.slot content).parent = none; rw [hfragment])
    (by show (w₁.slot content).content.type = .fragment; rw [hfragment]; rfl) _,
    hchildren, by rw [hfragment]⟩

omit hp hq in
theorem fresh_of_safe {n : PageNode} (hc : content.page = q.page) (hn : n.page = q.page)
    (hs : w.Safe n) : n.slot ∉ g.slots := by
  obtain ⟨pg, i⟩ := n
  obtain rfl : pg = q.page := hn
  intro hi
  have := hin.fresh hi
  rw [hc] at this
  exact this hs

end World.Prepared

/-- The region between `start` and `finish` has been filled with the trees `g`. -/
structure World.Filled (D : CellId → Prop) (q : PageNode) (b w : World) (r : RegionId)
    (start finish : PageNode) (g : Mounts) : Prop where
  built : Built D q b w
  region : ∃ region, w.regions[r.index]? = some region ∧ region.anchors = (start, finish)
  stand : g.Stand w q.page q.slot
  slot : ({ b.slot q with children :=
      (b.slot q).children ++ start.slot :: (g.tops ++ [finish.slot]) } : Slot).Alike
    (w.Unmarked D q) (w.slot q)
  start_slot : ∃ data, w.slot start = { content := .comment data, parent := some q.slot }
  finish_slot : ∃ data, w.slot finish = { content := .comment data, parent := some q.slot }

theorem World.Prepared.filled {w₁ w₂ : World}
    (hp : World.Prepared D q b w r start finish content) (hq : b.Safe q)
    (hin : Grown D content w w₁ ms g) (hsplice : (r.splice content).run w₁ = .ok (.ok ()) w₂) :
    World.Filled D q b w₂ r start finish g := by
  obtain ⟨hm, hchildren, htops⟩ := hp.moves hq hin hsplice
  have hb₁ := hp.built.trans hin.built (.inr hp.content_fresh)
  have hqc : q ≠ content := fun h => hp.content_fresh (h ▸ hq)
  have hmod : ∀ (i : Nat) (region : Region), w₁.regions[i]? = some region →
      ∃ region', (w₁.regions.modify r.index fun region => { region with parent := q })[i]? =
        some region' ∧ region'.anchors = region.anchors := fun i region h =>
    ⟨_, getElem?_modify_of_some _ h, by split <;> rfl⟩
  have hb₁' : Built D q b (w₁.reparented r q) :=
    hb₁.regions (f := fun regions => regions.modify r.index _) hmod
  have hstand : g.Stand (w₁.reparented r q) q.page content.slot := by
    have hfixed : w₁.Fixed (w₁.reparented r q) :=
      ⟨fun hs => ⟨_, hs, rfl⟩, fun hr => hmod _ _ hr, Nat.le_refl _⟩
    have hstand := hin.stand
    rw [hp.content_page] at hstand
    exact hstand.frame (x := True) hfixed (fun _ _ => .refl _ _) fun _ _ => rfl
  have hb₂ : Built D q b w₂ := hb₁'.moves (.inl rfl) hm hp.content_fresh fun i hi h =>
    fresh_of_safe (n := ⟨q.page, i⟩) hin hp.content_page rfl (hp.built.safe h)
      (Mounts.tops_subset (htops ▸ hi))
  have hcomment : ∀ {n : PageNode}, n.page = q.page → content ≠ n →
      (∃ data, w.slot n = { content := .comment data, parent := some q.slot }) →
      ∃ data, w₂.slot n = { content := .comment data, parent := some q.slot } := by
    intro n hn hcn hs
    have hng := fresh_of_safe hin hp.content_page hn (hp.safe_of_child hq hn hs)
    obtain ⟨data, hd⟩ := hp.comment_after hq hin hn hcn hs
    refine ⟨data, (hm.other ?_ hcn.symm fun _ => ⟨fun h => hng ?_, by simp⟩).trans hd⟩
    · rintro rfl
      exact (hb₁.sound.forest n.page).parent_ne
        (show ((w₁.page n.page).slot n.slot).parent = some n.slot from congrArg Slot.parent hd) rfl
    · exact Mounts.tops_subset (htops ▸ h)
  refine ⟨hb₂, ?_, hstand.moves hb₁'.sound hin.nodup htops hm, ?_,
    hcomment hp.start_page hp.content_ne.1 hp.start_slot,
    hcomment hp.finish_page hp.content_ne.2 hp.finish_slot⟩
  · obtain ⟨region, hr, ha⟩ := hp.region
    obtain ⟨region', hr', ha'⟩ := hin.built.fixed.regions hr
    obtain ⟨region'', hr'', ha''⟩ := hmod _ _ hr'
    obtain ⟨page, rfl⟩ := hm.eq
    exact ⟨region'', hr'', (ha''.trans ha').trans ha⟩
  · have htarget : w₂.slot q = { w₁.slot q with
        children := (b.slot q).children ++ start.slot :: (g.tops ++ [finish.slot]) } := by
      rw [hm.target]
      show ({ w₁.slot q with children := _ } : Slot) = _
      have hf : ((w₁.reparented r q).slot q).children.filter (· ∉ ([] : List Nat)) =
          (b.slot q).children ++ [start.slot, finish.slot] := by
        rw [← hchildren]
        simp
        rfl
      have ht : ((w₁.reparented r q).slot content).children = g.tops := htops
      have hlen := Nat.le_succ (b.slot q).children.length
      rw [hf, ht, List.take_append, List.drop_append, List.take_of_length_le hlen,
        List.drop_eq_nil_of_le hlen]
      simp
    have halike := (hin.built.slot (hp.built.safe hq) hqc)
    rw [hp.slot] at halike
    have hreg : w₂.Unmarked D q → w₁.Unmarked D q := by
      obtain ⟨page, rfl⟩ := hm.eq
      exact fun h => h
    rw [htarget]
    refine ⟨?_, fun hu => ?_⟩
    · have := halike.plain
      simp only [Slot.plain, Slot.mk.injEq] at this ⊢
      exact ⟨this.1, this.2.1, trivial⟩
    · rw [halike.eq (hreg hu)]

/-- A region has grown when it has been filled and follows its observable. -/
theorem World.Prepared.grown {w₁ w₂ : World}
    (hp : World.Prepared D q b w r start finish content) (hq : b.Safe q) (hk : b.Keyed)
    (hg : Growing D content w w₁ l g) (hsplice : (r.splice content).run w₁ = .ok (.ok ()) w₂)
    {pins : List (List Entity)} (hpins : b.pins <:+ pins) {surface : Surface}
    (hpage : surface.page = q.page) (c : CellId) :
    Grown D q b (World.following { w₂ with pins } surface c l (.region r))
      [{ driving := some c, children := l }]
      (.region ⟨start.slot, finish.slot, c, ⟨w₂.sites.size⟩, r, l⟩ g .nil) := by
  obtain ⟨pg, labelled⟩ := surface
  obtain rfl : pg = q.page := hpage
  have hin := hg.grown
  have hlist_fresh : b.records.size ≤ l.index := Nat.le_trans hp.built.evolves.records hg.new
  have hf := hp.filled hq hin hsplice
  obtain ⟨hm, -, -⟩ := hp.moves hq hin hsplice
  have hb₂ := hf.built.repin hpins
  have htear : g.teardowns q.page = w₁.recordsIn l := by
    rw [← hp.content_page]
    exact hin.teardowns
  have hl : World.ListAt { w₂ with pins } l (g.teardowns q.page) := by
    obtain ⟨page, rfl⟩ := hm.eq
    exact ⟨hg.lt, htear.symm⟩
  have hstand : g.Stand { w₂ with pins } q.page q.slot := by
    have hfixed : w₂.Fixed { w₂ with pins } :=
      ⟨fun hs => ⟨_, hs, rfl⟩, fun hr => ⟨_, hr, rfl⟩, Nat.le_refl _⟩
    exact hf.stand.frame (x := True) hfixed (fun _ _ => .refl _ _) fun _ _ => rfl
  have hnew : ∀ e, g.Covers q.page e → b.New e := fun e he =>
    hp.built.new (hin.new (by rwa [hp.content_page]))
  have hstart : (⟨q.page, start.slot⟩ : PageNode) = start := by rw [← hp.start_page]
  have hfinish : (⟨q.page, finish.slot⟩ : PageNode) = finish := by rw [← hp.finish_page]
  have hocc : ∀ {n : PageNode}, (∃ data, w₂.slot n = { content := .comment data, parent := some q.slot }) →
      w₂.Occupied n := by
    rintro n ⟨data, hd⟩
    exact ((hf.built.sound.forest n.page).up
      (show ((w₂.page n.page).slot n.slot).parent = some q.slot from congrArg Slot.parent hd)).1
  have hframe : ∀ e, World.Frames { w₂ with pins } (.region r) e →
      World.Exists { w₂ with pins } e ∧ b.New e := by
    obtain ⟨region, hr, ha⟩ := hf.region
    rintro e (rfl | ⟨region', hr', he⟩)
    · exact ⟨(Array.getElem?_eq_some_iff.1 hr).1, trivial⟩
    · cases hr.symm.trans hr'
      obtain rfl : region.start = start := congrArg Prod.fst ha
      obtain rfl : region.finish = finish := congrArg Prod.snd ha
      rcases he with rfl | rfl
      · exact ⟨hocc hf.start_slot, hp.start_fresh⟩
      · exact ⟨hocc hf.finish_slot, hp.finish_fresh⟩
  have hk₂ : World.Keyed { w₂ with pins } := hb₂.keyed hk
  have hfixed : World.Fixed { w₂ with pins }
      (World.following { w₂ with pins } ⟨q.page, labelled⟩ c l (.region r)) :=
    ⟨fun hs => ⟨_, getElem?_push_of_some hs, rfl⟩, fun hr => ⟨_, hr, rfl⟩, Nat.le_refl _⟩
  have hsize : w.sites.size ≤ w₂.sites.size := by
    obtain ⟨page, rfl⟩ := hm.eq
    exact hin.built.sites_size
  refine {
    built := hb₂.following hk₂ ⟨q.page, labelled⟩ hl hstand hlist_fresh hnew hframe c
    self := ?_
    stand := ⟨?_, hstand.frame (x := True) hfixed (fun _ _ => .refl _ _) fun _ _ => rfl, trivial⟩
    teardowns := rfl
    fresh := fun {i} hi => ?_
    nodup := ?_
    lists := fun {k} hk => ?_
    nodupLists := ?_
    sites := fun {s} hs => ?_
    nodupSites := ?_
    owns := fun {d key r'} hr hpg => ?_ }
  · have hu : World.Unmarked D (World.following { w₂ with pins } ⟨q.page, labelled⟩ c l
        (.region r)) q → w₂.Unmarked D q :=
      fun hu d s hd hs => hu d s hd (registry_subset_following hk₂ hs)
    exact hf.slot.mono hu
  · obtain ⟨region, hr, ha⟩ := hf.region
    exact ⟨by rw [hstart]; exact hf.start_slot, by rw [hfinish]; exact hf.finish_slot,
      ⟨region, hr, by rw [ha, hstart, hfinish]⟩, ⟨hl.lt, hl.records⟩,
      siteAt_following { w₂ with pins } ⟨q.page, labelled⟩ c l (.region r)⟩
  · simp only [Mounts.slots, List.append_nil, List.mem_cons] at hi
    rcases hi with rfl | rfl | hi
    · rw [hstart]
      exact hp.start_fresh
    · rw [hfinish]
      exact hp.finish_fresh
    · exact hnew (.slot ⟨q.page, i⟩) ⟨rfl, hi⟩
  · simp only [Mounts.slots, List.append_nil, List.nodup_cons, List.mem_cons, not_or]
    refine ⟨⟨fun he => hp.ne ?_, ?_⟩, ?_, hin.nodup⟩
    · rw [← hstart, ← hfinish, he]
    · exact fresh_of_safe hin hp.content_page hp.start_page
        (hp.safe_of_child hq hp.start_page hp.start_slot)
    · exact fresh_of_safe hin hp.content_page hp.finish_page
        (hp.safe_of_child hq hp.finish_page hp.finish_slot)
  · simp only [Mounts.lists, List.append_nil, List.mem_cons] at hk
    rcases hk with rfl | hk
    · exact hlist_fresh
    · exact hnew (.records k) hk
  · simpa [Mounts.lists] using ⟨hg.fresh, hin.nodupLists⟩
  · simp only [Mounts.sites, List.append_nil, List.mem_cons] at hs
    rcases hs with rfl | hs
    · exact hf.built.sites_size
    · exact hnew (.site s) hs
  · simp only [Mounts.sites, List.append_nil, List.nodup_cons]
    refine ⟨fun hs => ?_, hin.nodupSites⟩
    exact Nat.lt_irrefl _ (hf.stand.exists_of_covers (e := .site _) hf.built.sound hs)
  · have hcells : w₂.cells = w₁.cells := by
      obtain ⟨page, rfl⟩ := hm.eq
      rfl
    have hcell : ∀ d, World.cell { w₂ with pins } d = w₁.cell d := fun d => by
      simp [World.cell, hcells]
    rcases mem_registry_following hk₂ hr with hr | ⟨rfl, he⟩
    · rw [hcell] at hr
      rcases hin.owns hr hpg with hr | ho
      · left
        have : w.cell d = b.cell d := by simp [World.cell, hp.cells]
        rwa [this] at hr
      · rw [hp.content_page] at ho
        exact .inr (.inr (.inl ho))
    · exact .inr (.inl ⟨rfl, he⟩)

end LivePage
