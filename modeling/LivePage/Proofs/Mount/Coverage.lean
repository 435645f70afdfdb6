import LivePage.Proofs.Mount.Basic

/-!
# What trees cover

The page nodes, lists of records, places and regions of trees that stand in a world are there, and
the places of the trees lead to nothing else (`Mounts.Stand.reaches`). The nodes are below the node
that the trees stand below.
-/

namespace LivePage

variable {w : World} {pg : PageId} {q i j : Nat} {l : RecordsId} {s : SiteId} {c : CellId}
  {e : Entity} {g inner : Mounts} {m : Teardown}

namespace Mounts

/-- The thing belongs to the trees. -/
def Covers (pg : PageId) (g : Mounts) : Entity → Prop
  | .slot n => n.page = pg ∧ n.slot ∈ g.slots
  | .records l => l ∈ g.lists
  | .region r => r ∈ g.regions
  | .site s => s ∈ g.sites
  | .cell _ | .boundary _ | .handler _ => False

/-- What belongs to a part belongs to the whole. -/
theorem Covers.mono {g' : Mounts} (h : g.Covers pg e) (hslots : ∀ i ∈ g.slots, i ∈ g'.slots)
    (hlists : ∀ l ∈ g.lists, l ∈ g'.lists) (hregions : ∀ r ∈ g.regions, r ∈ g'.regions)
    (hsites : ∀ s ∈ g.sites, s ∈ g'.sites) : g'.Covers pg e := by
  cases e with
  | slot n => exact ⟨h.1, hslots _ h.2⟩
  | records l => exact hlists _ h
  | region r => exact hregions _ h
  | site s => exact hsites _ h
  | _ => exact h

/-! ## Nodes -/

/-- The parent of a node of the trees is another one of them, or the node that they stand below. -/
theorem Stand.parent (h : g.Stand w pg q) (hi : i ∈ g.slots) :
    ∃ p, (w.slot ⟨pg, i⟩).parent = some p ∧ (p = q ∨ p ∈ g.slots) := by
  induction g generalizing q with
  | nil => exact absurd hi List.not_mem_nil
  | text j data l rest ih =>
    obtain ⟨h1, -, h3⟩ := h
    rcases List.mem_cons.1 hi with rfl | hi
    · exact ⟨q, by rw [h1], .inl rfl⟩
    · obtain ⟨p, hp, hpq⟩ := ih h3 hi
      exact ⟨p, hp, hpq.imp_right fun h => List.mem_cons_of_mem _ h⟩
  | element el inner rest ihi ihr =>
    obtain ⟨h1, h2, h3⟩ := h
    simp only [slots, List.mem_cons, List.mem_append] at hi ⊢
    rcases hi with rfl | hi | hi
    · exact ⟨q, h1.parent, .inl rfl⟩
    · obtain ⟨p, hp, rfl | hpq⟩ := ihi h2 hi
      · exact ⟨_, hp, .inr (.inl rfl)⟩
      · exact ⟨p, hp, .inr (.inr (.inl hpq))⟩
    · obtain ⟨p, hp, hpq⟩ := ihr h3 hi
      exact ⟨p, hp, hpq.imp_right fun h => .inr (.inr h)⟩
  | region r inner rest ihi ihr =>
    obtain ⟨h1, h2, h3⟩ := h
    simp only [slots, List.mem_cons, List.mem_append] at hi ⊢
    rcases hi with rfl | rfl | hi | hi
    · obtain ⟨data, h⟩ := h1.start
      exact ⟨q, by rw [h], .inl rfl⟩
    · obtain ⟨data, h⟩ := h1.finish
      exact ⟨q, by rw [h], .inl rfl⟩
    · obtain ⟨p, hp, hpq⟩ := ihi h2 hi
      exact ⟨p, hp, hpq.imp_right fun h => .inr (.inr (.inl h))⟩
    · obtain ⟨p, hp, hpq⟩ := ihr h3 hi
      exact ⟨p, hp, hpq.imp_right fun h => .inr (.inr (.inr h))⟩
  | group l inner rest ihi ihr =>
    obtain ⟨-, h2, h3⟩ := h
    simp only [slots, List.mem_append] at hi ⊢
    rcases hi with hi | hi
    · obtain ⟨p, hp, hpq⟩ := ihi h2 hi
      exact ⟨p, hp, hpq.imp_right .inl⟩
    · obtain ⟨p, hp, hpq⟩ := ihr h3 hi
      exact ⟨p, hp, hpq.imp_right .inr⟩

/-- The children of a node of the trees belong to them. -/
theorem Stand.child_mem (h : g.Stand w pg q) (hi : i ∈ g.slots)
    (hj : j ∈ (w.slot ⟨pg, i⟩).children) : j ∈ g.slots := by
  induction g generalizing q with
  | nil => exact absurd hi List.not_mem_nil
  | text k data l rest ih =>
    obtain ⟨h1, -, h3⟩ := h
    rcases List.mem_cons.1 hi with rfl | hi
    · rw [h1] at hj
      cases hj
    · exact List.mem_cons_of_mem _ (ih h3 hi)
  | element el inner rest ihi ihr =>
    obtain ⟨h1, h2, h3⟩ := h
    simp only [slots, List.mem_cons, List.mem_append] at hi ⊢
    rcases hi with rfl | hi | hi
    · rw [h1.children] at hj
      exact .inr (.inl (tops_subset hj))
    · exact .inr (.inl (ihi h2 hi))
    · exact .inr (.inr (ihr h3 hi))
  | region r inner rest ihi ihr =>
    obtain ⟨h1, h2, h3⟩ := h
    simp only [slots, List.mem_cons, List.mem_append] at hi ⊢
    rcases hi with rfl | rfl | hi | hi
    · obtain ⟨data, h⟩ := h1.start
      rw [h] at hj
      cases hj
    · obtain ⟨data, h⟩ := h1.finish
      rw [h] at hj
      cases hj
    · exact .inr (.inr (.inl (ihi h2 hi)))
    · exact .inr (.inr (.inr (ihr h3 hi)))
  | group l inner rest ihi ihr =>
    obtain ⟨-, h2, h3⟩ := h
    simp only [slots, List.mem_append] at hi ⊢
    exact hi.imp (ihi h2) (ihr h3)

theorem Stand.occupied (hs : w.Sound) (h : g.Stand w pg q) (hi : i ∈ g.slots) :
    w.Occupied ⟨pg, i⟩ := by
  obtain ⟨p, hp, -⟩ := h.parent hi
  exact ((hs.forest pg).up hp).1

theorem Stand.hangs (h : g.Stand w pg q) : (w.page pg).Hangs q g.slots := fun _ hi => h.parent hi

theorem Stand.up (hs : w.Sound) (h : g.Stand w pg q) (hi : i ∈ g.slots) :
    (w.page pg).Up i q :=
  h.hangs.up (hs.forest pg) hi

/-! ## Records -/

theorem mem_of_teardowns (hm : m ∈ g.teardowns pg) :
    m.children ∈ g.lists ∧ ∀ n, m.element = some n → g.Covers pg (.slot n) := by
  induction g with
  | nil => exact absurd hm List.not_mem_nil
  | text j data l rest ih =>
    rcases List.mem_cons.1 hm with rfl | hm
    · exact ⟨by simp [lists], fun _ h => by cases h⟩
    · exact ⟨by simp [lists, (ih hm).1], fun n hn => ((ih hm).2 n hn).imp_right (by simp_all [slots])⟩
  | element el inner rest ihi ihr =>
    rcases List.mem_cons.1 hm with rfl | hm
    · refine ⟨by simp [lists, MountedElement.teardown], fun n hn => ?_⟩
      cases hn
      exact ⟨rfl, by simp [slots]⟩
    · exact ⟨by simp [lists, (ihr hm).1],
        fun n hn => ((ihr hm).2 n hn).imp_right (by simp_all [slots])⟩
  | region r inner rest ihi ihr =>
    rcases List.mem_cons.1 hm with rfl | hm
    · exact ⟨by simp [lists, MountedRegion.teardown], fun _ h => by cases h⟩
    · exact ⟨by simp [lists, (ihr hm).1],
        fun n hn => ((ihr hm).2 n hn).imp_right (by simp_all [slots])⟩
  | group l inner rest ihi ihr =>
    rcases List.mem_cons.1 hm with rfl | hm
    · exact ⟨by simp [lists], fun _ h => by cases h⟩
    · exact ⟨by simp [lists, (ihr hm).1],
        fun n hn => ((ihr hm).2 n hn).imp_right (by simp_all [slots])⟩

/-- A list of the trees holds the records of some of them. -/
theorem Stand.listAt (h : g.Stand w pg q) (hl : l ∈ g.lists) :
    ∃ part : Mounts, w.ListAt l (part.teardowns pg) ∧ (∀ i ∈ part.slots, i ∈ g.slots) ∧
      ∀ l ∈ part.lists, l ∈ g.lists := by
  induction g generalizing q with
  | nil => exact absurd hl List.not_mem_nil
  | text j data l' rest ih =>
    obtain ⟨-, h2, h3⟩ := h
    rcases List.mem_cons.1 hl with rfl | hl
    · exact ⟨nil, h2, by simp [slots], by simp [lists]⟩
    · obtain ⟨part, hp, hs, hls⟩ := ih h3 hl
      exact ⟨part, hp, by simp_all [slots], by simp_all [lists]⟩
  | element el inner rest ihi ihr =>
    obtain ⟨h1, h2, h3⟩ := h
    simp only [lists, List.mem_cons, List.mem_append] at hl
    rcases hl with rfl | hl | hl
    · exact ⟨inner, h1.records, by simp_all [slots], by simp_all [lists]⟩
    · obtain ⟨part, hp, hs, hls⟩ := ihi h2 hl
      exact ⟨part, hp, by simp_all [slots], by simp_all [lists]⟩
    · obtain ⟨part, hp, hs, hls⟩ := ihr h3 hl
      exact ⟨part, hp, by simp_all [slots], by simp_all [lists]⟩
  | region r inner rest ihi ihr =>
    obtain ⟨h1, h2, h3⟩ := h
    simp only [lists, List.mem_cons, List.mem_append] at hl
    rcases hl with rfl | hl | hl
    · exact ⟨inner, h1.records, by simp_all [slots], by simp_all [lists]⟩
    · obtain ⟨part, hp, hs, hls⟩ := ihi h2 hl
      exact ⟨part, hp, by simp_all [slots], by simp_all [lists]⟩
    · obtain ⟨part, hp, hs, hls⟩ := ihr h3 hl
      exact ⟨part, hp, by simp_all [slots], by simp_all [lists]⟩
  | group l' inner rest ihi ihr =>
    obtain ⟨h1, h2, h3⟩ := h
    simp only [lists, List.mem_cons, List.mem_append] at hl
    rcases hl with rfl | hl | hl
    · exact ⟨inner, h1, by simp_all [slots], by simp_all [lists]⟩
    · obtain ⟨part, hp, hs, hls⟩ := ihi h2 hl
      exact ⟨part, hp, by simp_all [slots], by simp_all [lists]⟩
    · obtain ⟨part, hp, hs, hls⟩ := ihr h3 hl
      exact ⟨part, hp, by simp_all [slots], by simp_all [lists]⟩

/-- The records in a list of the trees lead to lists and elements of the trees. -/
theorem Stand.of_record (h : g.Stand w pg q) (hl : l ∈ g.lists) (hm : m ∈ w.recordsIn l) :
    m.children ∈ g.lists ∧ ∀ n, m.element = some n → g.Covers pg (.slot n) := by
  obtain ⟨part, hp, hs, hls⟩ := h.listAt hl
  rw [hp.records] at hm
  obtain ⟨hc, he⟩ := mem_of_teardowns hm
  exact ⟨hls _ hc, fun n hn => (he n hn).imp_right (hs _)⟩

end Mounts

/-! ## Places -/

/-- What a target is, or what stands around it. -/
def World.Frames (w : World) : Target → Entity → Prop
  | .contents n, e => e = .slot n
  | .region r, e => e = .region r ∨ ∃ region, w.regions[r.index]? = some region ∧
      (e = .slot region.start ∨ e = .slot region.finish)

/-- A place leads to its records, to what the trees in it cover, and to its target. -/
theorem World.SiteAt.reaches {t : Target} (hs : w.SiteAt s pg c l t)
    (hl : w.ListAt l (inner.teardowns pg)) (h : inner.Stand w pg q) (he : w.Reaches s e) :
    e = .records l ∨ inner.Covers pg e ∨ w.Frames t e := by
  obtain ⟨site, hsite, rfl, rfl, rfl, rfl⟩ := hs
  have hmem : ∀ {l : RecordsId} {m : Teardown}, l = site.records ∨ l ∈ inner.lists →
      m ∈ w.recordsIn l →
      m.children ∈ inner.lists ∧ ∀ n, m.element = some n → inner.Covers site.surface.page (.slot n) := by
    rintro l m (rfl | hli) hm
    · rw [hl.records] at hm
      exact Mounts.mem_of_teardowns hm
    · exact h.of_record hli hm
  have hlist : ∀ {l : RecordsId}, .records l = Entity.records site.records ∨
      inner.Covers site.surface.page (.records l) ∨ w.Frames site.target (.records l) →
      l = site.records ∨ l ∈ inner.lists := by
    rintro l (h | h | h)
    · cases h
      exact .inl rfl
    · exact .inr h
    · cases ht : site.target with
      | contents n => rw [ht] at h; cases h
      | region r =>
        rw [ht] at h
        rcases h with h | ⟨_, _, h | h⟩ <;> cases h
  have hregion : ∀ {r : RegionId} {region : Region}, w.Reaches s (.region r) →
      w.regions[r.index]? = some region →
      site.target = .region r := by
    intro r region hr hg
    cases hr with
    | region hs ht =>
      rw [hsite] at hs
      cases hs
      exact ht
  induction he with
  | records hs =>
    rw [hsite] at hs
    cases hs
    exact .inl rfl
  | region hs ht =>
    rw [hsite] at hs
    cases hs
    refine .inr (.inr ?_)
    rw [ht]
    exact .inl rfl
  | contents hs ht =>
    rw [hsite] at hs
    cases hs
    refine .inr (.inr ?_)
    rw [ht]
    exact rfl
  | start hr hg _ =>
    refine .inr (.inr ?_)
    rw [hregion hr hg]
    exact .inr ⟨_, hg, .inl rfl⟩
  | finish hr hg _ =>
    refine .inr (.inr ?_)
    rw [hregion hr hg]
    exact .inr ⟨_, hg, .inr rfl⟩
  | element _ hm hn ih => exact .inr (.inl ((hmem (hlist ih) hm).2 _ hn))
  | nested _ hm ih => exact .inr (.inl (hmem (hlist ih) hm).1)

namespace Mounts

/-- The places of trees lead to nothing but what belongs to the trees. -/
theorem Stand.reaches (h : g.Stand w pg q) (hs : s ∈ g.sites) (he : w.Reaches s e) :
    g.Covers pg e := by
  induction g generalizing q with
  | nil => exact absurd hs List.not_mem_nil
  | text j data l rest ih =>
    exact (ih h.2.2 hs).mono (fun _ h => List.mem_cons_of_mem _ h)
      (fun _ h => List.mem_cons_of_mem _ h) (fun _ h => h) fun _ h => h
  | element el inner rest ihi ihr =>
    obtain ⟨h1, h2, h3⟩ := h
    simp only [sites, List.mem_append, Option.mem_toList] at hs
    rcases hs with hs | hs | hs
    · obtain ⟨⟨c, s'⟩, hd, rfl⟩ := Option.map_eq_some_iff.1 hs
      rcases (h1.site hd).reaches h1.records h2 he with rfl | hc | hf
      · simp [Covers, lists]
      · exact hc.mono (by simp_all [slots]) (by simp_all [lists]) (by simp_all [regions])
          (by simp_all [sites])
      · cases hf
        simp [Covers, slots]
    · exact (ihi h2 hs).mono (by simp_all [slots]) (by simp_all [lists]) (by simp_all [regions])
        (by simp_all [sites])
    · exact (ihr h3 hs).mono (by simp_all [slots]) (by simp_all [lists]) (by simp_all [regions])
        (by simp_all [sites])
  | region r inner rest ihi ihr =>
    obtain ⟨h1, h2, h3⟩ := h
    simp only [sites, List.mem_cons, List.mem_append] at hs
    rcases hs with rfl | hs | hs
    · rcases h1.site.reaches h1.records h2 he with rfl | hc | rfl | ⟨region, hr, hf⟩
      · simp [Covers, lists]
      · exact hc.mono (by simp_all [slots]) (by simp_all [lists]) (by simp_all [regions])
          (by simp_all [sites])
      · simp [Covers, regions]
      · obtain ⟨region', hr', ha⟩ := h1.region
        rw [hr] at hr'
        cases hr'
        have hs : region.start = _ := congrArg Prod.fst ha
        have hf' : region.finish = _ := congrArg Prod.snd ha
        rcases hf with rfl | rfl
        · simp [Covers, hs, slots]
        · simp [Covers, hf', slots]
    · exact (ihi h2 hs).mono (by simp_all [slots]) (by simp_all [lists]) (by simp_all [regions])
        (by simp_all [sites])
    · exact (ihr h3 hs).mono (by simp_all [slots]) (by simp_all [lists]) (by simp_all [regions])
        (by simp_all [sites])
  | group l inner rest ihi ihr =>
    obtain ⟨-, h2, h3⟩ := h
    rcases List.mem_append.1 hs with hs | hs
    · exact (ihi h2 hs).mono (by simp_all [slots]) (by simp_all [lists]) (by simp_all [regions])
        (by simp_all [sites])
    · exact (ihr h3 hs).mono (by simp_all [slots]) (by simp_all [lists]) (by simp_all [regions])
        (by simp_all [sites])

/-- What belongs to the trees is there. -/
theorem Stand.exists_of_covers (hs : w.Sound) (h : g.Stand w pg q) (he : g.Covers pg e) :
    w.Exists e := by
  cases e with
  | slot n =>
    obtain ⟨rfl, hn⟩ := he
    exact h.occupied hs hn
  | records l =>
    obtain ⟨part, hp, -, -⟩ := h.listAt he
    exact hp.lt
  | region r =>
    show r.index < w.regions.size
    induction g generalizing q with
    | nil => exact absurd he List.not_mem_nil
    | text j data l rest ih => exact ih h.2.2 he
    | element el inner rest ihi ihr =>
      exact (List.mem_append.1 he).elim (ihi h.2.1) (ihr h.2.2)
    | region m inner rest ihi ihr =>
      obtain ⟨h1, h2, h3⟩ := h
      simp only [Covers, regions, List.mem_cons, List.mem_append] at he
      rcases he with rfl | he | he
      · obtain ⟨region, hr, -⟩ := h1.region
        exact (Array.getElem?_eq_some_iff.1 hr).1
      · exact ihi h2 he
      · exact ihr h3 he
    | group l inner rest ihi ihr =>
      exact (List.mem_append.1 he).elim (ihi h.2.1) (ihr h.2.2)
  | site s =>
    show s.index < w.sites.size
    induction g generalizing q with
    | nil => exact absurd he List.not_mem_nil
    | text j data l rest ih => exact ih h.2.2 he
    | element el inner rest ihi ihr =>
      obtain ⟨h1, h2, h3⟩ := h
      simp only [Covers, sites, List.mem_append, Option.mem_toList] at he
      rcases he with he | he | he
      · obtain ⟨⟨c, s'⟩, hd, rfl⟩ := Option.map_eq_some_iff.1 he
        obtain ⟨site, hsite, -⟩ := h1.site hd
        exact (Array.getElem?_eq_some_iff.1 hsite).1
      · exact ihi h2 he
      · exact ihr h3 he
    | region m inner rest ihi ihr =>
      obtain ⟨h1, h2, h3⟩ := h
      simp only [Covers, sites, List.mem_cons, List.mem_append] at he
      rcases he with rfl | he | he
      · obtain ⟨site, hsite, -⟩ := h1.site
        exact (Array.getElem?_eq_some_iff.1 hsite).1
      · exact ihi h2 he
      · exact ihr h3 he
    | group l inner rest ihi ihr =>
      exact (List.mem_append.1 he).elim (ihi h.2.1) (ihr h.2.2)
  | _ => trivial

end Mounts

end LivePage
