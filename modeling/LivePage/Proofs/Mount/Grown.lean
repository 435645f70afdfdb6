import LivePage.Proofs.Mount.Binding
import LivePage.Proofs.Mount.Placing

/-!
# Trees that have grown

`Grown D q b w ms g` says that the world `w` comes from `b` by building below `q`, that the trees `g`
have grown there behind the children that `q` had, and that they consist of new things only. What
grows piece by piece grows as a whole (`Grown.append`).
-/

namespace LivePage

variable {b w w' : World} {pg : PageId} {q q' i : Nat} {n m : PageNode} {D : CellId → Prop}
  {ms ms' : List Teardown} {g g' : Mounts} {l : RecordsId} {held : List Entity}

/-- The trees `g` with the records `ms` have grown below `q` since `b`. -/
structure Grown (D : CellId → Prop) (q : PageNode) (b w : World) (ms : List Teardown) (g : Mounts) :
    Prop where
  built : Built D q b w
  self : ({ b.slot q with children := (b.slot q).children ++ g.tops } : Slot).Alike
    (w.Unmarked D q) (w.slot q)
  stand : g.Stand w q.page q.slot
  teardowns : g.teardowns q.page = ms
  fresh {i : Nat} : i ∈ g.slots → ¬ b.Safe ⟨q.page, i⟩
  nodup : g.slots.Nodup
  lists {l : RecordsId} : l ∈ g.lists → b.records.size ≤ l.index
  nodupLists : g.lists.Nodup
  sites {s : SiteId} : s ∈ g.sites → b.sites.size ≤ s.index
  nodupSites : g.sites.Nodup
  owns {c : CellId} {key : Nat} {r : Reaction} : (key, r) ∈ (w.cell c).registry → r.onPage →
    (key, r) ∈ (b.cell c).registry ∨ g.Owns q.page c r

namespace Mounts

/-- The node that trees stand below is not one of theirs. -/
theorem Stand.not_mem (hs : w.Sound) (h : g.Stand w pg q) : q ∉ g.slots :=
  h.hangs.not_mem (hs.forest pg)

/-- What is below a safe node is safe. -/
theorem Stand.safe (hs : w.Sound) (h : g.Stand w pg q) (hq : w.Safe ⟨pg, q⟩) (hi : i ∈ g.slots) :
    w.Safe ⟨pg, i⟩ :=
  hq.down (h.up hs hi)

theorem Stand.lt_of_lists (h : g.Stand w pg q) (hl : l ∈ g.lists) :
    l.index < w.records.size := by
  obtain ⟨part, hp, -, -⟩ := h.listAt hl
  exact hp.lt

/-- Trees move to another place together with their topmost nodes. -/
theorem Stand.moved (hw : w.Fixed w')
    (htop : ∀ i ∈ g.tops, w'.slot ⟨pg, i⟩ = { w.slot ⟨pg, i⟩ with parent := some q' })
    (hdeep : ∀ i ∈ g.deep, w'.slot ⟨pg, i⟩ = w.slot ⟨pg, i⟩)
    (hlist : ∀ l ∈ g.lists, w'.recordsIn l = w.recordsIn l) (h : g.Stand w pg q) :
    g.Stand w' pg q' := by
  have hat : ∀ {l ms}, w'.recordsIn l = w.recordsIn l → w.ListAt l ms → w'.ListAt l ms :=
    fun hl h => ⟨Nat.lt_of_lt_of_le h.lt hw.size, hl.trans h.records⟩
  induction g with
  | nil => trivial
  | text j data l rest ih =>
    obtain ⟨h1, h2, h3⟩ := h
    simp only [deep, tops, lists, List.forall_mem_cons] at htop hdeep hlist
    refine ⟨?_, hat hlist.1 h2, ih htop.2 hdeep hlist.2 h3⟩
    rw [htop.1, h1]
  | element e inner rest ihi ihr =>
    obtain ⟨h1, h2, h3⟩ := h
    simp only [deep, tops, lists, List.forall_mem_cons, List.forall_mem_append] at htop hdeep hlist
    refine ⟨⟨?_, ?_, ?_, hat hlist.1 h1.records, fun hd => (h1.site hd).fixed hw⟩, ?_,
      ihr htop.2 hdeep.2 hlist.2.2 h3⟩
    · rw [htop.1]
    · rw [htop.1]
      exact h1.children
    · rw [htop.1]
      exact h1.content
    · refine h2.frame (x := True) hw (fun i hi => ?_) hlist.2.1
      rw [hdeep.1 i hi]
      exact .refl _ _
  | region r inner rest ihi ihr =>
    obtain ⟨h1, h2, h3⟩ := h
    simp only [deep, tops, lists, List.forall_mem_cons, List.forall_mem_append] at htop hdeep hlist
    refine ⟨⟨?_, ?_, ?_, hat hlist.1 h1.records, h1.site.fixed hw⟩,
      ihi htop.2.1 hdeep.1 hlist.2.1 h2, ihr htop.2.2.2 hdeep.2 hlist.2.2 h3⟩
    · obtain ⟨data, h⟩ := h1.start
      exact ⟨data, by rw [htop.1, h]⟩
    · obtain ⟨data, h⟩ := h1.finish
      exact ⟨data, by rw [htop.2.2.1, h]⟩
    · obtain ⟨region, hr, ha⟩ := h1.region
      obtain ⟨region', hr', ha'⟩ := hw.regions hr
      exact ⟨region', hr', ha'.trans ha⟩
  | group l inner rest ihi ihr =>
    obtain ⟨h1, h2, h3⟩ := h
    simp only [deep, tops, lists, List.forall_mem_cons, List.forall_mem_append] at htop hdeep hlist
    exact ⟨hat hlist.1 h1, ihi htop.1 hdeep.1 hlist.2.1 h2, ihr htop.2 hdeep.2 hlist.2.2 h3⟩

end Mounts

namespace Grown

/-- Nothing has grown, and nothing is registered anew. -/
theorem nil (h : Built D n b w) (hslot : (b.slot n).Alike (w.Unmarked D n) (w.slot n))
    (hreg : ∀ c, ∀ s ∈ (w.cell c).registry, s.2.onPage → s ∈ (b.cell c).registry) :
    Grown D n b w [] .nil where
  built := h
  self := by simpa [Mounts.tops] using hslot
  stand := trivial
  teardowns := rfl
  fresh := by simp [Mounts.slots]
  nodup := List.nodup_nil
  lists := by simp [Mounts.lists]
  nodupLists := List.nodup_nil
  sites := by simp [Mounts.sites]
  nodupSites := List.nodup_nil
  owns hr hp := .inl (hreg _ _ hr hp)

theorem refl (hs : b.Sound) : Grown D n b b [] .nil :=
  nil (.refl hs) (.refl _ _) fun _ _ h _ => h

theorem repin (h : Grown D n b w ms g) {pins : List (List Entity)} (hp : b.pins <:+ pins) :
    Grown D n b { w with pins := pins } ms g :=
  { h with
    built := h.built.repin hp
    stand := h.stand.repin pins }

/-- What has grown while something was pinned. -/
theorem of_pinned (h : Grown D n (b.pinned held) w ms g) (hs : b.Sound) :
    Grown D n b w.unpinned ms g :=
  { h with
    built := h.built.of_pinned hs
    stand := h.stand.repin _
    fresh := fun hi hb => h.fresh hi (hb.pinned hs held) }

/-- Changes that are only seen by what reads, such as entries of the log. -/
theorem quiet (h : Grown D n b w ms g) (hq : Quiet w w') : Grown D n b w' ms g := by
  have hslot : ∀ m, w'.slot m = w.slot m := fun m => by rw [World.slot, hq.page, World.slot]
  have hcell := hq.cell
  refine { h with
    built := h.built.murmur hq.murmur
    self := ?_
    stand := ?_
    owns := fun hr => h.owns (by rwa [hcell] at hr) }
  · rw [hslot]
    exact h.self.mono (World.unmarked_congr fun c => by rw [hcell]).1
  · refine h.stand.frame (x := True) hq.evolves.fixed (fun i _ => ?_) fun l _ => ?_
    · rw [hslot]
      exact .refl _ _
    · rw [World.recordsIn, hq.records, World.recordsIn]

/-- What grows behind trees that have grown. -/
theorem append (h : Grown D n b w ms g) (hn : w.Safe n) (h' : Grown D n w w' ms' g') :
    Grown D n b w' (ms ++ ms') (g ++ g') := by
  have hold : ∀ i ∈ g.slots, w.Safe ⟨n.page, i⟩ := fun i hi =>
    h.stand.safe h.built.sound hn hi
  have hne : ∀ i ∈ g.slots, (⟨n.page, i⟩ : PageNode) ≠ n := by
    intro i hi he
    obtain rfl : i = n.slot := congrArg PageNode.slot he
    exact h.stand.not_mem h.built.sound hi
  refine ⟨h.built.trans h'.built (.inl rfl), ?_, ?_, ?_, fun hi => ?_, ?_, fun hl => ?_, ?_,
    fun hs => ?_, ?_, fun hr hp => ?_⟩
  · have hself := h.self.mono h'.built.unmarked
    generalize b.slot n = s at hself
    refine ⟨?_, fun hu => ?_⟩
    · have h1 := h'.self.plain
      have h2 := hself.plain
      simp only [Slot.plain, Slot.mk.injEq, Mounts.tops_append] at h1 h2 ⊢
      exact ⟨h1.1.trans h2.1, h1.2.1.trans h2.2.1, by rw [h1.2.2, h2.2.2, List.append_assoc]⟩
    · rw [h'.self.eq hu, hself.eq hu]
      simp
  · refine Mounts.stand_append.2 ⟨?_, h'.stand⟩
    refine h.stand.frame (x := False) h'.built.fixed (fun i hi => ?_) fun l hl => ?_
    · exact (h'.built.slot (hold i hi) (hne i hi)).mono False.elim
    · exact h'.built.lists (h.stand.lt_of_lists hl)
  · rw [Mounts.teardowns_append, h.teardowns, h'.teardowns]
  · rcases List.mem_append.1 (Mounts.slots_append .. ▸ hi) with hi | hi
    · exact h.fresh hi
    · exact fun hb => h'.fresh hi (h.built.safe hb)
  · rw [Mounts.slots_append]
    refine h.nodup.append h'.nodup fun i hi hi' => h'.fresh hi' (hold i hi)
  · rcases List.mem_append.1 (Mounts.lists_append .. ▸ hl) with hl | hl
    · exact h.lists hl
    · exact Nat.le_trans h.built.evolves.records (h'.lists hl)
  · rw [Mounts.lists_append]
    refine h.nodupLists.append h'.nodupLists fun l hl hl' => ?_
    exact Nat.lt_irrefl _ (Nat.lt_of_lt_of_le (h.stand.lt_of_lists hl) (h'.lists hl'))
  · rcases List.mem_append.1 (Mounts.sites_append .. ▸ hs) with hs | hs
    · exact h.sites hs
    · exact Nat.le_trans h.built.sites_size (h'.sites hs)
  · rw [Mounts.sites_append]
    refine h.nodupSites.append h'.nodupSites fun s hs hs' => ?_
    have hex : w.Exists (.site s) := h.stand.exists_of_covers h.built.sound hs
    exact Nat.lt_irrefl _ (Nat.lt_of_lt_of_le hex (h'.sites hs'))
  · rw [Mounts.owns_append]
    rcases h'.owns hr hp with hr | ho
    · exact (h.owns hr hp).imp_right .inl
    · exact .inr (.inr ho)

/-- A record is added to a list that the trees do not have. -/
theorem pushed (h : Grown D n b w ms g) (hl : b.records.size ≤ l.index) (hu : w.Unreached l)
    (hg : l ∉ g.lists) (m : Teardown) : Grown D n b (w.pushed l m) ms g :=
  { h with
    built := h.built.pushRecord hl hu m
    stand := by
      refine h.stand.frame (x := True) (w.fixed_pushed l m) (fun _ _ => .refl _ _) fun k hk => ?_
      rw [recordsIn_pushed, if_neg]
      rintro ⟨rfl, -⟩
      exact hg hk }

end Grown

end LivePage
