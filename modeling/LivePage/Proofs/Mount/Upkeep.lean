import LivePage.Proofs.Mount.Tidy

/-!
# What keeps a world tidy

A world stays tidy when nodes are realized somewhere (`World.Builds.tidy`), when a fragment moves into
a place (`World.Tidy.moves`), and when records are killed (`World.Tidy.releases`). For the first of
these the new pairs of comments are those of the trees that have grown (`World.Builds.pair`), which are
nested among themselves and stand behind or apart from what was there.
-/

namespace LivePage

variable {b w w' w₁ u : World} {q n e content : PageNode} {p : PageId} {g : Mounts} {i k x y : Nat}
  {D : CellId → Prop} {r : Surface} {X stale : List Nat} {ms : List Teardown} {m : Teardown}
  {l : RecordsId} {region : RegionId} {start finish : PageNode}

namespace World

/-- The comments of a region that a subscription fills are spared by sweeps. -/
theorem Pair.safe (h : w.Pair p x y) (hs : w.Sound) : w.Safe ⟨p, x⟩ ∧ w.Safe ⟨p, y⟩ := by
  obtain ⟨hreg, hsite, ht, hr, ha⟩ := h
  have hpl := hs.placed hreg trivial
  have hsafe : ∀ {n}, w.Reaches _ (.slot n) → w.Safe n := fun hn =>
    Guards.safe (.registered hreg hpl (.inr hn)) (hpl.exists_of_reaches (.inr hn))
  rw [← show _ = (⟨p, x⟩ : PageNode) from congrArg Prod.fst ha,
    ← show _ = (⟨p, y⟩ : PageNode) from congrArg Prod.snd ha]
  exact ⟨hsafe (.start (.region hsite ht) hr), hsafe (.finish (.region hsite ht) hr)⟩

/-! ## Building -/

/-- The world `w` comes from `b` by building below `q`. New subscriptions are those of the trees `g`,
which stand there, and such that set attributes of elements. -/
structure Builds (D : CellId → Prop) (q : PageNode) (g : Mounts) (b w : World) : Prop where
  built : Built D q b w
  stand : g.Stand w q.page q.slot
  fresh {i : Nat} : i ∈ g.slots → ¬ b.Safe ⟨q.page, i⟩
  nodup : g.slots.Nodup
  owns {c : CellId} {key : Nat} {r : Reaction} : (key, r) ∈ (w.cell c).registry → r.onPage →
    (key, r) ∈ (b.cell c).registry ∨ g.Owns q.page c r ∨
      ∃ n, r.Marks n ∧ (w.slot n).content.type = .element
  parent : b.Safe q → (w.slot q).parent = (b.slot q).parent
  type : b.Safe q → (w.slot q).content.type = (b.slot q).content.type

namespace Builds

variable (h : Builds D q g b w) (hb : b.Tidy)
include h hb

/-- A pair was there before, or it is one of the trees. -/
theorem pair (hp : w.Pair p x y) : b.Pair p x y ∨ p = q.page ∧ (x, y) ∈ g.spans := by
  obtain ⟨hreg, hsite, ht, hr, ha⟩ := hp
  rcases h.owns hreg trivial with hold | ho | ⟨n, hm, -⟩
  · exact .inl (hb.pair h.built.fixed hold hsite ht hr ha)
  · right
    cases h.stand.fills ho with
    | contents hsite' _ ht' =>
      obtain rfl := Option.some.inj (hsite.symm.trans hsite')
      cases ht.symm.trans ht'
    | region hsite' _ ht' hr' ha' hspan =>
      obtain rfl := Option.some.inj (hsite.symm.trans hsite')
      cases ht.symm.trans ht'
      obtain rfl := Option.some.inj (hr.symm.trans hr')
      cases ha.symm.trans ha'
      exact ⟨rfl, hspan⟩
  · exact hm.elim

/-- Pairs with a node that was safe were there before. -/
theorem pair_of_safe (hp : w.Pair p x y) (hs : b.Safe ⟨p, x⟩ ∨ b.Safe ⟨p, y⟩) : b.Pair p x y := by
  rcases h.pair hb hp with hp | ⟨rfl, hspan⟩
  · exact hp
  · have hslots := Mounts.slots_of_spans hspan
    exact absurd hs (not_or.2 ⟨h.fresh hslots.1, h.fresh hslots.2⟩)

/-- Among nodes that were safe the pairs are those that were there. -/
theorem pair_or_not_mem (hsafe : ∀ i ∈ X, b.Safe ⟨p, i⟩) (x y : Nat) (hp : w.Pair p x y) :
    b.Pair p x y ∨ x ∉ X ∧ y ∉ X := by
  by_cases hx : x ∈ X
  · exact .inl (h.pair_of_safe hb hp (.inl (hsafe x hx)))
  by_cases hy : y ∈ X
  · exact .inl (h.pair_of_safe hb hp (.inr (hsafe y hy)))
  · exact .inr ⟨hx, hy⟩

/-- The comments of the trees are nested. -/
theorem nested_trees : Nested (w.Pair q.page) g.tops ∧
    ∀ j ∈ g.slots, Nested (w.Pair q.page) (w.slot ⟨q.page, j⟩).children := by
  refine h.stand.nested h.nodup fun x y hp hor => ?_
  rcases h.pair hb hp with hp | hp
  · have hsafe := hp.safe hb.sound
    exact (hor.elim (fun hx => h.fresh hx hsafe.1) fun hy => h.fresh hy hsafe.2).elim
  · exact hp.2

omit hb in
theorem type_of_safe (hn : b.Safe n) : (w.slot n).content.type = (b.slot n).content.type := by
  by_cases hq : n = q
  · rw [hq] at hn ⊢
    exact h.type hn
  · exact (h.built.slot hn hq).type

/-- A node of a pair is a child of a node that was safe, of the trees or of the node below which they
stand. -/
theorem parent_of_pair (hp : w.Pair p x y) (hk : k = x ∨ k = y)
    (hparent : (w.slot ⟨p, k⟩).parent = some i) :
    b.Safe ⟨p, i⟩ ∨ p = q.page ∧ (i = q.slot ∨ i ∈ g.slots) := by
  rcases h.pair hb hp with hp | ⟨rfl, hspan⟩
  · have hsafe : b.Safe ⟨p, k⟩ := by
      rcases hk with rfl | rfl
      · exact (hp.safe hb.sound).1
      · exact (hp.safe hb.sound).2
    exact .inl (h.built.safe_of_up h.parent hsafe (.parent hparent))
  · have hmem : k ∈ g.slots := by
      rcases hk with rfl | rfl
      · exact (Mounts.slots_of_spans hspan).1
      · exact (Mounts.slots_of_spans hspan).2
    obtain ⟨j, hj, hor⟩ := h.stand.parent hmem
    obtain rfl : i = j := Option.some.inj (hparent.symm.trans hj)
    exact .inr ⟨rfl, hor⟩

/-- Building keeps a world tidy if the children of the node below which it happens are nested. -/
theorem tidy (hself : Nested (w.Pair q.page) (w.slot q).children) : w.Tidy where
  sound := h.built.sound
  marks {c key r n} hr hm := by
    rcases h.owns hr hm.onPage with hold | ho | ⟨n', hm', ht⟩
    · have hpl := hb.sound.placed hold hm.onPage
      have hsafe := Guards.safe (.registered hold hpl hm.reaches) (hpl.exists_of_reaches hm.reaches)
      exact (h.type_of_safe hsafe).trans (hb.marks hold hm)
    · obtain ⟨-, ⟨s, -, rfl⟩ | ⟨e, he, hm'⟩⟩ := ho.cases
      · exact hm.elim
      cases hm.eq_of_reaches (w := w) hm'.reaches
      obtain ⟨_, _, _, hst⟩ := h.stand.elements he
      obtain ⟨el, -, hel, -⟩ := hst.content
      rw [hel]
      rfl
    · cases hm.eq_of_reaches (w := w) hm'.reaches
      exact ht
  sits {c key s} hr := by
    rcases h.owns hr trivial with hold | ho | ⟨n', hm', -⟩
    · have hpl := hb.sound.placed hold trivial
      obtain ⟨site, hsite, hsits⟩ := hb.sits hold
      obtain ⟨site', hsite', he⟩ := h.built.fixed.sites hsite
      refine ⟨site', hsite', hsits.still h.built.fixed he fun n ht => h.type_of_safe ?_⟩
      have hreach : Reaction.Reaches b (.rebuild s) (.slot n) := .inr (.contents hsite ht)
      exact Guards.safe (.registered hold hpl hreach) (hpl.exists_of_reaches hreach)
    · cases h.stand.fills ho with
      | contents hsite hp ht he =>
        obtain ⟨_, _, _, hst⟩ := h.stand.elements he
        obtain ⟨el, -, hel, -⟩ := hst.content
        exact ⟨_, hsite, .contents ht hp.symm (by rw [hel]; rfl)⟩
      | region hsite hp ht hr ha =>
        have hstart := congrArg (·.1.page) ha
        have hfinish := congrArg (·.2.page) ha
        exact ⟨_, hsite, .region ht hr (hstart.trans hp.symm) (hfinish.trans hp.symm)⟩
    · exact hm'.elim
  nested p i := by
    by_cases hq : (⟨p, i⟩ : PageNode) = q
    · subst hq
      exact hself
    by_cases hsafe : b.Safe ⟨p, i⟩
    · rw [(h.built.slot hsafe hq).children]
      exact (hb.nested p i).widen <| h.pair_or_not_mem hb fun j hj =>
        hsafe.down (.parent ((hb.sound.forest p).down hj))
    by_cases hg : p = q.page ∧ i ∈ g.slots
    · obtain ⟨rfl, hi⟩ := hg
      exact (h.nested_trees hb).2 i hi
    -- no other node has children that belong to a pair
    have hnone : ∀ {x y z}, w.Pair p x y → z = x ∨ z = y → z ∉ (w.slot ⟨p, i⟩).children := by
      intro x y z hp hz hmem
      rcases h.parent_of_pair hb hp hz ((h.built.sound.forest p).down hmem) with hs | ⟨rfl, rfl | hi⟩
      · exact hsafe hs
      · exact hq rfl
      · exact hg ⟨rfl, hi⟩
    exact .of_not_mem fun x y hp => ⟨hnone hp (.inl rfl), hnone hp (.inr rfl)⟩

end Builds

end World

/-- Building from a new node that has no children. -/
theorem Built.builds_nil (h : Built D q b w) (hq : ¬ b.Safe q)
    (howns : ∀ {c key r}, (key, r) ∈ (w.cell c).registry → r.onPage →
      (key, r) ∈ (b.cell c).registry ∨ ∃ n, r.Marks n ∧ (w.slot n).content.type = .element) :
    World.Builds D q .nil b w where
  built := h
  stand := trivial
  fresh := by simp [Mounts.slots]
  nodup := List.nodup_nil
  owns hr hp := (howns hr hp).imp_right .inr
  parent hs := absurd hs hq
  type hs := absurd hs hq

/-- Trees that grow behind the children of a node keep the world tidy. -/
theorem Grown.tidy (h : Grown D q b w ms g) (hq : b.Safe q) (hb : b.Tidy) : w.Tidy := by
  have hbuilds : World.Builds D q g b w := {
    built := h.built
    stand := h.stand
    fresh := h.fresh
    nodup := h.nodup
    owns := fun hr hp => (h.owns hr hp).imp_right .inl
    parent := fun _ => h.self.parent
    type := fun _ => h.self.type }
  refine hbuilds.tidy hb ?_
  rw [h.self.children]
  refine ((hb.nested q.page q.slot).widen <| hbuilds.pair_or_not_mem hb fun i hi => ?_).append
    (hbuilds.nested_trees hb).1
  exact hq.down (.parent ((hb.sound.forest q.page).down hi))

theorem World.Drafted.builds {x : Mounts} (h : World.Drafted D content b w m x) :
    World.Builds D content x b w where
  built := h.built
  stand := h.stand
  fresh hi := h.new (e := .slot _) ⟨rfl, hi⟩
  nodup := h.nodup
  owns hr hp := (h.owns hr hp).imp_right .inl
  parent hs := absurd hs h.fresh
  type hs := absurd hs h.fresh

/-- So do trees that are drafted in a fragment. -/
theorem World.Drafted.tidy {x : Mounts} (h : World.Drafted D content b w m x) (hb : b.Tidy) :
    w.Tidy := by
  refine h.builds.tidy hb ?_
  rw [h.slot]
  exact (h.builds.nested_trees hb).1

/-- A new element keeps the world tidy, with its attributes. -/
theorem World.Fitted.tidy {tag : String} {attributes : List (String × AttributeValue)}
    {listeners : List Listener} (h : World.Fitted D q e b w tag attributes listeners) (hb : b.Tidy) :
    w.Tidy := by
  obtain ⟨el, hslot, -⟩ := h.slot
  refine (h.built.builds_nil h.fresh fun hr _ => (h.owns hr).imp_right fun hm =>
    ⟨e, hm.2, by rw [hslot]; rfl⟩).tidy hb ?_
  rw [hslot]
  exact .nil

/-- An open region keeps the world tidy as long as it follows nothing. -/
theorem World.Prepared.tidy (h : World.Prepared D q b u region start finish content) (hq : b.Safe q)
    (hb : b.Tidy) : u.Tidy := by
  have hcell : ∀ c, u.cell c = b.cell c := fun c => by rw [World.cell, h.cells, World.cell]
  have hbuilds : World.Builds D q .nil b u := {
    built := h.built
    stand := trivial
    fresh := by simp [Mounts.slots]
    nodup := List.nodup_nil
    owns := fun hr _ => .inl (by rwa [hcell] at hr)
    parent := fun _ => by rw [h.slot]
    type := fun _ => by rw [h.slot] }
  refine hbuilds.tidy hb ?_
  rw [h.slot]
  refine ((hb.nested q.page q.slot).widen <| hbuilds.pair_or_not_mem hb fun i hi => ?_).append ?_
  · exact hq.down (.parent ((hb.sound.forest q.page).down hi))
  · have hnew : ∀ {x y z}, u.Pair q.page x y → z = x ∨ z = y → z ∉ [start.slot, finish.slot] := by
      intro x y z hp hz hmem
      have hp : b.Pair q.page x y := (hbuilds.pair hb hp).resolve_right fun h => by cases h.2
      have hsafe : b.Safe ⟨q.page, z⟩ := by
        rcases hz with rfl | rfl
        · exact (hp.safe hb.sound).1
        · exact (hp.safe hb.sound).2
      simp only [List.mem_cons, List.not_mem_nil, or_false] at hmem
      rcases hmem with rfl | rfl
      · exact h.start_fresh (by rwa [← h.start_page] at hsafe)
      · exact h.finish_fresh (by rwa [← h.finish_page] at hsafe)
    exact .of_not_mem fun x y hp => ⟨hnew hp (.inl rfl), hnew hp (.inr rfl)⟩

/-! ## Moving -/

/-- Where a fragment moves, no other nodes get other children. -/
theorem World.Moves.same (h : w.Moves n stale content k w') (hn : e ≠ n) (hc : e ≠ content) :
    (w'.slot e).content = (w.slot e).content ∧ (w'.slot e).children = (w.slot e).children := by
  obtain ⟨p, i⟩ := e
  by_cases hp : p = n.page
  · subst hp
    by_cases hin : i ∈ (w.slot content).children
    · rw [h.moved hin]
      exact ⟨rfl, rfl⟩
    by_cases hst : i ∈ stale
    · rw [h.left hst]
      exact ⟨rfl, rfl⟩
    · rw [h.other hn hc fun _ => ⟨hin, hst⟩]
      exact ⟨rfl, rfl⟩
  · rw [h.other hn hc fun he => absurd he hp]
    exact ⟨rfl, rfl⟩

namespace World.Tidy

variable (h : w.Tidy)
include h

/-- A fragment moves to where nodes have been that belong together. -/
theorem moves (hm : w.Moves n stale content k w') (hstale : Closed (w.Pair n.page) stale) :
    w'.Tidy := by
  have hreg : ∀ c s, s ∈ (w'.cell c).registry → s ∈ (w.cell c).registry := fun c s hs => by
    rwa [hm.cell] at hs
  have htype : ∀ a, (w'.slot a).content.type = (w.slot a).content.type := fun a => by
    by_cases hn : a = n
    · rw [hn, hm.target]
    by_cases hc : a = content
    · rw [hc, hm.emptied]
    · rw [(hm.same hn hc).1]
  have hnested : ∀ {p X}, Nested (w.Pair p) X → Nested (w'.Pair p) X := fun hX =>
    hX.widen fun x y hp => .inl (h.pairs hm.fixed (fun c s hs _ => hreg c s hs) hp)
  refine ⟨hm.sound h.sound, fun hr hmark => (htype _).trans (h.marks (hreg _ _ hr) hmark), fun hr => ?_,
    fun p i => hnested ?_⟩
  · obtain ⟨site, hsite, hsits⟩ := h.sits (hreg _ _ hr)
    obtain ⟨site', hsite', he⟩ := hm.fixed.sites hsite
    exact ⟨site', hsite', hsits.still hm.fixed he fun n _ => htype n⟩
  · by_cases hn : (⟨p, i⟩ : PageNode) = n
    · subst hn
      have hrest := (h.nested p i).filter hstale
      rw [← List.take_append_drop k ((w.slot ⟨p, i⟩).children.filter _)] at hrest
      rw [hm.target]
      refine hrest.insert ?_
      have hinner : Nested (w.Pair content.page) (w.slot content).children :=
        h.nested content.page content.slot
      rwa [hm.page] at hinner
    by_cases hc : (⟨p, i⟩ : PageNode) = content
    · rw [hc, hm.emptied]
      exact .nil
    · rw [(hm.same hn hc).2]
      exact h.nested p i

/-- Records are killed. -/
theorem releases {K : Entity → Prop} (hr : Releases D K w w') : w'.Tidy :=
  h.shaped (hr.sound h.sound) hr.fixed (fun c _ hs _ => hr.registry_subset c hs) hr.page

/-- A region is told its parent. -/
theorem reparented (i : RegionId) (q : PageNode) : (w.reparented i q).Tidy :=
  h.shaped (h.sound.reparented i q) (w.fixed_reparented i q) (fun _ _ hs _ => hs) fun _ => .refl _

theorem repin (pins : List (List Entity)) : ({ w with pins } : World).Tidy :=
  h.shaped (h.sound.repin pins) ⟨fun hs => ⟨_, hs, rfl⟩, fun hr => ⟨_, hr, rfl⟩, Nat.le_refl _⟩
    (fun _ _ hs _ => hs) fun _ => .refl _

/-- Pages, subscriptions and places are the same. -/
theorem beside (hb : w.Beside w') : w'.Tidy :=
  h.shaped (hb.sound h.sound) hb.fixed (fun c s hs _ => by rwa [hb.registry] at hs)
    fun p => by rw [hb.page]; exact .refl _

/-- An element is dressed. -/
theorem dresses (hd : Dresses n w w') : w'.Tidy :=
  h.shaped ((Built.refl (D := fun _ => True) (q := n) h.sound).dresses hd (.inl rfl)).sound
    hd.evolves.fixed (fun c s hs _ => by rwa [hd.cell] at hs) fun p => (hd.page p).shaped

end World.Tidy

/-! ## What a failed realization leaves -/

/-- The world `w` comes from `b` by building below `q`, as far as that has come, and is tidy if `b`
is. -/
structure World.Left (D : CellId → Prop) (q : PageNode) (b w : World) : Prop where
  built : ∃ pins, Built D q b { w with pins }
  tidy : b.Tidy → w.Tidy

theorem Grown.left (h : Grown D q b w ms g) (hq : b.Safe q) : World.Left D q b w :=
  ⟨⟨w.pins, h.built⟩, h.tidy hq⟩

theorem World.Left.repin (h : World.Left D q b w) (pins : List (List Entity)) :
    World.Left D q b { w with pins } :=
  ⟨h.built, fun hb => (h.tidy hb).repin pins⟩

/-- What was left below a new node, or below the same one. -/
theorem Built.left (h : Built D q b w) (ht : b.Tidy → w.Tidy) (hl : World.Left D e w w')
    (he : e = q ∨ ¬ b.Safe e) : World.Left D q b w' :=
  ⟨hl.built.imp fun _ hb => h.trans hb he, fun hb => hl.tidy (ht hb)⟩

end LivePage
