import LivePage.Proofs.Mount.Filling

/-!
# What realization grows

Realizing a node below `q` grows trees there that are built like the node (`Grows`): a driven text
or fragment becomes a region with what the node carries in it, a fragment that is not driven becomes
a group, and a function is replaced by what it gives. The proof is by induction on the depth of
requests and, at each depth, on the node (`respond_grows`).
-/

namespace LivePage

variable {b w w' : World} {q : PageNode} {D : CellId → Prop} {r : Surface} {m : Teardown}
  {l : RecordsId} {ms : List Teardown} {g g' : Mounts} {ns ns' : List Node} {d : Nat}

/-! ## Nodes and trees -/

/-- The render function gives the node, in some world. -/
def Render.Gives (r : Render) (n : Node) : Prop :=
  ∃ (d : Nat) (w w₁ w₂ : World) (v : Value),
    (holding r.holds (respond d (.render r))).run w = .ok v w₁ ∧ (childNode v).run w₁ = .ok n w₂

/-- The trees are built like the nodes. -/
inductive Grows : List Node → Mounts → Prop where
  | nil : Grows [] .nil
  | empty {ns : List Node} {g : Mounts} (l : RecordsId) : Grows ns g →
      Grows (.empty :: ns) (.group l .nil g)
  | text {ns : List Node} {g : Mounts} (i : Nat) (data : String) (l : RecordsId) : Grows ns g →
      Grows (.text data none :: ns) (.text i data l g)
  | drivenText {ns : List Node} {g : Mounts} (m : MountedRegion) (i : Nat) (data : String)
      (l : RecordsId) : Grows ns g →
      Grows (.text data (some m.source) :: ns) (.region m (.text i data l .nil) g)
  | element {children ns : List Node} {inner g : Mounts} (e : MountedElement) :
      Grows children inner → Grows ns g →
      Grows (.element e.tag e.attributes e.listeners children (e.driving.map (·.1)) :: ns)
        (.element e inner g)
  | fragment {children ns : List Node} {inner g : Mounts} (l : RecordsId) :
      Grows children inner → Grows ns g → Grows (.fragment children none :: ns) (.group l inner g)
  | drivenFragment {children ns : List Node} {inner g : Mounts} (m : MountedRegion) :
      Grows children inner → Grows ns g →
      Grows (.fragment children (some m.source) :: ns) (.region m inner g)
  | deferred {r : Render} {n : Node} {ns : List Node} {g : Mounts} : r.Gives n →
      Grows (n :: ns) g → Grows (.deferred r :: ns) g

theorem Grows.append (h : Grows ns g) (h' : Grows ns' g') : Grows (ns ++ ns') (g ++ g') := by
  induction h with
  | nil => exact h'
  | empty l _ ih => exact .empty l ih
  | text i data l _ ih => exact .text i data l ih
  | drivenText m i data l _ ih => exact .drivenText m i data l ih
  | element e hi _ _ ih => exact .element e hi ih
  | fragment l hi _ _ ih => exact .fragment l hi ih
  | drivenFragment m hi _ _ ih => exact .drivenFragment m hi ih
  | deferred hr _ ih => exact .deferred hr ih

theorem ok_realizingWith {α : Type} {held : List Entity} {x : Realizing α}
    {a : Except RealizationError α} :
    (realizingWith held x).run.run w = .ok a w' ↔
      ∃ w₁, x.run.run (w.pinned held) = .ok a w₁ ∧ w' = w₁.unpinned := by
  rw [realizingWith, ExceptT.run_mk, ok_holding]

/-! ## Elements -/

/-- An element has been built with its children, and has not been put anywhere yet. -/
structure World.Raised (D : CellId → Prop) (e : PageNode) (b w : World) (m : MountedElement)
    (g : Mounts) : Prop where
  built : Built D e b w
  fresh : ¬ b.Safe e
  slot : m.slot = e.slot
  occupied : w.Occupied e
  root : (w.slot e).parent = none
  children : (w.slot e).children = g.tops
  content : ∃ el others, (w.slot e).content = .element el ∧ el.tag = m.tag ∧
    el.listeners = (m.listeners.map fun l => (l.event, l.handler)) ++ others
  records : w.ListAt m.records (g.teardowns e.page)
  site {c : CellId} {s : SiteId} : m.driving = some (c, s) →
    w.SiteAt s e.page c m.records (.contents e)
  stand : g.Stand w e.page e.slot
  new {x : Entity} : g.Covers e.page x → b.New x
  newRecords : b.records.size ≤ m.records.index
  nodup : g.slots.Nodup
  nodupLists : (m.records :: g.lists).Nodup
  newSite {s : SiteId} : m.site? = some s → b.sites.size ≤ s.index
  nodupSites : (m.site?.toList ++ g.sites).Nodup
  owns {c : CellId} {key : Nat} {r : Reaction} : (key, r) ∈ (w.cell c).registry → r.onPage →
    (key, r) ∈ (b.cell c).registry ∨ m.Owns e.page c r ∨ g.Owns e.page c r

/-- An element is there with its children. -/
theorem Growing.raised {u v : World} {e : PageNode} {el : Element} {tag : String}
    {attributes : List (String × AttributeValue)} {listeners : List Listener}
    (h : Growing D e u v l g) (hb : Built D e b u) (he : ¬ b.Safe e) (ho : u.Occupied e)
    (hsafe : u.Safe e) (hslot : u.slot e = { content := .element el }) (htag : el.tag = tag)
    (hlisten : el.listeners = listeners.map fun l => (l.event, l.handler))
    (howns : ∀ {c key r}, (key, r) ∈ (u.cell c).registry → (key, r) ∈ (b.cell c).registry ∨
      c ∈ attributes.flatMap (·.2.sources) ∧ r.Marks e) :
    World.Raised D e b v ⟨e.slot, tag, attributes, listeners, none, l⟩ g := by
  have hself := h.grown.self
  rw [hslot] at hself
  have hnew : ∀ {x : Entity}, g.Covers e.page x → b.New x := fun hx => hb.new (h.grown.new hx)
  refine {
    built := hb.trans h.grown.built (.inl rfl)
    fresh := he
    slot := rfl
    occupied := h.grown.built.occupied hsafe
    root := hself.parent
    children := hself.children
    content := ?_
    records := ⟨h.lt, h.grown.teardowns.symm⟩
    site := fun hd => by cases hd
    stand := h.grown.stand
    new := hnew
    newRecords := Nat.le_trans hb.evolves.records h.new
    nodup := h.grown.nodup
    nodupLists := List.nodup_cons.2 ⟨h.fresh, h.grown.nodupLists⟩
    newSite := fun hs => by cases hs
    nodupSites := h.grown.nodupSites
    owns := fun hr hp => ?_ }
  · obtain ⟨el', hc, ht, hl⟩ := Content.of_plain_element hself.content
    exact ⟨el', [], hc, ht.trans htag, by rw [hl, hlisten, List.append_nil]⟩
  · rcases h.grown.owns hr hp with hr | ho
    · exact (howns hr).imp_right fun hm => .inl (.inr hm)
    · exact .inr (.inr ho)

namespace World.Raised

variable {v : World} {e : PageNode} {tag : String} {attributes : List (String × AttributeValue)}
  {listeners : List Listener} {me : MountedElement}

/-- Its children follow an observable. -/
theorem follow (h : World.Raised D e b v ⟨e.slot, tag, attributes, listeners, none, l⟩ g)
    (hk : b.Keyed) {surface : Surface} (hpage : surface.page = e.page) (c : CellId) :
    World.Raised D e b (v.following surface c l (.contents e))
      ⟨e.slot, tag, attributes, listeners, some (c, ⟨v.sites.size⟩), l⟩ g := by
  obtain ⟨pg, labelled⟩ := surface
  obtain rfl : pg = e.page := hpage
  have hfixed : v.Fixed (v.following ⟨e.page, labelled⟩ c l (.contents e)) :=
    ⟨fun hs => ⟨_, getElem?_push_of_some hs, rfl⟩, fun hr => ⟨_, hr, rfl⟩, Nat.le_refl _⟩
  refine {
    built := h.built.following (h.built.keyed hk) ⟨e.page, labelled⟩ h.records h.stand h.newRecords
      (fun _ hx => h.new hx) ?_ c
    fresh := h.fresh
    slot := rfl
    occupied := h.occupied
    root := h.root
    children := h.children
    content := h.content
    records := ⟨h.records.lt, h.records.records⟩
    site := fun hd => ?_
    stand := h.stand.frame (x := True) hfixed (fun _ _ => .refl _ _) fun _ _ => rfl
    new := h.new
    newRecords := h.newRecords
    nodup := h.nodup
    nodupLists := h.nodupLists
    newSite := fun hs => ?_
    nodupSites := ?_
    owns := fun hr hp => ?_ }
  · rintro x rfl
    exact ⟨h.occupied, h.fresh⟩
  · cases hd
    exact siteAt_following v ⟨e.page, labelled⟩ c l (.contents e)
  · cases hs
    exact h.built.sites_size
  · refine List.nodup_cons.2 ⟨fun hs => ?_, h.nodupSites⟩
    exact Nat.lt_irrefl _ (h.stand.exists_of_covers (e := .site _) h.built.sound hs)
  · rcases mem_registry_following (h.built.keyed hk) hr with hr | ⟨rfl, he⟩
    · rcases h.owns hr hp with hr | (⟨s, hd, -⟩ | hm) | ho
      · exact .inl hr
      · cases hd
      · exact .inr (.inl (.inr hm))
      · exact .inr (.inr ho)
    · exact .inr (.inl (.inl ⟨_, rfl, he⟩))

/-- It is put behind the children of a node. -/
theorem grown (h : World.Raised D e b v me g) (hq : b.Safe q) (hpage : e.page = q.page)
    (happ : (q.append e).run v = .ok (.ok ()) w') :
    Grown D q b w' [me.teardown q.page] (.element me g .nil) := by
  have htype : (v.slot e).content.type ≠ .fragment := by
    obtain ⟨el, -, hc, -⟩ := h.content
    rw [hc]
    exact NodeType.noConfusion
  have hqe : q ≠ e := fun he => h.fresh (he ▸ hq)
  obtain ⟨ha, hb⟩ := (h.built.elsewhere h.fresh q).append (.inl rfl) (h.built.occupied hq) h.fresh
    h.root hpage htype happ
  obtain ⟨page, rfl⟩ := ha.eq
  have he : (⟨q.page, me.slot⟩ : PageNode) = e := by rw [h.slot, ← hpage]
  have hnew : ∀ {x : Entity}, g.Covers q.page x → b.New x := fun hx => h.new (by rwa [hpage])
  have hstand := h.stand
  have hrecords := h.records
  rw [hpage] at hstand hrecords
  have hne : e.slot ∉ g.slots := hstand.not_mem h.built.sound
  refine {
    built := hb
    self := ?_
    stand := ⟨⟨?_, ?_, ?_, ⟨hrecords.lt, hrecords.records⟩, fun hd => ?_⟩, ?_, trivial⟩
    teardowns := rfl
    fresh := fun {i} hi => ?_
    nodup := ?_
    lists := fun {k} hk => ?_
    nodupLists := by simpa [Mounts.lists] using h.nodupLists
    sites := fun {s} hs => ?_
    nodupSites := by simpa [Mounts.sites] using h.nodupSites
    owns := fun {c key r} hr hp => ?_ }
  · have halike := h.built.slot hq hqe
    rw [ha.parent]
    refine ⟨?_, fun hu => ?_⟩
    · have := halike.plain
      simp only [Slot.plain, Slot.mk.injEq] at this ⊢
      exact ⟨this.1, this.2.1, by rw [halike.children]; simp [Mounts.tops, h.slot]⟩
    · rw [halike.eq hu]
      simp [Mounts.tops, h.slot]
  · rw [he, ha.inserted]
  · rw [he, ha.inserted]
    exact h.children
  · rw [he, ha.inserted]
    exact h.content
  · have := h.site hd
    rw [hpage] at this
    rw [he]
    exact this.fixed (World.within_withPage v q.page page).toFixed
  · rw [h.slot]
    refine hstand.frame (x := True) (World.within_withPage v q.page page).toFixed (fun i hi => ?_)
      fun _ _ => rfl
    rw [ha.other]
    · exact .refl _ _
    · intro hie
      exact hnew (x := .slot ⟨q.page, i⟩) ⟨rfl, hi⟩ (hie ▸ hq)
    · intro hie
      exact hne (congrArg PageNode.slot hie ▸ hi)
  · simp only [Mounts.slots, List.append_nil, List.mem_cons] at hi
    rcases hi with rfl | hi
    · rw [he]
      exact h.fresh
    · exact hnew (x := .slot ⟨q.page, i⟩) ⟨rfl, hi⟩
  · simp only [Mounts.slots, List.append_nil, List.nodup_cons]
    exact ⟨by rwa [h.slot], h.nodup⟩
  · simp only [Mounts.lists, List.append_nil, List.mem_cons] at hk
    rcases hk with rfl | hk
    · exact h.newRecords
    · exact hnew (x := .records k) hk
  · simp only [Mounts.sites, List.append_nil, List.mem_append, Option.mem_toList] at hs
    rcases hs with hs | hs
    · exact h.newSite hs
    · exact hnew (x := .site s) hs
  · rw [← hpage]
    exact (h.owns hr hp).imp_right fun ho => ho.imp_right .inl

end World.Raised

/-! ## Regions -/

theorem ok_label {a : Option String} (h : r.label.run w = .ok a w') : w' = w := by
  unfold Surface.label at h
  split at h
  · obtain ⟨_, _, hg, h⟩ := ok_bind.1 h
    obtain ⟨rfl, rfl⟩ := ok_get.1 hg
    exact (ok_pure.1 h).2
  · exact (ok_pure.1 h).2

theorem suffix_tail {α : Type} {x : α} {xs ys : List α} (h : x :: xs <:+ ys) : xs <:+ ys.tail := by
  obtain ⟨zs, rfl⟩ := h
  cases zs with
  | nil => exact List.suffix_refl _
  | cons z zs => exact ⟨zs ++ [x], by simp⟩

theorem World.Opened.of_pinned {held : List Entity} {region : RegionId} {start finish : PageNode}
    (h : World.Opened D q (b.pinned held) w region start finish) (hs : b.Sound) :
    World.Opened D q b w.unpinned region start finish :=
  { h with
    built := h.built.of_pinned hs
    pins := congrArg List.tail h.pins
    start_fresh := fun hn => h.start_fresh (hn.pinned hs held)
    finish_fresh := fun hn => h.finish_fresh (hn.pinned hs held) }

/-- The last steps of realizing a region. -/
theorem World.Prepared.finished {u w₁ w₂ : World} {region : RegionId}
    {start finish content : PageNode} {held held' : List Entity}
    (hp : World.Prepared D q b u region start finish content) (hq : b.Safe q) (hk : b.Keyed)
    (hpins : u.pins = held :: held' :: b.pins) (hg : Growing D content u w₁ l g)
    (hsplice : (region.splice content).run w₁ = .ok (.ok ()) w₂) (hpage : r.page = q.page)
    (c : CellId) :
    Grown D q b (w₂.unpinned.following r c l (.region region)).unpinned
      [{ driving := some c, children := l }]
      (.region ⟨start.slot, finish.slot, c, ⟨w₂.sites.size⟩, region, l⟩ g .nil) := by
  have hsuffix : held :: held' :: b.pins <:+ w₂.pins := by
    obtain ⟨page, hw⟩ := (hp.moves hq hg.grown hsplice).1.eq
    rw [hw, ← hpins]
    exact hg.grown.built.pins
  exact (hp.grown hq hk hg hsplice ((List.suffix_cons _ _).trans (suffix_tail hsuffix)) hpage c).repin
    (suffix_tail (suffix_tail hsuffix))

/-! ## Realization -/

/-- A world in which nodes can be realized below `q`. -/
structure World.Ready (D : CellId → Prop) (r : Surface) (q : PageNode) (w : World) : Prop where
  sound : w.Sound
  wired : w.Wired
  tracks : w.Tracks D
  safe : w.Safe q
  page : r.page = q.page

namespace World.Ready

variable (h : World.Ready D r q w)
include h

theorem pinned (held : List Entity) : World.Ready D r q (w.pinned held) :=
  ⟨h.sound.pinned held, h.wired.pinned held, h.tracks.pinned held, h.safe.pinned h.sound held,
    h.page⟩

theorem built {q' : PageNode} (hb : Built D q' w w') : World.Ready D r q w' :=
  ⟨hb.sound, hb.wired h.wired, hb.tracks h.tracks, hb.safe h.safe, h.page⟩

end World.Ready

/-- Realizing the node grows trees that are built like it. -/
def Node.Realizes (D : CellId → Prop) (d : Nat) (n : Node) : Prop :=
  ∀ {r : Surface} {q : PageNode} {b w' : World} {m : Teardown}, World.Ready D r q b →
    w'.NoSites D → (n.realize (respond d) r q).run.run b = .ok (.ok m) w' →
    ∃ g, Grown D q b w' [m] g ∧ Grows [n] g

/-- Realizing the nodes adds to the trees that have grown. -/
def RealizesAll (D : CellId → Prop) (d : Nat) (ns : List Node) : Prop :=
  ∀ {r : Surface} {q : PageNode} {b w w' : World} {l : RecordsId} {g : Mounts} {u : PUnit},
    World.Ready D r q b → Growing D q b w l g → w'.NoSites D →
    (realizeAll (respond d) r q l ns).run.run w = .ok (.ok u) w' →
    ∃ g', Growing D q b w' l (g ++ g') ∧ Grows ns g'

theorem realizes_empty : Node.empty.Realizes D d := by
  intro r q b w' m hr _ h
  rw [Node.realize] at h
  cases ok_lift.1 h
  exact ⟨_, (Growing.start hr.sound).group, .empty _ .nil⟩

theorem realizes_text (data : String) : (Node.text data none).Realizes D d := by
  intro r q b w' m hr _ h
  rw [Node.realize] at h
  obtain ⟨n, w₁, h₁, h⟩ := ok_ebind.1 h
  obtain ⟨_, w₂, h₂, h⟩ := ok_ebind.1 h
  cases ok_lift.1 h
  rw [hr.page] at h₁
  exact ⟨_, grown_text hr.sound hr.safe (ok_lift.1 h₁) (ok_pageStep.1 h₂), .text _ _ _ .nil⟩

theorem realizesAll_nil : RealizesAll D d [] := by
  intro r q b w w' l g u _ hg _ h
  rw [realizeAll] at h
  obtain ⟨-, rfl⟩ := ok_epure.1 h
  exact ⟨.nil, by rwa [Mounts.append_nil], .nil⟩

theorem realizes_fragment (hc : RealizesAll D d ns) : (Node.fragment ns none).Realizes D d := by
  intro r q b w' m hr hn h
  rw [Node.realize] at h
  obtain ⟨l, w₁, h₁, h⟩ := ok_ebind.1 h
  have h₁ := ok_lift.1 h₁
  rw [run_newRecords] at h₁
  cases h₁
  obtain ⟨_, w₂, h₂, h⟩ := ok_ebind.1 h
  obtain ⟨rfl, rfl⟩ := ok_epure.1 h
  obtain ⟨w₃, h₃, rfl⟩ := ok_realizingWith.1 h₂
  have hl := hr.built (Built.refl (q := q) hr.sound).newRecords
  have hpins := ((lives_realizeAll (respond_lives d) r q _ ns).ok h₃
    (hl.pinned _).wired.reading).pins
  obtain ⟨g, hg, hgrows⟩ := hc hr ((Growing.start hr.sound).pinned _)
    (show w₃.NoSites D from hn) h₃
  exact ⟨_, (hg.unpinned (List.suffix_refl _) hpins).group, .fragment _ hgrows .nil⟩

theorem realizes_deferred {render : Render}
    (hc : ∀ {n : Node} {r : Surface} {q : PageNode} {b w' : World} {m : Teardown},
      World.Ready D r q b → w'.NoSites D →
      (respond d (.realize r n q)).run b = .ok (.ok m) w' →
      ∃ g, Grown D q b w' [m] g ∧ Grows [n] g) :
    (Node.deferred render).Realizes D d := by
  intro r q b w' m hr hn h
  rw [Node.realize] at h
  obtain ⟨v, w₁, h₁, h⟩ := ok_ebind.1 h
  split at h
  · exact absurd h not_ok_ethrow
  obtain ⟨n, w₂, h₂, h⟩ := ok_ebind.1 h
  have h₂ := ok_lift.1 h₂
  rw [ExceptT.run_mk] at h
  obtain ⟨w₃, h₃, rfl⟩ := ok_holding.1 h
  obtain ⟨w₄, h₄, rfl⟩ := ok_realizingWith.1 h₁
  have h₄ := ok_lift.1 h₄
  have hquiet : Quiet b w₂ := by
    have hrender := ((respond_reads d) (.render render) trivial).ok h₄
    exact hrender.unpinned.trans ((reads_childNode v).ok h₂)
  have hb : Grown D q b w₂ [] .nil := (Grown.refl hr.sound).quiet hquiet
  have hr₂ := hr.built hb.built
  obtain ⟨g, hg, hgrows⟩ := hc (hr₂.pinned _) (show w₃.NoSites D from hn) h₃
  exact ⟨g, hb.append hr₂.safe (hg.of_pinned hr₂.sound),
    .deferred ⟨d, b, _, _, v, ok_holding.2 ⟨w₄, h₄, rfl⟩, h₂⟩ hgrows⟩

theorem realizesAll_cons {n : Node} (hn : n.Realizes D d) (hc : RealizesAll D d ns) :
    RealizesAll D d (n :: ns) := by
  intro r q b w w' l g u hr hg hno h
  rw [realizeAll] at h
  obtain ⟨m, w₁, h₁, h⟩ := ok_ebind.1 h
  obtain ⟨_, w₂, h₂, h⟩ := ok_ebind.1 h
  have h₂ := ok_lift.1 h₂
  rw [run_pushRecord] at h₂
  cases h₂
  obtain ⟨w₃, h₃, rfl⟩ := ok_realizingWith.1 h₁
  have hrw := hr.built hg.grown.built
  have hlives := (lives_realizeNode (respond_lives d) r q n).ok h₃ (hrw.pinned _).wired.reading
  have hpush := (lives_pushRecord l m).ok (run_pushRecord l m w₃.unpinned)
  have hread := hlives.unpinned.reading hrw.wired.reading
  have hrest := (lives_realizeAll (respond_lives d) r q l ns).ok h ((hpush hread).reading hread)
  have hno₃ : (w₃.unpinned.pushed l m).NoSites D := hno.of_evolves hrest
  obtain ⟨g₁, hg₁, hgrows₁⟩ := hn (hrw.pinned _) (show w₃.NoSites D from hno₃) h₃
  obtain ⟨g', hg', hgrows'⟩ := hc hr (hg.push hrw.safe (hg₁.of_pinned hrw.sound)) hno h
  exact ⟨g₁ ++ g', by rwa [← Mounts.append_assoc], hgrows₁.append hgrows'⟩

theorem ok_openRegion {held : List Entity} {label : Option String} {region : RegionId}
    (hr : World.Ready D r q b)
    (h : (realizingWith held (pageStep (openRegion q label))).run.run b = .ok (.ok region) w) :
    ∃ start finish, World.Opened D q b w region start finish := by
  obtain ⟨w₁, h₁, rfl⟩ := ok_realizingWith.1 h
  have hp := hr.pinned held
  obtain ⟨start, finish, ho⟩ := built_openRegion (D := D) hp.sound hp.safe (ok_pageStep.1 h₁)
  exact ⟨start, finish, ho.of_pinned hr.sound⟩

/-- The fragment of a region can be realized in. -/
theorem World.Prepared.ready {u : World} {region : RegionId} {start finish content : PageNode}
    (hp : World.Prepared D q b u region start finish content) (hr : World.Ready D r q b)
    (hpin : .slot content ∈ u.pins.flatten) : World.Ready D r content u :=
  ⟨hp.built.sound, hp.built.wired hr.wired, hp.built.tracks hr.tracks,
    World.Guards.safe (.pinned hpin) hp.content_occupied, hr.page.trans hp.content_page.symm⟩

theorem pins_createNode {p : PageId} {content : Content} {n : PageNode}
    (h : (createNode p content).run w = .ok n w') : w'.pins = w.pins := by
  rw [run_createNode] at h
  cases h
  rfl

/-- The contents of an open region are about to be realized. -/
theorem World.Opened.begun {w₁ w₂ : World} {region : RegionId} {start finish content : PageNode}
    (ho : World.Opened D q b w₁ region start finish) (hr : World.Ready D r q b)
    {pins : List (List Entity)}
    (hc : (createNode q.page .fragment).run { w₁.withList with pins } = .ok content w₂)
    (hp : b.pins <:+ pins) (pins' : List (List Entity)) (hp' : b.pins <:+ pins')
    (hmem : .slot content ∈ pins'.flatten) :
    ∃ u : World, { w₂ with pins := pins' } = u.withList ∧
      World.Prepared D q b u region start finish content ∧ World.Ready D r content u ∧
      u.records.size = w₁.records.size ∧ u.pins = pins' := by
  obtain ⟨u, hu, hprep, hsize⟩ := ho.prepared hr.safe hp hp' hc
  have hpins : pins' = u.pins := congrArg World.pins hu
  exact ⟨u, hu, hprep, hprep.ready hr (hpins ▸ hmem), hsize, hpins.symm⟩

theorem realizes_drivenText (data : String) (c : CellId) :
    (Node.text data (some c)).Realizes D d := by
  intro r q b w' m hr hn h
  rw [Node.realize] at h
  obtain ⟨label, w₀, s₀, k₀⟩ := ok_ebind.1 h
  rw [ok_label (ok_lift.1 s₀)] at k₀
  obtain ⟨region, w₁, s₁, k₁⟩ := ok_ebind.1 k₀
  obtain ⟨start, finish, ho⟩ := ok_openRegion hr s₁
  obtain ⟨v, kv, hv⟩ := ok_realizingWith.1 k₁
  obtain ⟨l, v₁, s₂, k₂⟩ := ok_ebind.1 kv
  cases (run_newRecords _).symm.trans (ok_lift.1 s₂)
  obtain ⟨content, w₂, s₃, k₃⟩ := ok_ebind.1 k₂
  have hcreate := ok_lift.1 s₃
  rw [hr.page] at hcreate
  obtain ⟨_, w₃, s₄, k₄⟩ := ok_ebind.1 k₃
  obtain ⟨w₄, s₅, hw₄⟩ := ok_realizingWith.1 s₄
  obtain ⟨_, w₅, s₆, k₆⟩ := ok_ebind.1 k₄
  cases (run_followAt ..).symm.trans (ok_lift.1 s₆)
  obtain ⟨rfl, hw⟩ := ok_epure.1 k₆
  have hpins : w₂.pins = [.region region, .cell c] :: b.pins := by
    rw [pins_createNode hcreate]
    exact congrArg _ ho.pins
  obtain ⟨u, hu, hp, hru, hsize, hup⟩ := ho.begun hr hcreate (ho.pins ▸ List.suffix_cons _ _)
    ([.slot content] :: [.region region, .cell c] :: b.pins)
    ((List.suffix_cons _ _).trans (List.suffix_cons _ _)) (by simp)
  have hw₂ : w₂.pinned [.slot content] = u.withList := by rw [← hu, World.pinned, hpins]
  rw [hw₂] at s₅
  have hru' := hru.built (Built.refl (D := D) (q := content) hru.sound).newRecords
  obtain ⟨n, x₁, t₁, s₅⟩ := ok_ebind.1 s₅
  obtain ⟨_, x₂, t₂, s₅⟩ := ok_ebind.1 s₅
  obtain ⟨_, x₃, t₃, s₅⟩ := ok_ebind.1 s₅
  cases ok_lift.1 t₃
  obtain ⟨_, x₄, t₄, s₅⟩ := ok_ebind.1 s₅
  cases (run_pushRecord ..).symm.trans (ok_lift.1 t₄)
  rw [hr.page, ← hp.content_page] at t₁
  have hg := (Growing.start (D := D) (q := content) hru.sound).push hru'.safe
    (grown_text hru'.sound hru'.safe (ok_lift.1 t₁) (ok_pageStep.1 t₂))
  have hl : (⟨(w₁.pinned [.region region, .cell c]).records.size⟩ : RecordsId) =
      ⟨u.records.size⟩ := congrArg _ hsize.symm
  rw [← hl] at hg
  have hgrown := hp.finished hr.safe hr.wired.keyed hup hg (ok_pageStep.1 s₅) hr.page c
  rw [hv, hw, hw₄]
  exact ⟨_, hgrown, .drivenText ⟨_, _, c, _, _, _⟩ _ _ _ .nil⟩

theorem realizes_drivenFragment (hc : RealizesAll D d ns) (c : CellId) :
    (Node.fragment ns (some c)).Realizes D d := by
  intro r q b w' m hr hn h
  rw [Node.realize] at h
  obtain ⟨label, w₀, s₀, k₀⟩ := ok_ebind.1 h
  rw [ok_label (ok_lift.1 s₀)] at k₀
  obtain ⟨region, w₁, s₁, k₁⟩ := ok_ebind.1 k₀
  obtain ⟨start, finish, ho⟩ := ok_openRegion hr s₁
  obtain ⟨v, kv, hv⟩ := ok_realizingWith.1 k₁
  obtain ⟨l, v₁, s₂, k₂⟩ := ok_ebind.1 kv
  cases (run_newRecords _).symm.trans (ok_lift.1 s₂)
  obtain ⟨content, w₂, s₃, k₃⟩ := ok_ebind.1 k₂
  obtain ⟨v₂, s₃, hw₂⟩ := ok_realizingWith.1 s₃
  have hcreate := ok_lift.1 s₃
  rw [hr.page] at hcreate
  obtain ⟨_, w₃, s₄, k₄⟩ := ok_ebind.1 k₃
  obtain ⟨w₄, s₅, hw₄⟩ := ok_realizingWith.1 s₄
  obtain ⟨_, w₅, s₆, k₆⟩ := ok_ebind.1 k₄
  cases (run_followAt ..).symm.trans (ok_lift.1 s₆)
  obtain ⟨rfl, hw⟩ := ok_epure.1 k₆
  have hpins : v₂.pins = nodesHold ns :: [.region region, .cell c] :: b.pins := by
    rw [pins_createNode hcreate, ← ho.pins]
    rfl
  have hl : (⟨(w₁.pinned [.region region, .cell c]).records.size⟩ : RecordsId) =
      ⟨w₁.records.size⟩ := rfl
  obtain ⟨u, hu, hp, hru, hsize, hup⟩ := ho.begun hr hcreate
    (ho.pins ▸ (List.suffix_cons _ _).trans (List.suffix_cons _ _))
    ([.slot content, .records ⟨w₁.records.size⟩] :: [.region region, .cell c] :: b.pins)
    ((List.suffix_cons _ _).trans (List.suffix_cons _ _)) (by simp)
  have hw' : w₂.pinned [.slot content, .records ⟨w₁.records.size⟩] = u.withList := by
    rw [← hu, hw₂, World.pinned, World.unpinned, hpins]
    rfl
  rw [hl, hw', ← hsize] at s₅
  obtain ⟨_, w₆, s₇, s₅⟩ := ok_ebind.1 s₅
  have hsplice := ok_pageStep.1 s₅
  have hru' := hru.built (Built.refl (D := D) (q := content) hru.sound).newRecords
  have hread := hru'.wired.reading
  have hev₁ := (lives_realizeAll (respond_lives d) r content _ ns).ok s₇ hread
  have hev₂ := (lives_splice region content).ok hsplice (hev₁.reading hread)
  have hread₄ : w₄.unpinned.Reading := hev₂.reading (hev₁.reading hread)
  have hev₃ := (lives_followAt r c ⟨w₁.records.size⟩ (.region region)).ok
    (run_followAt ..) hread₄
  rw [hv, hw, hw₄] at hn
  have hn₄ : w₄.unpinned.NoSites D := World.NoSites.of_evolves
    (show World.NoSites D (w₄.unpinned.following r c ⟨w₁.records.size⟩ (.region region)) from hn) hev₃
  have hn₆ : w₆.NoSites D := World.NoSites.of_evolves (show w₄.NoSites D from hn₄) hev₂
  obtain ⟨g, hg, hgrows⟩ := hc hru (Growing.start hru.sound) hn₆ s₇
  have hgrown := hp.finished hr.safe hr.wired.keyed hup hg hsplice hr.page c
  rw [hsize] at hgrown
  rw [hv, hw, hw₄]
  exact ⟨_, hgrown, .drivenFragment ⟨_, _, c, _, _, _⟩ (by simpa using hgrows) .nil⟩

/-! ## New elements -/

/-- A new element has its attributes and listeners, and no children yet. -/
structure World.Fitted (D : CellId → Prop) (q e : PageNode) (b w : World) (tag : String)
    (attributes : List (String × AttributeValue)) (listeners : List Listener) : Prop where
  built : Built D e b w
  page : e.page = q.page
  fresh : ¬ b.Safe e
  occupied : w.Occupied e
  slot : ∃ el, w.slot e = { content := .element el } ∧ el.tag = tag ∧
    el.listeners = listeners.map fun l => (l.event, l.handler)
  owns {c : CellId} {key : Nat} {r : Reaction} : (key, r) ∈ (w.cell c).registry →
    (key, r) ∈ (b.cell c).registry ∨ c ∈ attributes.flatMap (·.2.sources) ∧ r.Marks e

theorem ok_createElement {tag : String} {e : PageNode} {held : List Entity} (held' : List Entity)
    (hr : World.Ready D r q b)
    (h : (createNode r.page (.element { tag })).run (b.pinned held) = .ok e w) :
    World.Fitted D q e b (w.unpinned.pinned held') tag [] [] := by
  rw [hr.page] at h
  have hrp := hr.pinned held
  have hcr := createNode_spec hrp.sound (World.lt_of_occupied (hrp.safe.occupied hrp.sound)) h
  have hb : Built D e b w.unpinned :=
    (Built.refl hr.sound).unpinned (((Built.refl hr.sound).pinned held).create hcr)
      (pins_createNode h)
  refine ⟨hb.pinned held', hcr.page, fun he => hcr.fresh (he.pinned hr.sound held),
    hcr.occupied_self, ⟨_, hcr.slot_self, rfl, rfl⟩, fun hr => .inl ?_⟩
  obtain ⟨page, rfl⟩ := hcr.eq
  exact hr

theorem World.Fitted.bound {e : PageNode} {tag : String} {held : List Entity}
    {attributes : List (String × AttributeValue)} {bound : Bindings}
    (hf : World.Fitted D q e b w tag [] []) (hr : World.Ready D r q b)
    (h : (bindAttributes (respond d) e {} attributes).run.run (w.pinned held) = .ok (.ok bound) w')
    (hn : w'.NoSites D) :
    World.Fitted D q e b w'.unpinned tag attributes [] ∧
      bound = ⟨attributes.flatMap (·.2.refs), attributes.flatMap (·.2.sources)⟩ ∧
      Evolves w w'.unpinned := by
  have hrw := (hr.built hf.built).pinned held
  obtain ⟨hbinds, hbound⟩ := binds_bindAttributes hrw.wired hrw.tracks hn hf.occupied h
  have hbinds := hbinds.unpinned
  obtain ⟨el, hslot, htag, hlisten⟩ := hf.slot
  have halike := hbinds.slot
  rw [hslot] at halike
  obtain ⟨el', hel, htag', hlisten'⟩ := Content.of_plain_element halike.content
  refine ⟨⟨hbinds.built hf.fresh hf.built, hf.page, hf.fresh, hbinds.occupied hf.occupied,
    ⟨el', ?_, htag'.trans htag, hlisten'.trans hlisten⟩, fun hr => ?_⟩, by simpa using hbound,
    hbinds.evolves⟩
  · have hp := halike.parent
    have hc := halike.children
    generalize w'.unpinned.slot e = s at hel hp hc
    obtain ⟨content, parent, children⟩ := s
    cases hel
    cases hp
    cases hc
    rfl
  · rcases hbinds.owns hr with hr | hm
    · rcases hf.owns hr with hr | ⟨hc, -⟩
      · exact .inl hr
      · simp at hc
    · exact .inr hm

theorem World.Fitted.heard {e : PageNode} {tag : String} {u : PUnit}
    {attributes : List (String × AttributeValue)} {listeners : List Listener}
    (hf : World.Fitted D q e b w tag attributes [])
    (h : (addListeners e listeners).run.run w = .ok (.ok u) w') :
    World.Fitted D q e b w' tag attributes listeners ∧ w'.pins = w.pins := by
  obtain ⟨el, hslot, htag, hlisten⟩ := hf.slot
  have hel : (w.slot e).content = .element el := by rw [hslot]
  rw [run_addListeners hf.occupied hel] at h
  cases h
  have ht : (Content.element { el with
      listeners := el.listeners ++ listeners.map fun l => (l.event, l.handler) }).type =
      (w.slot e).content.type := by
    rw [hel]
    rfl
  refine ⟨⟨hf.built.withContent hf.occupied hf.fresh ht, hf.page, hf.fresh,
    (World.shaped_withContent ht e.page).occupied.2 hf.occupied,
    ⟨{ el with listeners := el.listeners ++ listeners.map fun l => (l.event, l.handler) }, ?_, htag,
      ?_⟩, hf.owns⟩, rfl⟩
  · rw [World.slot_withContent hf.occupied, if_pos rfl, hslot]
  · show el.listeners ++ _ = _
    rw [hlisten]
    rfl

/-- The new element can be realized in, as long as it is held. -/
theorem World.Fitted.ready {e : PageNode} {tag : String}
    {attributes : List (String × AttributeValue)} {listeners : List Listener}
    (hf : World.Fitted D q e b w tag attributes listeners) (hr : World.Ready D r q b)
    (hpin : .slot e ∈ w.pins.flatten) : World.Ready D r e w :=
  ⟨hf.built.sound, hf.built.wired hr.wired, hf.built.tracks hr.tracks,
    World.Guards.safe (.pinned hpin) hf.occupied, hr.page.trans hf.page.symm⟩

theorem World.Fitted.raised {e : PageNode} {tag : String}
    {attributes : List (String × AttributeValue)} {listeners : List Listener}
    (hf : World.Fitted D q e b w tag attributes listeners) (hsafe : w.Safe e)
    (hg : Growing D e w w' l g) :
    World.Raised D e b w' ⟨e.slot, tag, attributes, listeners, none, l⟩ g := by
  obtain ⟨el, hslot, htag, hlisten⟩ := hf.slot
  exact hg.raised hf.built hf.fresh hf.occupied hsafe hslot htag hlisten hf.owns

theorem realizes_element (hc : RealizesAll D d ns) (tag : String)
    (attributes : List (String × AttributeValue)) (listeners : List Listener)
    (driving : Option CellId) :
    (Node.element tag attributes listeners ns driving).Realizes D d := by
  intro r q b w' m hr hn h
  rw [Node.realize] at h
  obtain ⟨e, w₁, s₁, k₁⟩ := ok_ebind.1 h
  obtain ⟨v₁, s₁, hw₁⟩ := ok_realizingWith.1 s₁
  obtain ⟨v, kv, hv⟩ := ok_realizingWith.1 k₁
  obtain ⟨bound, w₂, s₂, k₂⟩ := ok_ebind.1 kv
  obtain ⟨v₂, s₂, hw₂⟩ := ok_realizingWith.1 s₂
  obtain ⟨_, w₃, s₃, k₃⟩ := ok_ebind.1 k₂
  obtain ⟨l, w₄, s₄, k₄⟩ := ok_ebind.1 k₃
  cases (run_newRecords _).symm.trans (ok_lift.1 s₄)
  obtain ⟨_, w₅, s₅, k₅⟩ := ok_ebind.1 k₄
  obtain ⟨v₅, s₅, hw₅⟩ := ok_realizingWith.1 s₅
  rw [hw₁] at s₂
  have hf₁ := ok_createElement (.slot e :: drivingHolds driving) hr (ok_lift.1 s₁)
  -- No place follows references at the end, and so not before.
  have hread₁ : (v₁.unpinned.pinned (.slot e :: drivingHolds driving)).Reading :=
    (hr.built hf₁.built).wired.reading
  have hread₂ : w₂.Reading :=
    hw₂ ▸ ((lives_bindAttributes (respond_lives d) e {} attributes).ok s₂ hread₁).unpinned.reading
      hread₁
  have hrest : Evolves w₂ v := by
    refine Keeps.ok (R := fun w w' => w.Reading → Evolves w w') (E := fun _ => True) ?_ k₂ hread₂
    refine (lives_listen ..).ebind fun _ => lives_newRecords.lift.ebind fun _ =>
      (lives_realizingWith (lives_realizeAll (respond_lives d) r e _ ns)).ebind fun _ => ?_
    cases driving with
    | none => exact (lives_insertBefore ..).pageStep.ebind fun _ => keeps_epure _
    | some c =>
      exact (lives_followAt ..).lift.ebind fun _ => (lives_insertBefore ..).pageStep.ebind fun _ =>
        keeps_epure _
  have hnv : v.NoSites D := by
    rw [hv] at hn
    exact hn
  have hn₂ : w₂.NoSites D := hnv.of_evolves hrest
  rw [hw₂] at hn₂ s₃
  obtain ⟨hf₂, hbound, hev₂⟩ := hf₁.bound hr s₂ hn₂
  obtain ⟨hf₃, hpins⟩ := hf₂.heard s₃
  have hpins : w₃.pins = (.slot e :: drivingHolds driving) :: b.pins := by
    rw [hpins, hev₂.pins]
    exact congrArg _ (congrArg List.tail (pins_createNode (ok_lift.1 s₁)))
  have hr₃ : World.Ready D r e w₃ := hf₃.ready hr (by rw [hpins]; simp)
  -- its children
  have hr₄ := hr₃.built (Built.refl (D := D) (q := e) hr₃.sound).newRecords
  have hev₄ := (lives_realizeAll (respond_lives d) r e _ ns).ok s₅ (hr₄.pinned _).wired.reading
  have hread₅ : w₅.Reading := hw₅ ▸ hev₄.unpinned.reading hr₄.wired.reading
  have hev₅ : Evolves w₅ v := by
    refine Keeps.ok (R := fun w w' => w.Reading → Evolves w w') (E := fun _ => True) ?_ k₅ hread₅
    cases driving with
    | none => exact (lives_insertBefore ..).pageStep.ebind fun _ => keeps_epure _
    | some c =>
      exact (lives_followAt ..).lift.ebind fun _ => (lives_insertBefore ..).pageStep.ebind fun _ =>
        keeps_epure _
  have hn₅ : w₅.NoSites D := hnv.of_evolves hev₅
  rw [hw₅] at hn₅
  obtain ⟨g, hg, hgrows⟩ := hc hr₃ ((Growing.start hr₃.sound).pinned _)
    (show v₅.NoSites D from hn₅) s₅
  have hg := hg.unpinned (List.suffix_refl _) hev₄.pins
  rw [← hw₅] at hg
  have hraised := hf₃.raised hr₃.safe hg
  have he : (⟨q.page, e.slot⟩ : PageNode) = e := by rw [← hf₃.page]
  have hvpins : b.pins <:+ v.unpinned.pins := by
    show b.pins <:+ v.pins.tail
    rw [hev₅.pins, hw₅]
    show b.pins <:+ v₅.pins.tail.tail
    rw [hev₄.pins]
    show b.pins <:+ w₃.pins.tail
    rw [hpins]
    exact List.suffix_refl _
  have hgr : Grows (Node.element tag attributes listeners ns driving :: [])
      (.element ⟨e.slot, tag, attributes, listeners, driving.map fun c => (c, ⟨w₅.sites.size⟩),
        ⟨w₃.records.size⟩⟩ g .nil) := by
    have := Grows.element ⟨e.slot, tag, attributes, listeners,
      driving.map fun c => (c, ⟨w₅.sites.size⟩), ⟨w₃.records.size⟩⟩ hgrows .nil
    simpa [Function.comp_def] using this
  rw [hv]
  cases driving with
  | none =>
    obtain ⟨_, w₆, s₆, k₆⟩ := ok_ebind.1 k₅
    obtain ⟨rfl, rfl⟩ := ok_epure.1 k₆
    have hgrown := (hraised.grown hr.safe hf₃.page (ok_pageStep.1 s₆)).repin hvpins
    rw [hbound]
    rw [MountedElement.teardown, he] at hgrown
    exact ⟨_, hgrown, hgr⟩
  | some c =>
    obtain ⟨_, w₆, s₆, k₆⟩ := ok_ebind.1 k₅
    cases (run_followAt ..).symm.trans (ok_lift.1 s₆)
    obtain ⟨_, w₇, s₇, k₇⟩ := ok_ebind.1 k₆
    obtain ⟨rfl, rfl⟩ := ok_epure.1 k₇
    have hgrown := ((hraised.follow hr.wired.keyed hr₃.page c).grown hr.safe hf₃.page
      (ok_pageStep.1 s₇)).repin hvpins
    rw [hbound]
    rw [MountedElement.teardown, he] at hgrown
    exact ⟨_, hgrown, hgr⟩

/-! ## At every depth -/

section

variable (hc : ∀ {n : Node} {r : Surface} {q : PageNode} {b w' : World} {m : Teardown},
  World.Ready D r q b → w'.NoSites D → (respond d (.realize r n q)).run b = .ok (.ok m) w' →
  ∃ g, Grown D q b w' [m] g ∧ Grows [n] g)
include hc

mutual

theorem realizes_node : ∀ n : Node, n.Realizes D d
  | .empty => realizes_empty
  | .text data none => realizes_text data
  | .text data (some c) => realizes_drivenText data c
  | .element tag attributes listeners children driving =>
    realizes_element (realizesAll_nodes children) tag attributes listeners driving
  | .fragment children none => realizes_fragment (realizesAll_nodes children)
  | .fragment children (some c) => realizes_drivenFragment (realizesAll_nodes children) c
  | .deferred _ => realizes_deferred hc

theorem realizesAll_nodes : ∀ ns : List Node, RealizesAll D d ns
  | [] => realizesAll_nil
  | n :: rest => realizesAll_cons (realizes_node n) (realizesAll_nodes rest)

end

end

/-- Realizing a node grows trees that are built like it. -/
theorem Node.realizes (d : Nat) (n : Node) : n.Realizes D d := by
  induction d generalizing n with
  | zero => exact realizes_node (fun _ _ h => absurd h not_ok_throw) n
  | succ d ih => exact realizes_node (d := d + 1) (fun {n _ _ _ _ _} hr hn h => ih n hr hn h) n

/-- Realizing nodes adds trees that are built like them. -/
theorem realizesAll (d : Nat) (ns : List Node) : RealizesAll D d ns := by
  induction ns with
  | nil => exact realizesAll_nil
  | cons n ns ih => exact realizesAll_cons (n.realizes d) ih

end LivePage
