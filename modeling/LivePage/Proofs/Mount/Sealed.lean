import LivePage.Proofs.Mount.Hole
import LivePage.Proofs.Mount.Lasting

/-!
# Places elsewhere

The nodes and lists of trees below `root` are `Sealed` if every subscription that does something to a
page is one of the trees' own or leads elsewhere. Renewing a place that is not one of the trees' own
then leaves them as they are (`World.Sealed.renew`): what it kills is not theirs, what it realizes is
new, and what it puts in place goes to, and moves away, nodes that are not theirs.
-/

namespace LivePage

open LivePage.Script

variable {b w w' w'' : World} {root n content : PageNode} {D : CellId → Prop} {m : Teardown}
  {l : RecordsId} {g x : Mounts} {e : Entity} {r : Reaction} {c : CellId} {k d i : Nat}
  {s : SiteId} {O : CellId → Reaction → Prop} {X : Prop}

/-- The nodes and lists of the trees. -/
def Mounts.Has (pg : PageId) (g : Mounts) : Entity → Prop
  | .slot n => n.page = pg ∧ n.slot ∈ g.slots
  | .records l => l ∈ g.lists
  | .region _ | .site _ | .cell _ | .boundary _ | .handler _ => False

theorem Mounts.Has.covers {pg : PageId} (h : g.Has pg e) : g.Covers pg e := by
  cases e with
  | slot n => exact h
  | records l => exact h
  | _ => exact h.elim

theorem Mounts.Stand.siteAt {pg : PageId} {p : Nat} (h : g.Stand w pg p) (hs : s ∈ g.sites) :
    ∃ c l t, w.SiteAt s pg c l t := by
  obtain ⟨C, y, rfl, hC⟩ := Hole.exists_of_sites hs
  obtain ⟨-, c, t, -, hat⟩ := Hole.siteAt h hC
  exact ⟨c, _, t, hat⟩

theorem Reaction.Marks.reaches (h : r.Marks n) : r.Reaches w (.slot n) := by
  cases r with
  | «attribute» e name source => exact congrArg _ h
  | styleProperty e property source => exact congrArg _ h
  | _ => exact h.elim

theorem Reaction.Marks.eq_of_reaches (h : r.Marks n) (he : r.Reaches w e) : e = .slot n := by
  cases r with
  | «attribute» e' name source => exact he.trans (congrArg _ h.symm)
  | styleProperty e' property source => exact he.trans (congrArg _ h.symm)
  | _ => exact h.elim

/-- What the reaction does to a page happens neither to the trees nor to the children of `root`. -/
structure Reaction.Apart (w : World) (root : PageNode) (g : Mounts) (r : Reaction) : Prop where
  reaches {e : Entity} : r.Reaches w e → ¬ g.Has root.page e
  target {s : SiteId} {site : Site} : r = .rebuild s → w.sites[s.index]? = some site →
    site.surface.page.index < w.pages.size ∧ site.target ≠ .contents root

namespace World

/-- The trees below `root` are all that stands there, and subscriptions that are not in `O` stay away
from them. -/
structure Sealed (D : CellId → Prop) (root : PageNode) (g : Mounts)
    (O : CellId → Reaction → Prop) (w : World) : Prop where
  sound : w.Sound
  wired : w.Wired
  tracks : w.Tracks D
  named : .slot root ∈ namesHold w.names
  occupied : w.Occupied root
  hangs : (w.page root.page).Hangs root.slot g.slots
  child {p i : Nat} : p = root.slot ∨ p ∈ g.slots → i ∈ (w.slot ⟨root.page, p⟩).children →
    i ∈ g.slots
  list {l : RecordsId} : l ∈ g.lists → l.index < w.records.size
  apart {c : CellId} {key : Nat} {r : Reaction} : (key, r) ∈ (w.cell c).registry → r.onPage →
    O c r ∨ r.Apart w root g

/-- The trees, and which nodes are children of `root`, are as before; if `X`, also attributes. -/
structure Spares (root : PageNode) (g : Mounts) (X : Prop) (w w' : World) : Prop where
  slot {i : Nat} : i ∈ g.slots → (w.slot ⟨root.page, i⟩).Alike X (w'.slot ⟨root.page, i⟩)
  children : (w'.slot root).children = (w.slot root).children
  lists {l : RecordsId} : l ∈ g.lists → w'.recordsIn l = w.recordsIn l

namespace Spares

theorem refl (w : World) : w.Spares root g X w := ⟨fun _ => .refl _ _, rfl, fun _ => rfl⟩

theorem trans (h : w.Spares root g X w') (h' : w'.Spares root g X w'') : w.Spares root g X w'' :=
  ⟨fun hi => (h.slot hi).trans (h'.slot hi), h'.children.trans h.children,
    fun hl => (h'.lists hl).trans (h.lists hl)⟩

theorem hangs (h : w.Spares root g X w') (hg : (w.page root.page).Hangs root.slot g.slots) :
    (w'.page root.page).Hangs root.slot g.slots := fun i hi => by
  obtain ⟨p, hp, hpg⟩ := hg i hi
  exact ⟨p, (h.slot hi).parent.trans hp, hpg⟩

theorem parts (h : w.Spares root g X w') {p : Nat} (hp : p = root.slot ∨ p ∈ g.slots) :
    (w'.slot ⟨root.page, p⟩).children = (w.slot ⟨root.page, p⟩).children := by
  rcases hp with rfl | hp
  · exact h.children
  · exact (h.slot hp).children

end Spares

namespace Sealed

variable (h : w.Sealed D root g O)
include h

theorem safe_root : w.Safe root := Guards.safe (.named h.named) h.occupied

theorem safe (hi : i ∈ g.slots) : w.Safe ⟨root.page, i⟩ :=
  h.safe_root.down (h.hangs.up (h.sound.forest _) hi)

theorem root_not_mem : root.slot ∉ g.slots := h.hangs.not_mem (h.sound.forest _)

/-- What leaves the trees alone keeps them sealed, if no new subscription leads to them. -/
theorem spared (hs : w'.Sound) (hev : Evolves w { w' with pins := w.pins })
    (ho : w'.Occupied root) (hsp : w.Spares root g X w')
    (hr : ∀ c key r, (key, r) ∈ (w'.cell c).registry → r.onPage →
      (key, r) ∈ (w.cell c).registry ∧ (∀ e, g.Has root.page e → r.Reaches w' e → r.Reaches w e) ∨
        r.Apart w' root g) : w'.Sealed D root g O where
  sound := hs
  wired := (h.wired.evolves hev).repin w'.pins
  tracks := (h.tracks.evolves hev).repin w'.pins
  named := hev.names ▸ h.named
  occupied := ho
  hangs := hsp.hangs h.hangs
  child {p i} hp hi := by
    rw [hsp.parts hp] at hi
    exact h.child hp hi
  list hl := Nat.lt_of_lt_of_le (h.list hl) hev.records
  apart {c key r} hreg hp := by
    rcases hr c key r hreg hp with ⟨hold, hback⟩ | hap
    · refine (h.apart hold hp).imp_right fun hap => ⟨fun {e} he hg => ?_, fun {s site'} hrs hsite => ?_⟩
      · exact hap.reaches (hback _ hg he) hg
      · subst hrs
        obtain ⟨site, hs, -⟩ := h.wired.follows hold hp
        obtain ⟨site'', hs', he⟩ := hev.sites _ _ hs
        cases hs'.symm.trans hsite
        rw [Site.surface_of_still he, Site.target_of_still he]
        have := hap.target rfl hs
        exact ⟨by rw [hev.pages]; exact this.1, this.2⟩
    · exact .inr hap

/-- No attribute of the trees follows an observable, if the trees own no subscription. -/
theorem unmarked (hX : ∀ c r, ¬ O c r) (hi : i ∈ g.slots) : w.Unmarked D ⟨root.page, i⟩ := by
  intro c s _ hs hm
  rcases h.apart hs hm.onPage with ho | hap
  · exact hX _ _ ho
  · exact hap.reaches hm.reaches ⟨rfl, hi⟩

/-- What is new does not belong to the trees. -/
theorem not_has_of_new (he : w.New e) : ¬ g.Has root.page e := by
  intro hg
  cases e with
  | slot n =>
    obtain ⟨pg, j⟩ := n
    obtain ⟨rfl, hj⟩ := hg
    exact he (h.safe hj)
  | records l => exact Nat.not_lt.2 he (h.list hg)
  | _ => exact hg

/-- Killing records that are not the trees' own. -/
theorem releases {K : Entity → Prop} (hX : X → ∀ c r, ¬ O c r) (hr : Releases D K w w')
    (hK : ∀ e, K e → ¬ g.Has root.page e) : w'.Sealed D root g O ∧ w.Spares root g X w' := by
  have hsp : w.Spares root g X w' := by
    refine ⟨fun {i} hi => ?_, (hr.page root.page).children root.slot, fun {l} hl => ?_⟩
    · have hk : ¬ K (.slot ⟨root.page, i⟩) := fun hk => hK _ hk ⟨rfl, hi⟩
      exact (hr.slot hk).mono fun hx => h.unmarked (hX hx) hi
    · rcases hr.lists l with h | ⟨hk, -⟩
      · exact h
      · exact absurd hl (hK _ hk)
  exact ⟨h.spared (hr.sound h.sound) (hr.evolves.repin w.pins) (hr.occupied.2 h.occupied) hsp
    fun c key r hreg _ => .inl ⟨hr.registry_subset c hreg, fun _ _ => hr.reaches⟩, hsp⟩

/-- Subscriptions of new trees lead to new things. -/
theorem apart_of_owns {pg : PageId} {p : Nat} (hx : x.Stand w' pg p)
    (hnew : ∀ {e}, x.Covers pg e → w.New e) (hpg : pg.index < w'.pages.size)
    (ho : x.Owns pg c r) : r.Apart w' root g := by
  obtain ⟨-, ⟨s, hs, rfl⟩ | ⟨el, hel, hm⟩⟩ := ho.cases
  · refine ⟨fun {e} he => ?_, fun {s'} {site} hrs hsite => ?_⟩
    · rcases he with rfl | he
      · exact id
      · exact h.not_has_of_new (hnew (hx.reaches hs he))
    · cases hrs
      obtain ⟨c', l', t, ⟨site', hsite', rfl, -, -, rfl⟩⟩ := hx.siteAt hs
      cases hsite'.symm.trans hsite
      refine ⟨hpg, fun ht => ?_⟩
      exact hnew (hx.reaches hs (.contents hsite ht)) h.safe_root
  · refine ⟨fun {e} he => ?_, fun {s} {site} hrs _ => ?_⟩
    · obtain rfl := hm.eq_of_reaches he
      exact h.not_has_of_new (hnew ⟨rfl, Mounts.slot_mem_of_elements hel⟩)
    · subst hrs
      exact hm.elim

/-- New contents that are put in place elsewhere. -/
theorem renewed {T S : PageNode → Prop} {pg : PageId} {p : Nat} (hX : X → ∀ c r, ¬ O c r)
    (hr : World.Renewed D T S pg p l m x w w') (hl : l ∉ g.lists) (hpg : pg.index < w.pages.size)
    (hT : ∀ p, p = root.slot ∨ p ∈ g.slots → ¬ T ⟨root.page, p⟩)
    (hS : ∀ i ∈ g.slots, ¬ S ⟨root.page, i⟩) :
    w'.Sealed D root g O ∧ w.Spares root g X w' := by
  have hpg' : pg.index < w'.pages.size := by rwa [hr.evolves.pages]
  have hown : ∀ {c r}, x.Owns pg c r → r.Apart w' root g := fun ho =>
    h.apart_of_owns hr.stand hr.new hpg' ho
  have hunmarked : X → ∀ i ∈ g.slots, w'.Unmarked D ⟨root.page, i⟩ := by
    intro hx i hi c s hd hs hm
    rcases hr.owns hs hm.onPage with hs | ho
    · exact h.unmarked (hX hx) hi c s hd hs hm
    · exact (hown ho).reaches hm.reaches ⟨rfl, hi⟩
  have hsp : w.Spares root g X w' := by
    refine ⟨fun {i} hi => ?_, ?_, fun {k} hk => hr.lists (fun he => hl (he ▸ hk)) (h.list hk)⟩
    · obtain ⟨s, ha, hs | ⟨hs, -⟩⟩ := hr.slot (h.safe hi) (hT i (.inr hi))
      · rw [hs]
        exact ha.mono fun hx => hunmarked hx i hi
      · exact absurd hs (hS i hi)
    · obtain ⟨s, ha, hs | ⟨-, hs⟩⟩ := hr.slot h.safe_root (hT _ (.inl rfl))
      · rw [hs, ha.children]
      · rw [hs, ← ha.children]
  refine ⟨h.spared hr.sound (hr.evolves.repin w.pins) (hr.occupied h.safe_root) hsp
    fun c key r hreg hp => ?_, hsp⟩
  refine (hr.owns hreg hp).imp (fun hold => ⟨hold, fun e hg he => ?_⟩) hown
  rcases hr.reaches (h.sound.placed hold hp) he with he | ⟨-, he⟩
  · exact he
  · exact absurd hg (h.not_has_of_new (hr.new he))

end Sealed

/-! ## Changes beside the trees -/

theorem Beside.spares (hb : w.Beside w') : w.Spares root g X w' :=
  ⟨fun _ => by rw [hb.slot]; exact .refl _ _, by rw [hb.slot], fun _ => hb.recordsIn _⟩

theorem Sealed.beside (h : w.Sealed D root g O) (hb : w.Beside w') : w'.Sealed D root g O := by
  refine h.spared (hb.sound h.sound) hb.evolves ?_ (hb.spares (X := True)) fun c key r hr _ => ?_
  · show (w'.page root.page).Occupied root.slot
    rw [hb.page]
    exact h.occupied
  · rw [hb.registry] at hr
    exact .inl ⟨hr, fun _ _ => hb.reaches⟩

/-- Changing attributes of a node leaves the trees as they are, the attributes of their nodes apart. -/
theorem Sealed.dresses (h : w.Sealed D root g O) (hd : Dresses n w w')
    (hX : X → ∀ i ∈ g.slots, (⟨root.page, i⟩ : PageNode) ≠ n) :
    w'.Sealed D root g O ∧ w.Spares root g X w' := by
  have hbuilt : Built D n w w' := (Built.refl h.sound).dresses hd (.inl rfl)
  have hsp : w.Spares root g X w' := by
    refine ⟨fun {i} hi => ?_, ((hd.page root.page).slot root.slot).children, fun {l} _ => ?_⟩
    · exact ((hd.page root.page).slot i).mono fun hx => hX hx i hi
    · rw [World.recordsIn, hd.records, World.recordsIn]
  refine ⟨h.spared hbuilt.sound (hd.evolves.repin w.pins) (hbuilt.occupied h.safe_root) hsp
    fun c key r hr _ => .inl ⟨?_, fun _ _ he => ?_⟩, hsp⟩
  · rwa [hd.cell] at hr
  · exact he.congr hd.sites.symm hd.regions.symm hd.records.symm

/-! ## Renewing a place elsewhere -/

/-- The place is there with all that it leads to, and has nothing to do with the trees. -/
structure Elsewhere (root : PageNode) (g : Mounts) (s : SiteId) (w : World) : Prop where
  founded : w.Founded s
  apart : (Reaction.rebuild s).Apart w root g

theorem Elsewhere.beside (h : w.Elsewhere root g s) (hb : w.Beside w') :
    w'.Elsewhere root g s := by
  have hback : ∀ {e}, Reaction.Reaches w' (.rebuild s) e → Reaction.Reaches w (.rebuild s) e :=
    hb.reaches
  refine ⟨⟨?_, fun {e} he => hb.exists_of_exists ?_⟩, fun {e} he => h.apart.reaches (hback he),
    fun {s'} {site'} heq hsite => ?_⟩
  · exact hb.exists_of_exists (e := .site s) h.founded.lt
  · rcases hback (.inr he) with rfl | he
    · exact h.founded.lt
    · exact h.founded.exists_of_reaches he
  · have hs := hb.site s'.index
    rw [hsite] at hs
    obtain ⟨site, hsite, hst⟩ := Option.map_eq_some_iff.1 hs.symm
    rw [← Site.surface_of_still hst, ← Site.target_of_still hst, hb.pages]
    exact h.apart.target heq hsite

theorem Sealed.elsewhere (h : w.Sealed D root g O)
    (hr : (k, .rebuild s) ∈ (w.cell c).registry) (ho : ¬ O c (.rebuild s)) :
    w.Elsewhere root g s :=
  ⟨(h.sound.placed hr trivial).founded, (h.apart hr trivial).resolve_left ho⟩

theorem Founded.placed {site : Site} (h : w.Founded s) (hs : w.sites[s.index]? = some site) :
    w.Placed site.source (.rebuild s) := by
  refine ⟨trivial, ⟨site, hs, rfl⟩, ?_⟩
  rintro e (rfl | he)
  · exact h.lt
  · exact h.exists_of_reaches he

theorem Founded.releases {K : Entity → Prop} (h : w.Founded s) (hr : Releases D K w w') :
    w'.Founded s := by
  refine ⟨by rw [hr.sites]; exact h.lt, fun {e} he => ?_⟩
  have he : Reaction.Reaches w (.rebuild s) e := hr.reaches (.inr he)
  have hex : w.Exists e := by
    rcases he with rfl | he
    · exact h.lt
    · exact h.exists_of_reaches he
  refine hr.fixed.exists_of_exists hex ?_
  rintro n rfl
  exact hr.occupied.2 hex

/-- Killing the records of a place releases only what the place leads to. -/
theorem kills_place {site : Site} (hw : w.Hears D X) (hs : w.sites[s.index]? = some site) :
    KeepsAt (fun _ => Releases D (w.Reaches s) w) (fun e => X → e.calm) (w.taken site.records)
      (killAll (respond d) (w.recordsIn site.records)) := by
  have hK : w.RecordsWithin (w.Reaches s) := fun l m hl hm =>
    ⟨.nested hl hm, fun n hn => .element hl hm hn⟩
  have ht : Releases D (w.Reaches s) w (w.taken site.records) := releases_taken (.records hs)
  have hms : ∀ m ∈ w.recordsIn site.records, m.Within (w.Reaches s) := fun m hm =>
    hK _ m (.records hs) hm
  exact (releases_killAll (fun hw hK hm => releases_kill hw hK hm) (ht.hears hw)
    (ht.recordsWithin hK) hms).mono ht.trans id

namespace Sealed

/-- New contents of a place elsewhere are put elsewhere. -/
theorem settles {site : Site} {w₂ w₅ w₆ : World} (h₂ : w₂.Sealed D root g O)
    (hs : w₂.sites[s.index]? = some site) (he : w₂.Elsewhere root g s)
    (hpin : .site s ∈ w₂.pins.flatten) (hd : World.Drafted D content w₂ w₅ m x)
    {held : List Entity} (hput : (site.target.put content).run (w₅.pinned held) = .ok (.ok ()) w₆) :
    ∃ T S q, w₅.Settles T S q content x w₆.unpinned ∧
      (∀ p, p = root.slot ∨ p ∈ g.slots → ¬ T ⟨root.page, p⟩) ∧
      ∀ i ∈ g.slots, ¬ S ⟨root.page, i⟩ := by
  have hsound : (w₅.pinned held).Sound := hd.built.sound.pinned held
  have hac : ∀ {a}, w₂.Safe a → a ≠ content := fun ha hac => hd.fresh (hac ▸ ha)
  have hchildren : ∀ {a}, w₂.Safe a → (w₅.slot a).children = (w₂.slot a).children := fun ha =>
    (hd.built.slot ha (hac ha)).children
  have hparts : ∀ p, p = root.slot ∨ p ∈ g.slots → w₂.Safe ⟨root.page, p⟩ := by
    rintro p (rfl | hp)
    · exact h₂.safe_root
    · exact h₂.safe hp
  have hhangs : (w₅.page root.page).Hangs root.slot g.slots := by
    intro i hi
    obtain ⟨p, hp, hpg⟩ := h₂.hangs i hi
    exact ⟨p, (hd.built.slot (h₂.safe hi) (hac (h₂.safe hi))).parent.trans hp, hpg⟩
  have hslot : (w₅.pinned held).slot content = { content := .fragment, children := x.tops } :=
    hd.slot
  have hroot : ((w₅.pinned held).slot content).parent = none := by rw [hslot]
  have htype : ((w₅.pinned held).slot content).content.type = .fragment := by rw [hslot]; rfl
  have hsafe : ∀ {n}, w₂.Reaches s (.slot n) → w₂.Safe n := fun hn =>
    Guards.safe (.site hpin he.founded hn) (he.founded.exists_of_reaches hn)
  -- whose children are replaced is not of the trees, and so their children are not
  have key : ∀ {n stale k u}, (u = w₅.pinned held ∨ ∃ i, u = (w₅.pinned held).reparented i n) →
      u.Moves n stale content k w₆ →
      (∀ p, p = root.slot ∨ p ∈ g.slots → (⟨root.page, p⟩ : PageNode) ≠ n) →
      ∃ T S q, w₅.Settles T S q content x w₆.unpinned ∧
        (∀ p, p = root.slot ∨ p ∈ g.slots → ¬ T ⟨root.page, p⟩) ∧
        ∀ i ∈ g.slots, ¬ S ⟨root.page, i⟩ := by
    intro n stale k u hu hm hn
    refine ⟨_, _, _, (hm.settles hu hsound (hd.stand.repin _) hd.nodup (by rw [hslot])).unpinned, hn, ?_⟩
    rintro i hi ⟨hp, hst⟩
    obtain ⟨p, hp', hpg⟩ := hhangs i hi
    have hparent := hm.parent_stale hst
    have hsame : ∀ a, u.slot a = w₅.slot a := by
      rcases hu with rfl | ⟨j, rfl⟩ <;> exact fun _ => rfl
    rw [hsame] at hparent
    obtain ⟨pg, j⟩ := n
    obtain rfl : root.page = pg := hp
    obtain rfl : p = j := Option.some.inj (hp'.symm.trans hparent)
    exact hn p hpg rfl
  cases ht : site.target with
  | region i =>
    rw [ht] at hput
    have hreach : w₂.Reaches s (.region i) := .region hs ht
    obtain ⟨region₂, hr₂⟩ : ∃ region, w₂.regions[i.index]? = some region :=
      ⟨_, Array.getElem?_eq_getElem (he.founded.exists_of_reaches hreach)⟩
    obtain ⟨region, hr, ha⟩ := hd.built.fixed.regions hr₂
    have hstart : w₂.Reaches s (.slot region.start) := by
      rw [Region.start_of_anchors ha]
      exact .start hreach hr₂
    cases hp : ((w₅.pinned held).slot region.start).parent with
    | none =>
      rcases (ok_splice (w := w₅.pinned held) hr (hsound.forest _) hroot).1 hput with ⟨-, rfl⟩ | ⟨q, -, hq, -⟩
      · exact ⟨fun _ => False, fun _ => False, _, hd.built.sound.settles hd.stand _ _, fun _ _ => id, fun _ _ => id⟩
      · rw [hp] at hq
        cases hq
    | some p =>
      obtain ⟨k, hm, -⟩ := moves_of_splice hsound hr hroot htype hp hput
      refine key (.inr ⟨_, rfl⟩) hm fun p' hp' hn => ?_
      have hmem := ((hd.built.sound.forest _).up
        (show ((w₅.page _).slot region.start.slot).parent = some p from hp)).2.2
      obtain rfl : p' = p := congrArg PageNode.slot hn
      have hpage : root.page = region.start.page := (PageNode.mk.injEq .. ▸ hn).1
      rw [← hpage] at hmem
      have : region.start.slot ∈ (w₅.slot ⟨root.page, p'⟩).children := hmem
      rw [hchildren (hparts p' hp')] at this
      exact he.apart.reaches (.inr hstart) ⟨hpage.symm, h₂.child hp' this⟩
  | contents n =>
    rw [ht] at hput
    have hreach : w₂.Reaches s (.slot n) := .contents hs ht
    have hm := moves_of_replaceChildren hsound (hd.built.occupied (hsafe hreach)) hroot htype hput
    refine key (.inl rfl) hm ?_
    rintro p (rfl | hp) rfl
    · exact (he.apart.target rfl hs).2 ht
    · exact he.apart.reaches (.inr hreach) ⟨rfl, hp⟩

/-- Renewing a place elsewhere leaves the trees as they are. -/
theorem renew (h : w.Sealed D root g O) (hX : X → ∀ c r, ¬ O c r) {site : Site} {v : Value}
    {u : Unit} (hs : w.sites[s.index]? = some site) (he : w.Elsewhere root g s)
    (hpin : .site s ∈ w.pins.flatten) (hn : w'.NoSites D)
    (hrun : (replaceContents (respond d) site v).run w = .ok u w') :
    w'.Sealed D root g O ∧ w.Spares root g X w' ∧ w'.Elsewhere root g s := by
  have hno : w.NoSites D := hn.of_evolves
    ((lives_replaceContents (respond_lives d) site v).ok hrun h.wired.reading)
  have hhears : w.Hears D False := ⟨h.wired, h.tracks, hno, False.elim⟩
  have hlist : ¬ g.Has root.page (.records site.records) := he.apart.reaches (.inr (.records hs))
  obtain ⟨content, w₂, w₅, w₆, m, x, hren⟩ := exists_renewal h.sound h.wired h.tracks
    (he.apart.target rfl hs).1 hn ((kills_place hhears hs).ok) hrun
  have hr := hren.releases
  obtain ⟨h₂, hsp⟩ := h.releases hX hr fun e hk => he.apart.reaches (.inr hk)
  have hs₂ : w₂.sites[s.index]? = some site := by rwa [hr.sites]
  have he₂ : w₂.Elsewhere root g s := by
    refine ⟨he.founded.releases hr, fun he' => he.apart.reaches (hr.reaches he'), fun heq hsite => ?_⟩
    rw [hr.sites] at hsite
    rw [hr.evolves.pages]
    exact he.apart.target heq hsite
  have hd := hren.drafted
  have hpin₂ : .site s ∈ w₂.pins.flatten := by rwa [hr.evolves.pins]
  obtain ⟨T, S, q, hset, hT, hS⟩ := h₂.settles hs₂ he₂ hpin₂ hd hren.put
  have hlt : site.records.index < w₂.records.size :=
    he₂.founded.exists_of_reaches (.records hs₂)
  have hpage : content.page.index < w₂.pages.size := by
    rw [hren.page]
    exact (he₂.apart.target rfl hs₂).1
  have hnew := hd.renewed hset hlt
  rw [← hren.result] at hnew
  obtain ⟨h', hsp'⟩ := h₂.renewed hX hnew hlist hpage hT hS
  have hs' : w'.sites[s.index]? = some site := (hnew.sites he₂.founded.lt).trans hs₂
  have hback : ∀ {e}, Reaction.Reaches w' (.rebuild s) e →
      Reaction.Reaches w₂ (.rebuild s) e ∨ x.Covers content.page e := fun he =>
    (hnew.reaches (he₂.founded.placed hs₂) he).imp_right And.right
  refine ⟨h', hsp.trans hsp', ⟨(Array.getElem?_eq_some_iff.1 hs').1, fun {e} hre => ?_⟩,
    fun {e} hre => ?_, fun {s'} {site'} heq hsite => ?_⟩
  · rcases hback (.inr hre) with hre | hre
    · have hex : w₂.Exists e := (he₂.founded.placed hs₂).exists_of_reaches hre
      refine hnew.evolves.fixed.exists_of_exists hex ?_
      rintro n rfl
      rcases hre with hre | hre
      · cases hre
      · exact hnew.occupied (Guards.safe (.site hpin₂ he₂.founded hre) hex)
    · exact hnew.stand.exists_of_covers hnew.sound hre
  · rcases hback hre with hre | hre
    · exact he₂.apart.reaches hre
    · exact h₂.not_has_of_new (hnew.new hre)
  · cases heq
    cases hs'.symm.trans hsite
    rw [hnew.evolves.pages]
    exact he₂.apart.target rfl hs₂

end Sealed

/-- Trees that own no subscription stay exactly as they are. -/
theorem sealed_lasts (b : World) : Lasting D
    (fun w => w.Sealed D root g (fun _ _ => False) ∧ b.Spares root g True w)
    (fun s w => (w.Sealed D root g (fun _ _ => False) ∧ b.Spares root g True w) ∧
      w.Elsewhere root g s) where
  wired h := h.1.wired
  beside h hb := ⟨h.1.beside hb, h.2.trans hb.spares⟩
  marks {w w' c key r n} h hr hm hd := by
    obtain ⟨h', hsp⟩ := h.1.dresses (X := True) hd fun _ i hi he =>
      ((h.1.apart hr hm.onPage).resolve_left id).reaches hm.reaches (he ▸ ⟨rfl, hi⟩)
    exact ⟨h', h.2.trans hsp⟩
  place h hr := ⟨h, h.1.elsewhere hr id⟩
  whole h := h.1
  besidePlace h hb := ⟨⟨h.1.1.beside hb, h.1.2.trans hb.spares⟩, h.2.beside hb⟩
  exists_site h := ⟨_, Array.getElem?_eq_getElem h.2.founded.lt⟩
  renew h hs hpin hrun hn := by
    obtain ⟨h', hsp, he⟩ := h.1.1.renew (X := True) (fun _ _ _ => id) hs h.2 hpin hn hrun
    exact ⟨⟨h', h.1.2.trans hsp⟩, he⟩

end World

end LivePage
