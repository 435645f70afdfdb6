import LivePage.Proofs.Mount.Releasing

/-!
# Killing what trees stand for

Killing the records of trees that stand in a world releases everything that the trees have: their
observables and references lose all subscriptions, their references are cleared, their listeners are
gone and those of others have stayed, and their lists of records are empty (`kills_mounts`). `Kills`
says this of a single step or of several, so that the steps can be put together; the proof is by
induction on the trees, with the requests one level deeper for what is inside.
-/

namespace LivePage

open LivePage.Script

variable {w w' w'' : World} {pg : PageId} {q : Nat} {n : PageNode} {c : CellId} {m : Teardown}
  {l : RecordsId} {D : CellId → Prop} {K K' : Entity → Prop} {x : Prop} {g inner rest : Mounts}
  {d : Nat} {cs cs' rs rs' : List CellId} {ls ls' : List RecordsId}
  {es es' : List (PageNode × List Listener)}

/-! ## Steps of killing -/

/-- The observables `cs` have lost their subscriptions, the references `rs` have been killed, the
lists `ls` emptied, and the elements `es` have lost these listeners, given that they came first. -/
structure Kills (D : CellId → Prop) (K : Entity → Prop) (cs rs : List CellId)
    (ls : List RecordsId) (es : List (PageNode × List Listener)) (w w' : World) : Prop where
  releases : Releases D K w w'
  registry {c : CellId} : c ∈ cs ∨ c ∈ rs → (w'.cell c).registry = []
  held {c : CellId} : c ∈ rs → (w'.cell c).held = .absent
  isRef {c : CellId} : c ∈ rs → (w.cell c).flavour = .ref
  other {c : CellId} : c ∉ cs → c ∉ rs → (w'.cell c).registry = (w.cell c).registry
  lists {l : RecordsId} : l ∈ ls → w'.recordsIn l = []
  listeners {n : PageNode} {listeners : List Listener} {el : Element}
    {others : List (String × HandlerId)} : (n, listeners) ∈ es → w.Occupied n →
    w.Unmarked D n → (w.slot n).content = .element el →
    el.listeners = (listeners.map fun l => (l.event, l.handler)) ++ others →
    w'.slot n = { w.slot n with content := .element { el with listeners := others } }

namespace Kills

theorem refl (w : World) : Kills D K [] [] [] [] w w :=
  ⟨.refl w, by simp, by simp, by simp, fun _ _ => rfl, by simp, by simp⟩

/-- One after the other, if neither touches the elements of the other one. -/
theorem trans (h : Kills D K cs rs ls es w w') (h' : Kills D K' cs' rs' ls' es' w' w'')
    (hK : ∀ e ∈ es, ¬ K' (.slot e.1)) (hK' : ∀ e ∈ es', ¬ K (.slot e.1)) :
    Kills D (fun e => K e ∨ K' e) (cs ++ cs') (rs ++ rs') (ls ++ ls') (es ++ es') w w'' where
  releases := (h.releases.mono fun _ => .inl).trans (h'.releases.mono fun _ => .inr)
  registry {c} hc := by
    have hfirst : c ∈ cs ∨ c ∈ rs → (w''.cell c).registry = [] := fun hc =>
      (h'.releases.registry c).elim (fun h' => h'.trans (h.registry hc)) id
    simp only [List.mem_append] at hc
    rcases hc with (hc | hc) | hc | hc
    · exact hfirst (.inl hc)
    · exact h'.registry (.inl hc)
    · exact hfirst (.inr hc)
    · exact h'.registry (.inr hc)
  held {c} hc := by
    rcases List.mem_append.1 hc with hc | hc
    · have hf := (h.releases.evolves.flavour c).trans (h.isRef hc)
      exact (h'.releases.ref hf).elim (fun h' => h'.trans (h.held hc)) id
    · exact h'.held hc
  isRef {c} hc := by
    rcases List.mem_append.1 hc with hc | hc
    · exact h.isRef hc
    · exact (h.releases.evolves.flavour c).symm.trans (h'.isRef hc)
  other hc hr := by
    simp only [List.mem_append, not_or] at hc hr
    exact (h'.other hc.2 hr.2).trans (h.other hc.1 hr.1)
  lists {l} hl := by
    rcases List.mem_append.1 hl with hl | hl
    · exact (h'.releases.lists l).elim (fun h' => h'.trans (h.lists hl)) And.right
    · exact h'.lists hl
  listeners {n listeners el others} hn ho hu hc hl := by
    have hu' := h.releases.unmarked hu
    rcases List.mem_append.1 hn with hn | hn
    · rw [(h'.releases.slot (hK _ hn)).eq hu']
      exact h.listeners hn ho hu hc hl
    · have hslot := (h.releases.slot (hK' _ hn)).eq hu
      rw [← hslot] at hc ⊢
      exact h'.listeners hn (h.releases.occupied.2 ho) hu' hc hl

/-- The same said of more or in another order. -/
theorem congr (h : Kills D K cs rs ls es w w') (hK : ∀ e, K e → K' e) (hcs : ∀ c, c ∈ cs' ↔ c ∈ cs)
    (hrs : ∀ c, c ∈ rs' ↔ c ∈ rs) (hls : ∀ l, l ∈ ls' → l ∈ ls) (hes : ∀ e, e ∈ es' → e ∈ es) :
    Kills D K' cs' rs' ls' es' w w' where
  releases := h.releases.mono hK
  registry hc := h.registry (hc.imp (hcs _).1 (hrs _).1)
  held hc := h.held ((hrs _).1 hc)
  isRef hc := h.isRef ((hrs _).1 hc)
  other hc hr := h.other (fun hc' => hc ((hcs _).2 hc')) fun hr' => hr ((hrs _).2 hr')
  lists hl := h.lists (hls _ hl)
  listeners hn := h.listeners (hes _ hn)

theorem unpinned {held : List Entity} (h : Kills D K cs rs ls es (w.pinned held) w') :
    Kills D K cs rs ls es w w'.unpinned :=
  ⟨h.releases.unpinned, h.registry, h.held, h.isRef, h.other, h.lists, h.listeners⟩

end Kills

/-! ## Single steps -/

/-- The world without subscriptions of these observables. -/
def World.unsubscribed (w : World) (cs : List CellId) : World :=
  cs.foldl (fun w c => w.withCell c Cell.unsubscribeAll) w

theorem run_unsubscribeEach (cs : List CellId) (w : World) :
    (cs.forM unsubscribeAll).run w = .ok ⟨⟩ (w.unsubscribed cs) := by
  induction cs generalizing w with
  | nil => rfl
  | cons c rest ih => exact ih (w.withCell c Cell.unsubscribeAll)

theorem registry_unsubscribed (w : World) (cs : List CellId) (c : CellId) :
    ((w.unsubscribed cs).cell c).registry = if c ∈ cs then [] else (w.cell c).registry := by
  induction cs generalizing w with
  | nil => rfl
  | cons d rest ih =>
    have hstep : ((w.withCell d Cell.unsubscribeAll).cell c).registry =
        if c = d then [] else (w.cell c).registry := by
      rw [World.cell_withCell]
      by_cases hcd : c = d
      · rw [if_pos hcd]
        split
        · rfl
        · next h =>
          have hsize : w.cells.size ≤ c.index := Nat.le_of_not_lt fun hlt => h ⟨hcd, hlt⟩
          rw [World.cell_of_size_le hsize]
          rfl
      · rw [if_neg fun h => hcd h.1, if_neg hcd]
    rw [World.unsubscribed, List.foldl_cons]
    refine (ih _).trans ?_
    rw [hstep]
    by_cases h : c ∈ rest <;> by_cases h' : c = d <;> simp [h, h']

theorem kills_unsubscribed (w : World) (cs : List CellId) :
    Kills D (fun _ => False) cs [] [] [] w (w.unsubscribed cs) where
  releases := (keeps_forM (E := fun _ => True) fun c _ => releases_unsubscribeAll c).ok
    (run_unsubscribeEach cs w)
  registry hc := by
    rw [registry_unsubscribed, if_pos (by simpa using hc)]
  held := by simp
  isRef := by simp
  other hc _ := by rw [registry_unsubscribed, if_neg hc]
  lists := by simp
  listeners := by simp

theorem kills_killRef (hw : w.Hears D x) (h : (killRef (respond d) c).run w = .ok ⟨⟩ w') :
    Kills D (fun _ => False) [] [c] [] [] w w' := by
  have hreleases : Releases D (fun _ => False) w w' := (releases_killRef hw c).ok h
  rw [killRef, withRef, ok_get_bind] at h
  split at h
  · next hf =>
    obtain ⟨_, w₁, h₁, h⟩ := ok_bind.1 h
    obtain ⟨_, w₂, h₂, h₁⟩ := ok_bind.1 h₁
    rw [hold, run_modifyCell] at h₂
    cases h₂
    rw [run_modifyCell] at h
    cases h
    have hc : D c := hw.tracks.ofRef hf
    have hlt : c.index < w.cells.size := by
      refine Nat.lt_of_not_le fun hle => ?_
      rw [World.cell_of_size_le hle] at hf
      cases hf
    have hclear : Releases D (fun _ => False) w
        (w.withCell c fun cell => { cell with held := .absent }) :=
      releases_withCell (fun _ => rfl) (fun _ => .inl rfl) fun _ => .inr ⟨hc, rfl⟩
    have hm := (murmurs d (hclear.hears hw) hc).ok h₁
    have hlt₁ : c.index < w₁.cells.size := by
      rw [hm.evolves.cells, hclear.evolves.cells]
      exact hlt
    have hflavour : ((w.withCell c fun cell => { cell with held := .absent }).cell c).flavour =
        .ref := (hclear.evolves.flavour c).trans hf
    refine ⟨hreleases, fun {e} he => ?_, fun {e} he => ?_, fun {e} he => ?_, fun {e} _ he => ?_,
      by simp, by simp⟩
    · obtain rfl : e = c := by simpa using he
      rw [World.cell_withCell, if_pos ⟨rfl, hlt₁⟩]
      rfl
    · obtain rfl := List.mem_singleton.1 he
      rw [World.cell_withCell, if_pos ⟨rfl, hlt₁⟩]
      refine (hm.held e (.inr hflavour)).trans ?_
      rw [World.cell_withCell, if_pos ⟨rfl, hlt⟩]
    · obtain rfl := List.mem_singleton.1 he
      exact hf
    · have hne : e ≠ c := fun h => he (List.mem_singleton.2 h)
      rw [World.cell_withCell, if_neg fun h => hne h.1, hm.registry, World.cell_withCell,
        if_neg fun h => hne h.1]
  · exact absurd h not_ok_unknown

theorem kills_killRefs {refs : List CellId} (hw : w.Hears D x)
    (h : (killRefs (respond d) refs).run w = .ok ⟨⟩ w') :
    Kills D (fun _ => False) [] refs [] [] w w' := by
  induction refs generalizing w with
  | nil =>
    obtain ⟨-, rfl⟩ := ok_pure.1 h
    exact .refl _
  | cons c rest ih =>
    obtain ⟨_, w₁, h₁, h⟩ := ok_bind.1 h
    obtain ⟨w₀, h₀, rfl⟩ := ok_holding.1 h₁
    have hc := (kills_killRef (hw.pinned _) h₀).unpinned
    exact (hc.trans (ih (hc.releases.hears hw) h) (by simp) (by simp)).congr (by simp) (by simp)
      (by simp) (by simp) (by simp)

/-- The world without the first registrations of these listeners on a node. -/
def World.unlistened (w : World) (n : PageNode) (listeners : List Listener) : World :=
  listeners.foldl
    (fun w l => w.withPage n.page ((w.page n.page).unlisten n.slot l.event l.handler)) w

theorem run_unlistenEach (n : PageNode) (listeners : List Listener) (w : World) :
    (listeners.forM fun l => n.unlisten l.event l.handler).run w =
      .ok ⟨⟩ (w.unlistened n listeners) := by
  induction listeners generalizing w with
  | nil => rfl
  | cons l rest ih => exact ih _

/-- Listeners that come first are taken off, and the others stay. -/
theorem slot_unlistened {el : Element} {listeners : List Listener}
    {others : List (String × HandlerId)} (ho : w.Occupied n)
    (hc : (w.slot n).content = .element el)
    (hl : el.listeners = (listeners.map fun l => (l.event, l.handler)) ++ others) :
    (w.unlistened n listeners).slot n =
      { w.slot n with content := .element { el with listeners := others } } := by
  induction listeners generalizing w el with
  | nil =>
    have : el.listeners = others := hl
    subst this
    show w.slot n = { w.slot n with content := .element el }
    rw [← hc]
  | cons l rest ih =>
    have hlt := World.lt_of_occupied ho
    have hslot : (w.withPage n.page ((w.page n.page).unlisten n.slot l.event l.handler)).slot n =
        { w.slot n with content := (.element
          { el with listeners := (rest.map fun l => (l.event, l.handler)) ++ others }) } := by
      have hc' : ((w.page n.page).slot n.slot).content = .element el := hc
      rw [World.slot, World.page_withPage_self hlt, Page.unlisten, Page.slot_modify,
        if_pos ⟨rfl, ho.1⟩, hc']
      simp [World.slot, hl]
    have ho' : (w.withPage n.page
        ((w.page n.page).unlisten n.slot l.event l.handler)).Occupied n := by
      rw [World.Occupied, World.page_withPage_self hlt]
      exact (Page.shaped_unlisten ..).occupied.2 ho
    rw [World.unlistened, List.foldl_cons]
    refine (ih ho' (by rw [hslot]) rfl).trans ?_
    rw [hslot]

theorem kills_unlistened (w : World) (n : PageNode) (listeners : List Listener) :
    Kills D (· = .slot n) [] [] [] [(n, listeners)] w (w.unlistened n listeners) where
  releases := (keeps_forM (E := fun _ => True) fun _ _ =>
    releases_unlisten (K := (· = .slot n)) rfl _ _).ok (run_unlistenEach n listeners w)
  registry := by simp
  held := by simp
  isRef := by simp
  other _ _ := by
    induction listeners generalizing w with
    | nil => rfl
    | cons l rest ih => exact ih _
  lists := by simp
  listeners {n' listeners' el others} hn ho _ hc hl := by
    cases List.mem_singleton.1 hn
    exact slot_unlistened ho hc hl

theorem kills_taken (w : World) (l : RecordsId) :
    Kills D (· = .records l) [] [] [l] [] w (w.taken l) where
  releases := releases_taken rfl
  registry := by simp
  held := by simp
  isRef := by simp
  other _ _ := rfl
  lists {k} hk := by rw [recordsIn_taken, if_pos (List.mem_singleton.1 hk)]
  listeners := by simp

/-! ## Records -/

/-- What killing a record touches by itself. -/
def Teardown.Touches (m : Teardown) (e : Entity) : Prop :=
  (∃ n, m.element = some n ∧ e = .slot n) ∨ e = .records m.children

/-- The element of a record and its listeners. -/
def Teardown.listening (m : Teardown) : List (PageNode × List Listener) :=
  m.element.toList.map fun n => (n, m.listeners)

/-- Killing a record releases it, and then kills the records in its list. -/
theorem ok_kill (hw : w.Hears D x) (h : (respond d (.kill m)).run w = .ok ⟨⟩ w') :
    ∃ d' w₁, d = d' + 1 ∧
      Kills D m.Touches (m.driving.toList ++ m.observables) m.refs [m.children] m.listening w w₁ ∧
      (killAll (respond d') (w.recordsIn m.children)).run w₁ = .ok ⟨⟩ w' := by
  cases d with
  | zero => exact absurd h not_ok_throw
  | succ d =>
    change (m.kill (respond d)).run w = .ok ⟨⟩ w' at h
    obtain ⟨_, w₁, h₁, h⟩ := ok_bind.1 h
    rw [run_unsubscribeEach] at h₁
    cases h₁
    obtain ⟨_, w₂, h₂, h⟩ := ok_bind.1 h
    obtain ⟨_, w₃, h₃, h⟩ := ok_bind.1 h
    rw [run_unsubscribeEach] at h₃
    cases h₃
    have k₁ := kills_unsubscribed (D := D) w m.driving.toList
    have k₂ := k₁.trans (kills_killRefs (k₁.releases.hears hw) h₂) (by simp) (by simp)
    have k := k₂.trans (kills_unsubscribed w₂ m.observables) (by simp) (by simp)
    have hrecords : (w₂.unsubscribed m.observables).recordsIn m.children =
        w.recordsIn m.children := by
      rcases k.releases.lists m.children with h | ⟨h, -⟩
      · exact h
      · simp at h
    cases he : m.element with
    | none =>
      simp only [he] at h
      obtain ⟨ms, w₄, h₄, h⟩ := ok_bind.1 h
      rw [run_takeRecords, hrecords] at h₄
      cases h₄
      refine ⟨d, _, rfl, (k.trans (kills_taken _ m.children) (by simp) (by simp)).congr ?_
        (by simp) (by simp) (by simp) (by simp [Teardown.listening, he]), h⟩
      simp [Teardown.Touches]
    | some n =>
      simp only [he] at h
      obtain ⟨_, w₃, h₃, h⟩ := ok_bind.1 h
      rw [run_unlistenEach] at h₃
      cases h₃
      obtain ⟨ms, w₄, h₄, h⟩ := ok_bind.1 h
      have k₄ := k.trans (kills_unlistened _ n m.listeners) (by simp) (by simp)
      have hrecords' : ((w₂.unsubscribed m.observables).unlistened n m.listeners).recordsIn
          m.children = w.recordsIn m.children := by
        rcases k₄.releases.lists m.children with h | ⟨h, -⟩
        · exact h
        · simp at h
      rw [run_takeRecords, hrecords'] at h₄
      cases h₄
      refine ⟨d, _, rfl, (k₄.trans (kills_taken _ m.children) (by simp) (by simp)).congr ?_
        (by simp) (by simp) (by simp) (by simp [Teardown.listening, he]), h⟩
      simp [Teardown.Touches, he]

namespace Mounts

/-- The elements with the listeners that realization has put on them. -/
def listening (pg : PageId) (g : Mounts) : List (PageNode × List Listener) :=
  g.elements.map fun e => (⟨pg, e.slot⟩, e.listeners)

theorem page_of_listening {e : PageNode × List Listener} (h : e ∈ g.listening pg) :
    g.Covers pg (.slot e.1) := by
  obtain ⟨el, hel, rfl⟩ := List.mem_map.1 h
  exact ⟨rfl, slot_mem_of_elements hel⟩

end Mounts

/-- The records of the trees have been killed. -/
abbrev Mounts.Killed (D : CellId → Prop) (pg : PageId) (g : Mounts) (w w' : World) : Prop :=
  Kills D (g.Covers pg) g.cells g.refs g.lists (g.listening pg) w w'

/-- Killing the records of the trees releases all that the trees have. -/
def Mounts.Dies (D : CellId → Prop) (x : Prop) (pg : PageId) (g : Mounts) : Prop :=
  ∀ {d : Nat} {q : Nat} {w w' : World}, w.Hears D x → g.Stand w pg q → g.slots.Nodup →
    g.lists.Nodup → (killAll (respond d) (g.teardowns pg)).run w = .ok ⟨⟩ w' →
    g.Killed D pg w w'

/-- A record, what stands below it, and what comes behind. -/
theorem Mounts.Dies.cons (hi : inner.Dies D x pg) (hr : rest.Dies D x pg) {q' : Nat}
    (hw : w.Hears D x) (hl : w.ListAt m.children (inner.teardowns pg)) (hin : inner.Stand w pg q')
    (hrest : rest.Stand w pg q) (helement : ∀ n, m.element = some n → n.page = pg)
    (hslots : (m.element.toList.map (·.slot) ++ (inner.slots ++ rest.slots)).Nodup)
    (hlists : (m.children :: (inner.lists ++ rest.lists)).Nodup)
    (h : (killAll (respond d) (m :: rest.teardowns pg)).run w = .ok ⟨⟩ w') :
    Kills D (fun e => (m.Touches e ∨ inner.Covers pg e) ∨ rest.Covers pg e)
      ((m.driving.toList ++ m.observables ++ inner.cells) ++ rest.cells)
      ((m.refs ++ inner.refs) ++ rest.refs) ((m.children :: inner.lists) ++ rest.lists)
      ((m.listening ++ inner.listening pg) ++ rest.listening pg) w w' := by
  obtain ⟨_, w₂, h₂, h⟩ := ok_bind.1 h
  obtain ⟨w₁, h₁, rfl⟩ := ok_holding.1 h₂
  obtain ⟨d', u, rfl, hm, hinner⟩ := ok_kill (hw.pinned _) h₁
  have hlist : World.recordsIn (w.pinned ((m :: rest.teardowns pg).flatMap Teardown.holds))
      m.children = inner.teardowns pg := hl.records
  rw [hlist] at hinner
  simp only [List.nodup_append, List.nodup_cons, List.mem_append, not_or] at hslots hlists
  -- the trees are apart from the record and from each other
  have hmi : ∀ i ∈ inner.slots, ¬ m.Touches (.slot ⟨pg, i⟩) := by
    rintro i hi (⟨n, hn, he⟩ | he)
    · cases he
      exact hslots.2.2 i (by simp [hn]) i (.inl hi) rfl
    · cases he
  have hmr : ∀ i ∈ rest.slots, ¬ m.Touches (.slot ⟨pg, i⟩) := by
    rintro i hi (⟨n, hn, he⟩ | he)
    · cases he
      exact hslots.2.2 i (by simp [hn]) i (.inr hi) rfl
    · cases he
  have hmil : ∀ l ∈ inner.lists, ¬ m.Touches (.records l) := by
    rintro l hl' (⟨n, hn, he⟩ | he)
    · cases he
    · cases he
      exact hlists.1.1 hl'
  have hmrl : ∀ l ∈ rest.lists, ¬ m.Touches (.records l) := by
    rintro l hl' (⟨n, hn, he⟩ | he)
    · cases he
    · cases he
      exact hlists.1.2 hl'
  have hir : ∀ i ∈ rest.slots, ¬ inner.Covers pg (.slot ⟨pg, i⟩) := fun i hi hc =>
    hslots.2.1.2.2 i hc.2 i hi rfl
  have hirl : ∀ l ∈ rest.lists, ¬ inner.Covers pg (.records l) := fun l hl hc =>
    hlists.2.2.2 l hc l hl rfl
  have hlisten : ∀ {g : Mounts} {K : Entity → Prop}, (∀ i ∈ g.slots, ¬ K (.slot ⟨pg, i⟩)) →
      ∀ e ∈ g.listening pg, ¬ K (.slot e.1) := by
    intro g K hK e he
    obtain ⟨⟨pg', i⟩, ls⟩ := e
    obtain ⟨rfl, hmem⟩ := page_of_listening he
    exact hK i hmem
  have hmlisten : ∀ {g : Mounts}, (∀ i ∈ g.slots, ¬ m.Touches (.slot ⟨pg, i⟩)) →
      ∀ e ∈ m.listening, ¬ g.Covers pg (.slot e.1) := by
    rintro g hK e he ⟨hp, hi⟩
    obtain ⟨n, hn, rfl⟩ := List.mem_map.1 he
    refine hK _ hi (.inl ⟨n, by simpa using hn, ?_⟩)
    rw [← hp]
  have hstand := hm.releases.stand (hin.repin _) hmi hmil
  have hdies := hi (hm.releases.hears (hw.pinned _)) hstand hslots.2.1.1 hlists.2.1 hinner
  have hhead := (hm.trans hdies (hmlisten hmi) (hlisten hmi)).unpinned
  have hrest' := hhead.releases.stand hrest
    (fun i hi hc => hc.elim (hmr i hi) (hir i hi)) fun l hl hc => hc.elim (hmrl l hl) (hirl l hl)
  have htail := hr (hhead.releases.hears hw) hrest' hslots.2.1.2.1 hlists.2.2.1 h
  refine hhead.trans htail (fun e he => ?_) fun e he hc => ?_
  · rcases List.mem_append.1 he with he | he
    · exact hmlisten hmr e he
    · refine hlisten (g := inner) (K := rest.Covers pg) (fun i hi hc => ?_) e he
      exact hslots.2.1.2.2 i hi i hc.2 rfl
  · exact hc.elim (hlisten hmr e he) (hlisten hir e he)

theorem Mounts.dies_nil : Mounts.nil.Dies D x pg := by
  intro d q w w' _ _ _ _ h
  obtain ⟨-, rfl⟩ := ok_pure.1 h
  exact .refl _

theorem Teardown.Touches.covers {e : Entity} (h : m.Touches e) (hl : m.children ∈ g.lists)
    (he : ∀ n, m.element = some n → g.Covers pg (.slot n)) : g.Covers pg e := by
  rcases h with ⟨n, hn, rfl⟩ | rfl
  · exact he n hn
  · exact hl

theorem kills_mounts (g : Mounts) : g.Dies D x pg := by
  induction g with
  | nil => exact Mounts.dies_nil
  | text i data l rest ih =>
    intro d q w w' hw hg hn hl h
    have := Mounts.dies_nil.cons ih (m := { children := l }) hw hg.2.1
      (show Mounts.nil.Stand w pg q from trivial) hg.2.2
      (by simp) (by simpa [Mounts.slots] using (List.nodup_cons.1 hn).2) hl h
    refine this.congr (fun e he => ?_) (by simp [Mounts.cells]) (by simp [Mounts.refs, Mounts.elements])
      (by simp [Mounts.lists])
      (by simp [Mounts.listening, Mounts.elements, Teardown.listening])
    rcases he with (he | he) | he
    · exact he.covers (by simp [Mounts.lists]) (by simp)
    · exact he.mono (by simp [Mounts.slots]) (by simp [Mounts.lists]) (by simp [Mounts.regions])
        (by simp [Mounts.sites])
    · exact he.mono (by simp_all [Mounts.slots]) (by simp_all [Mounts.lists])
        (by simp_all [Mounts.regions]) (by simp_all [Mounts.sites])
  | element e inner rest ihi ihr =>
    intro d q w w' hw hg hn hl h
    have := ihi.cons ihr (m := e.teardown pg) hw hg.1.records hg.2.1 hg.2.2
      (by simp [MountedElement.teardown]) hn hl h
    refine this.congr (fun x hx => ?_) ?_ ?_ ?_ ?_
    · rcases hx with (hx | hx) | hx
      · exact hx.covers (by simp [Mounts.lists, MountedElement.teardown])
          (by simp [Mounts.Covers, Mounts.slots, MountedElement.teardown])
      · exact hx.mono (by simp_all [Mounts.slots]) (by simp_all [Mounts.lists])
          (by simp_all [Mounts.regions]) (by simp_all [Mounts.sites])
      · exact hx.mono (by simp_all [Mounts.slots]) (by simp_all [Mounts.lists])
          (by simp_all [Mounts.regions]) (by simp_all [Mounts.sites])
    · simp [Mounts.cells, MountedElement.teardown]
    · simp [Mounts.refs, Mounts.elements, MountedElement.teardown]
    · simp [Mounts.lists, MountedElement.teardown]
    · simp [Mounts.listening, Mounts.elements, Teardown.listening, MountedElement.teardown]
  | region r inner rest ihi ihr =>
    intro d q w w' hw hg hn hl h
    have hn' : (inner.slots ++ rest.slots).Nodup := (List.nodup_cons.1 (List.nodup_cons.1 hn).2).2
    have := ihi.cons ihr (m := r.teardown) hw hg.1.records hg.2.1 hg.2.2
      (by simp [MountedRegion.teardown]) (by simpa [MountedRegion.teardown] using hn') hl h
    refine this.congr (fun x hx => ?_) ?_ ?_ ?_ ?_
    · rcases hx with (hx | hx) | hx
      · exact hx.covers (by simp [Mounts.lists, MountedRegion.teardown])
          (by simp [MountedRegion.teardown])
      · exact hx.mono (by simp_all [Mounts.slots]) (by simp_all [Mounts.lists])
          (by simp_all [Mounts.regions]) (by simp_all [Mounts.sites])
      · exact hx.mono (by simp_all [Mounts.slots]) (by simp_all [Mounts.lists])
          (by simp_all [Mounts.regions]) (by simp_all [Mounts.sites])
    · simp [Mounts.cells, MountedRegion.teardown]
    · simp [Mounts.refs, Mounts.elements, MountedRegion.teardown]
    · simp [Mounts.lists, MountedRegion.teardown]
    · simp [Mounts.listening, Mounts.elements, Teardown.listening, MountedRegion.teardown]
  | group l inner rest ihi ihr =>
    intro d q w w' hw hg hn hl h
    have := ihi.cons ihr (m := { children := l }) hw hg.1 hg.2.1 hg.2.2 (by simp) hn hl h
    refine this.congr (fun x hx => ?_) ?_ ?_ ?_ ?_
    · rcases hx with (hx | hx) | hx
      · exact hx.covers (by simp [Mounts.lists]) (by simp)
      · exact hx.mono (by simp_all [Mounts.slots]) (by simp_all [Mounts.lists])
          (by simp_all [Mounts.regions]) (by simp_all [Mounts.sites])
      · exact hx.mono (by simp_all [Mounts.slots]) (by simp_all [Mounts.lists])
          (by simp_all [Mounts.regions]) (by simp_all [Mounts.sites])
    · simp [Mounts.cells]
    · simp [Mounts.refs, Mounts.elements]
    · simp [Mounts.lists]
    · simp [Mounts.listening, Mounts.elements, Teardown.listening]

end LivePage
