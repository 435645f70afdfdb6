import LivePage.Proofs.Page.Reclamation

/-!
# The arena grows with what is within reach

A program may let go of nodes and make others for as long as it likes, and its edits may fail: its
page never has more than 64 slots, or twice as many as there were nodes within reach at one time
(`History.slots_proportional`). Slots are not given back, so these are all slots that the page has
ever taken.

A page takes a new slot only when none is free, so that all its slots are occupied; and a creation
that finds as many slots occupied as the threshold says sweeps first, after which fewer are. So the
slots stay below the threshold (`Document.Grows.size`). The threshold in turn is only set by such a
sweep, to twice the number of nodes that were within reach then. A count sweeps as well and leaves the
threshold alone, and what it frees are slots to be used again.
-/

namespace LivePage

namespace Page

variable {p : Page} {held : List Nat}

/-! ## What a creation does to slots and threshold -/

@[simp] theorem sweepAt_place (p : Page) (content : Content) :
    (p.place content).2.sweepAt = p.sweepAt := by
  unfold place
  split <;> rfl

/-- A new slot is taken only if all slots are occupied. -/
theorem size_place (p : Page) (content : Content) :
    (p.place content).2.slots.size = if p.free = [] then p.live + 1 else p.slots.size := by
  unfold place
  split
  · next i rest h => simp [h]
  · next h => simp [h, live]

/-- The next sweep is not due at once. -/
theorem live_reclaim_lt (p : Page) (held : List Nat) :
    (p.reclaim held).live < (p.reclaim held).sweepAt := by
  show (p.sweep held).live < max (2 * (p.sweep held).live) sweepMinimum
  unfold sweepMinimum
  omega

theorem size_le_place (p : Page) (content : Content) :
    p.slots.size ≤ (p.place content).2.slots.size := by
  rw [size_place]
  split
  · next h => simp [live, h]
  · exact Nat.le_refl _

theorem size_le_created (p : Page) (held : List Nat) (content : Content) :
    p.slots.size ≤ (p.created held content).2.slots.size := by
  unfold created
  split
  · calc p.slots.size
        = (p.reclaim held).slots.size := (size_sweep p held).symm
      _ ≤ ((p.reclaim held).place content).2.slots.size := size_le_place ..
  · exact size_le_place ..

/-- The sweep that is due keeps the slots below the threshold. -/
theorem size_created_le (p : Page) (held : List Nat) (content : Content) :
    (p.created held content).2.slots.size ≤
      max p.slots.size (p.created held content).2.sweepAt := by
  -- With or without a sweep, fewer slots are occupied than the threshold says.
  have key : ∀ s : Page, s.slots.size = p.slots.size → s.live < s.sweepAt →
      (s.place content).2.slots.size ≤ max p.slots.size (s.place content).2.sweepAt := by
    intro s hs hlive
    rw [size_place, sweepAt_place, ← hs]
    split
    · exact Nat.le_trans hlive (Nat.le_max_right ..)
    · exact Nat.le_max_left ..
  unfold created
  split
  · apply key
    · exact size_sweep p held
    · exact live_reclaim_lt p held
  · next hfull =>
    apply key
    · rfl
    · simpa [isFull] using hfull

/-- A creation sets the threshold, if at all, to twice the number of nodes that it spares. -/
theorem Rooted.sweepAt_created_le (hr : p.Rooted) (held : List Nat) (content : Content) :
    (p.created held content).2.sweepAt ≤
      max p.sweepAt (max 64 (2 * (p.retained held).ncard)) := by
  rw [Page.created, sweepAt_place]
  split
  · have hset : (p.reclaim held).sweepAt = max (2 * (p.sweep held).live) sweepMinimum := rfl
    rw [hset, (hr.reclaims_sweep held).live, sweepMinimum]
    omega
  · exact Nat.le_max_left ..

end Page

namespace Document

variable {d : Document} {past : List Document} {o : Operation}

/-- The number of nodes in the trees of which some node has a handle. A node belongs to the tree of its
parent, also where a failed edit has left it with a parent that does not list it. -/
noncomputable def population (d : Document) : Nat := (d.page.retained d.handles).ncard

/-! ## What an operation does to slots and threshold -/

/-- How slots and threshold change: there are never fewer slots, more only below the new threshold,
and the threshold goes up only as far as the nodes within reach allow. -/
structure Grows (d d' : Document) : Prop where
  size_le : d.page.slots.size ≤ d'.page.slots.size
  size : d'.page.slots.size ≤ max d.page.slots.size d'.page.sweepAt
  sweepAt : d'.page.sweepAt ≤ max d.page.sweepAt (max 64 (2 * d.population))

/-- What changes neither slots nor threshold. -/
theorem grows_of_eq {d' : Document} (hsize : d'.page.slots.size = d.page.slots.size)
    (hsweep : d'.page.sweepAt = d.page.sweepAt) : Grows d d' := by
  constructor
  · exact Nat.le_of_eq hsize.symm
  · exact hsize ▸ Nat.le_max_left ..
  · exact hsweep ▸ Nat.le_max_left ..

/-- Whatever an operation does, and even if it fails, slots and threshold change like this. -/
theorem Steady.grows (hd : d.Steady) (o : Operation) : Grows d (d.attempt o) := by
  have hedit : ∀ {page : Page}, d.page.SameSlots page → Grows d { d with page } := fun hs =>
    grows_of_eq hs.size hs.sweepAt
  have helement : ∀ {result : Except PageError Page},
      (d.perform o = result.map fun page => { d with page }) → d.residue o = d.page →
      (∀ page, result = .ok page → d.page.SameSlots page) → Grows d (d.attempt o) := by
    intro result h hres hs
    obtain h | ⟨page, hp, h⟩ := attempt_of_map h hres
    · rw [h]
      exact grows_of_eq rfl rfl
    · rw [h]
      exact hedit (hs page hp)
  cases o with
  | create content =>
    exact ⟨Page.size_le_created .., Page.size_created_le .., hd.rooted.sweepAt_created_le ..⟩
  | insertBefore parent child reference =>
    rw [attempt_of_edit rfl rfl]
    exact hedit (Page.sameSlots_insertBefore ..)
  | removeChild parent child =>
    rw [attempt_of_edit rfl rfl]
    exact hedit (Page.sameSlots_removeChild ..)
  | replaceChildren parent content =>
    rw [attempt_of_edit rfl rfl]
    exact hedit (Page.sameSlots_replaceChildren ..)
  | remove node => exact hedit (Page.sameSlots_detach ..)
  | unlisten node type handler => exact hedit (Page.sameSlots_modify ..)
  | countNodes => exact grows_of_eq (Page.size_sweep ..) rfl
  | clone node | drop node | visit node direction => exact grows_of_eq rfl rfl
  | _ => exact helement rfl rfl fun _ => Page.sameSlots_updateElement

/-! ## Histories -/

/-- The documents that a program goes through, the last one first. It starts with an empty page, and
its operations, of which some may fail, are done to nodes that it has handles of. -/
inductive History : List Document → Prop where
  | start : History [{}]
  | step {d : Document} {past : List Document} {o : Operation} : History (d :: past) →
      (∀ n ∈ o.nodes, n ∈ d.handles) → History (d.attempt o :: d :: past)

/-- The largest number of nodes that were within reach at one time. -/
noncomputable def peak (history : List Document) : Nat := (history.map population).foldr max 0

theorem History.steady (h : History (d :: past)) : d.Steady := by
  generalize hds : d :: past = ds at h
  induction h generalizing d past with
  | start =>
    cases hds
    exact sound_empty.steady
  | step _ hn ih =>
    cases hds
    exact (ih rfl).attempt hn

/-- Slots and threshold stay within the bound. -/
theorem History.bounded (h : History (d :: past)) :
    d.page.slots.size ≤ max 64 (2 * peak (d :: past)) ∧
      d.page.sweepAt ≤ max 64 (2 * peak (d :: past)) := by
  generalize hds : d :: past = ds at h
  induction h generalizing d past with
  | start =>
    cases hds
    exact ⟨Nat.zero_le _, Nat.le_max_left ..⟩
  | @step d past o h _ ih =>
    cases hds
    obtain ⟨hsize, hsweep⟩ := ih rfl
    have hgrows := h.steady.grows o
    have hpop : d.population ≤ peak (d :: past) := Nat.le_max_left ..
    have hpeak : peak (d :: past) ≤ peak (d.attempt o :: d :: past) := Nat.le_max_right ..
    -- The threshold is the old one or comes from the nodes that are within reach now.
    have hsweep' : (d.attempt o).page.sweepAt ≤ max 64 (2 * peak (d.attempt o :: d :: past)) := by
      have := hgrows.sweepAt
      omega
    refine ⟨?_, hsweep'⟩
    have := hgrows.size
    omega

/-- Slots are not given back. -/
theorem History.size_le (h : History (d :: past)) :
    ∀ e ∈ past, e.page.slots.size ≤ d.page.slots.size := by
  generalize hds : d :: past = ds at h
  induction h generalizing d past with
  | start =>
    cases hds
    simp
  | @step d past o h _ ih =>
    cases hds
    intro e he
    have hgrows := (h.steady.grows o).size_le
    rcases List.mem_cons.1 he with rfl | he
    · exact hgrows
    · exact (ih rfl e he).trans hgrows

/-- Whatever a program does, failures included, all slots that its page has ever taken are those that
it has now, and they are no more than 64 or twice as many as there were nodes within reach at one
time. -/
theorem History.slots_proportional (h : History (d :: past)) :
    (∀ e ∈ past, e.page.slots.size ≤ d.page.slots.size) ∧
      d.page.slots.size ≤ max 64 (2 * peak (d :: past)) :=
  ⟨h.size_le, h.bounded.1⟩

/-- An item that is put before itself is lost to its list; a text that is let go of is swept by the
next count, and a comment gets its slot. -/
theorem slots_proportional_of_lost_item :
    ∃ d past, History (d :: past) ∧ past.length = 8 ∧ (d.page.slot 0).children = [] ∧
      (d.page.slot 1).parent = some 0 ∧ d.page.slots.size = 3 ∧
      (∀ e ∈ past, e.page.slots.size ≤ d.page.slots.size) ∧
      d.page.slots.size ≤ max 64 (2 * peak (d :: past)) := by
  have h₁ := History.start.step (o := .create (.element { tag := "ul" })) (by decide)
  have h₂ := h₁.step (o := .create (.element { tag := "li" })) (by decide)
  have h₃ := h₂.step (o := .insertBefore 0 1 none) (by decide)
  have h₄ := h₃.step (o := .insertBefore 0 1 (some 1)) (by decide)
  have h₅ := h₄.step (o := .create (.text "a")) (by decide)
  have h₆ := h₅.step (o := .drop 2) (by decide)
  have h₇ := h₆.step (o := .countNodes) (by decide)
  have h₈ := h₇.step (o := .create (.comment "b")) (by decide)
  exact ⟨_, _, h₈, rfl, rfl, rfl, rfl, h₈.slots_proportional⟩

end Document

end LivePage
