import LivePage.Proofs.Mount.Grown

/-!
# Collecting the records of what grows

The records of what grows below a node are added to a list, which has been made before and to which
no subscription leads until all is done. `Growing` is the invariant of the loop over the nodes; at
its end the list and the trees are a group (`Growing.group`).
-/

namespace LivePage

variable {b w w' : World} {q : PageNode} {D : CellId → Prop} {m : Teardown} {l : RecordsId}
  {g g' : Mounts}

/-- Trees have grown below `q`, and the list `l`, to which no subscription leads yet, holds their
records. -/
structure Growing (D : CellId → Prop) (q : PageNode) (b w : World) (l : RecordsId) (g : Mounts) :
    Prop where
  grown : Grown D q b w (w.recordsIn l) g
  new : b.records.size ≤ l.index
  lt : l.index < w.records.size
  unreached : w.Unreached l
  fresh : l ∉ g.lists

namespace Growing

/-- Nothing has grown when the list has just been made. -/
theorem start (hs : b.Sound) : Growing D q b b.withList ⟨b.records.size⟩ .nil where
  grown := by
    have hrec : b.withList.recordsIn ⟨b.records.size⟩ = [] := by
      rw [recordsIn_withList]
      simp [World.recordsIn]
    rw [hrec]
    exact .nil (Built.refl hs).newRecords (.refl _ _) fun _ _ h _ => h
  new := Nat.le_refl _
  lt := by simp [World.withList]
  unreached := hs.unreached_withList
  fresh := by simp [Mounts.lists]

theorem repin (h : Growing D q b w l g) {pins : List (List Entity)} (hp : b.pins <:+ pins) :
    Growing D q b { w with pins := pins } l g where
  grown := h.grown.repin hp
  new := h.new
  lt := h.lt
  unreached c key r hr he := h.unreached c key r hr (he.congr (by rfl) (by rfl) (by rfl))
  fresh := h.fresh

theorem pinned (h : Growing D q b w l g) (held : List Entity) :
    Growing D q b (w.pinned held) l g :=
  h.repin (h.grown.built.pins.trans (List.suffix_cons _ _))

theorem unpinned {held : List Entity} (h : Growing D q b w' l g) (hb : b.pins <:+ w.pins)
    (hp : w'.pins = held :: w.pins) : Growing D q b w'.unpinned l g := by
  refine h.repin ?_
  rw [hp]
  exact hb

/-- One more node grows, and its record is added to the list. -/
theorem push (h : Growing D q b w l g) (hq : w.Safe q) (hg : Grown D q w w' [m] g') :
    Growing D q b (w'.pushed l m) l (g ++ g') := by
  have hlt : l.index < w'.records.size := Nat.lt_of_lt_of_le h.lt hg.built.evolves.records
  have hfresh : l ∉ (g ++ g').lists := by
    rw [Mounts.lists_append, List.mem_append]
    rintro (hl | hl)
    · exact h.fresh hl
    · exact Nat.lt_irrefl _ (Nat.lt_of_lt_of_le h.lt (hg.lists hl))
  have hun : w'.Unreached l := hg.built.unreached h.lt h.unreached
  refine ⟨?_, h.new, by simpa [World.pushed] using hlt, fun c key r hr he => ?_, hfresh⟩
  · have hrec : (w'.pushed l m).recordsIn l = w.recordsIn l ++ [m] := by
      rw [recordsIn_pushed, if_pos ⟨rfl, hlt⟩, hg.built.lists h.lt]
    rw [hrec]
    exact (h.grown.append hq hg).pushed h.new hun hfresh m
  · exact hun c key r hr (he.of_pushed (hun _ _ _ hr))

end Growing

/-- What a list has collected is a group. -/
theorem Growing.group (h : Growing D q b w l g) :
    Grown D q b w [{ children := l }] (.group l g .nil) where
  built := h.grown.built
  self := by simpa [Mounts.tops] using h.grown.self
  stand := ⟨⟨h.lt, h.grown.teardowns.symm⟩, h.grown.stand, trivial⟩
  teardowns := rfl
  fresh hi := h.grown.fresh (by simpa [Mounts.slots] using hi)
  nodup := by simpa [Mounts.slots] using h.grown.nodup
  lists hl := by
    simp only [Mounts.lists, List.append_nil, List.mem_cons] at hl
    rcases hl with rfl | hl
    · exact h.new
    · exact h.grown.lists hl
  nodupLists := by simpa [Mounts.lists] using ⟨h.fresh, h.grown.nodupLists⟩
  sites hs := h.grown.sites (by simpa [Mounts.sites] using hs)
  nodupSites := by simpa [Mounts.sites] using h.grown.nodupSites
  owns hr hp := (h.grown.owns hr hp).imp_right fun ho => .inl ho

end LivePage
