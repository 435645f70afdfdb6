import LivePage.Proofs.Mount.Grown

/-!
# Trees with a hole

A place that follows an observable is a region or a driven element of the trees, and what stands in
it is one part of them. A `Hole` is the trees without that part: filling it gives trees again, and
trees stay standing when the place is filled anew and nothing else changes
(`Hole.stand_fill`).
-/

namespace LivePage

variable {w w' : World} {pg : PageId} {q : Nat} {c : CellId} {r : Reaction} {g x x' : Mounts}
  {s : SiteId} {i : Nat}

/-- Trees in which the contents of one region, or of one element, are missing. -/
inductive Hole where
  | region (m : MountedRegion) (rest : Mounts)
  | element (e : MountedElement) (rest : Mounts)
  | behind (first : Mounts) (hole : Hole)
  | inElement (e : MountedElement) (hole : Hole) (rest : Mounts)
  | inRegion (m : MountedRegion) (hole : Hole) (rest : Mounts)
  | inGroup (l : RecordsId) (hole : Hole) (rest : Mounts)

namespace Hole

/-- The trees with the contents put in. -/
def fill (x : Mounts) : Hole → Mounts
  | region m rest => .region m x rest
  | element e rest => .element e x rest
  | behind first hole => first ++ hole.fill x
  | inElement e hole rest => .element e (hole.fill x) rest
  | inRegion m hole rest => .region m (hole.fill x) rest
  | inGroup l hole rest => .group l (hole.fill x) rest

/-- The place whose contents are missing; an element that is not driven is none. -/
def site? : Hole → Option SiteId
  | region m _ => some m.site
  | element e _ => e.site?
  | behind _ hole | inElement _ hole _ | inRegion _ hole _ | inGroup _ hole _ => hole.site?

/-- The list with the records of the contents. -/
def records : Hole → RecordsId
  | region m _ => m.records
  | element e _ => e.records
  | behind _ hole | inElement _ hole _ | inRegion _ hole _ | inGroup _ hole _ => hole.records

/-- The page node that the contents stand below, for trees below `q`. -/
def holder (q : Nat) : Hole → Nat
  | region _ _ => q
  | element e _ => e.slot
  | behind _ hole | inRegion _ hole _ | inGroup _ hole _ => hole.holder q
  | inElement e hole _ => hole.holder e.slot

/-- The contents stand below the same page node as the trees. -/
def isFlat : Hole → Bool
  | region _ _ => true
  | element _ _ | inElement _ _ _ => false
  | behind _ hole | inRegion _ hole _ | inGroup _ hole _ => hole.isFlat

/-- The children of the holder before the contents. -/
def before : Hole → List Nat
  | region m _ => [m.start]
  | element _ _ => []
  | behind first hole => if hole.isFlat then first.tops ++ hole.before else hole.before
  | inElement _ hole _ | inGroup _ hole _ => hole.before
  | inRegion m hole _ => if hole.isFlat then m.start :: hole.before else hole.before

/-- The children of the holder behind the contents. -/
def after : Hole → List Nat
  | region m rest => m.finish :: rest.tops
  | element _ _ => []
  | behind _ hole | inElement _ hole _ => hole.after
  | inRegion m hole rest => if hole.isFlat then hole.after ++ m.finish :: rest.tops else hole.after
  | inGroup _ hole rest => if hole.isFlat then hole.after ++ rest.tops else hole.after

/-- Where the contents go. -/
def Targets (pg : PageId) (t : Target) : Hole → Prop
  | region m _ => t = .region m.region
  | element e _ => t = .contents ⟨pg, e.slot⟩
  | behind _ hole | inElement _ hole _ | inRegion _ hole _ | inGroup _ hole _ => hole.Targets pg t

attribute [simp] fill site? records holder isFlat before after

variable {C : Hole}

/-! ## What filled trees consist of -/

theorem slots_fill : (C.fill x).slots.Perm ((C.fill .nil).slots ++ x.slots) := by
  refine List.perm_iff_count.2 fun a => ?_
  induction C with
  | region m rest => grind [fill, Mounts.slots]
  | element e rest => grind [fill, Mounts.slots]
  | behind first hole ih => simp only [fill, Mounts.slots_append]; grind
  | inElement e hole rest ih => grind [fill, Mounts.slots]
  | inRegion m hole rest ih => grind [fill, Mounts.slots]
  | inGroup l hole rest ih => grind [fill, Mounts.slots]

theorem lists_fill : (C.fill x).lists.Perm ((C.fill .nil).lists ++ x.lists) := by
  refine List.perm_iff_count.2 fun a => ?_
  induction C with
  | region m rest => grind [fill, Mounts.lists]
  | element e rest => grind [fill, Mounts.lists]
  | behind first hole ih => simp only [fill, Mounts.lists_append]; grind
  | inElement e hole rest ih => grind [fill, Mounts.lists]
  | inRegion m hole rest ih => grind [fill, Mounts.lists]
  | inGroup l hole rest ih => grind [fill, Mounts.lists]

theorem sites_fill : (C.fill x).sites.Perm ((C.fill .nil).sites ++ x.sites) := by
  refine List.perm_iff_count.2 fun a => ?_
  induction C with
  | region m rest => grind [fill, Mounts.sites]
  | element e rest => grind [fill, Mounts.sites]
  | behind first hole ih => simp only [fill, Mounts.sites_append]; grind
  | inElement e hole rest ih => grind [fill, Mounts.sites]
  | inRegion m hole rest ih => grind [fill, Mounts.sites]
  | inGroup l hole rest ih => grind [fill, Mounts.sites]

theorem owns_fill : (C.fill x).Owns pg c r ↔ (C.fill .nil).Owns pg c r ∨ x.Owns pg c r := by
  induction C with
  | region m rest => simp only [fill, Mounts.Owns]; grind
  | element e rest => simp only [fill, Mounts.Owns]; grind
  | behind first hole ih => simp only [fill, Mounts.owns_append]; grind
  | inElement e hole rest ih => simp only [fill, Mounts.Owns]; grind
  | inRegion m hole rest ih => simp only [fill, Mounts.Owns]; grind
  | inGroup l hole rest ih => simp only [fill, Mounts.Owns]; grind

theorem teardowns_fill : (C.fill x).teardowns pg = (C.fill .nil).teardowns pg := by
  induction C <;> simp_all [fill, Mounts.teardowns]

theorem records_mem : C.records ∈ (C.fill .nil).lists := by
  induction C <;> simp_all [fill, Mounts.lists, records]

theorem site_mem (hs : C.site? = some s) : s ∈ (C.fill .nil).sites := by
  induction C <;> simp_all [fill, Mounts.sites, site?]

/-- Every place of trees is the place of a hole in them. -/
theorem exists_of_sites (hs : s ∈ g.sites) : ∃ C x, g = fill x C ∧ C.site? = some s := by
  induction g with
  | nil => exact absurd hs List.not_mem_nil
  | text i data l rest ih =>
    obtain ⟨C, x, rfl, hC⟩ := ih hs
    exact ⟨behind (.text i data l .nil) C, x, rfl, hC⟩
  | element e inner rest ihi ihr =>
    simp only [Mounts.sites, List.mem_append, Option.mem_toList] at hs
    rcases hs with hs | hs | hs
    · exact ⟨element e rest, inner, rfl, hs⟩
    · obtain ⟨C, x, rfl, hC⟩ := ihi hs
      exact ⟨inElement e C rest, x, rfl, hC⟩
    · obtain ⟨C, x, rfl, hC⟩ := ihr hs
      exact ⟨behind (.element e inner .nil) C, x, rfl, hC⟩
  | region m inner rest ihi ihr =>
    simp only [Mounts.sites, List.mem_cons, List.mem_append] at hs
    rcases hs with rfl | hs | hs
    · exact ⟨region m rest, inner, rfl, rfl⟩
    · obtain ⟨C, x, rfl, hC⟩ := ihi hs
      exact ⟨inRegion m C rest, x, rfl, hC⟩
    · obtain ⟨C, x, rfl, hC⟩ := ihr hs
      exact ⟨behind (.region m inner .nil) C, x, rfl, hC⟩
  | group l inner rest ihi ihr =>
    rcases List.mem_append.1 hs with hs | hs
    · obtain ⟨C, x, rfl, hC⟩ := ihi hs
      exact ⟨inGroup l C rest, x, rfl, hC⟩
    · obtain ⟨C, x, rfl, hC⟩ := ihr hs
      exact ⟨behind (.group l inner .nil) C, x, rfl, hC⟩

/-! ## The holder -/

theorem tops_of_isFlat (h : C.isFlat) : (C.fill x).tops = C.before ++ x.tops ++ C.after := by
  induction C <;> simp_all [fill, Mounts.tops, isFlat, before, after]

theorem holder_of_isFlat (h : C.isFlat) : C.holder q = q := by
  induction C <;> simp_all [holder, isFlat]

theorem tops_of_not_isFlat (h : ¬ C.isFlat) : (C.fill x).tops = (C.fill .nil).tops := by
  induction C <;> simp_all [fill, Mounts.tops, isFlat]

theorem holder_mem (h : ¬ C.isFlat) : C.holder q ∈ (C.fill .nil).slots := by
  induction C generalizing q with
  | region m rest => exact absurd rfl h
  | element e rest => simp [fill, Mounts.slots, holder]
  | behind first hole ih => simpa [fill, Mounts.slots, holder] using .inr (ih h)
  | inElement e hole rest ih =>
    by_cases hf : hole.isFlat
    · simp [fill, Mounts.slots, holder, holder_of_isFlat hf]
    · simpa [fill, Mounts.slots, holder] using .inr (.inl (ih hf))
  | inRegion m hole rest ih =>
    simpa [fill, Mounts.slots, holder] using .inr (.inr (.inl (ih h)))
  | inGroup l hole rest ih => simpa [fill, Mounts.slots, holder] using .inl (ih h)

/-- The contents of trees that stand below `q` stand below the holder. -/
theorem stand_contents (h : (C.fill x).Stand w pg q) : x.Stand w pg (C.holder q) := by
  induction C generalizing q with
  | region m rest => exact h.2.1
  | element e rest => exact h.2.1
  | behind first hole ih => exact ih (Mounts.stand_append.1 h).2
  | inElement e hole rest ih => exact ih h.2.1
  | inRegion m hole rest ih => exact ih h.2.1
  | inGroup l hole rest ih => exact ih h.2.1

/-- The children of the holder, if it is one of the trees' nodes. -/
theorem children_holder (h : (C.fill x).Stand w pg q) (hf : ¬ C.isFlat) :
    (w.slot ⟨pg, C.holder q⟩).children = C.before ++ x.tops ++ C.after := by
  induction C generalizing q with
  | region m rest => exact absurd rfl hf
  | element e rest =>
    rw [holder, h.1.children]
    simp [before, after]
  | behind first hole ih =>
    have hh : hole.isFlat = false := by simpa [isFlat] using hf
    simpa [holder, before, after, hh] using ih (Mounts.stand_append.1 h).2 (by simp [hh])
  | inElement e hole rest ih =>
    by_cases hh : hole.isFlat
    · rw [holder, holder_of_isFlat hh, h.1.children, tops_of_isFlat hh]
      rfl
    · exact ih h.2.1 hh
  | inRegion m hole rest ih =>
    have hh : hole.isFlat = false := by simpa [isFlat] using hf
    simpa [holder, before, after, hh] using ih h.2.1 (by simp [hh])
  | inGroup l hole rest ih =>
    have hh : hole.isFlat = false := by simpa [isFlat] using hf
    simpa [holder, before, after, hh] using ih h.2.1 (by simp [hh])

/-! ## The place -/

/-- The place of the contents, its list and its target, in a world that the trees stand in. -/
theorem siteAt (h : (C.fill x).Stand w pg q) (hs : C.site? = some s) :
    w.ListAt C.records (x.teardowns pg) ∧
      ∃ c t, C.Targets pg t ∧ w.SiteAt s pg c C.records t := by
  induction C generalizing q with
  | region m rest =>
    cases hs
    exact ⟨h.1.records, _, _, rfl, h.1.site⟩
  | element e rest =>
    obtain ⟨⟨c, s'⟩, hd, rfl⟩ := Option.map_eq_some_iff.1 hs
    exact ⟨h.1.records, c, _, rfl, h.1.site hd⟩
  | behind first hole ih => exact ih (Mounts.stand_append.1 h).2 hs
  | inElement e hole rest ih => exact ih h.2.1 hs
  | inRegion m hole rest ih => exact ih h.2.1 hs
  | inGroup l hole rest ih => exact ih h.2.1 hs

/-! ## Filling anew -/

/-- The holder with other contents between what stood before and behind them. -/
structure Refilled (w w' : World) (pg : PageId) (p : Nat) (C : Hole) (x' : Mounts) : Prop where
  content : (w'.slot ⟨pg, p⟩).content.plain = (w.slot ⟨pg, p⟩).content.plain
  parent : (w'.slot ⟨pg, p⟩).parent = (w.slot ⟨pg, p⟩).parent
  children : (w'.slot ⟨pg, p⟩).children = C.before ++ x'.tops ++ C.after

/-- Trees stay standing when the contents of a place are replaced by others that stand there, if the
list of the place holds the records of those and nothing else changes. -/
theorem stand_fill (h : (C.fill x).Stand w pg q) (hw : w.Fixed w')
    (hslots : (C.fill .nil).slots.Nodup) (hlists : (C.fill .nil).lists.Nodup)
    (hq : q ∉ (C.fill .nil).slots)
    (hslot : ∀ i ∈ (C.fill .nil).slots, i ≠ C.holder q →
      (w.slot ⟨pg, i⟩).Alike False (w'.slot ⟨pg, i⟩))
    (hholder : ¬ C.isFlat → C.Refilled w w' pg (C.holder q) x')
    (hlist : ∀ l ∈ (C.fill .nil).lists, l ≠ C.records → w'.recordsIn l = w.recordsIn l)
    (hrecords : w'.ListAt C.records (x'.teardowns pg)) (hx : x'.Stand w' pg (C.holder q)) :
    (C.fill x').Stand w' pg q := by
  have hat : ∀ {l ms}, w'.recordsIn l = w.recordsIn l → w.ListAt l ms → w'.ListAt l ms :=
    fun hl h => ⟨Nat.lt_of_lt_of_le h.lt hw.size, hl.trans h.records⟩
  induction C generalizing q with
  | region m rest =>
    obtain ⟨h1, h2, h3⟩ := h
    simp only [fill, Mounts.slots, Mounts.lists, List.nil_append, List.forall_mem_cons] at hslot hlist
    simp only [fill, Mounts.slots, Mounts.lists, List.nil_append, List.mem_cons, not_or,
      List.nodup_cons] at hslots hlists hq
    refine ⟨h1.frame hw (hslot.1 (Ne.symm hq.1)) (hslot.2.1 (Ne.symm hq.2.1)) hrecords, hx, ?_⟩
    refine h3.frame (x := False) hw (fun i hi => hslot.2.2 i hi fun he => ?_) fun l hl => ?_
    · exact hq.2.2 ((show i = q from he) ▸ hi)
    · exact hlist.2 l hl fun he => hlists.1 ((show l = m.records from he) ▸ hl)
  | element e rest =>
    obtain ⟨h1, h2, h3⟩ := h
    simp only [fill, Mounts.slots, Mounts.lists, List.nil_append, List.forall_mem_cons] at hslot hlist
    simp only [fill, Mounts.slots, Mounts.lists, List.nil_append, List.mem_cons, not_or,
      List.nodup_cons] at hslots hlists hq
    obtain ⟨hcontent, hparent, hchildren⟩ := hholder (by simp [isFlat])
    refine ⟨h1.frame hw hcontent hparent (by simpa [before, after, holder] using hchildren)
      hrecords, hx, ?_⟩
    refine h3.frame (x := False) hw (fun i hi => hslot.2 i hi fun he => ?_) fun l hl => ?_
    · exact hslots.1 ((show i = e.slot from he) ▸ hi)
    · exact hlist.2 l hl fun he => hlists.1 ((show l = e.records from he) ▸ hl)
  | behind first hole ih =>
    obtain ⟨h1, h2⟩ := Mounts.stand_append.1 h
    simp only [fill, Mounts.slots_append, Mounts.lists_append, List.forall_mem_append] at hslot hlist
    simp only [fill, Mounts.slots_append, Mounts.lists_append, List.mem_append, not_or,
      List.nodup_append] at hslots hlists hq
    refine Mounts.stand_append.2 ⟨?_, ?_⟩
    · refine h1.frame (x := False) hw (fun i hi => hslot.1 i hi fun he => ?_) fun l hl => ?_
      · by_cases hf : hole.isFlat
        · exact hq.1 ((he.trans (holder_of_isFlat (C := hole) hf)) ▸ hi)
        · exact hslots.2.2 i hi _ (holder_mem hf) he
      · exact hlist.1 l hl fun he => hlists.2.2 l hl _ records_mem he
    · refine ih h2 hslots.2.1 hlists.2.1 hq.2 hslot.2 (fun hf => ?_) hlist.2 hrecords hx
      obtain ⟨hc, hp, hch⟩ := hholder hf
      exact ⟨hc, hp, by simpa [before, after, holder, hf] using hch⟩
  | inElement e hole rest ih =>
    obtain ⟨h1, h2, h3⟩ := h
    simp only [fill, Mounts.slots, Mounts.lists, List.forall_mem_cons, List.forall_mem_append]
      at hslot hlist
    simp only [fill, Mounts.slots, Mounts.lists, List.mem_cons, List.mem_append, not_or,
      List.nodup_cons, List.nodup_append] at hslots hlists hq
    have hne : ¬ hole.isFlat → e.slot ≠ hole.holder e.slot := fun hf he =>
      hslots.1.1 (he ▸ holder_mem hf)
    have hrest : rest.Stand w' pg q := by
      refine h3.frame (x := False) hw (fun i hi => hslot.2.2 i hi fun he => ?_) fun l hl => ?_
      · by_cases hf : hole.isFlat
        · exact hslots.1.2 ((he.trans (holder_of_isFlat (C := hole) hf)) ▸ hi)
        · exact hslots.2.2.2 _ (holder_mem hf) i hi he.symm
      · exact hlist.2.2 l hl fun he => hlists.2.2.2 _ records_mem l hl he.symm
    have hl := hat (hlist.1 fun he => hlists.1.1 (he ▸ records_mem)) h1.records
    rw [teardowns_fill, ← teardowns_fill (x := x')] at hl
    refine ⟨?_, ih h2 hslots.2.1 hlists.2.1 hslots.1.1 hslot.2.1 (fun hf => ?_) hlist.2.1
      hrecords hx, hrest⟩
    · by_cases hf : hole.isFlat
      · obtain ⟨hc, hp, hch⟩ := hholder (by simp [isFlat])
        rw [holder, holder_of_isFlat hf] at hc hp hch
        exact h1.frame hw hc hp (hch.trans (tops_of_isFlat hf).symm) hl
      · have ha := hslot.1 (hne hf)
        refine h1.frame hw ha.content ha.parent ?_ hl
        rw [ha.children, h1.children, tops_of_not_isFlat hf, ← tops_of_not_isFlat hf (x := x')]
    · obtain ⟨hc, hp, hch⟩ := hholder (by simp [isFlat])
      exact ⟨hc, hp, hch⟩
  | inRegion m hole rest ih =>
    obtain ⟨h1, h2, h3⟩ := h
    simp only [fill, Mounts.slots, Mounts.lists, List.forall_mem_cons, List.forall_mem_append]
      at hslot hlist
    simp only [fill, Mounts.slots, Mounts.lists, List.mem_cons, List.mem_append, not_or,
      List.nodup_cons, List.nodup_append] at hslots hlists hq
    have hne : ∀ i, i ≠ q → i ∉ (hole.fill .nil).slots → i ≠ hole.holder q := by
      intro i hi hn he
      by_cases hf : hole.isFlat
      · exact hi (he.trans (holder_of_isFlat hf))
      · exact hn (he ▸ holder_mem hf)
    have hl := hat (hlist.1 fun he => hlists.1.1 (he ▸ records_mem)) h1.records
    rw [teardowns_fill, ← teardowns_fill (x := x')] at hl
    refine ⟨h1.frame hw (hslot.1 (hne _ (Ne.symm hq.1) hslots.1.2.1))
      (hslot.2.1 (hne _ (Ne.symm hq.2.1) hslots.2.1.1)) hl, ?_, ?_⟩
    · refine ih h2 hslots.2.2.1 hlists.2.1 hq.2.2.1 hslot.2.2.1 (fun hf => ?_) hlist.2.1 hrecords hx
      obtain ⟨hc, hp, hch⟩ := hholder hf
      exact ⟨hc, hp, by simpa [before, after, holder, hf] using hch⟩
    · refine h3.frame (x := False) hw (fun i hi => hslot.2.2.2 i hi (hne i ?_ ?_)) fun l hl => ?_
      · exact fun he => hq.2.2.2 (he ▸ hi)
      · exact fun hn => hslots.2.2.2.2 i hn i hi rfl
      · exact hlist.2.2 l hl fun he => hlists.2.2.2 _ records_mem l hl he.symm
  | inGroup l hole rest ih =>
    obtain ⟨h1, h2, h3⟩ := h
    simp only [fill, Mounts.slots, Mounts.lists, List.forall_mem_cons, List.forall_mem_append]
      at hslot hlist
    simp only [fill, Mounts.slots, Mounts.lists, List.mem_append, not_or, List.nodup_cons,
      List.nodup_append] at hslots hlists hq
    have hl := hat (hlist.1 fun he => hlists.1.1 (he ▸ records_mem)) h1
    rw [teardowns_fill, ← teardowns_fill (x := x')] at hl
    refine ⟨hl, ?_, ?_⟩
    · refine ih h2 hslots.1 hlists.2.1 hq.1 hslot.1 (fun hf => ?_) hlist.2.1 hrecords hx
      obtain ⟨hc, hp, hch⟩ := hholder hf
      exact ⟨hc, hp, by simpa [before, after, holder, hf] using hch⟩
    · refine h3.frame (x := False) hw (fun i hi => hslot.2 i hi fun he => ?_) fun l hl => ?_
      · by_cases hf : hole.isFlat
        · exact hq.2 ((he.trans (holder_of_isFlat (C := hole) hf)) ▸ hi)
        · exact hslots.2.2 _ (holder_mem hf) i hi he.symm
      · exact hlist.2.2 l hl fun he => hlists.2.2.2 _ records_mem l hl he.symm

end Hole

end LivePage
