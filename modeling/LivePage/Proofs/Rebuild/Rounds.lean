import LivePage.Proofs.Rebuild.Programs

/-!
# Rounds of rebuilding

A place is rebuilt in rounds (`Rounds`). Each kills the records of the place, realizes a value and puts
it there. If the place has been told something meanwhile, another round follows, with the value that
it was told last. What a single round leaves is in the namespace `Round.Runs`, what all of them leave
in the namespace `Rounds`.
-/

namespace LivePage

/-- One round: what the place is rebuilt from, the records that are killed, the fragment in which the
value is realized, the record of that and the world at its end, and what the place is told during
the round. -/
structure Round where
  value : Value
  killed : List Teardown
  fragment : PageNode
  record : Teardown
  realized : World
  told : List Value

/-- The round leads from the first world to the second. -/
structure Round.Runs (s : SiteId) (x : Site) (a : Round) (w w' : World) : Prop where
  killed : a.killed = w.recordsIn x.records
  refills : ∃ d w₁, Refills (respond d) x a.value a.killed a.fragment a.record
    ((w.pinned a.value.holds).taken x.records) a.realized w₁ ∧
    w' = (w₁.pushed x.records a.record).unpinned
  told : Deliveries s a.told w w'

/-- What the fragment of a round is like once the value is realized, and the element it is for. -/
structure Round.Ready (x : Site) (a : Round) : Prop where
  forest (p : PageId) : (a.realized.page p).Forest
  type : (a.realized.slot a.fragment).content.type = .fragment
  element {n : PageNode} : x.target = .contents n → a.realized.Occupied n

/-- The pages and regions are as they are when the fragment of the round is put into the place. -/
structure Round.Puts (x : Site) (a : Round) (w' : World) : Prop where
  ready : a.Ready x
  put : ∃ w₁, (x.target.put a.fragment).run (a.realized.pinned a.record.holds) = .ok (.ok ()) w₁ ∧
    w'.pages = w₁.pages ∧ w'.regions = w₁.regions

/-- The rounds lead from the first world to the second, and the place is free then. The first round
is for the value, each later one for what the place was told last during the one before it. -/
inductive Rounds (s : SiteId) (x : Site) : Value → List Round → Round → World → World → Prop where
  | last {w w₁ : World} {a : Round} : a.Runs s x w w₁ → a.told = [] →
      Rounds s x a.value [] a w (w₁.freed s)
  | more {w w₁ w' : World} {a last : Round} {v : Value} {earlier : List Round} :
      a.Runs s x w w₁ → a.told.getLast? = some v →
      Rounds s x v earlier last (w₁.dequeued s) w' →
      Rounds s x a.value (a :: earlier) last w w'

variable {w w' w₁ : World} {B C : List SiteId} {s : SiteId} {x : Site} {l : RecordsId}
  {m : Teardown} {v : Value} {a last : Round} {earlier : List Round} {d : Nat}

/-! ## One round -/

namespace Round.Runs

variable (h : a.Runs s x w w') (hw : w.Due B C s x)
include h hw

theorem drafts : ∃ w₁, Meanwhile (s :: B) (s :: C) ((w.pinned a.value.holds).taken x.records) w₁ ∧
    ((w.pinned a.value.holds).taken x.records).Drafts a.record.children w₁ ∧
    w' = (w₁.pushed x.records a.record).unpinned := by
  obtain ⟨d, w₁, hr, rfl⟩ := h.refills
  obtain ⟨hm, hd⟩ := hw.refilled (respond_abides d) hr
  exact ⟨w₁, hm, hd, rfl⟩

theorem meanwhile : Meanwhile (s :: B) C w w' := by
  obtain ⟨d, w₁, hr, rfl⟩ := h.refills
  exact hw.replaced (respond_abides d) hr

/-- The place has the record of the round. -/
theorem recordsIn : w'.recordsIn x.records = [a.record] := by
  obtain ⟨w₁, hm, -, rfl⟩ := h.drafts hw
  obtain ⟨y, hy, -, hempty⟩ := hm.amid.empty List.mem_cons_self
  obtain ⟨x', hx', hstill⟩ := hm.fixed.sites hw.place
  obtain rfl : y = x' := Option.some.inj (hy.symm.trans hx')
  have hrecords : y.records = x.records := Site.records_of_still hstill
  rw [hrecords] at hempty
  have hlt : x.records.index < w₁.records.size := hrecords ▸ hm.amid.listed hy
  show (w₁.pushed x.records a.record).recordsIn x.records = [a.record]
  rw [recordsIn_pushed, if_pos ⟨rfl, hlt⟩, hempty, List.nil_append]

/-- The record of the round is a new one. -/
theorem new : w.records.size ≤ a.record.children.index := by
  obtain ⟨w₁, -, hd, rfl⟩ := h.drafts hw
  simpa [World.taken, World.pinned] using hd.new

/-- What nobody could kill but the round itself, nobody can kill afterwards. -/
theorem lacks (hl : l.index < w.records.size) (hlacks : (w.taken x.records).Lacks l) :
    w'.Lacks l := by
  have hnew := h.new hw
  obtain ⟨w₁, hm, -, rfl⟩ := h.drafts hw
  intro y hy
  rcases World.Files.of_pushed (l := x.records) (w := w₁) hy with hy | rfl
  · exact hm.lacks (by simpa [World.taken, World.pinned] using hl) hlacks y hy
  · rintro rfl
    exact Nat.not_lt.2 hnew hl

/-- Nobody can kill once more what the round has killed. -/
theorem killed_lacks (hm : m ∈ w.recordsIn x.records) : w'.Lacks m.children :=
  h.lacks hw (hw.amid.filed (.inl ⟨_, hm⟩)) (hw.amid.sole hm)

/-- The place after a round: it waits for what it was told last. -/
theorem place (hq : x.queued = none) :
    w'.sites[s.index]? = some { x with queued := a.told.getLast? } := by
  have hx : { x with busy := true, queued := none } = x := by
    rw [← (hw.amid.busy hw.place).2 List.mem_cons_self, ← hq]
  have := h.told.queued (hw.place.trans (congrArg some hx.symm))
  rw [this, Option.or_none, ← (hw.amid.busy hw.place).2 List.mem_cons_self]

/-- The place is still to be rebuilt, or to be freed. -/
theorem due (hq : x.queued = none) : w'.Due B C s { x with queued := a.told.getLast? } :=
  hw.after (h.meanwhile hw).toPasses (h.meanwhile hw).amid (h.place hw hq)

/-- In order for the next round. -/
theorem dequeued (hq : x.queued = none) :
    (w'.dequeued s).Due B C s x := by
  have hx : { x with queued := none } = x := by rw [← hq]
  exact hx ▸ (h.due hw hq).dequeued.2

/-- The round puts its fragment into the place. -/
theorem puts : a.Puts x w' := by
  obtain ⟨y, hy, hp, ho⟩ := hw.seat
  obtain rfl : x = y := Option.some.inj (hw.place.symm.trans hy)
  obtain ⟨d, w₁, hr, rfl⟩ := h.refills
  obtain ⟨w₂, hm₁, hm₂, -, -, -, htype⟩ := hr.drafts (respond_abides d) (hw.taken _) hp
  obtain ⟨w₄, hput, rfl⟩ := hr.puts
  refine ⟨⟨hm₂.amid.forest, htype, fun {n} hn => ?_⟩, w₄, hput, rfl, rfl⟩
  have hg : ((w.pinned a.value.holds).taken x.records).Grasps n :=
    .site (List.mem_append_right _ hw.pinned) hy hn
  exact (hm₂.kept ((hm₁.grasps hg).pin _) (hm₁.kept hg (ho n hn)).1).1

end Round.Runs

/-! ## From round to round -/

/-- What is done when the place is told to be rebuilt are rounds. -/
theorem exists_rounds (hw : w.Due B C s x) (hq : x.queued = none)
    (h : (respond d (.rebuild s v)).run w = .ok ⟨⟩ w') :
    ∃ earlier last, Rounds s x v earlier last w w' := by
  induction d generalizing w v with
  | zero => exact absurd h not_ok_throw
  | succ d ih =>
    obtain ⟨fragment, m, realized, w₁, hr, hthen⟩ :=
      ok_rebuild hw.place (show (s.rebuild (respond d) v).run w = .ok ⟨⟩ w' from h)
    obtain ⟨vs, hvs⟩ := (hw.replaced (respond_abides d) hr).told List.mem_cons_self
    have hround : Round.Runs s x ⟨v, _, fragment, m, realized, vs⟩ w
        (w₁.pushed x.records m).unpinned := ⟨rfl, ⟨d, w₁, hr, rfl⟩, hvs⟩
    rcases hthen _ (hround.place hw hq) with ⟨next, hlast, hrun⟩ | ⟨hlast, rfl⟩
    · obtain ⟨earlier, last, hrest⟩ := ih (hround.dequeued hw hq) hrun
      exact ⟨_, last, .more hround hlast hrest⟩
    · exact ⟨[], _, .last hround (List.getLast?_eq_none_iff.1 hlast)⟩

namespace Rounds

variable (h : Rounds s x v earlier last w w')
include h

/-- The last round is for the value that the place was told last. -/
theorem value : (v :: (earlier ++ [last]).flatMap (·.told)).getLast? = some last.value := by
  induction h with
  | last _ htold => simp [htold]
  | @more w w₁ w' a last v earlier _ hlast _ ih =>
    obtain ⟨told, htold⟩ := List.getLast?_eq_some_iff.1 hlast
    rw [List.cons_append, List.flatMap_cons, htold, List.append_assoc, List.singleton_append,
      List.getLast?_cons, List.getLast?_append, ih]
    rfl

variable (hw : w.Due B C s x) (hq : x.queued = none)
include hw hq

/-- The records that are killed are those from the beginning and those of the rounds but the last. -/
theorem killed : (earlier ++ [last]).flatMap (·.killed) =
    w.recordsIn x.records ++ earlier.map (·.record) := by
  induction h with
  | last hrun _ => simp [hrun.killed]
  | more hrun _ _ ih =>
    rw [List.cons_append, List.flatMap_cons, ih (hrun.dequeued hw hq), hrun.killed]
    exact congrArg (fun ms => _ ++ (ms ++ _)) (hrun.recordsIn hw)

/-- What nobody could kill but the rounds, nobody can kill afterwards. -/
theorem lacks (hl : l.index < w.records.size) (hlacks : (w.taken x.records).Lacks l) :
    w'.Lacks l := by
  induction h with
  | last hrun _ => exact hrun.lacks hw hl hlacks
  | more hrun _ _ ih =>
    have hafter := hrun.lacks hw hl hlacks
    exact ih (hrun.dequeued hw hq) (Nat.lt_of_lt_of_le hl (hrun.meanwhile hw).fixed.size)
      fun y hy => hafter y hy.of_taken

/-- Nobody can kill once more what the rounds have killed. -/
theorem killed_lacks : ∀ m ∈ w.recordsIn x.records ++ earlier.map (·.record),
    w'.Lacks m.children := by
  have hold : ∀ m ∈ w.recordsIn x.records, w'.Lacks m.children := fun m hm =>
    h.lacks hw hq (hw.amid.filed (.inl ⟨_, hm⟩)) (hw.amid.sole hm)
  induction h with
  | last _ _ => simpa using hold
  | @more w w₁ w' a last v earlier hrun _ hrest ih =>
    intro m hm
    rcases List.mem_append.1 hm with hm | hm
    · exact hold m hm
    · have hnext := hrun.dequeued hw hq
      refine ih hnext (fun m hm => hrest.lacks hnext hq (hnext.amid.filed (.inl ⟨_, hm⟩))
        (hnext.amid.sole hm)) m ?_
      have hrecords : (w₁.dequeued s).recordsIn x.records = [a.record] := hrun.recordsIn hw
      rwa [hrecords]

/-- The records of the rounds are new ones. -/
theorem new : ∀ m ∈ earlier.map (·.record), w.records.size ≤ m.children.index := by
  induction h with
  | last _ _ => simp
  | more hrun _ _ ih =>
    intro m hm
    rcases List.mem_cons.1 hm with rfl | hm
    · exact hrun.new hw
    · exact Nat.le_trans (hrun.meanwhile hw).fixed.size (ih (hrun.dequeued hw hq) m hm)

/-- No record is killed twice. -/
theorem distinct :
    ((w.recordsIn x.records ++ earlier.map (·.record)).map (·.children)).Nodup := by
  induction h with
  | last _ _ => simpa using hw.amid.distinct x.records
  | @more w w₁ w' a last v earlier hrun hlast hrest ih =>
    have hrecords : (w₁.dequeued s).recordsIn x.records = [a.record] := hrun.recordsIn hw
    have hrest' := ih (hrun.dequeued hw hq)
    rw [hrecords] at hrest'
    rw [List.map_append, List.nodup_append]
    refine ⟨hw.amid.distinct x.records, hrest', ?_⟩
    rintro k hk _ hk' rfl
    obtain ⟨m, hm, rfl⟩ := List.mem_map.1 hk
    obtain ⟨m', hm', he⟩ := List.mem_map.1 hk'
    have hnew := (Rounds.more hrun hlast hrest).new hw hq m' hm'
    rw [he] at hnew
    exact Nat.not_lt.2 hnew (hw.amid.filed (.inl ⟨_, hm⟩))

/-- In the end the place is at rest, as it was before it became busy. -/
theorem rests : Meanwhile B C w w' ∧ w'.sites[s.index]? = some { x with busy := false } := by
  induction h with
  | last hrun htold =>
    have hm := hrun.meanwhile hw
    have hplace := hrun.place hw hq
    have hdue := hrun.due hw hq
    rw [htold] at hplace hdue
    have hfree := hdue.freed rfl
    refine ⟨⟨(hm.toPasses.mono fun _ => List.mem_cons_of_mem s).trans hfree.toPasses,
      hfree.amid⟩, ?_⟩
    rw [World.site_marked hplace]
    exact congrArg (fun queued => some { x with busy := false, queued }) hq.symm
  | more hrun _ _ ih =>
    have hm := hrun.meanwhile hw
    obtain ⟨hpass, -⟩ := (hrun.due hw hq).dequeued
    obtain ⟨hrest, hplace⟩ := ih (hrun.dequeued hw hq)
    exact ⟨⟨(hm.toPasses.mono fun _ => List.mem_cons_of_mem s).trans (hpass.trans hrest.toPasses),
      hrest.amid⟩, hplace⟩

/-- In the end the place has the record of the last round. -/
theorem recordsIn : w'.recordsIn x.records = [last.record] := by
  induction h with
  | last hrun _ => exact hrun.recordsIn hw
  | more hrun _ _ ih => exact ih (hrun.dequeued hw hq)

/-- The last round puts its fragment into the place, and nothing is done to the page after that. -/
theorem puts : last.Puts x w' := by
  induction h with
  | last hrun _ =>
    obtain ⟨hready, w₁, hput, hpages, hregions⟩ := hrun.puts hw
    exact ⟨hready, w₁, hput, hpages, hregions⟩
  | more hrun _ _ ih => exact ih (hrun.dequeued hw hq)

end Rounds

end LivePage
