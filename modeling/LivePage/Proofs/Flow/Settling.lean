import LivePage.Proofs.Flow.Interleaving

/-!
# When a boundary settles

Along its course every registration with a boundary is outstanding or its value has come
(`Course.outstanding_or_come`). So when nothing is outstanding and the boundary settles, all values
that are registered with it have come by then (`Course.settles_when_all_have_come`). Courses tell
of each registration once that its value has come; that is how it is in scripts that leave it to
results to emit themselves (`World.Orderly.settles_when_all_have_come`). A value that has come and
is emitted again is taken for another one that was awaited.
-/

namespace LivePage

open LivePage.Script

variable {b : BoundaryId} {fallback : Held} {w₀ w w' : World} {es : History} {e : Notice}

/-- A registration with the boundary waits for one value. -/
def World.Single (w : World) (b : BoundaryId) : Prop :=
  ∀ c d key, (key, .awaited b) ∈ (w.cell c).registry → (key, .awaited b) ∈ (w.cell d).registry →
    c = d

/-- Registrations with the boundary stay, and values that have come do not go. -/
structure Awaits (b : BoundaryId) (w w' : World) : Prop where
  registered {c : CellId} {key : Nat} : (key, .awaited b) ∈ (w.cell c).registry →
    (key, .awaited b) ∈ (w'.cell c).registry
  ok {c : CellId} : (w.cell c).settlement.ok = true → (w'.cell c).settlement.ok = true

theorem Aside.awaits (h : Aside b w w') : Awaits b w w' :=
  ⟨(h.awaiting _ _).2, h.ok _⟩

theorem Endures.awaits (h : Endures w w') : Awaits b w w' := ⟨h.registry, h.ok⟩

theorem Notices.awaits (h : Notices b w e w') : Awaits b w w' := by
  cases h with
  | @counted c n w' waiting run =>
    rw [run_awaitIn, waiting] at run
    cases run
    exact (Endures.counting w b c).awaits
  | came => exact (Endures.arrived w b).awaits
  | finished run =>
    rw [run_finishBoundary] at run
    cases run
    exact (Endures.withBoundary w b _).awaits

theorem World.Single.before (h : w'.Single b) (hw : Awaits b w w') : w.Single b :=
  fun c d key hc hd => h c d key (hw.registered hc) (hw.registered hd)

/-! ## Registrations along a course -/

/-- Counting a value registers it and nothing else. -/
theorem World.registered_counting {c d : CellId} {key : Nat}
    (h : (key, .awaited b) ∈ ((w.counting b c).cell d).registry) :
    (key, .awaited b) ∈ (w.cell d).registry ∨ key = w.nextKey := by
  change _ ∈ ((World.subscribed _ c _).cell d).registry at h
  rw [World.subscribed, World.cell_withCell] at h
  split at h
  · exact (Cell.mem_subscribe h).imp_right fun h => (Prod.mk.inj h).1
  · exact .inl h

/-- With a notice each registration stays outstanding, unless the notice is that its value has come;
what is registered with the notice is outstanding. -/
theorem Notices.outstanding_or_come (h : Notices b w e w') (hsingle : w.Single b)
    (hold : ∀ c key, (key, .awaited b) ∈ (w.cell c).registry →
      key ∈ es.outstanding ∨ (w.cell c).settlement.ok = true)
    {c : CellId} {key : Nat} (hc : (key, .awaited b) ∈ (w'.cell c).registry) :
    key ∈ History.outstanding (e :: es) ∨ (w'.cell c).settlement.ok = true := by
  cases h with
  | @counted d n w' waiting run =>
    rw [run_awaitIn, waiting] at run
    cases run
    rw [if_neg Bool.false_ne_true] at hc ⊢
    rw [World.settlement_counting]
    obtain hc | rfl := World.registered_counting hc
    · exact (hold c key hc).imp_left (List.mem_cons_of_mem _)
    · exact .inl List.mem_cons_self
  | @came d k registered resolved =>
    rw [(w.arrived_eq b c).1] at hc
    rw [(w.arrived_eq b c).2]
    by_cases hk : key = k
    · -- a registration waits for one value, so it is this one that has come
      subst hk
      obtain rfl := hsingle c d key hc registered
      exact .inr resolved
    · exact (hold c key hc).imp_left (List.mem_erase_of_ne hk).2
  | finished run =>
    rw [run_finishBoundary] at run
    cases run
    exact hold c key hc

/-- Every registration is outstanding, or its value has come. -/
theorem Course.outstanding_or_come (h : Course b fallback w₀ es w) (hf : w₀.Fresh b fallback)
    (hsingle : w.Single b) {c : CellId} {key : Nat}
    (hc : (key, .awaited b) ∈ (w.cell c).registry) :
    key ∈ es.outstanding ∨ (w.cell c).settlement.ok = true := by
  induction h generalizing c key with
  | start => exact absurd hc (hf.unawaited c key)
  | @aside es w w' _ change _ ih =>
    have hold := ih (hsingle.before change.awaits) ((change.awaiting c key).1 hc)
    exact hold.imp_right (change.ok c)
  | @noticed es e w w' _ change _ _ ih =>
    have hbefore := hsingle.before change.awaits
    exact change.outstanding_or_come hbefore (fun c key hc => ih hbefore hc) hc

/-- Nothing is outstanding after the notice that settles the boundary. -/
theorem History.outstanding_of_settling (hs : es.settled = false)
    (he : History.settled (e :: es) = true) : History.outstanding (e :: es) = [] := by
  cases e with
  | counted key => simp [settled, hs] at he
  | came key =>
    simp only [settled, hs, Bool.false_or, completes, Bool.and_eq_true, List.isEmpty_iff] at he
    exact he.2
  | finished n =>
    simp only [settled, hs, Bool.false_or, List.isEmpty_iff] at he
    exact he

/-! ## The moment of settling -/

/-- A single change in the course of a boundary. -/
inductive Proceeds (b : BoundaryId) (fallback : Held) :
    History × World → History × World → Prop where
  | aside {es : History} {w w' : World} (change : Aside b w w')
      (describes : Describes b fallback es w') : Proceeds b fallback (es, w) (es, w')
  | noticed {es : History} {e : Notice} {w w' : World} (change : Notices b w e w')
      (due : e.Due es) (describes : Describes b fallback (e :: es) w') :
      Proceeds b fallback (es, w) (e :: es, w')

/-- In its course to `w` with the history `es` the boundary settled: it had not when it was told
`e`, and then it had, in the world `u`. -/
structure SettledIn (b : BoundaryId) (fallback : Held) (w₀ : World) (es : History) (w u : World)
    (e : Notice) (earlier : History) : Prop where
  course : Course b fallback w₀ (e :: earlier) u
  before : earlier.settled = false
  settled : History.settled (e :: earlier) = true
  rest : Relation.ReflTransGen (Proceeds b fallback) (e :: earlier, u) (es, w)

/-- A boundary that has settled did so at a moment at which all values that were registered with it
had come. -/
theorem Course.settles_when_all_have_come (h : Course b fallback w₀ es w)
    (hf : w₀.Fresh b fallback) (hsingle : w.Single b) (hs : es.settled = true) :
    ∃ u e earlier, SettledIn b fallback w₀ es w u e earlier ∧
      ∀ c key, (key, .awaited b) ∈ (u.cell c).registry → (u.cell c).settlement.ok = true := by
  induction h with
  | start => cases hs
  | aside _ change describes ih =>
    obtain ⟨u, e, earlier, hu, hcome⟩ := ih (hsingle.before change.awaits) hs
    exact ⟨u, e, earlier, { hu with rest := hu.rest.tail (.aside change describes) }, hcome⟩
  | @noticed es e w w' before change due describes ih =>
    cases hes : es.settled with
    | true =>
      obtain ⟨u, e', earlier, hu, hcome⟩ := ih (hsingle.before change.awaits) hes
      have hrest := hu.rest.tail (.noticed change due describes)
      exact ⟨u, e', earlier, { hu with rest := hrest }, hcome⟩
    | false =>
      have hcourse := Course.noticed before change due describes
      refine ⟨w', e, es, ⟨hcourse, hes, hs, .refl⟩, fun c key hc => ?_⟩
      refine (hcourse.outstanding_or_come hf hsingle hc).resolve_left ?_
      rw [History.outstanding_of_settling hes hs]
      exact List.not_mem_nil

/-- Scripts that wait for values and leave it to results to emit themselves: in whatever order
values are awaited and come, a boundary that was just made settles only when all values have come
that are registered with it by then. -/
theorem World.Orderly.settles_when_all_have_come {L : String → Prop} (hw : w.Orderly L)
    (hb : w.Fresh b fallback) {steps : List Step} (hsteps : ∀ s ∈ steps, s.Awaits L) {n : Nat}
    (hrun : (LivePage.performAll (respond n) steps).run w = .ok ⟨⟩ w')
    (hs : (w'.boundary b).state = .settled) :
    ∃ es u e earlier, SettledIn b fallback w es w' u e earlier ∧
      ∀ c key, (key, .awaited b) ∈ (u.cell c).registry → (u.cell c).settlement.ok = true := by
  let A : Account := ⟨L, b, fallback, w⟩
  have hpays := (Account.steady_performAll (A.served n) hsteps).ok hrun hw
  have hfresh : Tally b fallback w (∅ ∪ ∅) [] w := by
    rw [Set.union_empty]
    exact .fresh hb
  obtain ⟨es, ht⟩ := hpays.tally (fun _ => nofun) hfresh
  have hsingle : w'.Single b := fun _ _ _ => hpays.orderly.single
  exact ⟨es, ht.course.settles_when_all_have_come hb hsingle (ht.course.describes.of_settled hs)⟩

end LivePage
