import LivePage.Proofs.Calls.Deeds
import Mathlib.Algebra.Order.Group.Multiset

/-!
# No notification is lost or duplicated

Whoever is told of an emission may change the registry and the value, and emit again. Still a
registry holds each key once, ordered by the start of its registration (`Leads.lined`); an emission
tells a part of the registry that it began with, in order and each once, what was held then
(`Deed.Holds.fair`); and a subscription that stays registered during a run is told of each emission
once, so that it is told what was held when the emissions began (`Leads.balanced`).
-/

namespace LivePage

open LivePage.Script

variable {N : Naming} {n : Nat} {w w' u v : World} {c : CellId} {key : Nat} {held : Held}
  {snapshot : List (Nat × Reaction)} {past us : List World} {ds told : List Deed} {d : Deed}

/-! ## Registries -/

/-- For how many of the worlds, the last of which comes first, a key has been registered without
interruption. -/
def tenure (c : CellId) (past : List World) (key : Nat) : Nat :=
  (past.takeWhile fun u => key ∈ (u.cell c).keys).length

/-- A key has been registered for longer than another, or both have been since the first world and
stood in this order there. -/
def Precedes (c : CellId) (first : World) (past : List World) (k l : Nat) : Prop :=
  tenure c past l < tenure c past k ∨
    tenure c past k = past.length ∧ tenure c past l = past.length ∧
      [k, l].Sublist (first.cell c).keys

/-- The keys are those of different subscriptions, ordered by the start of their registration. -/
structure Lined (c : CellId) (first : World) (past : List World) (keys : List Nat) : Prop where
  nodup : keys.Nodup
  ordered : keys.Pairwise (Precedes c first past)

/-- A registry loses subscriptions, or gets one at its end. -/
def Cell.Reregisters (x y : Cell) : Prop :=
  y.keys.Sublist x.keys ∨ ∃ key, key ∉ x.keys ∧ y.keys = x.keys ++ [key]

theorem Cell.Reregisters.of_keys {x y : Cell} (h : y.keys = x.keys) : x.Reregisters y :=
  .inl (h ▸ .refl _)

/-- Whatever is done, registries change in this way only. -/
theorem moves_registry (c : CellId) : Moves (fun _ => True) c Cell.Reregisters where
  refl _ := .of_keys rfl
  changed {act f x} _ ha _ := by
    cases act with
    | subscribe _ key r =>
      cases ha
      by_cases hkey : key ∈ x.keys
      · exact .of_keys (by rw [Cell.keys_subscribe, if_pos hkey])
      · exact .inr ⟨key, hkey, by rw [Cell.keys_subscribe, if_neg hkey]⟩
    | unsubscribe =>
      cases ha
      exact .inl (by rw [Cell.keys_unsubscribe]; exact List.filter_sublist)
    | unsubscribeAll =>
      cases ha
      exact .inl (List.nil_sublist _)
    | set | addChecker =>
      cases ha
      exact .of_keys rfl
    | register =>
      cases ha
      exact .of_keys (by simp [Cell.keys])
    | _ => cases ha
  updated _ _ _ := .of_keys rfl
  derived _ _ := .of_keys rfl
  fulfilled _ _ _ := .of_keys (by simp [Cell.fulfil, Cell.keys])
  failed _ _ _ := .of_keys (by simp [Cell.fail, Cell.keys])

theorem tenure_cons_of_mem (h : key ∈ (u.cell c).keys) :
    tenure c (u :: past) key = tenure c past key + 1 := by
  simp [tenure, h]

theorem tenure_cons_of_not_mem (h : key ∉ (u.cell c).keys) : tenure c (u :: past) key = 0 := by
  simp [tenure, h]

/-- Who stays registered is registered for one world more. -/
theorem Precedes.next {k l : Nat} (h : Precedes c w past k l) (hk : k ∈ (v.cell c).keys)
    (hl : l ∈ (v.cell c).keys) : Precedes c w (v :: past) k l := by
  unfold Precedes
  rw [tenure_cons_of_mem hk, tenure_cons_of_mem hl, List.length_cons]
  obtain h | ⟨hk, hl, hsub⟩ := h
  · exact .inl (Nat.succ_lt_succ h)
  · exact .inr ⟨congrArg _ hk, congrArg _ hl, hsub⟩

/-- A registry stays in order when it changes. -/
theorem Lined.next (h : Lined c w (u :: past) (u.cell c).keys)
    (hr : (u.cell c).Reregisters (v.cell c)) : Lined c w (v :: u :: past) (v.cell c).keys := by
  obtain hsub | ⟨key, hkey, he⟩ := hr
  · exact ⟨h.nodup.sublist hsub, (h.ordered.sublist hsub).imp_of_mem fun hk hl h => h.next hk hl⟩
  · have hmem : ∀ {k}, k ∈ (v.cell c).keys ↔ k ∈ (u.cell c).keys ∨ k = key := by simp [he]
    have hnew : tenure c (v :: u :: past) key = 1 := by
      rw [tenure_cons_of_mem (hmem.2 (.inr rfl)), tenure_cons_of_not_mem hkey]
    constructor
    · rw [he]
      exact List.nodup_append.2 ⟨h.nodup, List.nodup_singleton _, fun k hk l hl hkl =>
        hkey (List.mem_singleton.1 hl ▸ hkl ▸ hk)⟩
    · rw [he]
      refine List.pairwise_append.2 ⟨?_, List.pairwise_singleton _ _, fun k hk l hl => .inl ?_⟩
      · exact h.ordered.imp_of_mem fun hk hl h => h.next (hmem.2 (.inl hk)) (hmem.2 (.inl hl))
      · obtain rfl := List.mem_singleton.1 hl
        rw [hnew, tenure_cons_of_mem (hmem.2 (.inl hk)), tenure_cons_of_mem hk]
        omega

theorem Lined.start (h : (w.cell c).keys.Nodup) : Lined c w [w] (w.cell c).keys := by
  refine ⟨h, List.pairwise_iff_forall_sublist.2 fun {k l} hkl => .inr ⟨?_, ?_, hkl⟩⟩
  · rw [tenure_cons_of_mem (hkl.subset (by simp))]
    rfl
  · rw [tenure_cons_of_mem (hkl.subset (by simp))]
    rfl

/-- Along a path registries stay in order. -/
theorem Path.lined (h : Path c Cell.Reregisters u us w')
    (hu : Lined c w (u :: past) (u.cell c).keys) {later rest : List World}
    (he : us ++ [w'] = later ++ v :: rest) :
    Lined c w (v :: (later.reverse ++ u :: past)) (v.cell c).keys := by
  induction h generalizing past later with
  | done hd =>
    cases later with
    | nil =>
      cases he
      exact hu.next (.of_keys (by rw [hd]))
    | cons _ later => cases later <;> cases he
  | @next u u' w' us hr _ ih =>
    have hu' := hu.next hr
    cases later with
    | nil =>
      obtain ⟨rfl, -⟩ := List.cons.inj he
      exact hu'
    | cons x later =>
      obtain ⟨rfl, htail⟩ := List.cons.inj he
      simpa using ih hu' htail

/-- At each moment of a run, the registry of an observable holds each key once, ordered by the start
of its registration. -/
theorem Leads.lined (h : Leads ds w w') (hw : (w.cell c).keys.Nodup) {rest : List World}
    (he : w :: (Deed.momentsOf ds ++ [w']) = (u :: past).reverse ++ rest) :
    Lined c w (u :: past) (u.cell c).keys := by
  have hpath := (moves_registry c).path h fun _ _ => trivial
  obtain rfl | ⟨x, earlier, rfl⟩ := past.eq_nil_or_concat
  · obtain ⟨rfl, -⟩ := List.cons.inj he
    exact .start hw
  · simp only [List.reverse_cons, List.reverse_append, List.reverse_nil, List.nil_append,
      List.cons_append, List.append_assoc, List.concat_eq_append] at he
    obtain ⟨rfl, htail⟩ := List.cons.inj he
    simpa using hpath.lined (.start hw) htail

/-! ## Emissions -/

/-- Whom a deed tells what an emission of `c` hands around. -/
def Deed.told? (c : CellId) (d : Deed) : Option (Nat × Held) :=
  match d.act with
  | .tell d key _ held => if d = c then some (key, held) else none
  | _ => none

/-- What a deed hands around that is an emission of `c`. -/
def Deed.emitted? (c : CellId) (d : Deed) : Option Held :=
  match d.act with
  | .emission d' => if d' = c then some (d.start.cell c).held else none
  | _ => none

/-- The keys of those who are told of emissions of `c`. -/
def toldKeys (c : CellId) (ds : List Deed) : List Nat := (ds.filterMap (·.told? c)).map (·.1)

/-- What a subscription to `c` is told. -/
def toldTo (c : CellId) (key : Nat) (ds : List Deed) : List Held :=
  ((ds.filterMap (·.told? c)).filter (·.1 = key)).map (·.2)

/-- What emissions of `c` hand around. -/
def emittedBy (c : CellId) (ds : List Deed) : List Held := ds.filterMap (·.emitted? c)

/-- An emission of `c` tells what was held at its start to subscriptions that were registered then
and still are when their turn comes, in order and each once; and it tells those that stay registered
while it lasts. -/
structure Deed.Fair (c : CellId) (d : Deed) : Prop where
  tells : ∀ e ∈ d.inner, ∃ s ∈ (d.start.cell c).registry,
    e.act = .tell c s.1 s.2 (d.start.cell c).held ∧ s.1 ∈ (e.start.cell c).keys
  ordered : (toldKeys c d.inner).Sublist (d.start.cell c).keys
  once : (toldKeys c d.inner).Nodup
  kept : ∀ key, (∀ u ∈ d.moments, key ∈ (u.cell c).keys) →
    toldTo c key d.inner = [(d.start.cell c).held]

namespace Delivers

theorem tells (h : Delivers c held snapshot ds w) :
    ∀ e ∈ ds, ∃ s ∈ snapshot, e.act = .tell c s.1 s.2 held ∧ s.1 ∈ (e.start.cell c).keys := by
  induction h with
  | done => exact fun _ h => nomatch h
  | told hs hk _ _ ih =>
    rw [← World.cell_congr hs] at hk
    exact List.forall_mem_cons.2 ⟨⟨_, List.mem_cons_self, rfl, hk⟩, fun e he =>
      (ih e he).imp fun s hs => hs.imp_left (List.mem_cons_of_mem _)⟩
  | gone _ _ ih =>
    exact fun e he => (ih e he).imp fun s hs => hs.imp_left (List.mem_cons_of_mem _)

/-- Who is told of an observable is told nothing of others. -/
theorem elsewhere {d : CellId} (h : Delivers d held snapshot ds w) (hd : d ≠ c) :
    toldTo c key ds = [] := by
  induction h with
  | done => rfl
  | told _ _ _ _ ih => simpa [toldTo, Deed.told?, hd] using ih
  | gone _ _ ih => exact ih

theorem ordered (h : Delivers c held snapshot ds w) :
    (toldKeys c ds).Sublist (snapshot.map (·.1)) := by
  induction h with
  | done => exact .refl _
  | told _ _ _ _ ih => simpa [toldKeys, Deed.told?] using ih
  | gone _ _ ih => exact ih.cons _

/-- Who stays registered is told if its turn is still to come. -/
theorem kept (h : Delivers c held snapshot ds w) (hn : (snapshot.map (·.1)).Nodup)
    (hw : key ∈ (w.cell c).keys) (hk : ∀ u ∈ Deed.momentsOf ds, key ∈ (u.cell c).keys) :
    toldTo c key ds = if key ∈ snapshot.map (·.1) then [held] else [] := by
  induction h with
  | done => rfl
  | @told w w₁ start finish l r rest inner ds hs _ hf h ih =>
    have hw₁ : key ∈ (w₁.cell c).keys := by
      rw [World.cell_congr hf]
      exact hk finish (by simp)
    rw [List.map_cons, List.nodup_cons] at hn
    have hrest := ih hn.2 hw₁ fun u hu => hk u (by simp [hu])
    have hcons : toldTo c key (⟨.tell c l r held, start, inner, finish⟩ :: ds) =
        if l = key then held :: toldTo c key ds else toldTo c key ds := by
      by_cases hl : l = key <;> simp [toldTo, Deed.told?, hl]
    rw [hcons, hrest]
    by_cases hl : l = key
    · subst hl
      simp [hn.1]
    · rw [if_neg hl]
      simp only [List.map_cons, List.mem_cons, Ne.symm hl, false_or]
  | @gone w l r rest ds hl h ih =>
    rw [List.map_cons, List.nodup_cons] at hn
    have hne : key ≠ l := fun he => hl (he ▸ hw)
    rw [ih hn.2 hw hk]
    simp only [List.map_cons, List.mem_cons, hne, false_or]

end Delivers

/-- Every emission is fair. -/
theorem Deed.Holds.fair (h : d.Holds) (ha : d.act = .emission c)
    (hn : (d.start.cell c).keys.Nodup) : d.Fair c := by
  obtain ⟨act, start, inner, finish⟩ := d
  subst ha
  obtain ⟨hd, -⟩ := h
  refine ⟨hd.tells, hd.ordered, hd.ordered.nodup hn, fun key hk => ?_⟩
  have hstart : key ∈ (start.cell c).keys := hk start (by simp)
  exact (hd.kept hn hstart fun u hu => hk u (by simp [hu])).trans (if_pos hstart)

/-! ## What a subscription is told -/

/-- Registries hold each key once. -/
theorem Leads.nodup (h : Leads ds w w') (hn : (w.cell c).keys.Nodup) : (w'.cell c).keys.Nodup := by
  have hmoments : w :: (Deed.momentsOf ds ++ [w']) =
      (w' :: ((Deed.momentsOf ds).reverse ++ [w])).reverse ++ [] := by simp
  exact (h.lined hn hmoments).nodup

theorem Path.ends {R : Cell → Cell → Prop} {P : Cell → Prop} (h : Path c R w us w')
    (hw : P (w.cell c)) (hP : ∀ u ∈ us, P (u.cell c)) : P (w'.cell c) := by
  induction h with
  | done h => rwa [h]
  | next _ _ ih => exact ih (hP _ List.mem_cons_self) fun u hu => hP u (List.mem_cons_of_mem _ hu)

/-- Who is registered at each moment is so in the end. -/
theorem Leads.registered (h : Leads ds w w') (hw : key ∈ (w.cell c).keys)
    (hk : ∀ u ∈ Deed.momentsOf ds, key ∈ (u.cell c).keys) : key ∈ (w'.cell c).keys :=
  ((moves_registry c).path h fun _ _ => trivial).ends (P := fun x => key ∈ x.keys) hw hk

@[simp] theorem toldTo_append (ds ds' : List Deed) :
    toldTo c key (ds ++ ds') = toldTo c key ds ++ toldTo c key ds' := by
  simp [toldTo]

@[simp] theorem emittedBy_append (ds ds' : List Deed) :
    emittedBy c (ds ++ ds') = emittedBy c ds ++ emittedBy c ds' := by
  simp [emittedBy]

theorem toldTo_cons (d : Deed) (ds : List Deed) :
    toldTo c key (d :: ds) = toldTo c key [d] ++ toldTo c key ds :=
  toldTo_append [d] ds

theorem emittedBy_cons (d : Deed) (ds : List Deed) :
    emittedBy c (d :: ds) = emittedBy c [d] ++ emittedBy c ds :=
  emittedBy_append [d] ds

theorem toldTo_eq_nil (h : Untold ds) : toldTo c key ds = [] := by
  have hnone : ∀ d ∈ ds, d.told? c = none := by
    intro d hd
    have hd := h d hd
    unfold Deed.told?
    cases ha : d.act with
    | tell =>
      rw [ha] at hd
      exact absurd trivial hd
    | _ => rfl
  simp [toldTo, List.filterMap_eq_nil_iff.2 hnone]

/-- A subscription is told what the emissions hand around that happen; besides it may be told
something by the deeds themselves. -/
def Balanced (c : CellId) (key : Nat) (ds : List Deed) : Prop :=
  (toldTo c key (Deed.allOf ds) : Multiset Held) =
    toldTo c key ds + (emittedBy c (Deed.allOf ds) : Multiset Held)

namespace Balanced

variable {act : Act} {start finish : World} {inner ds' : List Deed}

theorem nil : Balanced c key [] := rfl

theorem append (h : Balanced c key ds) (h' : Balanced c key ds') :
    Balanced c key (ds ++ ds') := by
  unfold Balanced at *
  simp only [Deed.allOf_append, toldTo_append, emittedBy_append, ← Multiset.coe_add, h, h']
  exact add_add_add_comm ..

/-- A deed during which as much is told as it hands around. -/
theorem cons (hi : Balanced c key inner)
    (ht : toldTo c key inner = emittedBy c [⟨act, start, inner, finish⟩]) (hr : Balanced c key ds) :
    Balanced c key (⟨act, start, inner, finish⟩ :: ds) := by
  have hd : Balanced c key [⟨act, start, inner, finish⟩] := by
    unfold Balanced at *
    simp only [Deed.allOf_cons, Deed.all_mk, Deed.allOf_nil, List.append_nil]
    rw [toldTo_cons, emittedBy_cons, ← Multiset.coe_add, ← Multiset.coe_add, hi, ht]
  exact hd.append hr

/-- A deed that hands nothing around by itself. -/
theorem plain (hi : Balanced c key inner) (hu : Untold inner)
    (he : emittedBy c [⟨act, start, inner, finish⟩] = []) (hr : Balanced c key ds) :
    Balanced c key (⟨act, start, inner, finish⟩ :: ds) :=
  hi.cons ((toldTo_eq_nil hu).trans he.symm) hr

theorem hookDeeds {d : CellId} {hook : Hook} {called : Option (String × CallbackId)}
    (hi : Balanced c key inner) (hu : Untold inner) :
    Balanced c key (hookDeeds d hook called start inner finish) := by
  cases called with
  | none => exact nil
  | some called => exact hi.plain hu rfl nil

/-- An emission hands around what is told meanwhile. -/
theorem emission {d : CellId}
    (hd : Delivers d (start.cell d).held (start.cell d).registry inner start)
    (hn : (start.cell c).keys.Nodup) (hs : key ∈ (start.cell c).keys)
    (hk : ∀ u ∈ Deed.momentsOf inner, key ∈ (u.cell c).keys) (hi : Balanced c key inner)
    (hr : Balanced c key ds) : Balanced c key (⟨.emission d, start, inner, finish⟩ :: ds) := by
  refine hi.cons ?_ hr
  by_cases hdc : d = c
  · subst hdc
    refine (hd.kept hn hs hk).trans ((if_pos hs).trans ?_)
    simp [emittedBy, Deed.emitted?]
  · rw [hd.elsewhere hdc]
    simp [emittedBy, Deed.emitted?, hdc]

end Balanced

theorem World.keys_modified {d : CellId} {f : Cell → Cell}
    (h : w'.cells = w.cells.modify d.index f) (hf : ∀ x, (f x).registry = x.registry) (c : CellId) :
    (w'.cell c).keys = (w.cell c).keys := by
  rw [World.cell_modified h]
  split
  · rw [Cell.keys, hf, Cell.keys]
  · rfl

theorem Vets.untold {current next : Value} {checkers : List Checker} {b : Bool}
    (h : Vets current next checkers ds b w w') : Untold ds := by
  intro d hd
  obtain ⟨checker, accepts, ha⟩ := h.asks d hd
  rw [ha]
  exact id

theorem Vets.balanced {current next : Value} {checkers : List Checker} {b : Bool}
    (h : Vets current next checkers ds b w w') : Balanced c key ds := by
  induction h with
  | passed => exact .nil
  | refused => exact .plain .nil untold_nil rfl .nil
  | accepted _ _ ih => exact .plain .nil untold_nil rfl ih

/-- Whoever stays registered is told what is handed around. -/
theorem Leads.balanced (h : Leads ds w w') (hn : (w.cell c).keys.Nodup)
    (hw : key ∈ (w.cell c).keys) (hk : ∀ u ∈ Deed.momentsOf ds, key ∈ (u.cell c).keys) :
    Balanced c key ds := by
  have hnil : Balanced c key [] := .nil
  induction h with
  | still => exact hnil
  | seq h _ ih ih' =>
    rw [Deed.momentsOf_append] at hk
    have hk₁ := fun u hu => hk u (List.mem_append_left _ hu)
    exact (ih hn hw hk₁).append
      (ih' (h.nodup hn) (h.registered hw hk₁) fun u hu => hk u (List.mem_append_right _ hu))
  | @changed act _ _ _ _ ha =>
    refine hnil.plain untold_nil ?_ hnil
    cases act <;> first | rfl | cases ha
  | @emitted d told w w' hd h ih =>
    have hin := ih hn hw fun u hu => hk u (by simp [hu])
    have hemission : Balanced c key [⟨.emission d, w, told, w'⟩] :=
      .emission hd hn hw (fun u hu => hk u (by simp [hu])) hin hnil
    exact hemission.plain (untold_singleton id) rfl hnil
  | told _ hu ih =>
    exact (ih hn hw fun u hu => hk u (by simp [hu])).plain hu rfl hnil
  | refused hv => exact hv.balanced.plain hv.untold rfl hnil
  | @updated d candidate asks told w w₁ w₂ w' hc hv hf hd h ih =>
    have hkeys : (w₂.cell c).keys = (w.cell c).keys := by
      rw [World.keys_modified hf fun _ => rfl, World.cell_congr hv.cells]
    have hn₂ : (w₂.cell c).keys.Nodup := hkeys ▸ hn
    have hw₂ : key ∈ (w₂.cell c).keys := hkeys ▸ hw
    have hin := ih hn₂ hw₂ fun u hu => hk u (by simp [hu])
    have hemission : Balanced c key [⟨.emission d, w₂, told, w'⟩] :=
      .emission hd hn₂ hw₂ (fun u hu => hk u (by simp [hu])) hin hnil
    have hassign :
        Balanced c key [⟨.assign d candidate, w₁, [], w₂⟩, ⟨.emission d, w₂, told, w'⟩] :=
      hnil.plain untold_nil rfl hemission
    refine (hv.balanced.append hassign).plain (untold_append hv.untold ?_) rfl hnil
    exact untold_append (untold_singleton id) (untold_singleton id)
  | @derived d held told w w₁ w' hc hf hd h ih =>
    have hkeys : (w₁.cell c).keys = (w.cell c).keys := World.keys_modified hf (fun _ => rfl) c
    have hn₁ : (w₁.cell c).keys.Nodup := hkeys ▸ hn
    have hw₁ : key ∈ (w₁.cell c).keys := hkeys ▸ hw
    have hin := ih hn₁ hw₁ fun u hu => hk u (by simp [hu])
    have hemission : Balanced c key [⟨.emission d, w₁, told, w'⟩] :=
      .emission hd hn₁ hw₁ (fun u hu => hk u (by simp [hu])) hin hnil
    exact hnil.plain untold_nil rfl hemission
  | late ha h =>
    obtain ⟨v, rfl⟩ | ⟨message, rfl⟩ := ha
    all_goals exact hnil.plain untold_nil rfl hnil
  | @resolved d v told last w w₁ w₂ w' hc hs hf hd h hnone hl hu ih ih' =>
    have hkeys : (w₁.cell c).keys = (w.cell c).keys :=
      World.keys_modified hf (fun _ => by simp [Cell.fulfil]) c
    have hn₁ : (w₁.cell c).keys.Nodup := hkeys ▸ hn
    have hw₁ : key ∈ (w₁.cell c).keys := hkeys ▸ hw
    have hk₁ : ∀ u ∈ Deed.momentsOf told, key ∈ (u.cell c).keys := fun u hu => hk u (by simp [hu])
    have hin := ih' (h.nodup hn₁) (h.registered hw₁ hk₁) fun u hu =>
      hk u (by simp [mem_momentsOf_hookDeeds hnone hu])
    refine .plain (hnil.plain untold_nil rfl ?_) ?_ rfl hnil
    · exact .emission hd hn₁ hw₁ hk₁ (ih hn₁ hw₁ hk₁) (hin.hookDeeds hu)
    · exact untold_cons id (untold_cons id untold_hookDeeds)
  | @rejected d message failed last w w₁ w₂ w' hc hs hf hm h hu hnone hl hu' ih ih' =>
    have hkeys : (w₁.cell c).keys = (w.cell c).keys :=
      World.keys_modified hf (fun _ => by simp [Cell.fail]) c
    have hn₁ : (w₁.cell c).keys.Nodup := hkeys ▸ hn
    have hw₁ : key ∈ (w₁.cell c).keys := hkeys ▸ hw
    have hk₁ : ∀ u ∈ Deed.momentsOf failed, key ∈ (u.cell c).keys := fun u hu =>
      hk u (by simp [mem_momentsOf_hookDeeds hm hu])
    have hin := ih' (h.nodup hn₁) (h.registered hw₁ hk₁) fun u hu =>
      hk u (by simp [mem_momentsOf_hookDeeds hnone hu])
    refine .plain (hnil.plain untold_nil rfl ?_) ?_ rfl hnil
    · exact ((ih hn₁ hw₁ hk₁).hookDeeds hu).append (hin.hookDeeds hu')
    · exact untold_cons id (untold_append untold_hookDeeds untold_hookDeeds)

/-! ## Runs -/

/-- From `w` to `w'` no notification of `c` is lost or duplicated. -/
structure Delivered (c : CellId) (w : World) (ds : List Deed) (w' : World) : Prop where
  /-- At each moment the registry holds each key once, ordered by the start of its registration. -/
  lined {u : World} {past rest : List World} :
    w :: (Deed.momentsOf ds ++ [w']) = (u :: past).reverse ++ rest →
      Lined c w (u :: past) (u.cell c).keys
  /-- Whoever emits the observable does so once. -/
  emits : ∀ d ∈ Deed.allOf ds, d.act = .emit c →
    ∃ told, d.inner = [⟨.emission c, d.start, told, d.finish⟩]
  fair : ∀ d ∈ Deed.allOf ds, d.act = .emission c → d.Fair c
  /-- Who stays registered is told once by each emission, and so what they all hand around. -/
  received {key : Nat} : (∀ u ∈ w :: (Deed.momentsOf ds ++ [w']), key ∈ (u.cell c).keys) →
    (∀ d ∈ Deed.allOf ds, d.act = .emission c →
      toldTo c key d.inner = [(d.start.cell c).held]) ∧
      (toldTo c key (Deed.allOf ds) : Multiset Held) = emittedBy c (Deed.allOf ds)

/-- Deeds that tell nobody by themselves lose and duplicate nothing. -/
theorem Leads.delivered (h : Leads ds w w') (hu : Untold ds) (hn : (w.cell c).keys.Nodup) :
    Delivered c w ds w' := by
  have hstart : ∀ d ∈ Deed.allOf ds, (d.start.cell c).keys.Nodup := by
    intro d hd
    have hmem := Deed.moments_subset_of_mem_allOf ds hd d.start_mem_moments
    obtain ⟨earlier, later, he⟩ := List.append_of_mem hmem
    have hmoments : w :: (Deed.momentsOf ds ++ [w']) =
        (d.start :: (earlier.reverse ++ [w])).reverse ++ (later ++ [w']) := by simp [he]
    exact (h.lined hn hmoments).nodup
  have hfair : ∀ d ∈ Deed.allOf ds, d.act = .emission c → d.Fair c := fun d hd ha =>
    (h.holds d hd).fair ha (hstart d hd)
  refine ⟨fun he => h.lined hn he, fun d hd ha => ?_, hfair, fun hk => ⟨fun d hd ha => ?_, ?_⟩⟩
  · have hholds := h.holds d hd
    rwa [Deed.Holds, ha] at hholds
  · refine (hfair d hd ha).kept _ fun u hu => hk u ?_
    simp [Deed.moments_subset_of_mem_allOf ds hd hu]
  · have hbalanced := h.balanced hn (hk w List.mem_cons_self) fun u hu => hk u (by simp [hu])
    rw [Balanced, toldTo_eq_nil hu] at hbalanced
    simpa using hbalanced

/-- No notification is lost or duplicated, whatever programs that are told do: subscribe,
unsubscribe, assign and emit the same observable or others. The deeds are the runs of the operations
that were carried out. -/
theorem World.Traced.emissions_delivered (hw : w.Traced N) {steps : List Step}
    (hsteps : ∀ s ∈ steps, s.Traced N) (hrun : (performAll (respond n) steps).run w = .ok ⟨⟩ w')
    (c : CellId) :
    (∀ d ∈ Deed.allOf (Recorder.perform (respond n) (recorded n) steps w), d.Ran) ∧
      Delivered c w (Recorder.perform (respond n) (recorded n) steps w) w' := by
  obtain ⟨-, hleads, huntold⟩ := recordsAt_perform (faithful N n) hw hsteps _ _ hrun
  exact ⟨fun d hd => Recorder.ran_perform (ran_recorded n) n steps w d hd,
    hleads.delivered huntold (hw.keyed c).1⟩

/-! ### An emission inside an emission -/

/-- An observable that is called `x`. -/
def oneObservable : World :=
  (({} : World).grown ⟨.plain, .any, .value (.str "first"), []⟩).calling "x" ⟨0⟩

/-- The first subscription assigns and emits the observable again. The second one is so told of the
inner emission before the outer one, and removes the third one before its turns have come. -/
def emissionInside : List Step :=
  [.subscribe "x" "again" [.setValue "x" (.scalar (.str "second")), .emit "x"] 1,
    .subscribe "x" "remover" [.unsubscribe "x" "removed"] 1,
    .subscribe "x" "removed" [] 0, .emit "x"]

/-- Nothing is called like a state or like a result that comes later. -/
def unnamed : Naming := ⟨fun _ => False, fun _ => False⟩

theorem traced_oneObservable : oneObservable.Traced unnamed :=
  (World.traced_empty.grown rfl).calling False.elim False.elim

theorem traced_emissionInside : ∀ s ∈ emissionInside, s.Traced unnamed := by
  simp only [emissionInside, List.forall_mem_cons, List.not_mem_nil, false_implies, implies_true,
    and_true]
  refine ⟨.subscribe ?_, .subscribe ?_, .subscribe nofun, .emit⟩
  · simp only [List.forall_mem_cons, List.not_mem_nil, false_implies, implies_true, and_true]
    exact ⟨.setValue, .emit⟩
  · simp only [List.forall_mem_cons, List.not_mem_nil, false_implies, implies_true, and_true]
    exact .unsubscribe

theorem ends_emissionInside :
    (ended? (performAll (respond 8) emissionInside) oneObservable).isSome := by
  decide +kernel

/-- Of each emission the first two subscriptions are told, and the third one of none. -/
theorem emissionInside_delivered :
    ∃ w', (performAll (respond 8) emissionInside).run oneObservable = .ok ⟨⟩ w' ∧
      (∀ d ∈ Deed.allOf (Recorder.perform (respond 8) (recorded 8) emissionInside oneObservable),
        d.Ran) ∧
      Delivered ⟨0⟩ oneObservable
        (Recorder.perform (respond 8) (recorded 8) emissionInside oneObservable) w' ∧
      toldKeys ⟨0⟩ (Deed.allOf (Recorder.perform (respond 8) (recorded 8) emissionInside
        oneObservable)) = [0, 0, 1, 1] := by
  have hrun := run_of_ended ends_emissionInside
  obtain ⟨hran, hdelivered⟩ :=
    traced_oneObservable.emissions_delivered traced_emissionInside hrun ⟨0⟩
  exact ⟨_, hrun, hran, hdelivered, by decide +kernel⟩

end LivePage
