import LivePage.Proofs.Run.Telling

/-!
# Chronicles of runs

What a run does to observables and their subscriptions, as a tree of episodes. An episode is a
single change, or something that lasts and during which other things happen: an emission and those
who are told of it, the realization of a node, the teardown of a record. It says in which worlds it
begins and ends.

`Chronicle es w w'` says that the episodes lead from one world to the other, each of them being what
its name says, and that nothing else happens to observables, subscriptions or the keys by which
programs know theirs. The moments of a chronicle are the worlds in which its episodes begin and end,
in the order of time. So what a run can do to a subscription is said here once, and what follows
from it is proved by induction on chronicles.

What is pinned is left out of account: it may change between any two episodes.
-/

namespace LivePage

open LivePage.Script

variable {α ε : Type} {w w' w₁ : World} {c d : CellId} {held : Held} {key : Nat} {r : Reaction}

/-- The observables that a record mentions: a teardown removes all their subscriptions. -/
def Teardown.mentions (m : Teardown) : List CellId :=
  m.driving.toList ++ m.refs ++ m.observables

/-! ## Episodes -/

/-- What an episode is. The first six are single changes, the others last. -/
inductive Move where
  /-- A change that concerns no subscription and nothing that an observable holds. -/
  | other
  | assigned (c : CellId) (held : Held)
  /-- Somebody subscribes under a new key. -/
  | subscribed (c : CellId) (key : Nat) (r : Reaction)
  /-- A program subscribes once more under a key that it knows. -/
  | resubscribed (c : CellId) (key : Nat) (r : Reaction)
  /-- A program unsubscribes a key that it knows. -/
  | unsubscribed (c : CellId) (key : Nat)
  /-- All subscriptions are removed. -/
  | cleared (c : CellId)
  /-- An observable hands what it holds to its subscriptions. -/
  | emission (c : CellId)
  /-- A subscription is called. -/
  | told (c : CellId) (key : Nat) (r : Reaction) (held : Held)
  /-- A node is realized, which gives a record. -/
  | realized (m : Teardown)
  /-- A node cannot be realized. -/
  | failed
  | killed (m : Teardown)

/-- Nothing that does something to a page is subscribed. -/
def Move.Clean : Move → Prop
  | .subscribed _ _ r => ¬ r.onPage
  | _ => True

/-- Something that happens, the worlds in which it begins and ends, and what happens meanwhile. -/
structure Episode where
  move : Move
  start : World
  inner : List Episode
  finish : World

/-- An episode begins or ends. -/
structure Moment where
  move : Move
  ended : Bool
  world : World

mutual

/-- An episode and all that happen during it. -/
def Episode.all : Episode → List Episode
  | ⟨move, start, inner, finish⟩ => ⟨move, start, inner, finish⟩ :: Episode.allOf inner

/-- Episodes and all that happen during them. -/
def Episode.allOf : List Episode → List Episode
  | [] => []
  | e :: es => e.all ++ Episode.allOf es

end

mutual

/-- The moments of an episode, in the order of time. -/
def Episode.moments : Episode → List Moment
  | ⟨move, start, inner, finish⟩ =>
    ⟨move, false, start⟩ :: (Episode.momentsOf inner ++ [⟨move, true, finish⟩])

/-- The moments of episodes, in the order of time. -/
def Episode.momentsOf : List Episode → List Moment
  | [] => []
  | e :: es => e.moments ++ Episode.momentsOf es

end

namespace Episode

variable {move : Move} {start finish : World} {inner es fs : List Episode}

@[simp] theorem momentsOf_nil : momentsOf [] = [] := rfl

@[simp] theorem momentsOf_cons : momentsOf (⟨move, start, inner, finish⟩ :: es) =
    ⟨move, false, start⟩ :: (momentsOf inner ++ ⟨move, true, finish⟩ :: momentsOf es) := by
  simp [momentsOf, moments]

@[simp] theorem momentsOf_append : momentsOf (es ++ fs) = momentsOf es ++ momentsOf fs := by
  induction es with
  | nil => rfl
  | cons e es ih =>
    obtain ⟨move, start, inner, finish⟩ := e
    simp [ih]

@[simp] theorem allOf_nil : allOf [] = [] := rfl

@[simp] theorem allOf_cons : allOf (⟨move, start, inner, finish⟩ :: es) =
    ⟨move, start, inner, finish⟩ :: (allOf inner ++ allOf es) := rfl

@[simp] theorem allOf_append : allOf (es ++ fs) = allOf es ++ allOf fs := by
  induction es with
  | nil => rfl
  | cons e es ih =>
    obtain ⟨move, start, inner, finish⟩ := e
    simp [ih]

end Episode

/-! ## Single changes -/

/-- What observables hold, who is subscribed and by which keys programs know their subscriptions
stays as it is; there may be more observables, and more places on pages. -/
structure Spares (w w' : World) : Prop where
  registry (c : CellId) : (w'.cell c).registry = (w.cell c).registry
  held {c : CellId} : c.index < w.cells.size → (w'.cell c).held = (w.cell c).held
  size : w.cells.size ≤ w'.cells.size
  nextKey : w'.nextKey = w.nextKey
  source {s : Nat} {site : Site} : w.sites[s]? = some site →
    ∃ site', w'.sites[s]? = some site' ∧ site'.source = site.source
  subscribers : ∀ e ∈ w'.names.subscribers, e ∈ w.names.subscribers
  watches : ∀ e ∈ w'.names.watches, e ∈ w.names.watches

/-- The new tables of names know the key of a program's subscription, and no others are new. -/
structure Names.Enrols (n n' : Names) (key : Nat) (r : Reaction) : Prop where
  subscribers : ∀ e ∈ n'.subscribers, e ∈ n.subscribers ∨ e.2 = (key, r) ∧ ¬ r.onPage
  watches : ∀ e ∈ n'.watches, e ∈ n.watches ∨ e.2.2 = key ∧ ¬ r.onPage

/-- A program knows the key. -/
def Names.Knows (n : Names) (key : Nat) : Prop :=
  (∃ e ∈ n.subscribers, e.2.1 = key) ∨ ∃ e ∈ n.watches, e.2.2 = key

/-- What a single change does. -/
def Move.Changes (w w' : World) : Move → Prop
  | .other => Spares w w'
  | .assigned c held => w' = w.assigned c held
  | .subscribed c key r => key = w.nextKey ∧ (r.onPage → w.Follows c r) ∧
    ∃ names, w' = { w.subscribed c r with names } ∧ w.names.Enrols names key r
  | .resubscribed c key r => (∃ name, (name, (key, r)) ∈ w.names.subscribers) ∧
    w' = w.withCell c (·.subscribe key r)
  | .unsubscribed c key => w.names.Knows key ∧ w' = w.withCell c (·.unsubscribe key)
  | .cleared c => w' = w.withCell c Cell.unsubscribeAll
  | _ => False

/-! ## What lasts -/

/-- Those of the snapshot that are still subscribed when their turn comes are told, each once and in
their order, and nothing else happens between them. -/
inductive Hands (c : CellId) (held : Held) :
    List (Nat × Reaction) → List Episode → World → Prop where
  | done {w : World} : Hands c held [] [] w
  | told {w : World} {key : Nat} {r : Reaction} {rest : List (Nat × Reaction)} {e : Episode}
      {es : List Episode} (pins : List (List Entity)) : (w.cell c).isSubscribed key = true →
      e.move = .told c key r held → Hands c held rest es { e.finish with pins } →
      Hands c held ((key, r) :: rest) (e :: es) w
  | gone {w : World} {key : Nat} {r : Reaction} {rest : List (Nat × Reaction)}
      {es : List Episode} : (w.cell c).isSubscribed key = false → Hands c held rest es w →
      Hands c held ((key, r) :: rest) es w

/-- Whatever is subscribed here by itself and does something to a page is subscribed to one of these
observables. -/
def BindsWithin (cells : List CellId) (es : List Episode) : Prop :=
  ∀ e ∈ es, ∀ {c key r}, e.move = .subscribed c key r → r.onPage → c ∈ cells

/-- The episodes remove by themselves the subscriptions of exactly these observables. -/
structure ClearsExactly (cells : List CellId) (es : List Episode) : Prop where
  clean : ∀ e ∈ es, e.move.Clean
  iff (c : CellId) : (∃ e ∈ es, e.move = .cleared c) ↔ c ∈ cells

/-- What happens during an episode that lasts. Each is a run of the operation that it is named
for. -/
def Move.Spans (inner : List Episode) (w w' : World) : Move → Prop
  | .emission c => Hands c (w.cell c).held (w.cell c).registry inner w ∧
    ∃ d, (emit (respond d) c).run w = .ok ⟨⟩ w'
  | .told _ _ r held => (∀ e ∈ inner, e.move.Clean) ∧
    ∃ d, (respond d (.react r held)).run w = .ok ⟨⟩ w'
  | .realized m => BindsWithin m.mentions inner ∧
    ∃ d surface parent n, (Node.realize (respond d) surface parent n).run.run w = .ok (.ok m) w'
  | .failed => ∃ d surface parent n error,
    (Node.realize (respond d) surface parent n).run.run w = .ok (.error error) w'
  | .killed m => ClearsExactly m.mentions inner ∧ ∃ d, (m.kill (respond d)).run w = .ok ⟨⟩ w'
  | _ => False

/-! ## Chronicles -/

/-- The episodes lead from one world to the other. -/
inductive Chronicle : List Episode → World → World → Prop where
  | still {w : World} (pins : List (List Entity)) : Chronicle [] w { w with pins }
  | change {w w₁ w' : World} {move : Move} {es : List Episode} (pins : List (List Entity)) :
      move.Changes { w with pins } w₁ → Chronicle es w₁ w' →
      Chronicle (⟨move, { w with pins }, [], w₁⟩ :: es) w w'
  | during {w w₁ w' : World} {move : Move} {inner es : List Episode} (pins : List (List Entity)) :
      move.Spans inner { w with pins } w₁ → Chronicle inner { w with pins } w₁ →
      Chronicle es w₁ w' → Chronicle (⟨move, { w with pins }, inner, w₁⟩ :: es) w w'

namespace Chronicle

variable {es fs : List Episode}

theorem refl (w : World) : Chronicle [] w w := .still w.pins

/-- What is pinned at the start does not matter. -/
theorem of_repin {pins : List (List Entity)} (h : Chronicle es { w with pins } w') :
    Chronicle es w w' := by
  generalize hv : ({ w with pins } : World) = v at h
  cases h with
  | still pins' =>
    subst hv
    exact .still pins'
  | change pins' hm h =>
    subst hv
    exact .change (w := w) pins' hm h
  | during pins' hs hi h =>
    subst hv
    exact .during (w := w) pins' hs hi h

theorem pinning (h : Chronicle es w w') (pins : List (List Entity)) :
    Chronicle es { w with pins } w' := by
  have hback : Chronicle es { ({ w with pins } : World) with pins := w.pins } w' := h
  exact hback.of_repin

theorem append (h : Chronicle es w w₁) (h' : Chronicle fs w₁ w') : Chronicle (es ++ fs) w w' := by
  induction h with
  | still pins => exact h'.of_repin
  | change pins hm _ ih => exact .change pins hm (ih h')
  | during pins hs hi _ _ ih => exact .during pins hs hi (ih h')

/-- What is pinned at the end does not matter. -/
theorem repin (h : Chronicle es w w') (pins : List (List Entity)) :
    Chronicle es w { w' with pins } := by
  rw [← List.append_nil es]
  exact h.append (.still pins)

theorem single {move : Move} (h : move.Changes w w') : Chronicle [⟨move, w, [], w'⟩] w w' :=
  .change w.pins h (.refl w')

theorem spanning {move : Move} (hs : move.Spans es w w') (h : Chronicle es w w') :
    Chronicle [⟨move, w, es, w'⟩] w w' :=
  .during w.pins hs h (.refl w')

end Chronicle

/-! ## Runs with chronicles -/

/-- There is a chronicle from one world to the other whose episodes are of this kind. -/
def Via (P : Move → Prop) (w w' : World) : Prop :=
  ∃ es, (∀ e ∈ es, P e.move) ∧ Chronicle es w w'

namespace Via

variable {P Q : Move → Prop}

theorem mono (hPQ : ∀ move, P move → Q move) (h : Via P w w') : Via Q w w' := by
  obtain ⟨es, hP, hes⟩ := h
  exact ⟨es, fun e he => hPQ _ (hP e he), hes⟩

theorem unpinned {entities : List Entity} (h : Via P (w.pinned entities) w') :
    Via P w w'.unpinned := by
  obtain ⟨es, hP, hes⟩ := h
  exact ⟨es, hP, hes.of_repin.repin _⟩

theorem single {move : Move} (hP : P move) (h : move.Changes w w') : Via P w w' :=
  ⟨_, fun _ he => (List.mem_singleton.1 he) ▸ hP, .single h⟩

theorem spanning {move : Move} {es : List Episode} (hP : P move) (hs : move.Spans es w w')
    (h : Chronicle es w w') : Via P w w' :=
  ⟨_, fun _ he => (List.mem_singleton.1 he) ▸ hP, .spanning hs h⟩

instance : IsPreorder World (Via P) where
  refl w := ⟨[], by simp, Chronicle.refl w⟩
  trans := by
    rintro w w₁ w' ⟨es, hes, h⟩ ⟨fs, hfs, h'⟩
    exact ⟨es ++ fs, List.forall_mem_append.2 ⟨hes, hfs⟩, h.append h'⟩

end Via

/-- The run has a chronicle whose episodes are of this kind. -/
abbrev Goes (P : Move → Prop) (x : Run α) : Prop := Keeps (Via P) (fun _ => True) x

/-- The run has a chronicle in which nothing by itself is subscribed that does something to a
page. -/
abbrev Chronicled (x : Run α) : Prop := Goes Move.Clean x

section

variable {P Q : Move → Prop}

theorem Goes.mono {x : Run α} (h : Goes P x) (hPQ : ∀ move, P move → Q move) : Goes Q x :=
  Keeps.mono h (Via.mono hPQ) id

theorem goes_holding {x : Run α} {entities : List Entity} (h : Goes P x) :
    Goes P (holding entities x) :=
  Keeps.holding h Via.unpinned

theorem goes_realizingWith {x : Realizing α} {entities : List Entity} (h : Goes P x.run) :
    Goes P (realizingWith entities x).run := by
  rw [realizingWith, ExceptT.run_mk]
  exact goes_holding h

theorem goes_of_ok {x : Run α} (h : ∀ {w a w'}, x.run w = .ok a w' → Via P w w') : Goes P x := by
  refine ⟨fun w => ?_⟩
  unfold KeepsAt
  split
  · next hx => exact h hx
  · trivial

end

/-! ## Runs that spare observables -/

theorem Spares.refl (w : World) : Spares w w where
  registry _ := rfl
  held _ := rfl
  size := Nat.le_refl _
  nextKey := rfl
  source h := ⟨_, h, rfl⟩
  subscribers _ h := h
  watches _ h := h

theorem Spares.trans {w'' : World} (h : Spares w w') (h' : Spares w' w'') : Spares w w'' where
  registry c := (h'.registry c).trans (h.registry c)
  held hc := (h'.held (Nat.lt_of_lt_of_le hc h.size)).trans (h.held hc)
  size := Nat.le_trans h.size h'.size
  nextKey := h'.nextKey.trans h.nextKey
  source hs := by
    obtain ⟨site, hs, he⟩ := h.source hs
    obtain ⟨site', hs, he'⟩ := h'.source hs
    exact ⟨site', hs, he'.trans he⟩
  subscribers e he := h.subscribers e (h'.subscribers e he)
  watches e he := h.watches e (h'.watches e he)

instance : IsPreorder World Spares where
  refl := .refl
  trans _ _ _ := .trans

theorem Spares.via {P : Move → Prop} (h : Spares w w') (hP : P .other) : Via P w w' := .single hP h

/-- The run spares observables and subscriptions. -/
abbrev Sparing (x : Run α) : Prop := Keeps Spares (fun _ => True) x

theorem Sparing.goes {P : Move → Prop} {x : Run α} (h : Sparing x) (hP : P .other) : Goes P x :=
  Keeps.mono h (fun h => h.via hP) id

theorem Sparing.chronicled {x : Run α} (h : Sparing x) : Chronicled x := h.goes trivial

theorem Spares.unpinned {entities : List Entity} (h : Spares (w.pinned entities) w') :
    Spares w w'.unpinned := { h with }

theorem Sparing.holding {x : Run α} {entities : List Entity} (h : Sparing x) :
    Sparing (holding entities x) :=
  Keeps.holding h Spares.unpinned

/-- Observables, places, keys and names are as they were. -/
theorem spares_of_same (hc : w'.cells = w.cells) (hs : w'.sites = w.sites)
    (hk : w'.nextKey = w.nextKey) (hn : w'.names = w.names) : Spares w w' where
  registry c := by rw [World.cell, World.cell, hc]
  held _ := by rw [World.cell, World.cell, hc]
  size := Nat.le_of_eq (by rw [hc])
  nextKey := hk
  source h := ⟨_, by rwa [hs], rfl⟩
  subscribers e he := by rwa [hn] at he
  watches e he := by rwa [hn] at he

theorem Quiet.spares (h : Quiet w w') : Spares w w' :=
  spares_of_same h.cells h.sites h.nextKey h.names

theorem Reads.sparing {x : Run α} (h : Reads x) : Sparing x :=
  h.mono Quiet.spares fun _ => trivial

theorem Reads.chronicled {x : Run α} (h : Reads x) : Chronicled x := h.sparing.chronicled

end LivePage
