/-!
# Entries in order of arrival

A table from names to values that remembers the order in which its names first came. Giving a name
a new value keeps its place; erasing a name closes the gap. Attributes, styles and the tables of
named things are kept this way.
-/

namespace LivePage

/-- Names with their values, in the order of arrival. -/
abbrev Entries (α : Type) := List (String × α)

namespace Entries

variable {α β : Type}

/-- The value of a name. -/
def get? (name : String) : Entries α → Option α
  | [] => none
  | (other, a) :: rest => if other = name then some a else get? name rest

/-- Gives a name a value: in its place if the name is there, else at the end. -/
def set (name : String) (a : α) : Entries α → Entries α
  | [] => [(name, a)]
  | (other, b) :: rest => if other = name then (name, a) :: rest else (other, b) :: set name a rest

/-- The entries without a name. -/
def erase (name : String) (entries : Entries α) : Entries α :=
  entries.filter fun e => e.1 ≠ name

/-- Does a name have a value? -/
def has (name : String) (entries : Entries α) : Bool := (get? name entries).isSome

/-- Named values as entries: a later one of a name takes the place of an earlier one. -/
def ofList (named : List (String × α)) : Entries α :=
  named.foldl (fun entries e => set e.1 e.2 entries) []

@[simp] theorem get?_set (name other : String) (a : α) (entries : Entries α) :
    get? other (set name a entries) = if name = other then some a else get? other entries := by
  induction entries with
  | nil => simp [set, get?]
  | cons e rest ih =>
    obtain ⟨x, b⟩ := e
    by_cases h : x = name <;> by_cases h' : x = other <;> grind [set, get?]

theorem set_of_notMem {name : String} {a : α} {entries : Entries α}
    (h : name ∉ entries.map Prod.fst) : set name a entries = entries ++ [(name, a)] := by
  induction entries with
  | nil => rfl
  | cons e entries ih =>
    obtain ⟨other, b⟩ := e
    simp only [List.map_cons, List.mem_cons, not_or] at h
    obtain ⟨hne, h⟩ := h
    rw [set, if_neg (Ne.symm hne), ih h]
    rfl

theorem mem_set (name : String) (a : α) (entries : Entries α) : (name, a) ∈ set name a entries := by
  induction entries with
  | nil => exact List.mem_singleton_self _
  | cons e rest ih =>
    rw [set]
    split
    · exact List.mem_cons_self
    · exact List.mem_cons_of_mem _ ih

theorem of_mem_set {name : String} {a : α} {e : String × α} {entries : Entries α}
    (h : e ∈ set name a entries) : e ∈ entries ∨ e = (name, a) := by
  induction entries with
  | nil => exact .inr (List.mem_singleton.1 h)
  | cons x rest ih =>
    rw [set] at h
    split at h
    · exact (List.mem_cons.1 h).symm.imp_left (List.mem_cons_of_mem _)
    · rcases List.mem_cons.1 h with rfl | h
      · exact .inl List.mem_cons_self
      · exact (ih h).imp_left (List.mem_cons_of_mem _)

theorem mem_of_get? {name : String} {a : α} {entries : Entries α}
    (h : get? name entries = some a) : (name, a) ∈ entries := by
  induction entries with
  | nil => cases h
  | cons e rest ih =>
    obtain ⟨other, b⟩ := e
    rw [get?] at h
    split at h
    · next hname =>
      cases h
      exact hname ▸ List.mem_cons_self
    · exact List.mem_cons_of_mem _ (ih h)

theorem notMem_of_get? {name : String} {entries : Entries α} (h : get? name entries = none) :
    name ∉ entries.map Prod.fst := by
  induction entries with
  | nil => exact List.not_mem_nil
  | cons e rest ih =>
    obtain ⟨other, b⟩ := e
    rw [get?] at h
    split at h
    · cases h
    · next hname =>
      rw [List.map_cons, List.mem_cons, not_or]
      exact ⟨Ne.symm hname, ih h⟩

@[simp] theorem get?_erase (name other : String) (entries : Entries α) :
    get? other (erase name entries) = if name = other then none else get? other entries := by
  induction entries with
  | nil => simp [erase, get?]
  | cons e rest ih =>
    obtain ⟨x, b⟩ := e
    unfold erase at ih ⊢
    by_cases h : x = name <;> by_cases h' : x = other <;> grind [get?]

end Entries

end LivePage
