import Std.Data.TreeMap

set_option autoImplicit false

namespace Lexing

variable {α β : Type}

/-- What the pairs attach to a value, in order. -/
def attached [DecidableEq α] (a : α) (pairs : List (α × β)) : List β :=
  pairs.filterMap fun (b, x) => if b = a then some x else none

theorem attached_cons [DecidableEq α] (a : α) (pair : α × β) (rest : List (α × β)) :
    attached a (pair :: rest) =
      if pair.1 = a then pair.2 :: attached a rest else attached a rest := by
  rw [attached, attached, List.filterMap_cons]
  by_cases same : pair.1 = a <;> simp [same]

theorem mem_attached [DecidableEq α] {a : α} {x : β} {pairs : List (α × β)} :
    x ∈ attached a pairs ↔ (a, x) ∈ pairs := by
  rw [attached, List.mem_filterMap]
  constructor
  · intro h
    obtain ⟨⟨b, y⟩, mem, result⟩ := h
    obtain ⟨rfl, rfl⟩ : b = a ∧ y = x := by simpa using result
    exact mem
  · intro mem
    exact ⟨_, mem, by simp⟩

/-- A search tree of all groups that are not empty. -/
def grouped [Ord α] (pairs : List (α × β)) : Std.TreeMap α (List β) :=
  pairs.foldr (fun (a, x) groups => groups.insert a (x :: groups.getD a [])) ∅

/-- The search tree holds what a walk through all pairs finds. -/
theorem getD_grouped [DecidableEq α] [Ord α] [Std.TransOrd α] [Std.LawfulEqOrd α] (a : α)
    (pairs : List (α × β)) : (grouped pairs).getD a [] = attached a pairs := by
  induction pairs with
  | nil => exact Std.TreeMap.getD_emptyc
  | cons pair rest ih =>
    rw [grouped, List.foldr_cons, ← grouped, Std.TreeMap.getD_insert, attached_cons]
    by_cases same : pair.1 = a <;> simp [same, ih]

end Lexing

namespace Lexing

variable {α β : Type} [Ord α]

def tabulate (f : α → β) (l : List α) : Std.TreeMap α β :=
  l.foldr (fun a table => if a ∈ table then table else table.insert a (f a)) ∅

/-- Maps a function, with one evaluation for equal members. -/
def mapTabulated (f : α → β) (l : List α) : List β :=
  let table := tabulate f l
  l.map fun a =>
    match table[a]? with
    | some b => b
    | none => f a

variable [Std.TransOrd α] [Std.LawfulEqOrd α]

theorem eq_of_tabulate {f : α → β} {l : List α} {a : α} {b : β}
    (h : (tabulate f l)[a]? = some b) : b = f a := by
  induction l with
  | nil =>
    rw [tabulate, List.foldr_nil, Std.TreeMap.getElem?_emptyc] at h
    cases h
  | cons c rest ih =>
    rw [tabulate, List.foldr_cons, ← tabulate] at h
    split at h
    · exact ih h
    · rw [Std.TreeMap.getElem?_insert] at h
      split at h
      next same =>
        rw [← Std.LawfulEqOrd.eq_of_compare same]
        exact (Option.some.inj h).symm
      · exact ih h

theorem mapTabulated_eq_map (f : α → β) (l : List α) : mapTabulated f l = l.map f := by
  refine List.map_congr_left fun a _ => ?_
  split
  next b found => exact eq_of_tabulate found
  · rfl

end Lexing
