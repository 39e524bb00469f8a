import Lexing.Dfa.Basic
import Lexing.Graph

set_option autoImplicit false

namespace Lexing.Dfa

theorem mem_table_of_mem_row {d : Dfa} {p q : State} (h : some q ∈ d.row p) : some q ∈ d.table := by
  rw [row_eq_map_next?, List.mem_map] at h
  obtain ⟨c, _, next⟩ := h
  exact mem_table_of_next? next

/-- Pairs of states are ordered by their first states, then by their second ones. -/
instance : Ord (State × State) := lexOrd

/-- Pairs of states of two automata, each with its successors on the characters that lead on from
both. -/
def sideBySide (a b : Dfa) : Graph (State × State) where
  next pair := (List.zip (a.row pair.1) (b.row pair.2)).filterMap fun
    | (some p, some q) => some (p, q)
    | _ => none
  finite := by
    refine ⟨(a.table.toList.filterMap id).flatMap fun p =>
      (b.table.toList.filterMap id).map fun q => (p, q), ?_⟩
    intro pair after h
    obtain ⟨cells, both, result⟩ := List.mem_filterMap.1 h
    split at result
    next p q =>
      have inLeft := mem_table_of_mem_row (List.of_mem_zip both).1
      have inRight := mem_table_of_mem_row (List.of_mem_zip both).2
      rw [← Option.some.inj result]
      simp only [List.mem_flatMap, List.mem_map, List.mem_filterMap, Array.mem_toList_iff]
      exact ⟨p, ⟨_, inLeft, rfl⟩, q, ⟨_, inRight, rfl⟩, rfl⟩
    · cases result

/-- Whether a pair agrees in acceptance and in the characters that lead on. -/
def agree (a b : Dfa) (pair : State × State) : Bool :=
  a.isAccepting pair.1 == b.isAccepting pair.2 &&
    (a.row pair.1).map Option.isSome == (b.row pair.2).map Option.isSome

/-- Whether a renaming of states makes one automaton of the other. A state that cannot be reached
from the start is never renamed, so there must be none. -/
def isIsomorphic (a b : Dfa) : Bool :=
  if a.alphabet = b.alphabet ∧ a.numStates = b.numStates then
    let pairs := (sideBySide a b).explore [(a.start, b.start)]
    let left := pairs.map Prod.fst
    let right := pairs.map Prod.snd
    pairs.all (agree a b) && left.Nodup && right.Nodup &&
      (List.range a.numStates).all fun q => q ∈ left
  else false

end Lexing.Dfa
