import Lexing.Dfa.Built
import Lexing.Proofs.Dfa.Determinization
import Lexing.Proofs.Dfa.Minimization

set_option autoImplicit false

namespace Lexing.Dfa

variable {d : Dfa}

theorem wellFormed_new (symbols : List Char) : (new symbols).WellFormed where
  nonempty := Nat.one_pos
  table_size := by simp [new]
  origins_size := rfl
  start_lt := Nat.one_pos
  cell_lt q mem := by
    have absent : some q = none := Array.eq_of_mem_replicate mem
    cases absent

theorem WellFormed.addState (wf : d.WellFormed) : d.addState.WellFormed where
  nonempty := by
    rw [Dfa.addState, Array.size_push]
    omega
  table_size := by
    rw [Dfa.addState, Array.size_append, Array.size_replicate, Array.size_push, wf.table_size,
      Nat.succ_mul]
  origins_size := by
    rw [Dfa.addState, Array.size_push, Array.size_push, wf.origins_size]
  start_lt := by
    show d.start < (d.accepting.push false).size
    rw [Array.size_push]
    exact Nat.lt_succ_of_lt wf.start_lt
  cell_lt q mem := by
    show q < (d.accepting.push false).size
    rw [Dfa.addState, Array.mem_append] at mem
    rw [Array.size_push]
    rcases mem with old | fresh
    · exact Nat.lt_succ_of_lt (wf.cell_lt q old)
    · have absent : some q = none := Array.eq_of_mem_replicate fresh
      cases absent

theorem WellFormed.restart (wf : d.WellFormed) {q : State} (inside : q < d.numStates) :
    WellFormed { d with start := q } :=
  { wf with start_lt := inside }

theorem WellFormed.remark (wf : d.WellFormed) (q : State) (value : Bool) :
    WellFormed { d with accepting := d.accepting.setIfInBounds q value } where
  nonempty := by
    rw [Array.size_setIfInBounds]
    exact wf.nonempty
  table_size := by
    rw [Array.size_setIfInBounds]
    exact wf.table_size
  origins_size := by
    rw [Array.size_setIfInBounds]
    exact wf.origins_size
  start_lt := by
    rw [Array.size_setIfInBounds]
    exact wf.start_lt
  cell_lt p mem := by
    rw [Array.size_setIfInBounds]
    exact wf.cell_lt p mem

theorem WellFormed.redirect (wf : d.WellFormed) (cell : Nat) {target : State}
    (inside : target < d.numStates) :
    WellFormed { d with table := d.table.setIfInBounds cell (some target) } where
  nonempty := wf.nonempty
  table_size := by
    rw [Array.size_setIfInBounds]
    exact wf.table_size
  origins_size := wf.origins_size
  start_lt := wf.start_lt
  cell_lt q mem := by
    rcases Array.mem_or_eq_of_mem_setIfInBounds mem with old | new
    · exact wf.cell_lt q old
    · rw [Option.some.inj new]
      exact inside

theorem WellFormed.apply (wf : d.WellFormed) (e : Edit) : (d.apply e).1.WellFormed := by
  cases e with
  | addState => exact wf.addState
  | setStart q =>
    rw [Dfa.apply]
    split
    next inside => exact wf.restart inside
    · exact wf
  | setAccepting q value =>
    rw [Dfa.apply]
    split
    · exact wf.remark q value
    · exact wf
  | addTransition source c target =>
    rw [Dfa.apply]
    split
    · exact wf
    · split
      · exact wf
      next inside =>
        split
        · exact wf
        · exact wf.redirect _ (Nat.lt_of_not_le inside)

theorem Built.wellFormed (built : d.Built) : d.WellFormed := by
  induction built with
  | new symbols => exact wellFormed_new symbols
  | edit e _ ih => exact ih.apply e
  | @determinize n _ => exact n.wellFormed_determinize
  | minimize _ ih => exact wellFormed_minimize ih

end Lexing.Dfa
