import Lexing.Dfa.Guarded.Table
import Lexing.Proofs.Dfa.Table
import Mathlib.Data.List.Basic

set_option autoImplicit false

namespace Lexing.Dfa

variable {d : Dfa}

theorem getElem?_accepting {q : State} (inside : q < d.numStates) :
    d.accepting[q]? = some (d.isAccepting q) := by
  rw [isAccepting, Array.getD_eq_getD_getElem?, Array.getElem?_eq_getElem inside, Option.getD_some]

namespace Guarded

theorem next_eq (wf : d.WellFormed) (q : State) (c : Char) : next d q c = some (d.next? q c) := by
  unfold next
  split
  next outside =>
    cases found : d.next? q c with
    | none => rfl
    | some p => exact absurd (wf.lt_of_next? found) (Nat.not_lt.2 outside)
  next inside =>
    split
    next unknown => rw [next?, unknown]
    next i found => exact wf.getElem?_table (Nat.lt_of_not_le inside) (SortedSet.index?_eq_some found)

theorem acceptsFrom_eq (wf : d.WellFormed) (q : State) (w : List Char) :
    acceptsFrom d q w = some (match d.run? q w with
      | none => false
      | some p => d.isAccepting p) := by
  induction w generalizing q with
  | nil => rfl
  | cons c rest ih =>
    rw [acceptsFrom, next_eq wf, run?]
    cases d.next? q c with
    | none => rfl
    | some p => exact ih p

theorem accepts_eq (wf : d.WellFormed) (w : List Char) : accepts d w = some (d.accepts w) :=
  acceptsFrom_eq wf d.start w

/-- What a cell and its number say about a transition. -/
def reading (d : Dfa) : Option State × Nat → Option (State × Char × State)
  | (none, _) => none
  | (some target, i) => d.alphabet.toList[i % d.alphabet.size]?.map fun c =>
      (i / d.alphabet.size, c, target)

theorem transitions_eq_filterMap (d : Dfa) :
    d.transitions = d.table.toList.zipIdx.filterMap (reading d) := by
  refine List.filterMap_congr fun (cell, i) _ => ?_
  simp only [List.getElem?_toArray]
  cases cell with
  | none => rfl
  | some target =>
    show _ = d.alphabet.toList[i % d.alphabet.size]?.map _
    rw [show d.alphabet.toList.toArray.size = d.alphabet.size from rfl]
    cases d.alphabet.toList[i % d.alphabet.size]? <;> rfl

/-- The column of a cell belongs to a character, for there is no cell without one. -/
theorem transition_eq (wf : d.WellFormed) {entry : Option State × Nat}
    (mem : entry ∈ d.table.toList.zipIdx) : transition d entry = some (reading d entry) := by
  obtain ⟨cell, i⟩ := entry
  cases cell with
  | none => rfl
  | some target =>
    have placed : d.table[i]? = some (some target) := by
      rw [← Array.getElem?_toList]
      exact List.mem_zipIdx_iff_getElem?.1 mem
    obtain ⟨inside, _⟩ := Array.getElem?_eq_some_iff.1 placed
    obtain ⟨c, letter, _⟩ := wf.cell_eq_next? inside
    have width : 0 < d.alphabet.size :=
      Nat.lt_of_le_of_lt (Nat.zero_le _) (List.getElem?_eq_some_iff.1 letter).1
    rw [transition, reading, divMod?_of_pos width]
    simp [letter]

theorem transitions_eq (wf : d.WellFormed) : transitions d = some d.transitions := by
  unfold transitions
  rw [mapM_eq_some_map fun _ mem => transition_eq wf mem, transitions_eq_filterMap]
  show some (List.filterMap id _) = _
  rw [List.filterMap_map]
  rfl

theorem setAccepting_eq (d : Dfa) (q : State) (value : Bool) :
    setAccepting d q value = some (d.apply (.setAccepting q value)) := by
  unfold setAccepting
  rw [Dfa.apply]
  split
  next inside =>
    rw [write?_of_lt inside]
    rfl
  · rfl

theorem addTransition_eq (wf : d.WellFormed) (source : State) (c : Char) (target : State) :
    addTransition d source c target = some (d.apply (.addTransition source c target)) := by
  unfold addTransition
  rw [Dfa.apply]
  split
  · rfl
  next inside =>
    split
    · rfl
    · cases found : d.alphabet.index? c with
      | none => rfl
      | some i =>
        have bound := wf.index_lt (Nat.lt_of_not_le inside) (SortedSet.index?_lt found)
        dsimp only
        rw [write?_of_lt bound]
        rfl

theorem apply_eq (wf : d.WellFormed) (e : Edit) : apply d e = some (d.apply e) := by
  cases e with
  | setAccepting q value => exact setAccepting_eq d q value
  | addTransition source c target => exact addTransition_eq wf source c target
  | addState => rfl
  | setStart q => rfl

end Guarded

end Lexing.Dfa
