import Lexing.Nfa.Run

set_option autoImplicit false

namespace Lexing.Nfa

/-- What every edit keeps, whether it succeeds or fails. -/
structure WellFormed (n : Nfa) : Prop where
  size_pos : 0 < n.numStates
  size_le : n.numStates ≤ maxStates
  start_lt : n.start < n.numStates
  accepting_lt : ∀ q ∈ n.accepting, q < n.numStates
  edge_lt : ∀ e ∈ n.edges, e.source < n.numStates ∧ e.target < n.numStates
  mem_alphabet : ∀ c, c ∈ n.alphabet ↔ ∃ e ∈ n.edges, e.label = some c

theorem wellFormed_new : new.WellFormed where
  size_pos := Nat.one_pos
  size_le := by decide
  start_lt := Nat.one_pos
  accepting_lt q mem := absurd mem (SortedSet.not_mem_empty q)
  edge_lt e mem := absurd mem (SortedSet.not_mem_empty e)
  mem_alphabet c := by
    constructor
    · intro mem
      exact absurd mem (SortedSet.not_mem_empty c)
    · rintro ⟨e, mem, _⟩
      exact absurd mem (SortedSet.not_mem_empty e)

/-- Growth changes only the number of states, and not downwards. -/
theorem grow_eq_ok {n m : Nfa} {q : State} (grown : n.grow q = .ok m) :
    ∃ size, m = { n with numStates := size } ∧ n.numStates ≤ size ∧ q < size ∧
      (n.numStates ≤ maxStates → size ≤ maxStates) := by
  rw [grow] at grown
  split at grown
  next inside =>
    cases grown
    exact ⟨n.numStates, rfl, Nat.le_refl _, inside, id⟩
  next outside =>
    split at grown
    next below =>
      cases grown
      exact ⟨q + 1, rfl, Nat.le_succ_of_le (Nat.le_of_not_lt outside), Nat.lt_succ_self q,
        fun _ => below⟩
    · cases grown

theorem WellFormed.resize {n : Nfa} (wf : n.WellFormed) {size : Nat} (up : n.numStates ≤ size)
    (le : size ≤ maxStates) : WellFormed { n with numStates := size } where
  size_pos := Nat.lt_of_lt_of_le wf.size_pos up
  size_le := le
  start_lt := Nat.lt_of_lt_of_le wf.start_lt up
  accepting_lt q mem := Nat.lt_of_lt_of_le (wf.accepting_lt q mem) up
  edge_lt e mem := by
    obtain ⟨source, target⟩ := wf.edge_lt e mem
    exact ⟨Nat.lt_of_lt_of_le source up, Nat.lt_of_lt_of_le target up⟩
  mem_alphabet := wf.mem_alphabet

theorem WellFormed.grow {n m : Nfa} {q : State} (wf : n.WellFormed) (grown : n.grow q = .ok m) :
    m.WellFormed ∧ n.numStates ≤ m.numStates ∧ q < m.numStates := by
  obtain ⟨size, rfl, up, inside, bounded⟩ := grow_eq_ok grown
  exact ⟨wf.resize up (bounded wf.size_le), up, inside⟩

theorem mem_alphabet_record {n : Nfa} {e : Edge} {c : Char} :
    c ∈ (n.record e).alphabet ↔ e.label = some c ∨ c ∈ n.alphabet := by
  rw [record]
  cases label : e.label with
  | none => simp
  | some d => simp [eq_comm]

theorem WellFormed.record {n : Nfa} {e : Edge} (wf : n.WellFormed) (source : e.source < n.numStates)
    (target : e.target < n.numStates) : (n.record e).WellFormed where
  size_pos := wf.size_pos
  size_le := wf.size_le
  start_lt := wf.start_lt
  accepting_lt := wf.accepting_lt
  edge_lt f mem := by
    rcases SortedSet.mem_insert.1 mem with rfl | old
    · exact ⟨source, target⟩
    · exact wf.edge_lt f old
  mem_alphabet c := by
    rw [mem_alphabet_record, wf.mem_alphabet]
    constructor
    · rintro (label | ⟨f, old, label⟩)
      · exact ⟨e, SortedSet.mem_insert.2 (.inl rfl), label⟩
      · exact ⟨f, SortedSet.mem_insert.2 (.inr old), label⟩
    · rintro ⟨f, mem, label⟩
      rcases SortedSet.mem_insert.1 mem with rfl | old
      · exact .inl label
      · exact .inr ⟨f, old, label⟩

theorem WellFormed.addEdge {n : Nfa} (wf : n.WellFormed) (e : Edge) :
    (n.addEdge e).1.WellFormed := by
  rw [Nfa.addEdge]
  cases first : n.grow e.source with
  | error reason => exact wf
  | ok withSource =>
    obtain ⟨wfSource, _, source⟩ := wf.grow first
    dsimp only
    cases second : withSource.grow e.target with
    | error reason => exact wfSource
    | ok withBoth =>
      obtain ⟨wfBoth, up, target⟩ := wfSource.grow second
      exact wfBoth.record (Nat.lt_of_lt_of_le source up) target

theorem WellFormed.setStart {n : Nfa} (wf : n.WellFormed) (q : State) :
    (n.setStart q).1.WellFormed := by
  rw [Nfa.setStart]
  split
  next inside => exact { wf with start_lt := inside }
  · exact wf

theorem WellFormed.addAccepting {n : Nfa} (wf : n.WellFormed) (q : State) :
    (n.addAccepting q).1.WellFormed := by
  rw [Nfa.addAccepting]
  split
  next inside =>
    refine { wf with accepting_lt := fun p mem => ?_ }
    rcases SortedSet.mem_insert.1 mem with rfl | old
    · exact inside
    · exact wf.accepting_lt p old
  · exact wf

theorem WellFormed.apply {n : Nfa} (wf : n.WellFormed) (e : Edit) : (n.apply e).1.WellFormed := by
  cases e with
  | addEdge e => exact wf.addEdge e
  | setStart q => exact wf.setStart q
  | addAccepting q => exact wf.addAccepting q

theorem Built.wellFormed {n : Nfa} (built : n.Built) : n.WellFormed := by
  induction built with
  | new => exact wellFormed_new
  | edit e _ ih => exact ih.apply e

/-- A character outside the alphabet labels no edge. -/
theorem WellFormed.no_edge {n : Nfa} (wf : n.WellFormed) {p q : State} {c : Char}
    (unknown : c ∉ n.alphabet) : ⟨p, some c, q⟩ ∉ n.edges := by
  intro edge
  exact unknown ((wf.mem_alphabet c).2 ⟨_, edge, rfl⟩)

/-- Silent edges do not lead from existing states to others. -/
theorem WellFormed.lt_of_reachable {n : Nfa} (wf : n.WellFormed) {qs : List State} {q : State}
    (existing : ∀ p ∈ qs, p < n.numStates) (walk : n.silent.Reachable qs q) : q < n.numStates := by
  induction walk with
  | root mem => exact existing _ mem
  | step _ edge _ => exact (wf.edge_lt _ (mem_next_silent.1 edge)).2

theorem WellFormed.lt_of_mem_initial {n : Nfa} (wf : n.WellFormed) {q : State} (mem : q ∈ n.initial) :
    q < n.numStates :=
  wf.lt_of_reachable (fun _ h => List.mem_singleton.1 h ▸ wf.start_lt) (mem_closure.1 mem)

theorem WellFormed.lt_of_mem_step {n : Nfa} (wf : n.WellFormed) {qs : StateSet} {c : Char} {q : State}
    (mem : q ∈ n.step qs c) : q < n.numStates := by
  refine wf.lt_of_reachable (fun p h => ?_) (mem_step.1 mem)
  obtain ⟨_, _, edge⟩ := mem_moves.1 h
  exact (wf.edge_lt _ edge).2

end Lexing.Nfa
