import Lexing.Nfa.Basic

set_option autoImplicit false

namespace Lexing.Nfa

variable {n : Nfa} {e : Edge} {error : EditError}

theorem grow_of_known {q : State} (inside : q < n.numStates) : n.grow q = .ok n := by
  rw [grow, if_pos inside]

theorem grow_of_fresh {q : State} (fresh : n.numStates ≤ q) (below : q < maxStates) :
    n.grow q = .ok { n with numStates := q + 1 } := by
  rw [grow, if_neg (Nat.not_lt.2 fresh), if_pos below]

theorem grow_eq_error {q : State} (failed : n.grow q = .error error) :
    error = .tooManyStates ∧ n.numStates ≤ q ∧ maxStates ≤ q := by
  rw [grow] at failed
  split at failed
  · cases failed
  next outside =>
    split at failed
    · cases failed
    next above =>
      cases failed
      exact ⟨rfl, Nat.not_lt.1 outside, Nat.not_lt.1 above⟩

/-- The two ways to fail: the source cannot exist, or it exists by now and the target cannot. -/
theorem addEdge_eq_error (failed : (n.addEdge e).2 = .error error) :
    (n.grow e.source = .error error ∧ (n.addEdge e).1 = n) ∨
      ∃ grown, n.grow e.source = .ok grown ∧ grown.grow e.target = .error error ∧
        (n.addEdge e).1 = grown := by
  rw [addEdge] at failed ⊢
  cases first : n.grow e.source with
  | error reason =>
    rw [first] at failed
    cases failed
    exact .inl ⟨rfl, rfl⟩
  | ok grown =>
    rw [first] at failed
    dsimp only at failed ⊢
    cases second : grown.grow e.target with
    | error reason =>
      rw [second] at failed
      cases failed
      exact .inr ⟨grown, rfl, second, rfl⟩
    | ok both =>
      rw [second] at failed
      cases failed

/-- Only the lack of numbers for states makes an edge fail. -/
theorem error_eq_of_addEdge (failed : (n.addEdge e).2 = .error error) :
    error = .tooManyStates ∧ (maxStates ≤ e.source ∨ maxStates ≤ e.target) := by
  rcases addEdge_eq_error failed with ⟨first, _⟩ | ⟨grown, _, second, _⟩
  · obtain ⟨cause, _, above⟩ := grow_eq_error first
    exact ⟨cause, .inl above⟩
  · obtain ⟨cause, _, above⟩ := grow_eq_error second
    exact ⟨cause, .inr above⟩

theorem fst_addEdge_of_known (failed : (n.addEdge e).2 = .error error)
    (source : e.source < n.numStates ∨ maxStates ≤ e.source) : (n.addEdge e).1 = n := by
  rcases addEdge_eq_error failed with ⟨_, same⟩ | ⟨grown, first, _, same⟩
  · exact same
  · rcases source with inside | above
    · rw [grow_of_known inside] at first
      rw [same, Except.ok.inj first]
    · rw [grow] at first
      split at first
      · rw [same, Except.ok.inj first]
      · rw [if_neg (Nat.not_lt.2 above)] at first
        cases first

theorem fst_addEdge_of_fresh (failed : (n.addEdge e).2 = .error error)
    (fresh : n.numStates ≤ e.source) (below : e.source < maxStates) :
    (n.addEdge e).1 = { n with numStates := e.source + 1 } := by
  have grown := grow_of_fresh fresh below
  rcases addEdge_eq_error failed with ⟨first, _⟩ | ⟨m, first, _, same⟩
  · rw [grown] at first
    cases first
  · rw [same, ← Except.ok.inj (grown.symm.trans first)]

/-- An edge that cannot be added leaves the automaton as it was if and only if its source exists already
or cannot exist itself. Otherwise the states up to the source are there, and nothing else changes. -/
theorem fst_addEdge_eq_iff_of_error (failed : (n.addEdge e).2 = .error error) :
    error = .tooManyStates ∧
    ((n.addEdge e).1 = n ↔ e.source < n.numStates ∨ maxStates ≤ e.source) ∧
    (n.numStates ≤ e.source → e.source < maxStates →
      (n.addEdge e).1 = { n with numStates := e.source + 1 }) := by
  refine ⟨(error_eq_of_addEdge failed).1, ⟨fun same => ?_, fst_addEdge_of_known failed⟩,
    fst_addEdge_of_fresh failed⟩
  refine Classical.byContradiction fun other => ?_
  obtain ⟨outside, below⟩ := not_or.1 other
  have fresh := Nat.not_lt.1 outside
  have grown := fst_addEdge_of_fresh failed fresh (Nat.not_le.1 below)
  have sizes : n.numStates = e.source + 1 := congrArg numStates (same.symm.trans grown)
  omega

theorem fst_addEdge_eq_iff_of_error_new :
    (new.addEdge ⟨0, none, maxStates⟩).2 = .error .tooManyStates ∧
    (new.addEdge ⟨0, none, maxStates⟩).1 = new ∧
    (new.addEdge ⟨5, some 'a', maxStates⟩).2 = .error .tooManyStates ∧
    (new.addEdge ⟨5, some 'a', maxStates⟩).1 = { new with numStates := 6 } := by
  have known : (new.addEdge ⟨0, none, maxStates⟩).2 = .error .tooManyStates := rfl
  have fresh : (new.addEdge ⟨5, some 'a', maxStates⟩).2 = .error .tooManyStates := rfl
  obtain ⟨_, unchanged, _⟩ := fst_addEdge_eq_iff_of_error known
  obtain ⟨_, _, grown⟩ := fst_addEdge_eq_iff_of_error fresh
  exact ⟨known, unchanged.2 (.inl (by decide)), fresh, grown (by decide) (by decide)⟩

/-- Five more states are left behind by an edge with a character, and by a silent one. -/
theorem addEdge_fails_halfway : new.Built ∧
    (new.addEdge ⟨5, some 'a', maxStates⟩).2 = .error .tooManyStates ∧
    (new.addEdge ⟨5, some 'a', maxStates⟩).1 ≠ new ∧
    (new.addEdge ⟨5, none, maxStates⟩).2 = .error .tooManyStates ∧
    (new.addEdge ⟨5, none, maxStates⟩).1 ≠ new :=
  ⟨.new, rfl, by decide, rfl, by decide⟩

end Lexing.Nfa
