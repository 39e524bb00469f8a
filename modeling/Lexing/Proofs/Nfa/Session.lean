import Lexing.Nfa.Keyed
import Lexing.Nfa.Run
import Lexing.Proofs.Nfa.WellFormed

set_option autoImplicit false

namespace Lexing.Nfa

namespace Keyed

variable {k : Keyed}

theorem getElem?_file (transitions : Std.TreeMap Key StateSet) (key other : Key) (target : State) :
    (file transitions key target)[other]? =
      if key = other then some ((transitions.getD key ∅).insert target) else transitions[other]? := by
  rw [file, Std.TreeMap.getElem?_insert]
  simp only [Std.LawfulEqCmp.compare_eq_iff_eq]

/-- A key without a set has no target. -/
theorem mem_getD {key : Key} {q : State} (transitions : Std.TreeMap Key StateSet) :
    q ∈ transitions.getD key ∅ ↔ ∃ targets, transitions[key]? = some targets ∧ q ∈ targets := by
  rw [Std.TreeMap.getD_eq_getD_getElem?]
  cases transitions[key]? with
  | none => simp
  | some targets => simp

theorem mem_edges_record {e f : Edge} : f ∈ (k.record e).edges ↔ f = e ∨ f ∈ k.edges := by
  obtain ⟨p, l, q⟩ := e
  obtain ⟨p', l', q'⟩ := f
  rw [mem_edges, mem_edges]
  show (∃ targets, (file k.transitions ⟨p, l⟩ q)[(⟨p', l'⟩ : Key)]? = some targets ∧ q' ∈ targets) ↔ _
  rw [getElem?_file]
  split
  next same =>
    cases same
    simp [mem_getD]
  next apart =>
    have other : (⟨p', l', q'⟩ : Edge) ≠ ⟨p, l, q⟩ := by
      intro same
      cases same
      exact apart rfl
    simp [other]

theorem flatten_new : new.flatten = Nfa.new := by
  rw [flatten, Nfa.new, Nfa.mk.injEq]
  refine ⟨rfl, rfl, rfl, SortedSet.ext fun e => ?_, rfl⟩
  rw [SortedSet.mem_ofList, mem_edges]
  simp [new]

theorem flatten_record (k : Keyed) (e : Edge) : (k.record e).flatten = k.flatten.record e := by
  rw [flatten, Nfa.record, Nfa.mk.injEq]
  refine ⟨rfl, rfl, rfl, SortedSet.ext fun f => ?_, rfl⟩
  rw [SortedSet.mem_ofList, mem_edges_record, SortedSet.mem_insert]
  exact or_congr_right SortedSet.mem_ofList.symm

theorem grow_flatten (k : Keyed) (q : State) :
    k.flatten.grow q = (k.grow q).map flatten := by
  rw [Nfa.grow, grow]
  show (if q < k.numStates then _ else _) = _
  split
  · rfl
  · split
    · rfl
    · rfl

theorem addEdge_flatten (k : Keyed) (e : Edge) :
    k.flatten.addEdge e = ((k.addEdge e).1.flatten, (k.addEdge e).2) := by
  rw [Nfa.addEdge, addEdge, grow_flatten]
  cases k.grow e.source with
  | error reason => rfl
  | ok withSource =>
    simp only [Except.map]
    rw [grow_flatten]
    cases withSource.grow e.target with
    | error reason => rfl
    | ok withBoth =>
      simp only [Except.map]
      rw [flatten_record]

/-- An edit does the same to both forms, and it goes the same way. -/
theorem apply_flatten (k : Keyed) (e : Edit) :
    k.flatten.apply e = ((k.apply e).1.flatten, (k.apply e).2) := by
  cases e with
  | addEdge e => exact addEdge_flatten k e
  | setStart q =>
    rw [Nfa.apply, apply, Nfa.setStart, setStart]
    show (if q < k.numStates then _ else _) = _
    split
    · rfl
    · rfl
  | addAccepting q =>
    rw [Nfa.apply, apply, Nfa.addAccepting, addAccepting]
    show (if q < k.numStates then _ else _) = _
    split
    · rfl
    · rfl

theorem flatten_applyAll (k : Keyed) (edits : List Edit) :
    (k.applyAll edits).flatten = k.flatten.applyAll edits := by
  induction edits generalizing k with
  | nil => rfl
  | cons e rest ih => rw [applyAll, ih, Nfa.applyAll, apply_flatten]

/-- No set is made without a target. -/
def Filled (k : Keyed) : Prop := ∀ key : Key, k.transitions[key]? ≠ some ∅

theorem filled_new : new.Filled := by
  intro key
  simp [new]

theorem Filled.grow {m : Keyed} {q : State} (filled : k.Filled) (grown : k.grow q = .ok m) :
    m.Filled := by
  rw [Keyed.grow] at grown
  split at grown
  · cases grown
    exact filled
  · split at grown
    · cases grown
      exact filled
    · cases grown

theorem Filled.record (filled : k.Filled) (e : Edge) : (k.record e).Filled := by
  intro key
  show (file k.transitions ⟨e.source, e.label⟩ e.target)[key]? ≠ some ∅
  rw [getElem?_file]
  split
  · intro none
    have member : e.target ∈ (k.transitions.getD ⟨e.source, e.label⟩ ∅).insert e.target :=
      SortedSet.mem_insert.2 (.inl rfl)
    rw [Option.some.inj none] at member
    exact SortedSet.not_mem_empty _ member
  · exact filled key

theorem Filled.apply (filled : k.Filled) (e : Edit) : (k.apply e).1.Filled := by
  cases e with
  | addEdge e =>
    show (k.addEdge e).1.Filled
    rw [addEdge]
    cases first : k.grow e.source with
    | error reason => exact filled
    | ok withSource =>
      have filledSource := filled.grow first
      dsimp only
      cases second : withSource.grow e.target with
      | error reason => exact filledSource
      | ok withBoth => exact (filledSource.grow second).record e
  | setStart q =>
    show (k.setStart q).1.Filled
    rw [setStart]
    split
    · exact filled
    · exact filled
  | addAccepting q =>
    show (k.addAccepting q).1.Filled
    rw [addAccepting]
    split
    · exact filled
    · exact filled

theorem Filled.applyAll (filled : k.Filled) (edits : List Edit) : (k.applyAll edits).Filled := by
  induction edits generalizing k with
  | nil => exact filled
  | cons e rest ih => exact ih (filled.apply e)

end Keyed

variable {n : Nfa}

/-- Every state that is mentioned exists, every set of targets has a member, and the alphabet is what
the edges read. -/
theorem session_sound {edits : List Edit} {n : Nfa} (made : new.applyAll edits = n) :
    1 ≤ n.numStates ∧ n.numStates < UInt64.size ∧ n.start < n.numStates ∧
    (∀ q ∈ n.accepting, q < n.numStates) ∧
    (∀ e ∈ n.edges, e.source < n.numStates ∧ e.target < n.numStates) ∧
    (∃ k, Keyed.new.applyAll edits = k ∧ k.flatten = n ∧
      ∀ key : Key, k.transitions[key]? ≠ some ∅) ∧
    (∀ c, c ∈ n.alphabet ↔ ∃ e ∈ n.edges, e.label = some c) ∧
    (∀ q ∈ n.closure [n.start], q < n.numStates) ∧
    ∀ (qs : StateSet) (c : Char), ∀ q ∈ n.step qs c, q < n.numStates := by
  have wf : n.WellFormed := made ▸ (Built.new.applyAll edits).wellFormed
  have filed : (Keyed.new.applyAll edits).flatten = n := by
    rw [Keyed.flatten_applyAll, Keyed.flatten_new, made]
  exact ⟨wf.size_pos, Nat.lt_of_le_of_lt wf.size_le (by decide), wf.start_lt, wf.accepting_lt, wf.edge_lt,
    ⟨_, rfl, filed, Keyed.filled_new.applyAll edits⟩, wf.mem_alphabet,
    fun _ mem => wf.lt_of_mem_initial mem, fun _ _ _ mem => wf.lt_of_mem_step mem⟩

/-- Two edits fail, the second after its source has come into being, and the greatest state exists in
the end. -/
def nearLimit : List Edit :=
  [.setStart 1, .addEdge ⟨5, some 'a', maxStates⟩, .setStart 5, .addEdge ⟨5, none, 2⟩,
    .addEdge ⟨2, some 'b', maxStates - 1⟩, .addAccepting (maxStates - 1)]

theorem session_sound_nearLimit : ∃ n, new.applyAll nearLimit = n ∧ n.numStates = UInt64.size - 1 ∧
    n.start = 5 ∧ 5 < n.numStates ∧
    maxStates - 1 ∈ n.accepting ∧ maxStates - 1 < n.numStates ∧
    ⟨2, some 'b', maxStates - 1⟩ ∈ n.edges ∧ 'b' ∈ n.alphabet ∧
    2 ∈ n.closure [5] ∧ 2 < n.numStates ∧ maxStates - 1 ∈ n.step (.ofList [2]) 'b' := by
  have start : (new.applyAll nearLimit).start = 5 := by decide
  have last : maxStates - 1 ∈ (new.applyAll nearLimit).accepting := by decide
  have silentEdge : ⟨5, none, 2⟩ ∈ (new.applyAll nearLimit).edges := by decide
  have letterEdge : ⟨2, some 'b', maxStates - 1⟩ ∈ (new.applyAll nearLimit).edges := by decide
  have silent : 2 ∈ (new.applyAll nearLimit).closure [5] :=
    mem_closure.2 ((Graph.Reachable.root List.mem_cons_self).step (mem_next_silent.2 silentEdge))
  have letter : maxStates - 1 ∈ (new.applyAll nearLimit).step (.ofList [2]) 'b' :=
    mem_step.2 (.root (mem_moves.2 ⟨2, SortedSet.mem_ofList.2 List.mem_cons_self, letterEdge⟩))
  obtain ⟨_, _, first, accepting, _, _, alphabet, closed, _⟩ :=
    session_sound (rfl : _ = new.applyAll nearLimit)
  rw [start] at first closed
  exact ⟨_, rfl, by decide, start, first, last, accepting _ last, letterEdge,
    (alphabet 'b').2 ⟨_, letterEdge, rfl⟩, silent, closed 2 silent, letter⟩

end Lexing.Nfa
