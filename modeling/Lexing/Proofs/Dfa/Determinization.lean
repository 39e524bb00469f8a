import Lexing.Dfa.Built
import Lexing.Proofs.Dfa.Run
import Lexing.Proofs.Graph.Discovery
import Lexing.Proofs.Nfa.Simulation
import Lexing.Proofs.Nfa.WellFormed

set_option autoImplicit false

namespace Lexing

namespace Nfa

variable {n : Nfa}

theorem next_powerset (qs : StateSet) :
    n.powerset.next qs = n.alphabet.toList.map (n.step qs) := n.successors_eq_map_step qs

/-- The sets that words of the alphabet lead to. -/
theorem mem_subsets_iff {qs : StateSet} :
    qs ∈ n.subsets ↔ ∃ w, (∀ c ∈ w, c ∈ n.alphabet) ∧ n.after n.initial w = qs := by
  rw [subsets, Graph.mem_explore, Graph.reachable_iff_arrives next_powerset]
  rfl

theorem nodup_subsets (n : Nfa) : n.subsets.Nodup := Graph.nodup_explore _ _

theorem initial_eq_subset (n : Nfa) : n.subsets[0]? = some n.initial := by
  obtain ⟨rest, found⟩ := n.powerset.explore_singleton n.initial
  rw [subsets, found]
  rfl

theorem step_mem_subsets {qs : StateSet} {c : Char} (member : qs ∈ n.subsets)
    (letter : c ∈ n.alphabet) : n.step qs c ∈ n.subsets := by
  obtain ⟨w, known, rfl⟩ := mem_subsets_iff.1 member
  refine mem_subsets_iff.2 ⟨w ++ [c], fun a mem => ?_, n.after_append _ w [c]⟩
  rcases List.mem_append.1 mem with old | new
  · exact known a old
  · exact List.mem_singleton.1 new ▸ letter

@[simp] theorem alphabet_determinize (n : Nfa) : n.determinize.alphabet = n.alphabet := rfl

@[simp] theorem start_determinize (n : Nfa) : n.determinize.start = 0 := rfl

theorem numStates_determinize (n : Nfa) : n.determinize.numStates = n.subsets.length := by
  simp [determinize, Dfa.numStates]

theorem table_determinize (n : Nfa) : n.determinize.table =
    (n.subsets.flatMap fun qs =>
      n.determinize.alphabet.toList.map fun c => n.subsets.idxOf? (n.step qs c)).toArray := by
  simp only [determinize, successors_eq_map_step, List.map_map]
  rfl

theorem next?_determinize (n : Nfa) (q : State) (c : Char) :
    n.determinize.next? q c =
      if c ∈ n.alphabet then n.subsets[q]?.bind fun qs => n.subsets.idxOf? (n.step qs c)
      else none :=
  Dfa.next?_of_rows (table_determinize n) q c

theorem isAccepting_determinize {q : State} {qs : StateSet} (subset : n.subsets[q]? = some qs) :
    n.determinize.isAccepting q = n.anyAccepting qs := by
  rw [Dfa.isAccepting, Array.getD_eq_getD_getElem?, determinize, List.getElem?_toArray,
    List.getElem?_map, subset]
  rfl

@[simp] theorem origin?_determinize (n : Nfa) (q : State) :
    n.determinize.origin? q = n.subsets[q]? := by
  rw [Dfa.origin?, determinize, List.getElem?_toArray]

theorem wellFormed_determinize (n : Nfa) : n.determinize.WellFormed where
  nonempty := by
    obtain ⟨inside, _⟩ := List.getElem?_eq_some_iff.1 n.initial_eq_subset
    simpa [determinize] using inside
  table_size := by
    rw [Dfa.size_of_rows (table_determinize n)]
    simp [determinize]
  origins_size := by simp [determinize]
  start_lt := by
    obtain ⟨inside, _⟩ := List.getElem?_eq_some_iff.1 n.initial_eq_subset
    simpa [determinize] using inside
  cell_lt q mem := by
    obtain ⟨qs, member, c, letter, found⟩ := Dfa.mem_of_rows (table_determinize n) mem
    obtain ⟨inside, _⟩ := List.idxOf?_eq_some_iff.1 found
    simpa [determinize] using inside

/-- A step of the deterministic automaton is a step of the sets. -/
theorem next?_determinize_of_subset {q : State} {qs : StateSet} {c : Char}
    (subset : n.subsets[q]? = some qs) (letter : c ∈ n.alphabet) :
    ∃ p, n.determinize.next? q c = some p ∧ n.subsets[p]? = some (n.step qs c) := by
  have member := step_mem_subsets (List.mem_of_getElem? subset) letter
  obtain ⟨p, inside, at_p⟩ := List.mem_iff_getElem.1 member
  have place : n.subsets[p]? = some (n.step qs c) := List.getElem?_eq_some_iff.2 ⟨inside, at_p⟩
  refine ⟨p, ?_, place⟩
  rw [next?_determinize, if_pos letter, subset, Option.bind_some,
    idxOf?_eq_some_iff_of_nodup n.nodup_subsets]
  exact place

theorem run?_determinize_of_subset {q : State} {qs : StateSet} {w : List Char}
    (subset : n.subsets[q]? = some qs) (known : ∀ c ∈ w, c ∈ n.alphabet) :
    ∃ p, n.determinize.run? q w = some p ∧ n.subsets[p]? = some (n.after qs w) := by
  induction w generalizing q qs with
  | nil => exact ⟨q, rfl, subset⟩
  | cons c w ih =>
    obtain ⟨r, next, stepped⟩ := next?_determinize_of_subset subset (known c List.mem_cons_self)
    obtain ⟨p, run, place⟩ := ih stepped fun a mem => known a (List.mem_cons_of_mem c mem)
    refine ⟨p, ?_, place⟩
    rw [Dfa.run?_cons, next, Option.bind_some, run]

/-- The run of a word of the alphabet ends in the state of the set that the word leads to. -/
theorem run?_determinize {w : List Char} (known : ∀ c ∈ w, c ∈ n.alphabet) :
    ∃ q, n.determinize.run? n.determinize.start w = some q ∧
      n.subsets[q]? = some (n.after n.initial w) :=
  run?_determinize_of_subset n.initial_eq_subset known

theorem run?_determinize_iff {w : List Char} {q : State} :
    n.determinize.run? n.determinize.start w = some q ↔
      (∀ c ∈ w, c ∈ n.alphabet) ∧ n.subsets[q]? = some (n.after n.initial w) := by
  constructor
  · intro run
    have known := Dfa.mem_alphabet_of_run? run
    obtain ⟨p, same, place⟩ := run?_determinize known
    obtain rfl := Option.some.inj (run.symm.trans same)
    exact ⟨known, place⟩
  · rintro ⟨known, place⟩
    obtain ⟨p, run, other⟩ := run?_determinize known
    rw [← idxOf?_eq_some_iff_of_nodup n.nodup_subsets] at place other
    rw [run, ← place, other]

/-- A character outside the alphabet leads nowhere. -/
theorem WellFormed.step_unknown (wf : n.WellFormed) (qs : StateSet) {c : Char}
    (unknown : c ∉ n.alphabet) : n.step qs c = ∅ := by
  refine SortedSet.ext fun q => ?_
  rw [mem_step_iff_path]
  constructor
  · rintro ⟨p, _, r, edge, _⟩
    exact absurd edge (wf.no_edge unknown)
  · intro mem
    exact absurd mem (SortedSet.not_mem_empty q)

theorem WellFormed.after_unknown (wf : n.WellFormed) (qs : StateSet) {w : List Char} {c : Char}
    (mem : c ∈ w) (unknown : c ∉ n.alphabet) : n.after qs w = ∅ := by
  obtain ⟨u, v, rfl⟩ := List.append_of_mem mem
  rw [after_append, after_cons, wf.step_unknown _ unknown, after_empty]

theorem WellFormed.mem_alphabet_of_accepts (wf : n.WellFormed) {w : List Char}
    (accepted : n.accepts w = true) : ∀ c ∈ w, c ∈ n.alphabet := by
  intro c mem
  refine Classical.byContradiction fun unknown => ?_
  rw [accepts_eq, wf.after_unknown _ mem unknown] at accepted
  cases accepted

theorem accepts_determinize (wf : n.WellFormed) (w : List Char) :
    n.determinize.accepts w = n.accepts w := by
  rw [Dfa.accepts]
  by_cases known : ∀ c ∈ w, c ∈ n.alphabet
  · obtain ⟨q, run, place⟩ := run?_determinize known
    rw [run, accepts_eq]
    exact isAccepting_determinize place
  · cases run : n.determinize.run? n.determinize.start w with
    | some q => exact absurd (Dfa.mem_alphabet_of_run? run) known
    | none =>
      cases accepted : n.accepts w with
      | false => rfl
      | true => exact absurd (wf.mem_alphabet_of_accepts accepted) known

/-- After a word of the alphabet, the state of the deterministic automaton stands for exactly the ends
of the paths that spell the word, and it accepts if one of them does. Both automata accept the same
words, also of characters that label no edge. -/
theorem determinize_simulates (built : n.Built) :
    (∀ w, (∀ c ∈ w, c ∈ n.alphabet) → ∃ q subset,
      n.determinize.run? n.determinize.start w = some q ∧
      n.determinize.origin? q = some subset ∧
      (∀ p, p ∈ subset ↔ n.Path n.start w p) ∧
      (n.determinize.isAccepting q = true ↔ ∃ p ∈ subset, p ∈ n.accepting)) ∧
    ∀ w, n.determinize.accepts w = n.accepts w := by
  constructor
  · intro w known
    obtain ⟨q, run, place⟩ := run?_determinize known
    refine ⟨q, n.after n.initial w, run, ?_, fun p => mem_after_initial, ?_⟩
    · rw [origin?_determinize, place]
    · rw [isAccepting_determinize place, anyAccepting_iff]
  · exact accepts_determinize built.wellFormed

/-- The states 0 and 1 are on a silent cycle, 2 has a loop, the start is moved, and no path leads to
3. -/
def silentCycle : List Edit :=
  [.addEdge ⟨0, none, 1⟩, .addEdge ⟨1, none, 0⟩, .addEdge ⟨1, some 'a', 2⟩,
    .addEdge ⟨2, some 'b', 2⟩, .addEdge ⟨2, none, 0⟩, .addEdge ⟨3, some 'a', 2⟩, .setStart 1,
    .addAccepting 2]

theorem determinize_simulates_silentCycle : ∃ n q subset,
    new.applyAll? silentCycle = some n ∧ (∀ c ∈ ['a', 'b', 'a'], c ∈ n.alphabet) ∧
    n.determinize.run? n.determinize.start ['a', 'b', 'a'] = some q ∧
    n.determinize.origin? q = some subset ∧
    (∀ p, p ∈ subset ↔ n.Path n.start ['a', 'b', 'a'] p) ∧
    (n.determinize.isAccepting q = true ↔ ∃ p ∈ subset, p ∈ n.accepting) ∧
    n.determinize.accepts ['a', 'c'] = n.accepts ['a', 'c'] := by
  obtain ⟨n, made, known⟩ : ∃ n, new.applyAll? silentCycle = some n ∧
      ∀ c ∈ ['a', 'b', 'a'], c ∈ n.alphabet := ⟨_, by cbv, by simp [SortedSet.mem_def]⟩
  obtain ⟨words, language⟩ := determinize_simulates (Built.new.applyAll? made)
  obtain ⟨q, subset, run, origin, paths, accepting⟩ := words ['a', 'b', 'a'] known
  exact ⟨n, q, subset, made, known, run, origin, paths, accepting, language ['a', 'c']⟩

end Nfa

end Lexing
