import Lexing.Proofs.Dfa.Determinization
import Lexing.Proofs.Dfa.Minimization

set_option autoImplicit false

namespace Lexing

namespace Dfa

theorem wellFounded_shortlex :
    WellFounded (List.Shortlex ((· < ·) : Char → Char → Prop)) :=
  List.Shortlex.wf (InvImage.wf Char.toNat Nat.lt_wfRel.wf)

/-- Every word of the alphabet has a run, every state is at the end of one, and the states are
numbered in the order of the first words that lead to them. -/
structure Discovered (d : Dfa) : Prop where
  wf : d.WellFormed
  defined : ∀ w, (∀ c ∈ w, c ∈ d.alphabet) → ∃ q, d.run? d.start w = some q
  reached : ∀ q < d.numStates, ∃ w, d.run? d.start w = some q
  ordered : ∀ p q, p < q → ∀ u, d.run? d.start u = some q →
    ∃ w, d.run? d.start w = some p ∧ List.Shortlex (· < ·) w u

/-- An automaton in canonical form. No two of its states are alike. -/
structure Canonical (d : Dfa) : Prop extends Discovered d where
  reduced : ∀ p < d.numStates, ∀ q < d.numStates, d.Alike p q → p = q

theorem Discovered.outcome_eq {d : Dfa} (discovered : d.Discovered) {q : State} {w v : List Char}
    (run : d.run? d.start w = some q) (known : ∀ c ∈ v, c ∈ d.alphabet) :
    d.outcome q v = some (d.accepts (w ++ v)) := by
  have letters : ∀ c ∈ w ++ v, c ∈ d.alphabet := by
    intro c mem
    rcases List.mem_append.1 mem with before | after
    · exact mem_alphabet_of_run? run c before
    · exact known c after
  obtain ⟨x, whole⟩ := discovered.defined (w ++ v) letters
  have split : d.outcome d.start (w ++ v) = d.outcome q v := by
    rw [outcome_append, run, Option.bind_some]
  rw [← split, outcome_eq_accepts whole]

theorem run?_minimize {d : Dfa} (wf : d.WellFormed) (w : List Char) :
    d.minimize.run? d.minimize.start w = (d.run? d.start w).map d.classOf :=
  run?_classOf wf wf.start_lt w

theorem reached_minimize {d : Dfa} (wf : d.WellFormed)
    (reached : ∀ q < d.numStates, ∃ w, d.run? d.start w = some q) :
    ∀ i < d.minimize.numStates, ∃ w, d.minimize.run? d.minimize.start w = some i := by
  intro i inside
  obtain ⟨head, _, known, rfl⟩ := exists_head inside
  obtain ⟨w, run⟩ := reached head known
  exact ⟨w, by rw [run?_minimize wf, run, Option.map_some]⟩

theorem Discovered.minimize {d : Dfa} (discovered : d.Discovered) : d.minimize.Discovered where
  wf := wellFormed_minimize discovered.wf
  defined w known := by
    obtain ⟨q, run⟩ := discovered.defined w known
    exact ⟨d.classOf q, by rw [run?_minimize discovered.wf, run, Option.map_some]⟩
  reached := reached_minimize discovered.wf discovered.reached
  ordered i j below u run := by
    rw [run?_minimize discovered.wf, Option.map_eq_some_iff] at run
    obtain ⟨q, toQ, rfl⟩ := run
    have inside := discovered.wf.run?_lt discovered.wf.start_lt toQ
    obtain ⟨head, at_i, _, rfl⟩ := exists_head (Nat.lt_trans below (classOf_lt inside))
    -- the least state of the class of `q` lies between the two
    have less : head < q :=
      Nat.lt_of_lt_of_le (heads_lt below at_i (head_classOf inside)) (d.classes.leader_le q)
    obtain ⟨w, toHead, earlier⟩ := discovered.ordered head q less u toQ
    exact ⟨w, by rw [run?_minimize discovered.wf, toHead, Option.map_some], earlier⟩

theorem canonical_minimize {d : Dfa} (discovered : d.Discovered) : d.minimize.Canonical where
  toDiscovered := discovered.minimize
  reduced _ left _ right alike := eq_of_alike_minimize discovered.wf left right alike

end Dfa

namespace Nfa

variable {n : Nfa}

/-- The sets of states are found in the order of the first words that lead to them. -/
theorem pairwise_subsets (n : Nfa) :
    n.subsets.Pairwise (Graph.Before n.alphabet.toList n.step n.initial (· < ·)) :=
  Graph.pairwise_explore next_powerset n.alphabet.ascending_chars

theorem discovered_determinize (n : Nfa) : n.determinize.Discovered where
  wf := n.wellFormed_determinize
  defined w known := by
    obtain ⟨q, run, _⟩ := run?_determinize known
    exact ⟨q, run⟩
  reached q inside := by
    rw [numStates_determinize] at inside
    have place := List.getElem?_eq_getElem inside
    obtain ⟨w, known, arrives⟩ := mem_subsets_iff.1 (List.getElem_mem inside)
    exact ⟨w, run?_determinize_iff.2 ⟨known, arrives ▸ place⟩⟩
  ordered p q below u run := by
    obtain ⟨known, place⟩ := run?_determinize_iff.1 run
    obtain ⟨inQ, atQ⟩ := List.getElem?_eq_some_iff.1 place
    have inP : p < n.subsets.length := Nat.lt_trans below inQ
    have before := List.pairwise_iff_getElem.1 n.pairwise_subsets p q inP inQ below
    obtain ⟨w, ⟨letters, arrives⟩, earlier⟩ := before u ⟨known, atQ.symm⟩
    refine ⟨w, run?_determinize_iff.2 ⟨letters, ?_⟩, earlier⟩
    exact List.getElem?_eq_some_iff.2 ⟨inP, arrives.symm⟩

theorem canonical_determinize_minimize (n : Nfa) : n.determinize.minimize.Canonical :=
  Dfa.canonical_minimize n.discovered_determinize

theorem accepts_determinize_minimize (wf : n.WellFormed) (w : List Char) :
    n.determinize.minimize.accepts w = n.accepts w := by
  rw [Dfa.accepts_minimize n.wellFormed_determinize, accepts_determinize wf]

end Nfa

end Lexing
