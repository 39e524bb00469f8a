import Lexing.Proofs.Dfa.Canonical
import Lexing.Proofs.Guarded.Subset
import Mathlib.Data.List.Sublists

set_option autoImplicit false

namespace Lexing

namespace Dfa

theorem shortlex_trichotomy (u w : List Char) :
    List.Shortlex (· < ·) u w ∨ u = w ∨ List.Shortlex (· < ·) w u :=
  trichotomous_of (List.Shortlex ((· < ·) : Char → Char → Prop)) u w

/-- The first word that leads to a state, with shorter words before longer ones and words of one length
in alphabetical order. -/
def FirstWord (d : Dfa) (q : State) (w : List Char) : Prop :=
  d.run? d.start w = some q ∧
    ∀ u, d.run? d.start u = some q → w = u ∨ List.Shortlex (· < ·) w u

variable {d : Dfa}

theorem exists_firstWord {q : State} (reached : ∃ w, d.run? d.start w = some q) :
    ∃ w, d.FirstWord q w := by
  obtain ⟨w, run, least⟩ := wellFounded_shortlex.has_min {w | d.run? d.start w = some q} reached
  refine ⟨w, run, fun u other => ?_⟩
  rcases shortlex_trichotomy w u with less | same | greater
  · exact .inr less
  · exact .inl same
  · exact absurd greater (least u other)

/-- The first words of different states are in the order of the states. -/
theorem Discovered.shortlex_of_lt (discovered : d.Discovered) {p q : State} {u v : List Char}
    (first : d.FirstWord p u) (second : d.FirstWord q v) (below : p < q) :
    List.Shortlex (· < ·) u v := by
  obtain ⟨w, toP, earlier⟩ := discovered.ordered p q below v second.1
  rcases first.2 w toP with rfl | least
  · exact earlier
  · rcases shortlex_trichotomy u v with less | rfl | greater
    · exact less
    · exact absurd earlier (wellFounded_shortlex.asymmetric u w least)
    · exact absurd greater (wellFounded_shortlex.asymmetric₃ u w v least earlier)

theorem Discovered.lt_iff_shortlex (discovered : d.Discovered) {p q : State} {u v : List Char}
    (first : d.FirstWord p u) (second : d.FirstWord q v) :
    p < q ↔ List.Shortlex (· < ·) u v := by
  refine ⟨discovered.shortlex_of_lt first second, fun earlier => ?_⟩
  have asymm := wellFounded_shortlex.asymmetric u v earlier
  rcases Nat.lt_trichotomy p q with below | rfl | above
  · exact below
  · rcases second.2 u first.1 with rfl | later
    · exact absurd earlier asymm
    · exact absurd later asymm
  · exact absurd (discovered.shortlex_of_lt second first above) asymm

end Dfa

namespace Nfa

variable {n : Nfa}

theorem WellFormed.lt_of_mem_subset (wf : n.WellFormed) {qs : StateSet} (subset : qs ∈ n.subsets)
    {q : State} (mem : q ∈ qs) : q < n.numStates := by
  obtain ⟨w, _, rfl⟩ := mem_subsets_iff.1 subset
  induction w using List.reverseRecOn with
  | nil => exact wf.lt_of_mem_initial mem
  | append_singleton w c _ =>
    rw [after_append] at mem
    exact wf.lt_of_mem_step mem

/-- There are no more sets than ways to leave out states. -/
theorem WellFormed.length_subsets_le (wf : n.WellFormed) : n.subsets.length ≤ 2 ^ n.numStates := by
  have among : n.subsets ⊆ (List.range n.numStates).sublists'.map SortedSet.ofList := by
    intro qs subset
    have kept : (List.range n.numStates).filter (· ∈ qs) ∈ (List.range n.numStates).sublists' :=
      List.mem_sublists'.2 List.filter_sublist
    refine List.mem_map.2 ⟨_, kept, SortedSet.ext fun q => ?_⟩
    rw [SortedSet.mem_ofList, List.mem_filter, List.mem_range, decide_eq_true_iff]
    exact ⟨And.right, fun mem => ⟨wf.lt_of_mem_subset subset mem, mem⟩⟩
  have le := n.nodup_subsets.length_le_of_subset among
  rwa [List.length_map, List.length_sublists', List.length_range] at le

theorem isTotal_determinize (n : Nfa) : n.determinize.isTotal = true := by
  rw [n.wellFormed_determinize.isTotal_iff]
  intro q inside c letter
  rw [numStates_determinize] at inside
  obtain ⟨p, next, _⟩ := next?_determinize_of_subset (List.getElem?_eq_getElem inside) letter
  rw [next]
  rfl

/-- The search with a queue succeeds, and its result has no gap. Each state is at the end of a word,
and the states are in the order of the first of these words. They stand for different sets of existing
states, and if one of them stands for the empty set, it is not left and does not accept. -/
theorem determinize_shape (built : n.Built) :
    ∃ d, Dfa.Guarded.determinize n = some d ∧ d = n.determinize ∧ d.alphabet = n.alphabet ∧
      d.isTotal = true ∧ d.start = 0 ∧
      (∀ q < d.numStates, ∃ w, d.run? d.start w = some q) ∧
      (∀ q < d.numStates, ∃ qs, d.origin? q = some qs ∧ ∀ p ∈ qs, p < n.numStates) ∧
      (∀ p q qs, d.origin? p = some qs → d.origin? q = some qs → p = q) ∧
      d.numStates ≤ 2 ^ n.numStates ∧
      (∀ q, d.origin? q = some ∅ →
        d.isAccepting q = false ∧ ∀ c ∈ d.alphabet, d.next? q c = some q) ∧
      (∀ q < d.numStates, ∃ w, d.FirstWord q w) ∧
      ∀ p q u v, d.FirstWord p u → d.FirstWord q v → (p < q ↔ List.Shortlex (· < ·) u v) := by
  have wf := built.wellFormed
  have discovered := n.discovered_determinize
  refine ⟨n.determinize, Dfa.Guarded.determinize_eq n, rfl, rfl, n.isTotal_determinize, rfl,
    discovered.reached, fun q inside => ?_, fun p q qs first second => ?_, ?_, fun q empty => ?_,
    fun q inside => Dfa.exists_firstWord (discovered.reached q inside),
    fun p q u v => discovered.lt_iff_shortlex⟩
  · rw [numStates_determinize] at inside
    rw [origin?_determinize]
    exact ⟨_, List.getElem?_eq_getElem inside, fun p => wf.lt_of_mem_subset (List.getElem_mem inside)⟩
  · rw [origin?_determinize, ← idxOf?_eq_some_iff_of_nodup n.nodup_subsets] at first second
    exact Option.some.inj (first.symm.trans second)
  · rw [numStates_determinize]
    exact wf.length_subsets_le
  · rw [origin?_determinize] at empty
    refine ⟨isAccepting_determinize empty, fun c letter => ?_⟩
    obtain ⟨p, next, stepped⟩ := next?_determinize_of_subset empty letter
    rw [step_empty, ← idxOf?_eq_some_iff_of_nodup n.nodup_subsets] at stepped
    rw [← idxOf?_eq_some_iff_of_nodup n.nodup_subsets, stepped] at empty
    rw [next, Option.some.inj empty]

theorem determinize_shape_silentCycle : ∃ n d, new.applyAll? silentCycle = some n ∧
    Dfa.Guarded.determinize n = some d ∧ d.isTotal = true ∧ d.numStates ≤ 2 ^ n.numStates ∧
    d.origin? 2 = some ∅ ∧ d.isAccepting 2 = false ∧ (∀ c ∈ d.alphabet, d.next? 2 c = some 2) ∧
    ∃ w, d.FirstWord 2 w := by
  obtain ⟨n, made, trap, inside⟩ : ∃ n, new.applyAll? silentCycle = some n ∧
      n.determinize.origin? 2 = some ∅ ∧ 2 < n.determinize.numStates :=
    ⟨_, by cbv, by cbv, by cbv⟩
  obtain ⟨d, run, rfl, _, total, _, _, _, _, bound, empty, words, _⟩ :=
    determinize_shape (Built.new.applyAll? made)
  obtain ⟨rejects, loops⟩ := empty 2 trap
  exact ⟨n, n.determinize, made, run, total, bound, trap, rejects, loops, words 2 inside⟩

end Nfa

end Lexing
