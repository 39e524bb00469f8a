import Lexing.Proofs.Dfa.Uniqueness

set_option autoImplicit false

namespace Lexing.Dfa

variable {d : Dfa}

/-- The same automaton, with each state standing for itself. -/
def selfStanding (d : Dfa) : Dfa :=
  { d with origins := ((List.range d.numStates).map fun q => SortedSet.ofList [q]).toArray }

theorem origin?_selfStanding {q : State} (inside : q < d.numStates) :
    d.selfStanding.origin? q = some (SortedSet.ofList [q]) := by
  rw [origin?, selfStanding, List.getElem?_toArray, List.getElem?_map, List.getElem?_range inside]
  rfl

namespace Reduced

variable (wf : d.WellFormed) (reduced : d.Reduced)
include wf reduced

theorem leader_eq {q : State} (inside : q < d.numStates) : d.classes.leader q = q := by
  have below := Nat.lt_of_le_of_lt (d.classes.leader_le q) inside
  exact reduced _ below q inside (alike_leader wf inside)

theorem heads_eq : d.classes.heads = List.range d.numStates := by
  rw [Partition.heads, size_classes]
  refine List.filter_eq_self.2 fun q mem => ?_
  rw [Partition.isLeader, reduced.leader_eq wf (List.mem_range.1 mem), beq_self_eq_true]

theorem getElem?_heads {q : State} (inside : q < d.numStates) : d.classes.heads[q]? = some q := by
  rw [reduced.heads_eq wf, List.getElem?_range inside]

theorem classOf_eq {q : State} (inside : q < d.numStates) : d.classOf q = q :=
  classOf_eq_of_head (reduced.getElem?_heads wf inside) (reduced.leader_eq wf inside)

theorem numStates_minimize_eq : d.minimize.numStates = d.numStates := by
  rw [numStates_minimize, reduced.heads_eq wf, List.length_range]

theorem members_eq {q : State} (inside : q < d.numStates) :
    SortedSet.ofList (d.classes.members q) = SortedSet.ofList [q] := by
  refine SortedSet.ext fun p => ?_
  rw [SortedSet.mem_ofList, SortedSet.mem_ofList, Partition.mem_members, size_classes,
    List.mem_singleton]
  constructor
  · rintro ⟨known, led⟩
    rwa [reduced.leader_eq wf known] at led
  · rintro rfl
    exact ⟨inside, reduced.leader_eq wf inside⟩

theorem origins_eq : d.minimize.origins = d.selfStanding.origins := by
  show (d.classes.heads.map fun head => SortedSet.ofList (d.classes.members head)).toArray = _
  rw [reduced.heads_eq wf, selfStanding]
  refine congrArg List.toArray (List.map_congr_left fun q mem => ?_)
  exact reduced.members_eq wf (List.mem_range.1 mem)

/-- A transition out of a state exists before and after, so both ends keep their numbers. -/
theorem next?_minimize_eq (q : State) (c : Char) : d.minimize.next? q c = d.next? q c := by
  by_cases inside : q < d.numStates
  · rw [next?_minimize (reduced.getElem?_heads wf inside)]
    cases next : d.next? q c with
    | none => rfl
    | some p => rw [Option.map_some, reduced.classOf_eq wf (wf.next?_lt next)]
  · have gap : ∀ e : Dfa, e.WellFormed → e.numStates = d.numStates → e.next? q c = none := by
      intro e sound same
      refine Option.eq_none_iff_forall_ne_some.2 fun p next => inside ?_
      exact same ▸ sound.lt_of_next? next
    rw [gap d wf rfl, gap _ (wellFormed_minimize wf) (reduced.numStates_minimize_eq wf)]

theorem coincide_minimize : Coincide d d.minimize where
  alphabet_eq := rfl
  numStates_eq := (reduced.numStates_minimize_eq wf).symm
  start_eq := (reduced.classOf_eq wf wf.start_lt).symm
  isAccepting_eq q := by
    by_cases inside : q < d.numStates
    · exact (isAccepting_minimize (reduced.getElem?_heads wf inside)).symm
    · have outside := Nat.not_lt.1 inside
      rw [isAccepting_eq_false_of_le outside, isAccepting_eq_false_of_le]
      rwa [reduced.numStates_minimize_eq wf]
  next?_eq q c := (reduced.next?_minimize_eq wf q c).symm

theorem minimize_eq_selfStanding : d.minimize = d.selfStanding := by
  have coincide := reduced.coincide_minimize wf
  rw [selfStanding, Dfa.mk.injEq]
  exact ⟨coincide.alphabet_eq.symm, coincide.start_eq.symm,
    (coincide.table_eq wf (wellFormed_minimize wf)).symm, coincide.accepting_eq.symm,
    reduced.origins_eq wf⟩

/-- The comparison sees no difference, but it does not get to states that no word leads to. -/
theorem isIsomorphic_minimize_iff : d.isIsomorphic d.minimize = true ↔ d.Reached := by
  rw [isIsomorphic_iff]
  exact ⟨Isomorphic.reached, (reduced.coincide_minimize wf).isomorphic⟩

end Reduced

/-- Minimization a second time keeps the alphabet, the numbers of the states, the start, acceptance
and the table, and each state stands for itself alone. The comparison says that nothing has changed if
and only if every state can be reached, and this is so after determinization. -/
theorem minimize_minimize (built : d.Built) :
    (∀ o, Guarded.minimize o d = if d.MarksFit then some d.minimize else none) ∧
    (∀ o, Guarded.minimize o d.minimize =
      if d.minimize.MarksFit then some d.minimize.minimize else none) ∧
    Guarded.isIsomorphic d.minimize d.minimize.minimize =
      some (d.minimize.isIsomorphic d.minimize.minimize) ∧
    d.minimize.minimize = d.minimize.selfStanding ∧
    (∀ i < d.minimize.numStates, d.minimize.minimize.origin? i = some (SortedSet.ofList [i])) ∧
    (d.minimize.isIsomorphic d.minimize.minimize = true ↔ d.minimize.Reached) ∧
    ∀ n : Nfa, n.determinize = d →
      d.minimize.Reached ∧ d.minimize.isIsomorphic d.minimize.minimize = true := by
  have wf := wellFormed_minimize built.wellFormed
  have reduced := reduced_minimize built.wellFormed
  have fixed := reduced.minimize_eq_selfStanding wf
  have compared := reduced.isIsomorphic_minimize_iff wf
  refine ⟨Guarded.minimize_eq_ite built.wellFormed, Guarded.minimize_eq_ite wf,
    Guarded.isIsomorphic_eq wf (wellFormed_minimize wf), fixed, fun i inside => ?_, compared, ?_⟩
  · rw [fixed]
    exact origin?_selfStanding inside
  · rintro n rfl
    have reached : n.determinize.minimize.Reached := n.canonical_determinize_minimize.reached
    exact ⟨reached, compared.2 reached⟩

/-- An automaton with gaps and with a state that no word leads to, and one made by determinization. -/
theorem minimize_minimize_diamond :
    diamond.Built ∧ 3 < diamond.minimize.numStates ∧
    Guarded.minimize .wrap diamond = some diamond.minimize ∧
    Guarded.isIsomorphic diamond.minimize diamond.minimize.minimize = some false ∧
    diamond.minimize.minimize = diamond.minimize.selfStanding ∧
    diamond.minimize.minimize.origin? 3 = some (SortedSet.ofList [3]) ∧
    diamond.minimize.isIsomorphic diamond.minimize.minimize = false ∧ ¬ diamond.minimize.Reached ∧
    ∃ n : Nfa, Nfa.new.applyAll? Nfa.silentCycle = some n ∧ n.determinize.Built ∧
      n.determinize.minimize.isIsomorphic n.determinize.minimize.minimize = true := by
  have inside : 3 < diamond.minimize.numStates := by cbv
  have different : diamond.minimize.isIsomorphic diamond.minimize.minimize = false := by cbv
  obtain ⟨filled, _, paired, fixed, origins, compared, _⟩ := minimize_minimize built_diamond
  obtain ⟨n, made⟩ : ∃ n, Nfa.new.applyAll? Nfa.silentCycle = some n := ⟨_, by cbv⟩
  have built := Built.determinize (Nfa.Built.new.applyAll? made)
  obtain ⟨_, _, _, _, _, _, same⟩ := minimize_minimize built
  refine ⟨built_diamond, inside, by rw [filled, if_pos fits_diamond], by rw [paired, different], fixed, origins 3 inside, different, fun reached => ?_,
    n, made, built, (same n rfl).2⟩
  rw [compared.2 reached] at different
  cases different

end Lexing.Dfa
