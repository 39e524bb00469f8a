import Lexing.Proofs.Guarded.Overflow
import Mathlib.Order.Bounds.Basic

set_option autoImplicit false

namespace Lexing.Dfa

variable {d : Dfa}

/-- A state of one automaton stands for a state of another. -/
def StandsFor (d : Dfa) (i q : State) : Prop := ∃ states, d.origin? i = some states ∧ q ∈ states

/-- The states of the minimized automaton stand for the members of their classes. -/
theorem standsFor_minimize_iff {i q : State} :
    d.minimize.StandsFor i q ↔ q < d.numStates ∧ d.classOf q = i := by
  unfold StandsFor
  rw [origin?_minimize]
  constructor
  · intro h
    obtain ⟨states, origin, member⟩ := h
    obtain ⟨head, at_i, rfl⟩ := Option.map_eq_some_iff.1 origin
    rw [SortedSet.mem_ofList, Partition.mem_members, size_classes] at member
    exact ⟨member.1, classOf_eq_of_head at_i member.2⟩
  · intro h
    obtain ⟨inside, rfl⟩ := h
    refine ⟨_, by rw [head_classOf inside, Option.map_some], ?_⟩
    rw [SortedSet.mem_ofList, Partition.mem_members, size_classes]
    exact ⟨inside, rfl⟩

theorem standsFor_classOf {q : State} (inside : q < d.numStates) :
    d.minimize.StandsFor (d.classOf q) q := standsFor_minimize_iff.2 ⟨inside, rfl⟩

theorem isLeast_head {i : Nat} {head : State} (at_i : d.classes.heads[i]? = some head) :
    IsLeast {q | d.minimize.StandsFor i q} head := by
  constructor
  · exact standsFor_minimize_iff.2 ⟨head_lt at_i, classOf_eq_of_head at_i (leader_head at_i)⟩
  · intro q member
    obtain ⟨inside, same⟩ := standsFor_minimize_iff.1 member
    have leader := head_classOf inside
    rw [same, at_i] at leader
    rw [Option.some.inj leader]
    exact d.classes.leader_le q

theorem standsFor_unique {i j q : State} (first : d.minimize.StandsFor i q)
    (second : d.minimize.StandsFor j q) : i = j := by
  rw [← (standsFor_minimize_iff.1 first).2, (standsFor_minimize_iff.1 second).2]

theorem exists_standsFor {i : State} (inside : i < d.minimize.numStates) :
    ∃ q, d.minimize.StandsFor i q := by
  obtain ⟨head, _, known, rfl⟩ := exists_head inside
  exact ⟨head, standsFor_classOf known⟩

theorem lt_iff_standsFor {q : State} :
    q < d.numStates ↔ ∃ i < d.minimize.numStates, d.minimize.StandsFor i q := by
  constructor
  · intro inside
    exact ⟨d.classOf q, classOf_lt inside, standsFor_classOf inside⟩
  · intro h
    obtain ⟨i, _, member⟩ := h
    exact (standsFor_minimize_iff.1 member).1

theorem ascending_least {i j : State} (below : i < j) (inside : j < d.minimize.numStates) :
    ∃ p q, IsLeast {a | d.minimize.StandsFor i a} p ∧
      IsLeast {a | d.minimize.StandsFor j a} q ∧ p < q := by
  obtain ⟨p, at_i, _, _⟩ := exists_head (Nat.lt_trans below inside)
  obtain ⟨q, at_j, _, _⟩ := exists_head inside
  exact ⟨p, q, isLeast_head at_i, isLeast_head at_j, heads_lt below at_i at_j⟩

theorem exists_standsFor_iff (wf : d.WellFormed) {p q : State} (left : p < d.numStates)
    (right : q < d.numStates) :
    (∃ i, d.minimize.StandsFor i p ∧ d.minimize.StandsFor i q) ↔ d.Alike p q := by
  rw [← classOf_eq_iff wf left right]
  constructor
  · intro h
    obtain ⟨i, first, second⟩ := h
    rw [(standsFor_minimize_iff.1 first).2, (standsFor_minimize_iff.1 second).2]
  · intro same
    refine ⟨d.classOf p, standsFor_classOf left, ?_⟩
    rw [same]
    exact standsFor_classOf right

/-- The states of the minimized automaton stand for sets that are not empty, disjoint, together all
states, and in the order of their least members. Two states are in one of the sets if and only if no
word of the alphabet tells them apart. This is what filling the marks makes while they have room. -/
theorem minimize_classes (built : d.Built) :
    (∀ o, Guarded.minimize o d = if d.MarksFit then some d.minimize else none) ∧
    (∀ i < d.minimize.numStates, ∃ q, d.minimize.StandsFor i q) ∧
    (∀ i j q, d.minimize.StandsFor i q → d.minimize.StandsFor j q → i = j) ∧
    (∀ q, q < d.numStates ↔ ∃ i < d.minimize.numStates, d.minimize.StandsFor i q) ∧
    (∀ i j, i < j → j < d.minimize.numStates →
      ∃ p q, IsLeast {a | d.minimize.StandsFor i a} p ∧
        IsLeast {a | d.minimize.StandsFor j a} q ∧ p < q) ∧
    ∀ p < d.numStates, ∀ q < d.numStates,
      (∃ i, d.minimize.StandsFor i p ∧ d.minimize.StandsFor i q) ↔
        ∀ w, (∀ c ∈ w, c ∈ d.alphabet) →
          (d.run? p w = none ∧ d.run? q w = none) ∨
            ∃ x y, d.run? p w = some x ∧ d.run? q w = some y ∧
              d.isAccepting x = d.isAccepting y := by
  refine ⟨Guarded.minimize_eq_ite built.wellFormed, fun i => exists_standsFor,
    fun i j q => standsFor_unique, fun q => lt_iff_standsFor, fun i j => ascending_least, ?_⟩
  intro p left q right
  rw [exists_standsFor_iff built.wellFormed left right, alike_iff_known]
  simp only [outcome_eq_iff]

/-- Two ways lead from 0 to acceptance, most characters lead to a gap, and no word leads to 5. -/
def diamond : Dfa :=
  (new ['b', 'a']).applyAll [.addState, .addState, .addState, .addState, .addState,
    .setAccepting 3 true, .setAccepting 4 true, .addTransition 0 'a' 1, .addTransition 0 'b' 2,
    .addTransition 1 'b' 3, .addTransition 2 'b' 4]

theorem built_diamond : diamond.Built := (Built.new _).applyAll _

theorem fits_diamond : diamond.MarksFit := by decide

theorem minimize_classes_diamond : diamond.Built ∧
    Guarded.minimize .wrap diamond = some diamond.minimize ∧ 1 < diamond.numStates ∧
    2 < diamond.numStates ∧
    (∃ i, diamond.minimize.StandsFor i 1 ∧ diamond.minimize.StandsFor i 2) ∧
    ∀ w, (∀ c ∈ w, c ∈ diamond.alphabet) →
      (diamond.run? 1 w = none ∧ diamond.run? 2 w = none) ∨
        ∃ x y, diamond.run? 1 w = some x ∧ diamond.run? 2 w = some y ∧
          diamond.isAccepting x = diamond.isAccepting y := by
  have left : 1 < diamond.numStates := by decide
  have right : 2 < diamond.numStates := by decide
  have together : ∃ i, diamond.minimize.StandsFor i 1 ∧ diamond.minimize.StandsFor i 2 :=
    ⟨1, ⟨_, by cbv, by decide⟩, ⟨_, by cbv, by decide⟩⟩
  obtain ⟨filled, _, _, _, _, same⟩ := minimize_classes built_diamond
  have made : Guarded.minimize .wrap diamond = some diamond.minimize := by
    rw [filled, if_pos fits_diamond]
  exact ⟨built_diamond, made, left, right, together, (same 1 left 2 right).1 together⟩

theorem isAccepting_of_standsFor (wf : d.WellFormed) {i q : State}
    (member : d.minimize.StandsFor i q) : d.minimize.isAccepting i = d.isAccepting q := by
  obtain ⟨inside, rfl⟩ := standsFor_minimize_iff.1 member
  exact isAccepting_classOf wf inside

theorem next?_of_standsFor (wf : d.WellFormed) {i q : State}
    (member : d.minimize.StandsFor i q) (c : Char) :
    d.minimize.next? i c = (d.next? q c).map d.classOf := by
  obtain ⟨inside, rfl⟩ := standsFor_minimize_iff.1 member
  exact next?_classOf wf inside c

theorem isTotal_minimize (wf : d.WellFormed) : d.minimize.isTotal = d.isTotal := by
  rw [Bool.eq_iff_iff, (wellFormed_minimize wf).isTotal_iff, wf.isTotal_iff]
  constructor
  · intro total q inside c known
    have defined := total (d.classOf q) (classOf_lt inside) c known
    rw [next?_classOf wf inside, Option.isSome_map] at defined
    exact defined
  · intro total i inside c known
    obtain ⟨q, member⟩ := exists_standsFor inside
    rw [next?_of_standsFor wf member, Option.isSome_map]
    exact total q (standsFor_minimize_iff.1 member).1 c known

theorem numStates_minimize_le (d : Dfa) : d.minimize.numStates ≤ d.numStates := by
  calc d.minimize.numStates = d.classes.heads.length := d.numStates_minimize
    _ ≤ (List.range d.classes.size).length := List.length_filter_le _ _
    _ = d.numStates := by rw [List.length_range, size_classes]

/-- A state of the minimized automaton behaves as each state that it stands for. So the language is
kept, gaps are neither closed nor made, and there are no more states than before. -/
theorem minimize_faithful (built : d.Built) :
    (∀ o, Guarded.minimize o d = if d.MarksFit then some d.minimize else none) ∧
    (∀ i q, d.minimize.StandsFor i q →
      d.minimize.isAccepting i = d.isAccepting q ∧
      ∀ c, (d.minimize.next? i c = none ↔ d.next? q c = none) ∧
        ∀ p, d.next? q c = some p →
          ∃ j, d.minimize.next? i c = some j ∧ d.minimize.StandsFor j p) ∧
    d.minimize.StandsFor d.minimize.start d.start ∧
    (∀ w, d.minimize.accepts w = d.accepts w) ∧
    d.minimize.isTotal = d.isTotal ∧
    d.minimize.numStates ≤ d.numStates := by
  have wf := built.wellFormed
  refine ⟨Guarded.minimize_eq_ite wf,
    fun i q member => ⟨isAccepting_of_standsFor wf member, fun c => ⟨?_, fun p next => ?_⟩⟩,
    standsFor_classOf wf.start_lt, accepts_minimize wf, isTotal_minimize wf, d.numStates_minimize_le⟩
  · rw [next?_of_standsFor wf member, Option.map_eq_none_iff]
  · refine ⟨d.classOf p, ?_, standsFor_classOf (wf.next?_lt next)⟩
    rw [next?_of_standsFor wf member, next, Option.map_some]

theorem minimize_faithful_diamond : diamond.Built ∧
    Guarded.minimize .stop diamond = some diamond.minimize ∧ diamond.minimize.StandsFor 1 2 ∧
    diamond.next? 2 'b' = some 4 ∧
    diamond.minimize.isAccepting 1 = diamond.isAccepting 2 ∧
    (diamond.minimize.next? 1 'a' = none ↔ diamond.next? 2 'a' = none) ∧
    ∃ j, diamond.minimize.next? 1 'b' = some j ∧ diamond.minimize.StandsFor j 4 := by
  have member : diamond.minimize.StandsFor 1 2 := ⟨_, by cbv, by decide⟩
  have next : diamond.next? 2 'b' = some 4 := by decide
  obtain ⟨filled, behaves, _⟩ := minimize_faithful built_diamond
  have made : Guarded.minimize .stop diamond = some diamond.minimize := by
    rw [filled, if_pos fits_diamond]
  obtain ⟨accepting, successors⟩ := behaves 1 2 member
  exact ⟨built_diamond, made, member, next, accepting, (successors 'a').1,
    (successors 'b').2 4 next⟩

end Lexing.Dfa
