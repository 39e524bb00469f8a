import Lexing.Proofs.Dfa.Equivalence
import Mathlib.Data.List.Permutation
import Mathlib.Tactic.TFAE

/- An automaton in canonical form is determined by its language and its alphabet. Two such automata pair
their states by the words that lead to them. The pairs are a renaming, because no word tells partners
apart, and the renaming changes no number, because it keeps the order of the states. -/

set_option autoImplicit false

namespace Lexing

namespace Dfa

structure Twins (a b : Dfa) : Prop where
  left : a.Canonical
  right : b.Canonical
  alphabet_eq : a.alphabet = b.alphabet
  accepts_eq : ∀ w, a.accepts w = b.accepts w

namespace Twins

variable {a b : Dfa} {p q : State}

theorem symm (twins : Twins a b) : Twins b a :=
  ⟨twins.right, twins.left, twins.alphabet_eq.symm, fun w => (twins.accepts_eq w).symm⟩

/-- Words of the alphabet have runs in both automata, so what they tell is whether they are accepted. -/
theorem equivalent (twins : Twins a b) : Equivalent a b := by
  refine equivalent_iff_known.2 ⟨twins.alphabet_eq, fun w known => ?_⟩
  obtain ⟨x, left⟩ := twins.left.defined w known
  obtain ⟨y, right⟩ := twins.right.defined w (twins.alphabet_eq ▸ known)
  rw [outcome_eq_accepts left, outcome_eq_accepts right, twins.accepts_eq]

theorem lt_right (twins : Twins a b) (paired : Paired a b p q) : q < b.numStates := by
  obtain ⟨w, _, run⟩ := paired
  exact twins.right.wf.run?_lt twins.right.wf.start_lt run

theorem exists_paired (twins : Twins a b) (inside : p < a.numStates) : ∃ q, Paired a b p q :=
  twins.equivalent.exists_paired twins.left.reached inside

theorem partner_unique (twins : Twins a b) {r : State} (first : Paired a b p q)
    (second : Paired a b p r) : q = r :=
  twins.equivalent.partner_unique twins.right.wf twins.right.reduced first second

theorem run?_right_of_paired (twins : Twins a b) (paired : Paired a b p q) {w : List Char}
    (run : a.run? a.start w = some p) : b.run? b.start w = some q := by
  obtain ⟨r, other, second⟩ := twins.equivalent.run?_right run
  rw [other, twins.partner_unique second paired]

theorem run?_left_of_paired (twins : Twins a b) (paired : Paired a b p q) {w : List Char}
    (run : b.run? b.start w = some q) : a.run? a.start w = some p :=
  twins.symm.run?_right_of_paired paired.symm run

/-- Partners cannot be in opposite order. If they were, each word that leads to one of the states
would have an earlier word that leads to the other, without end. -/
theorem not_crossed (twins : Twins a b) {x y : State} (first : Paired a b p q)
    (second : Paired a b x y) (below : p < x) : ¬ y < q := by
  intro crossed
  have never : ∀ u, a.run? a.start u ≠ some p ∧ a.run? a.start u ≠ some x := by
    intro u
    induction u using wellFounded_shortlex.induction with
    | _ u ih =>
      constructor
      · intro toP
        have toQ := twins.run?_right_of_paired first toP
        obtain ⟨w, toY, earlier⟩ := twins.right.ordered y q crossed u toQ
        exact (ih w earlier).2 (twins.run?_left_of_paired second toY)
      · intro toX
        obtain ⟨w, toP, earlier⟩ := twins.left.ordered p x below u toX
        exact (ih w earlier).1 toP
  obtain ⟨w, toP, _⟩ := first
  exact (never w).1 toP

theorem lt_of_paired (twins : Twins a b) {x y : State} (first : Paired a b p q)
    (second : Paired a b x y) (below : p < x) : q < y := by
  refine Nat.lt_of_le_of_ne (Nat.not_lt.1 (twins.not_crossed first second below)) ?_
  rintro rfl
  exact Nat.ne_of_lt below (twins.symm.partner_unique first.symm second.symm)

/-- A state and its partner have the same number, because the numbers below them are in use for
earlier states on both sides. -/
theorem eq_of_paired (twins : Twins a b) (paired : Paired a b p q) : p = q := by
  induction p using Nat.strongRecOn generalizing q with
  | _ p ih =>
    rcases Nat.lt_trichotomy p q with below | same | above
    · have inside := Nat.lt_trans below (twins.lt_right paired)
      obtain ⟨x, other⟩ := twins.symm.exists_paired inside
      have less := twins.symm.lt_of_paired other paired.symm below
      exact absurd (ih x less other.symm) (Nat.ne_of_lt less)
    · exact same
    · have inside := Nat.lt_trans above (twins.symm.lt_right paired.symm)
      obtain ⟨y, other⟩ := twins.exists_paired inside
      have less := twins.lt_of_paired other paired above
      exact absurd (ih q above other) (Nat.ne_of_gt less)

theorem paired_self (twins : Twins a b) (inside : p < a.numStates) : Paired a b p p := by
  obtain ⟨q, paired⟩ := twins.exists_paired inside
  rw [← twins.eq_of_paired paired] at paired
  exact paired

theorem numStates_le (twins : Twins a b) : a.numStates ≤ b.numStates := by
  refine Nat.le_of_not_lt fun more => ?_
  exact Nat.lt_irrefl _ (twins.lt_right (twins.paired_self more))

end Twins

theorem Twins.next?_right {a b : Dfa} (twins : Twins a b) {p q : State} {c : Char}
    (next : a.next? p c = some q) : b.next? p c = some q := by
  obtain ⟨w, left, right⟩ := twins.paired_self (twins.left.wf.lt_of_next? next)
  obtain ⟨x, run, paired⟩ := twins.equivalent.run?_right (run?_snoc.2 ⟨p, left, next⟩)
  obtain ⟨r, toR, last⟩ := run?_snoc.1 run
  obtain rfl := Option.some.inj (right.symm.trans toR)
  rw [last, twins.eq_of_paired paired]

theorem Twins.coincide {a b : Dfa} (twins : Twins a b) : Coincide a b where
  alphabet_eq := twins.alphabet_eq
  numStates_eq := Nat.le_antisymm twins.numStates_le twins.symm.numStates_le
  start_eq := twins.eq_of_paired (paired_start a b)
  isAccepting_eq q := by
    by_cases inside : q < a.numStates
    · exact twins.equivalent.isAccepting_eq (twins.paired_self inside)
    · have outside := Nat.not_lt.1 inside
      rw [isAccepting_eq_false_of_le outside,
        isAccepting_eq_false_of_le (Nat.le_trans twins.symm.numStates_le outside)]
  next?_eq q c := Option.ext fun _ => ⟨twins.next?_right, twins.symm.next?_right⟩

namespace Coincide

variable {a b : Dfa}

theorem eq_of_paired (coincide : Coincide a b) {p q : State} (paired : Paired a b p q) : p = q := by
  obtain ⟨w, left, right⟩ := paired
  rw [coincide.run?_eq, coincide.start_eq, right] at left
  exact (Option.some.inj left).symm

theorem isomorphic (coincide : Coincide a b)
    (reached : ∀ q < a.numStates, ∃ w, a.run? a.start w = some q) : Isomorphic a b where
  alphabet_eq := coincide.alphabet_eq
  numStates_eq := coincide.numStates_eq
  isAccepting_eq p q paired := by rw [coincide.eq_of_paired paired, coincide.isAccepting_eq]
  isSome_eq p q paired c := by rw [coincide.eq_of_paired paired, coincide.next?_eq]
  functional p q r first second := by
    rw [← coincide.eq_of_paired first, coincide.eq_of_paired second]
  injective p q r first second := by
    rw [coincide.eq_of_paired first, coincide.eq_of_paired second]
  covers p inside := by
    obtain ⟨w, run⟩ := reached p inside
    refine ⟨p, w, run, ?_⟩
    rw [← coincide.run?_eq, ← coincide.start_eq, run]

end Coincide

end Dfa

namespace Nfa

/-- Two automata over one alphabet have one language if and only if determinization and then
minimization make the same automaton of both, if and only if what it makes of them is isomorphic. -/
theorem minimal_tfae {n m : Nfa} (left : n.Built) (right : m.Built)
    (same : n.alphabet = m.alphabet) :
    (∀ o, (Dfa.Guarded.determinize n).bind (Dfa.Guarded.minimize o) =
      if n.determinize.MarksFit then some n.determinize.minimize else none) ∧
    (∀ o, (Dfa.Guarded.determinize m).bind (Dfa.Guarded.minimize o) =
      if m.determinize.MarksFit then some m.determinize.minimize else none) ∧
    Dfa.Guarded.isIsomorphic n.determinize.minimize m.determinize.minimize =
      some (n.determinize.minimize.isIsomorphic m.determinize.minimize) ∧
    List.TFAE [
      ∀ w, n.accepts w = m.accepts w,
      n.determinize.minimize.Coincide m.determinize.minimize,
      n.determinize.minimize.bare = m.determinize.minimize.bare,
      n.determinize.minimize.isIsomorphic m.determinize.minimize = true] := by
  have canonN := n.canonical_determinize_minimize
  have canonM := m.canonical_determinize_minimize
  refine ⟨n.bind_determinize_minimize, m.bind_determinize_minimize,
    Dfa.Guarded.isIsomorphic_eq canonN.wf canonM.wf, ?_⟩
  tfae_have 1 → 2 := fun language => by
    have twins : Dfa.Twins n.determinize.minimize m.determinize.minimize := {
      left := canonN
      right := canonM
      alphabet_eq := same
      accepts_eq := fun w => by
        rw [accepts_determinize_minimize left.wellFormed,
          accepts_determinize_minimize right.wellFormed, language] }
    exact twins.coincide
  tfae_have 2 → 3 := fun coincide => coincide.bare_eq canonN.wf canonM.wf
  tfae_have 3 → 2 := Dfa.coincide_of_bare_eq
  tfae_have 2 → 4 := fun coincide => Dfa.isIsomorphic_iff.2 (coincide.isomorphic canonN.reached)
  tfae_have 4 → 1 := fun isomorphic w => by
    have paired := Dfa.isIsomorphic_iff.1 isomorphic
    rw [← accepts_determinize_minimize left.wellFormed,
      ← accepts_determinize_minimize right.wellFormed]
    exact paired.accepts_eq w
  tfae_finish

theorem minimal_tfae_loops : ∃ n m : Nfa,
    new.applyAll? [.addEdge ⟨0, some 'a', 0⟩, .addAccepting 0] = some n ∧
    new.applyAll? [.addEdge ⟨0, some 'a', 1⟩, .addEdge ⟨1, some 'a', 0⟩, .addAccepting 0,
      .addAccepting 1] = some m ∧
    n.alphabet = m.alphabet ∧ n.determinize.minimize.bare = m.determinize.minimize.bare ∧
    Dfa.Guarded.isIsomorphic n.determinize.minimize m.determinize.minimize = some true := by
  have equal : ∀ {edits more : List Edit},
      (∃ n m : Nfa, new.applyAll? edits = some n ∧ new.applyAll? more = some m ∧
        n.alphabet = m.alphabet ∧
        n.determinize.minimize.isIsomorphic m.determinize.minimize = true) →
      ∃ n m : Nfa, new.applyAll? edits = some n ∧ new.applyAll? more = some m ∧
        n.alphabet = m.alphabet ∧
        n.determinize.minimize.bare = m.determinize.minimize.bare ∧
        Dfa.Guarded.isIsomorphic n.determinize.minimize m.determinize.minimize = some true := by
    rintro edits more ⟨n, m, left, right, same, isomorphic⟩
    obtain ⟨_, _, paired, equivalent⟩ :=
      minimal_tfae (Built.new.applyAll? left) (Built.new.applyAll? right) same
    exact ⟨n, m, left, right, same, (equivalent.out 3 2).1 isomorphic, by rw [paired, isomorphic]⟩
  exact equal ⟨_, _, by cbv, by cbv, by cbv, by cbv⟩

end Nfa

end Lexing
