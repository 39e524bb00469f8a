import Lexing.Proofs.Dfa.Canonical
import Lexing.Proofs.Guarded.Overflow
import Lexing.Proofs.Guarded.Subset
import Mathlib.Data.Fintype.Card

/- No automaton of a language has fewer states than the canonical one. Words that lead to different
states of the canonical automaton have a continuation that only one of them is accepted with, so they
cannot lead to one state of another automaton, and only words to one state can all lead to gaps. -/

set_option autoImplicit false

namespace Lexing

namespace Dfa

variable {d e : Dfa}

/-- Words that lead to one state of an automaton, or all to gaps in it, lead to one state of the
canonical automaton with its language. -/
theorem Canonical.eq_of_run?_eq (canonical : d.Canonical)
    (language : ∀ w, e.accepts w = d.accepts w) {u v : List Char} {p q : State}
    (toP : d.run? d.start u = some p) (toQ : d.run? d.start v = some q)
    (meet : e.run? e.start u = e.run? e.start v) : p = q := by
  have inP := canonical.wf.run?_lt canonical.wf.start_lt toP
  have inQ := canonical.wf.run?_lt canonical.wf.start_lt toQ
  apply canonical.reduced p inP q inQ
  rw [alike_iff_known]
  intro w known
  have same : e.accepts (u ++ w) = e.accepts (v ++ w) := by
    rw [accepts_append, accepts_append, meet]
  rw [canonical.outcome_eq toP known, canonical.outcome_eq toQ known, ← language, ← language, same]

/-- The state that a word leads to. A word that leads to a gap gets the number after the last
state. -/
def landing (d : Dfa) (w : List Char) : Nat := (d.run? d.start w).getD d.numStates

theorem landing_of_some {q : State} {w : List Char} (run : d.run? d.start w = some q) :
    d.landing w = q := by
  rw [landing, run, Option.getD_some]

theorem landing_of_none {w : List Char} (run : d.run? d.start w = none) :
    d.landing w = d.numStates := by
  rw [landing, run, Option.getD_none]

theorem WellFormed.landing_le (wf : d.WellFormed) (w : List Char) : d.landing w ≤ d.numStates := by
  cases run : d.run? d.start w with
  | none => exact Nat.le_of_eq (landing_of_none run)
  | some q =>
    rw [landing_of_some run]
    exact Nat.le_of_lt (wf.run?_lt wf.start_lt run)

theorem WellFormed.landing_lt (wf : d.WellFormed) (total : d.isTotal = true) {w : List Char}
    (known : ∀ c ∈ w, c ∈ d.alphabet) : d.landing w < d.numStates := by
  obtain ⟨q, run⟩ := wf.exists_run?_of_isTotal total wf.start_lt known
  rw [landing_of_some run]
  exact wf.run?_lt wf.start_lt run

theorem WellFormed.run?_eq_of_landing_eq (wf : d.WellFormed) {u v : List Char}
    (same : d.landing u = d.landing v) : d.run? d.start u = d.run? d.start v := by
  cases left : d.run? d.start u with
  | none =>
    cases right : d.run? d.start v with
    | none => rfl
    | some q =>
      rw [landing_of_none left, landing_of_some right] at same
      exact absurd same (Nat.ne_of_gt (wf.run?_lt wf.start_lt right))
  | some p =>
    cases right : d.run? d.start v with
    | none =>
      rw [landing_of_some left, landing_of_none right] at same
      exact absurd same (Nat.ne_of_lt (wf.run?_lt wf.start_lt left))
    | some q =>
      rw [landing_of_some left, landing_of_some right] at same
      rw [same]

/-- One word for each state of the canonical automaton gives as many different places in the other
one. -/
theorem Canonical.numStates_le_of_landing_lt (canonical : d.Canonical) (wf : e.WellFormed)
    (language : ∀ w, e.accepts w = d.accepts w) {bound : Nat}
    (below : ∀ w, (∀ c ∈ w, c ∈ d.alphabet) → e.landing w < bound) : d.numStates ≤ bound := by
  have reached : ∀ q : Fin d.numStates, ∃ w, d.run? d.start w = some q.val :=
    fun q => canonical.reached q.val q.isLt
  choose word run using reached
  have known : ∀ q, ∀ c ∈ word q, c ∈ d.alphabet := fun q => mem_alphabet_of_run? (run q)
  let place : Fin d.numStates → Fin bound :=
    fun q => ⟨e.landing (word q), below (word q) (known q)⟩
  have injective : Function.Injective place := by
    intro p q same
    have landings : e.landing (word p) = e.landing (word q) := congrArg Fin.val same
    have meet := wf.run?_eq_of_landing_eq landings
    exact Fin.ext (canonical.eq_of_run?_eq language (run p) (run q) meet)
  have count := Fintype.card_le_of_injective place injective
  rw [Fintype.card_fin, Fintype.card_fin] at count
  exact count

theorem Canonical.numStates_le_succ (canonical : d.Canonical) (wf : e.WellFormed)
    (language : ∀ w, e.accepts w = d.accepts w) : d.numStates ≤ e.numStates + 1 := by
  apply canonical.numStates_le_of_landing_lt wf language
  intro w _
  exact Nat.lt_succ_of_le (wf.landing_le w)

theorem Canonical.numStates_le_of_isTotal (canonical : d.Canonical) (wf : e.WellFormed)
    (language : ∀ w, e.accepts w = d.accepts w) (alphabet : e.alphabet = d.alphabet)
    (total : e.isTotal = true) : d.numStates ≤ e.numStates := by
  apply canonical.numStates_le_of_landing_lt wf language
  intro w known
  rw [← alphabet] at known
  exact wf.landing_lt total known

/-- Without transitions to acceptance, only the empty word can be accepted. -/
theorem accepts_eq_isEmpty (empty : d.accepts [] = true)
    (only : (d.transitions.all fun (_, _, q) => !d.isAccepting q) = true) (w : List Char) :
    d.accepts w = w.isEmpty := by
  cases w with
  | nil => exact empty
  | cons c w =>
    unfold accepts
    cases run : d.run? d.start (c :: w) with
    | none => rfl
    | some q =>
      obtain ⟨r, a, next⟩ := exists_next?_of_run? run
      have rejecting : (!d.isAccepting q) = true :=
        List.all_eq_true.1 only (r, a, q) (mem_transitions_iff.2 next)
      rw [Bool.not_eq_true'] at rejecting
      exact rejecting

/-- Accepts the empty word. After it, there is a gap. -/
def onlyEmptyGap : Dfa := (new ['a']).applyAll [.setAccepting 0 true]

/-- Accepts the empty word. All other words lead to a state that does not accept. -/
def onlyEmptySink : Dfa :=
  (new ['a']).applyAll [.addState, .setAccepting 0 true, .addTransition 0 'a' 1,
    .addTransition 1 'a' 1]

end Dfa

namespace Nfa

/-- The search with a queue, and then filling the marks. -/
theorem bind_determinize_minimize (n : Nfa) (o : Overflow) :
    (Dfa.Guarded.determinize n).bind (Dfa.Guarded.minimize o) =
      if n.determinize.MarksFit then some n.determinize.minimize else none := by
  rw [Dfa.Guarded.determinize_eq, Option.bind_some]
  exact Dfa.Guarded.minimize_eq_ite n.wellFormed_determinize o

/-- Every state of the minimized automaton is the end of a word, and no automaton with the same
language has fewer states, except that gaps can save one. -/
theorem determinize_minimize_fewest {n : Nfa} (built : n.Built) :
    (∀ o, (Dfa.Guarded.determinize n).bind (Dfa.Guarded.minimize o) =
      if n.determinize.MarksFit then some n.determinize.minimize else none) ∧
    (∀ q < n.determinize.minimize.numStates, ∃ w,
      n.determinize.minimize.run? n.determinize.minimize.start w = some q) ∧
    ∀ e : Dfa, e.Built → e.alphabet = n.alphabet → (∀ w, e.accepts w = n.accepts w) →
      (e.isTotal = true → n.determinize.minimize.numStates ≤ e.numStates) ∧
      (e.isTotal = false → n.determinize.minimize.numStates ≤ e.numStates + 1) := by
  have canonical := n.canonical_determinize_minimize
  refine ⟨n.bind_determinize_minimize, canonical.reached, ?_⟩
  intro e other alphabet language
  have same : ∀ w, e.accepts w = n.determinize.minimize.accepts w := by
    intro w
    rw [language, accepts_determinize_minimize built.wellFormed]
  constructor
  · intro total
    exact canonical.numStates_le_of_isTotal other.wellFormed same alphabet total
  · intro _
    exact canonical.numStates_le_succ other.wellFormed same

/-- Only the empty word is accepted. This takes two states, or one state and a gap. -/
theorem determinize_minimize_fewest_onlyEmpty : ∃ n,
    new.applyAll? [.addEdge ⟨0, some 'a', 1⟩, .addAccepting 0] = some n ∧
    (Dfa.Guarded.determinize n).bind (Dfa.Guarded.minimize .wrap) = some n.determinize.minimize ∧
    Dfa.onlyEmptyGap.alphabet = n.alphabet ∧ Dfa.onlyEmptySink.alphabet = n.alphabet ∧
    (∀ w, Dfa.onlyEmptyGap.accepts w = n.accepts w) ∧
    (∀ w, Dfa.onlyEmptySink.accepts w = n.accepts w) ∧
    Dfa.onlyEmptyGap.isTotal = false ∧ Dfa.onlyEmptySink.isTotal = true ∧
    (∃ w, n.determinize.minimize.run? n.determinize.minimize.start w = some 1) ∧
    n.determinize.minimize.numStates ≤ Dfa.onlyEmptyGap.numStates + 1 ∧
    n.determinize.minimize.numStates ≤ Dfa.onlyEmptySink.numStates := by
  obtain ⟨n, made, fits, byGap, bySink, states, empty, only⟩ : ∃ n,
      new.applyAll? [.addEdge ⟨0, some 'a', 1⟩, .addAccepting 0] = some n ∧
      decide n.determinize.MarksFit = true ∧
      Dfa.onlyEmptyGap.alphabet = n.alphabet ∧ Dfa.onlyEmptySink.alphabet = n.alphabet ∧
      1 < n.determinize.minimize.numStates ∧ n.determinize.minimize.accepts [] = true ∧
      (n.determinize.minimize.transitions.all fun (_, _, q) =>
        !n.determinize.minimize.isAccepting q) = true :=
    ⟨_, by cbv, by cbv, by decide, by decide, by cbv, by cbv, by cbv⟩
  have built := Built.new.applyAll? made
  have language : ∀ w, n.accepts w = w.isEmpty := by
    intro w
    rw [← accepts_determinize_minimize built.wellFormed, Dfa.accepts_eq_isEmpty empty only]
  have withGap : ∀ w, Dfa.onlyEmptyGap.accepts w = n.accepts w := by
    intro w
    rw [language, Dfa.accepts_eq_isEmpty (by decide) (by decide)]
  have withSink : ∀ w, Dfa.onlyEmptySink.accepts w = n.accepts w := by
    intro w
    rw [language, Dfa.accepts_eq_isEmpty (by decide) (by decide)]
  have gaps : Dfa.onlyEmptyGap.isTotal = false := by cbv
  have total : Dfa.onlyEmptySink.isTotal = true := by cbv
  obtain ⟨filled, reached, fewest⟩ := determinize_minimize_fewest built
  have minimal : (Dfa.Guarded.determinize n).bind (Dfa.Guarded.minimize .wrap) =
      some n.determinize.minimize := by
    rw [filled, if_pos (of_decide_eq_true fits)]
  have oneLess := (fewest _ ((Dfa.Built.new _).applyAll _) byGap withGap).2 gaps
  have noLess := (fewest _ ((Dfa.Built.new _).applyAll _) bySink withSink).1 total
  exact ⟨n, made, minimal, byGap, bySink, withGap, withSink, gaps, total, reached 1 states, oneLess,
    noLess⟩

end Nfa

end Lexing
