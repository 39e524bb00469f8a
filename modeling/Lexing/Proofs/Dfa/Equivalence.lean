import Lexing.Proofs.Dfa.Fewest
import Lexing.Proofs.Dfa.Quotient
import Lexing.Proofs.Dfa.Renaming
import Mathlib.Data.List.Permutation

/- When automata behave alike: every word has the same outcome from both starts. A gap and a state that
no word leads from to acceptance are not the same. Automata that behave alike, that have no like states
and that have no state without a word to it differ in the numbering only, so the minimized automata of
any two are compared to find out whether the two behave alike. -/

set_option autoImplicit false

namespace Lexing.Dfa

variable {a b d : Dfa} {p q : State}

def Reduced (d : Dfa) : Prop := ∀ p < d.numStates, ∀ q < d.numStates, d.Alike p q → p = q

theorem reduced_minimize (wf : d.WellFormed) : d.minimize.Reduced :=
  fun _ left _ right alike => eq_of_alike_minimize wf left right alike

theorem outcome_start_minimize (wf : d.WellFormed) (w : List Char) :
    d.minimize.outcome d.minimize.start w = d.outcome d.start w :=
  outcome_classOf wf wf.start_lt w

/-- No word has different outcomes from the two starts. -/
structure Equivalent (a b : Dfa) : Prop where
  alphabet_eq : a.alphabet = b.alphabet
  outcome_eq : ∀ w, a.outcome a.start w = b.outcome b.start w

theorem equivalent_minimize_iff (left : a.WellFormed) (right : b.WellFormed) :
    Equivalent a.minimize b.minimize ↔ Equivalent a b := by
  constructor
  · intro equivalent
    refine ⟨equivalent.alphabet_eq, fun w => ?_⟩
    rw [← outcome_start_minimize left, ← outcome_start_minimize right, equivalent.outcome_eq]
  · intro equivalent
    refine ⟨equivalent.alphabet_eq, fun w => ?_⟩
    rw [outcome_start_minimize left, outcome_start_minimize right, equivalent.outcome_eq]

namespace Equivalent

theorem symm (equivalent : Equivalent a b) : Equivalent b a :=
  ⟨equivalent.alphabet_eq.symm, fun w => (equivalent.outcome_eq w).symm⟩

/-- No word tells a state from its partner, because it goes on from the word that leads to both. -/
theorem outcome_eq_of_paired (equivalent : Equivalent a b) (paired : Paired a b p q)
    (v : List Char) : a.outcome p v = b.outcome q v := by
  obtain ⟨w, toP, toQ⟩ := paired
  have whole := equivalent.outcome_eq (w ++ v)
  rwa [outcome_append, outcome_append, toP, toQ] at whole

theorem run?_right (equivalent : Equivalent a b) {w : List Char}
    (run : a.run? a.start w = some p) : ∃ q, b.run? b.start w = some q ∧ Paired a b p q := by
  have whole := equivalent.outcome_eq w
  rw [outcome, run, outcome] at whole
  obtain ⟨q, other, _⟩ := Option.map_eq_some_iff.1 whole.symm
  exact ⟨q, other, w, run, other⟩

theorem exists_paired (equivalent : Equivalent a b) (reached : a.Reached) (inside : p < a.numStates) :
    ∃ q, Paired a b p q := by
  obtain ⟨w, run⟩ := reached p inside
  obtain ⟨q, _, paired⟩ := equivalent.run?_right run
  exact ⟨q, paired⟩

theorem isAccepting_eq (equivalent : Equivalent a b) (paired : Paired a b p q) :
    a.isAccepting p = b.isAccepting q := by
  have empty := equivalent.outcome_eq_of_paired paired []
  rw [outcome_nil, outcome_nil] at empty
  exact Option.some.inj empty

/-- A character leads on from both partners or from neither. -/
theorem isSome_eq (equivalent : Equivalent a b) (paired : Paired a b p q) (c : Char) :
    (a.next? p c).isSome = (b.next? q c).isSome := by
  have single := equivalent.outcome_eq_of_paired paired [c]
  rw [outcome_cons, outcome_cons] at single
  simp only [outcome_nil] at single
  cases left : a.next? p c <;> cases right : b.next? q c <;> simp [left, right] at single ⊢

/-- A state has one partner only, because no word tells two partners apart. -/
theorem partner_unique (equivalent : Equivalent a b) (wf : b.WellFormed) (reduced : b.Reduced)
    {r : State} (first : Paired a b p q) (second : Paired a b p r) : q = r := by
  have inside : ∀ {s}, Paired a b p s → s < b.numStates := by
    rintro s ⟨w, _, run⟩
    exact wf.run?_lt wf.start_lt run
  refine reduced q (inside first) r (inside second) fun v => ?_
  rw [← equivalent.outcome_eq_of_paired first, equivalent.outcome_eq_of_paired second]

theorem numStates_le (equivalent : Equivalent a b) (left : a.WellFormed) (right : b.WellFormed)
    (reduced : a.Reduced) (reached : a.Reached) : a.numStates ≤ b.numStates := by
  have partnered : ∀ p : Fin a.numStates, ∃ q : Fin b.numStates, Paired a b p q := by
    intro p
    obtain ⟨q, w, toP, toQ⟩ := equivalent.exists_paired reached p.isLt
    exact ⟨⟨q, right.run?_lt right.start_lt toQ⟩, w, toP, toQ⟩
  choose partner paired using partnered
  have injective : Function.Injective partner := by
    intro p q same
    have second := (paired q).symm
    rw [← same] at second
    exact Fin.ext (equivalent.symm.partner_unique left reduced (paired p).symm second)
  have count := Fintype.card_le_of_injective partner injective
  rw [Fintype.card_fin, Fintype.card_fin] at count
  exact count

theorem isomorphic (equivalent : Equivalent a b) (left : a.WellFormed) (right : b.WellFormed)
    (reducedA : a.Reduced) (reducedB : b.Reduced) (reachedA : a.Reached) (reachedB : b.Reached) :
    Isomorphic a b where
  alphabet_eq := equivalent.alphabet_eq
  numStates_eq := Nat.le_antisymm (equivalent.numStates_le left right reducedA reachedA)
    (equivalent.symm.numStates_le right left reducedB reachedB)
  isAccepting_eq _ _ paired := equivalent.isAccepting_eq paired
  isSome_eq _ _ paired c := equivalent.isSome_eq paired c
  functional _ _ _ first second := equivalent.partner_unique right reducedB first second
  injective _ _ _ first second :=
    equivalent.symm.partner_unique left reducedA first.symm second.symm
  covers _ inside := equivalent.exists_paired reachedA inside

end Equivalent

theorem Isomorphic.equivalent (isomorphic : Isomorphic a b) : Equivalent a b :=
  ⟨isomorphic.alphabet_eq, isomorphic.outcome_eq (paired_start a b)⟩

/-- Only words of the alphabet need to be looked at. -/
theorem equivalent_iff_known : Equivalent a b ↔ a.alphabet = b.alphabet ∧
    ∀ w, (∀ c ∈ w, c ∈ a.alphabet) → a.outcome a.start w = b.outcome b.start w := by
  constructor
  · intro equivalent
    exact ⟨equivalent.alphabet_eq, fun w _ => equivalent.outcome_eq w⟩
  · rintro ⟨same, known⟩
    refine ⟨same, fun w => ?_⟩
    by_cases letters : ∀ c ∈ w, c ∈ a.alphabet
    · exact known w letters
    · rw [outcome_unknown letters, outcome_unknown (same ▸ letters)]

/-- Automata without gaps are equivalent if they accept the same words. -/
theorem equivalent_iff_accepts (left : a.WellFormed) (right : b.WellFormed)
    (totalA : a.isTotal = true) (totalB : b.isTotal = true) (same : a.alphabet = b.alphabet) :
    Equivalent a b ↔ ∀ w, a.accepts w = b.accepts w := by
  constructor
  · intro equivalent w
    rw [accepts_eq_outcome, accepts_eq_outcome, equivalent.outcome_eq]
  · intro language
    refine equivalent_iff_known.2 ⟨same, fun w known => ?_⟩
    obtain ⟨x, runA⟩ := left.exists_run?_of_isTotal totalA left.start_lt known
    obtain ⟨y, runB⟩ := right.exists_run?_of_isTotal totalB right.start_lt (same ▸ known)
    rw [outcome_eq_accepts runA, outcome_eq_accepts runB, language]

theorem isIsomorphic_minimize_iff_equivalent (left : a.WellFormed) (right : b.WellFormed)
    (reachedA : a.Reached) (reachedB : b.Reached) :
    a.minimize.isIsomorphic b.minimize = true ↔ Equivalent a b := by
  rw [isIsomorphic_iff, ← equivalent_minimize_iff left right]
  constructor
  · exact Isomorphic.equivalent
  · intro equivalent
    exact equivalent.isomorphic (wellFormed_minimize left) (wellFormed_minimize right)
      (reduced_minimize left) (reduced_minimize right) (reached_minimize left reachedA)
      (reached_minimize right reachedB)

/-- The minimized automata are isomorphic if and only if no word of the common alphabet tells the
automata apart: it leads to gaps in both, or to states of equal acceptance. Without gaps this means
that both accept the same words. -/
theorem minimize_decides_equivalence (left : a.Built) (right : b.Built) (reachedA : a.Reached)
    (reachedB : b.Reached) :
    (∀ o, Guarded.minimize o a = if a.MarksFit then some a.minimize else none) ∧
    (∀ o, Guarded.minimize o b = if b.MarksFit then some b.minimize else none) ∧
    Guarded.isIsomorphic a.minimize b.minimize = some (a.minimize.isIsomorphic b.minimize) ∧
    (a.minimize.isIsomorphic b.minimize = true ↔
      a.alphabet = b.alphabet ∧ ∀ w, (∀ c ∈ w, c ∈ a.alphabet) →
        (a.run? a.start w = none ∧ b.run? b.start w = none) ∨
          ∃ x y, a.run? a.start w = some x ∧ b.run? b.start w = some y ∧
            a.isAccepting x = b.isAccepting y) ∧
    (a.isTotal = true → b.isTotal = true → a.alphabet = b.alphabet →
      (a.minimize.isIsomorphic b.minimize = true ↔ ∀ w, a.accepts w = b.accepts w)) := by
  have compared := isIsomorphic_minimize_iff_equivalent left.wellFormed right.wellFormed reachedA
    reachedB
  refine ⟨Guarded.minimize_eq_ite left.wellFormed, Guarded.minimize_eq_ite right.wellFormed,
    Guarded.isIsomorphic_eq (wellFormed_minimize left.wellFormed)
      (wellFormed_minimize right.wellFormed), ?_⟩
  rw [compared]
  refine ⟨?_, equivalent_iff_accepts left.wellFormed right.wellFormed⟩
  rw [equivalent_iff_known]
  simp only [outcome_eq_iff]

/-- Behaves as `path`, but from 2 it goes on to 3 and back. -/
def longPath : Dfa :=
  (new ['b', 'a']).applyAll [.addState, .addState, .addState, .setAccepting 2 true,
    .setAccepting 3 true, .addTransition 0 'b' 1, .addTransition 1 'a' 2, .addTransition 2 'b' 3,
    .addTransition 3 'b' 2]

/-- Two automata with gaps, and an automaton without gaps with the minimized one. -/
theorem minimize_decides_equivalence_path :
    path.Built ∧ longPath.Built ∧ path.Reached ∧ longPath.Reached ∧
    Guarded.minimize .stop path = some path.minimize ∧
    Guarded.minimize .wrap longPath = some longPath.minimize ∧
    Guarded.isIsomorphic path.minimize longPath.minimize = some true ∧
    (∀ w, (∀ c ∈ w, c ∈ path.alphabet) →
      (path.run? path.start w = none ∧ longPath.run? longPath.start w = none) ∨
        ∃ x y, path.run? path.start w = some x ∧ longPath.run? longPath.start w = some y ∧
          path.isAccepting x = longPath.isAccepting y) ∧
    onlyEmptySink.isTotal = true ∧ onlyEmptySink.minimize.isTotal = true ∧
    onlyEmptySink.minimize.isIsomorphic onlyEmptySink.minimize.minimize = true := by
  have short : path.Built := (Built.new _).applyAll _
  have long : longPath.Built := (Built.new _).applyAll _
  have sink : onlyEmptySink.Built := (Built.new _).applyAll _
  have reachedLong : longPath.Reached :=
    reached_of_words [[], ['b'], ['b', 'a'], ['b', 'a', 'b']] (by decide)
  have reachedSink : onlyEmptySink.Reached := reached_of_words [[], ['a']] (by decide)
  have isomorphic : path.minimize.isIsomorphic longPath.minimize = true := by cbv
  have total : onlyEmptySink.isTotal = true := by cbv
  have totalMin : onlyEmptySink.minimize.isTotal = true := by
    rw [isTotal_minimize sink.wellFormed, total]
  have fitsShort : path.MarksFit := by decide
  have fitsLong : longPath.MarksFit := by decide
  obtain ⟨filledShort, filledLong, paired, decides, _⟩ :=
    minimize_decides_equivalence short long reached_path reachedLong
  obtain ⟨_, _, _, _, language⟩ := minimize_decides_equivalence sink sink.minimize reachedSink
    (reached_minimize sink.wellFormed reachedSink)
  exact ⟨short, long, reached_path, reachedLong, by rw [filledShort, if_pos fitsShort],
    by rw [filledLong, if_pos fitsLong], by rw [paired, isomorphic], (decides.1 isomorphic).2, total,
    totalMin, (language total totalMin rfl).2 fun w => (accepts_minimize sink.wellFormed w).symm⟩

end Lexing.Dfa
