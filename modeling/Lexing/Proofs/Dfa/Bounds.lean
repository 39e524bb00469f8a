import Lexing.Proofs.Dfa.Quotient
import Lexing.Proofs.Guarded.Isomorphism
import Lexing.Proofs.Guarded.Live

set_option autoImplicit false

namespace Lexing.Dfa

variable {d : Dfa}

theorem fst_apply_of_error {e : Edit} {error : EditError} (failed : (d.apply e).2 = .error error) :
    (d.apply e).1 = d := by
  cases e with
  | addState => cases failed
  | setStart q =>
    rw [apply] at failed ⊢
    split at failed
    · cases failed
    next outside => rw [if_neg outside]
  | setAccepting q value =>
    rw [apply] at failed ⊢
    split at failed
    · cases failed
    next outside => rw [if_neg outside]
  | addTransition source c target =>
    rw [apply] at failed ⊢
    split
    · rfl
    next inside =>
      rw [if_neg inside] at failed
      split
      · rfl
      next below =>
        rw [if_neg below] at failed
        cases found : d.alphabet.index? c with
        | none => rfl
        | some i =>
          rw [found] at failed
          cases failed

/-- The shape of an automaton, and that no index computed from it leaves an array, except that
minimization fails if the marks of all pairs of states have no room in one. -/
theorem guards_hold (built : d.Built) :
    d.alphabet.toList.Pairwise (· < ·) ∧ 0 < d.numStates ∧
    d.table.size = d.numStates * d.alphabet.size ∧ d.origins.size = d.numStates ∧
    d.start < d.numStates ∧ (∀ q, some q ∈ d.table → q < d.numStates) ∧
    (∀ e error, (d.apply e).2 = .error error → (d.apply e).1 = d) ∧
    (∀ e, Guarded.apply d e = some (d.apply e)) ∧
    (∀ q c, Guarded.next d q c = some (d.next? q c)) ∧
    (∀ w, Guarded.accepts d w = some (d.accepts w)) ∧
    Guarded.transitions d = some d.transitions ∧
    Guarded.live d = some d.live ∧
    (∀ o, Guarded.minimize o d = if d.MarksFit then some d.minimize else none) ∧
    ∀ e : Dfa, e.Built → Guarded.isIsomorphic d e = some (d.isIsomorphic e) := by
  have wf := built.wellFormed
  refine ⟨d.alphabet.ascending_chars, wf.nonempty, wf.table_size, wf.origins_size, wf.start_lt,
    wf.cell_lt, fun e error failed => fst_apply_of_error failed, Guarded.apply_eq wf,
    Guarded.next_eq wf, Guarded.accepts_eq wf, Guarded.transitions_eq wf, Guarded.live_eq wf,
    Guarded.minimize_eq_ite wf, fun e other => Guarded.isIsomorphic_eq wf other.wellFormed⟩

/-- The alphabet has two characters and most cells are empty. -/
theorem guards_hold_diamond : diamond.Built ∧ diamond.minimize.Built ∧
    (diamond.apply (.addTransition 5 'c' 4)).2 = .error (.unknownSymbol 'c') ∧
    (diamond.apply (.addTransition 5 'c' 4)).1 = diamond ∧
    some 4 ∈ diamond.table ∧ 4 < diamond.numStates ∧
    Guarded.live diamond = some diamond.live ∧
    Guarded.minimize .stop diamond = some diamond.minimize ∧
    Guarded.minimize .wrap diamond = some diamond.minimize ∧
    Guarded.isIsomorphic diamond diamond.minimize = some (diamond.isIsomorphic diamond.minimize) := by
  have smaller : diamond.minimize.Built := built_diamond.minimize
  have failed : (diamond.apply (.addTransition 5 'c' 4)).2 = .error (.unknownSymbol 'c') := by decide
  have next : diamond.next? 2 'b' = some 4 := by decide
  have entry : some 4 ∈ diamond.table := mem_table_of_next? next
  obtain ⟨_, _, _, _, _, cells, failing, _, _, _, _, live, minimized, compared⟩ :=
    guards_hold built_diamond
  have minimizes : ∀ o, Guarded.minimize o diamond = some diamond.minimize := by
    intro o
    rw [minimized o, if_pos fits_diamond]
  exact ⟨built_diamond, smaller, failed, failing _ _ failed, entry, cells 4 entry, live,
    minimizes .stop, minimizes .wrap, compared _ smaller⟩

/-- With 2 ^ 32 states and no characters, the number of marks wraps around to 0, and the index of the
first pair that is looked at lies outside the empty array. -/
theorem marks_overflow : (Guarded.blank [] (2 ^ 32 - 1)).Built ∧
    (Guarded.blank [] (2 ^ 32 - 1)).numStates = 2 ^ 32 ∧
    (word? .wrap (2 ^ 32 * 2 ^ 32)).bind flags? = some #[] ∧
    Guarded.markIndex .wrap (2 ^ 32) 1 0 = some (2 ^ 32) ∧
    Guarded.isMarked .wrap (2 ^ 32) #[] 1 0 = none ∧
    ∀ o, Guarded.minimize o (Guarded.blank [] (2 ^ 32 - 1)) = none := by
  obtain ⟨built, _, states⟩ := Guarded.blank_spec [] (2 ^ 32 - 1)
  have large : ¬ (Guarded.blank [] (2 ^ 32 - 1)).MarksFit := by
    unfold MarksFit
    rw [states]
    decide
  exact ⟨built, states, rfl, rfl, rfl, fun o => Guarded.minimize_eq_none large⟩

end Lexing.Dfa
