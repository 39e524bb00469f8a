import Lexing.Proofs.Dfa.Canonical
import Lexing.Proofs.Nfa.WellFormed
import Lexing.Proofs.Pattern.Automaton
import Lexing.Proofs.Pattern.Reading
import Lexing.Regex

set_option autoImplicit false

namespace Lexing

namespace Pattern

/-- Every operator, character and range of a pattern has a character of the text to itself. -/
theorem Spells.weight_le_length {level : Level} {s : List Char} {p : Pattern}
    (h : Spells level s p) : p.weight ≤ s.length := by
  induction h with
  | single _ ih | one _ ih | plain _ ih => exact ih
  | bar _ _ left right =>
    rw [weight, List.length_append, List.length_cons]
    omega
  | more _ _ left right =>
    rw [weight, List.length_append]
    omega
  | opt _ ih | star _ ih | plus _ ih =>
    rw [weight, List.length_append, List.length_singleton]
    omega
  | spaceBefore _ ih =>
    rw [List.length_cons]
    omega
  | spaceAfter _ ih =>
    rw [List.length_append]
    omega
  | literal _ => exact Nat.le_refl 1
  | escaped _ => exact Nat.le_succ 1
  | bracket _ _ _ => exact Nat.le_add_left 1 4
  | group _ ih =>
    rw [List.length_append, List.length_cons]
    omega

theorem WellFormed.lastFactor {p : Pattern} (wf : p.WellFormed) : p.lastFactor.WellFormed := by
  induction p with
  | seq left right _ ihRight => exact ihRight wf.2
  | char | range | alt | opt | star | plus => exact wf

/-- The pattern of a text with fewer than half as many characters as there may be states has an
automaton. -/
theorem exists_toNfa?_of_parse {text : String} {p : Pattern} (short : text.length < 2 ^ 63)
    (parsed : parse text = .ok p) : ∃ n, p.toNfa? = some n := by
  have spelled : Spells .alternation text.toList p := spells_of_readAfter parsed .nil
  have light := spelled.weight_le_length
  refine exists_toNfa? ?_ fun first last same => ?_
  · rw [String.length_toList] at light
    rw [maxStates]
    omega
  · have wf := spelled.wellFormed.lastFactor
    rw [same] at wf
    exact wf.2.2

end Pattern

namespace Regex

/-- The automaton of a compiled pattern accepts the words of the pattern. -/
theorem accepts_iff_matches {p : Pattern} {n : Nfa} (made : p.toNfa? = some n)
    (w : List Char) : n.determinize.minimize.accepts w = true ↔ p.Matches w := by
  rw [Nfa.accepts_determinize_minimize (Pattern.built_of_toNfa? made).wellFormed]
  exact Pattern.accepts_of_toNfa? made

end Regex

end Lexing
