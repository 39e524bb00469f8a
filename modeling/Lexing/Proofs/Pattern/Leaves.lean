import Lexing.Pattern.Grammar
import Lexing.Proofs.Pattern.Reading

set_option autoImplicit false

namespace Lexing.Pattern

section Written

variable {c : Char}

theorem written_operator (own : c ∈ [' ', '(', ')', '?', '*', '+', '|']) (rest : List Char) :
    written (c :: rest) = written rest := by
  simp only [List.mem_cons, List.not_mem_nil, or_false] at own
  rcases own with rfl | rfl | rfl | rfl | rfl | rfl | rfl <;> rfl

theorem written_escaped (c : Char) (rest : List Char) :
    written ('\\' :: c :: rest) = .char c :: written rest := rfl

theorem written_bracket (first last : Char) (rest : List Char) :
    written ('[' :: first :: '-' :: last :: ']' :: rest) = .range first last :: written rest := rfl

theorem written_literal (literal : isLiteral c = true) (rest : List Char) :
    written (c :: rest) = .char c :: written rest := by
  have plain := not_mem_operators literal
  simp only [operators, List.mem_cons, List.not_mem_nil, or_false, not_or] at plain
  rw [written.eq_def]
  simp [plain, literal]

end Written

/-- What a text of the grammar has written is what it spells. The text ends outside every bracket and
escape, so nothing after it is touched. -/
theorem Spells.written_append {level : Level} {s : List Char} {p : Pattern} (h : Spells level s p)
    (rest : List Char) : written (s ++ rest) = p.leaves ++ written rest := by
  induction h generalizing rest with
  | single _ ih | one _ ih | plain _ ih => exact ih rest
  | bar _ _ left right =>
    rw [List.append_assoc, left, List.cons_append, written_operator (by decide), right, leaves,
      List.append_assoc]
  | more _ _ left right => rw [List.append_assoc, left, right, leaves, List.append_assoc]
  | opt _ ih | star _ ih | plus _ ih =>
    rw [List.append_assoc, ih, List.singleton_append, written_operator (by decide), leaves]
  | spaceBefore _ ih => rw [List.cons_append, written_operator (by decide), ih]
  | spaceAfter _ ih =>
    rw [List.append_assoc, ih, List.singleton_append, written_operator (by decide)]
  | literal literal => exact written_literal literal rest
  | escaped _ => exact written_escaped _ rest
  | bracket _ _ _ => exact written_bracket _ _ rest
  | group _ ih =>
    rw [List.append_assoc, List.cons_append, written_operator (by decide), ih,
      List.singleton_append, written_operator (by decide)]

theorem Spells.written_eq {level : Level} {s : List Char} {p : Pattern} (h : Spells level s p) :
    written s = p.leaves := by
  have whole := h.written_append []
  rwa [List.append_nil, written, List.append_nil] at whole

theorem filter_operator {c : Char} (own : c ∈ operators) (rest : List Char) :
    (c :: rest).filter Text.isAlphanumeric = rest.filter Text.isAlphanumeric :=
  List.filter_cons_of_neg fun alphanumeric =>
    not_mem_operators (isLiteral_of_isAlphanumeric alphanumeric) own

/-- The letters and digits of a text of the grammar are those of the leaves. -/
theorem Spells.filter_isAlphanumeric {level : Level} {s : List Char} {p : Pattern}
    (h : Spells level s p) :
    s.filter Text.isAlphanumeric = p.characters.filter Text.isAlphanumeric := by
  unfold characters
  induction h with
  | single _ ih | one _ ih | plain _ ih => exact ih
  | bar _ _ left right =>
    rw [List.filter_append, left, filter_operator (by decide), right, leaves, List.flatMap_append,
      List.filter_append]
  | more _ _ left right =>
    rw [List.filter_append, left, right, leaves, List.flatMap_append, List.filter_append]
  | opt _ ih | star _ ih | plus _ ih =>
    rw [List.filter_append, filter_operator (by decide), ih, List.filter_nil, List.append_nil, leaves]
  | spaceBefore _ ih => rw [filter_operator (by decide), ih]
  | spaceAfter _ ih =>
    rw [List.filter_append, filter_operator (by decide), ih, List.filter_nil, List.append_nil]
  | literal _ => rfl
  | escaped _ => exact filter_operator (by decide) _
  | @bracket first last _ _ _ =>
    have hyphen : Text.isAlphanumeric '-' = false := by decide
    have closing : Text.isAlphanumeric ']' = false := by decide
    rw [filter_operator (by decide)]
    simp [Leaf.characters, List.filter_cons, hyphen, closing]
  | group _ ih =>
    rw [List.cons_append, filter_operator (by decide), List.filter_append, ih,
      filter_operator (by decide), List.filter_nil, List.append_nil]

theorem Spells.mem_iff_mem_characters {level : Level} {s : List Char} {p : Pattern} {c : Char}
    (h : Spells level s p) (alphanumeric : Text.isAlphanumeric c = true) :
    c ∈ s ↔ c ∈ p.characters := by
  have same : c ∈ s.filter Text.isAlphanumeric ↔ c ∈ p.characters.filter Text.isAlphanumeric := by
    rw [h.filter_isAlphanumeric]
  simpa only [List.mem_filter, alphanumeric, and_true] using same

end Lexing.Pattern
