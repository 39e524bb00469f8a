import Lexing.Proofs.Pattern.Faults

/- A bar that is reported for a missing operand. An empty side of it ends with the text, a parenthesis or
another bar, which a group that is read for itself does not hold. So what is proved of a part of a text
speaks of all that stands around it. -/

set_option autoImplicit false

namespace Lexing.Pattern

section Places

variable {s text : List Char} {cause : Cause}

theorem Spelled.blank_of_nil (h : Spelled s []) : ∀ c ∈ s, c = ' ' := by
  cases h with
  | blank spaces => exact spaces

theorem Stops.of_blank (h : Stops text cause) (kind : cause = .blank) : ∀ c ∈ text, c = ' ' := by
  cases h with
  | here before fault =>
    subst kind
    cases fault
    rw [List.append_nil]
    exact before.blank_of_nil
  | @inGroup _ _ _ _ _ cause => cases cause <;> cases kind
  | @rightOfBar _ _ _ cause => cases cause <;> cases kind

theorem Stops.hasEmptyGroup (h : Stops text cause) (kind : cause = .emptyGroup) :
    HasEmptyGroup text := by
  induction h with
  | here _ fault =>
    subst kind
    cases fault
  | @inGroup s _ body rest _ cause before split inner ih =>
    rw [splitGroup_eq_some split]
    cases cause with
    | blank => exact ⟨s, body, rest, rfl, before.modeAfter_eq, inner.of_blank rfl⟩
    | emptyGroup =>
      rw [List.append_cons]
      exact (ih rfl).context (modeAfter_snoc before.modeAfter_eq (by decide)) _
    | _ => cases kind
  | @rightOfBar _ _ _ cause => cases cause <;> cases kind

theorem Stops.hasHollowBar (h : Stops text cause) (kind : cause = .hollowBar) :
    HasHollowBar text := by
  induction h with
  | here _ fault =>
    subst kind
    cases fault
  | @inGroup _ _ body rest _ cause before split _ ih =>
    cases cause with
    | hollowBar =>
      rw [splitGroup_eq_some split, List.append_cons]
      exact (ih rfl).context (modeAfter_snoc before.modeAfter_eq (by decide)) _
    | _ => cases kind
  | @rightOfBar s text _ cause before _ right ih =>
    cases cause with
    | emptyGroup => exact ⟨s, text, rfl, before.modeAfter_eq, right.hasEmptyGroup rfl⟩
    | hollowBar =>
      have bar := (ih rfl).context (modeAfter_snoc before.modeAfter_eq (c := '|') (by decide)) []
      simpa using bar
    | _ => cases kind

/-- A part of the text may end the empty side of a bar, so this speaks of the text around it too. -/
theorem Stops.hasBareBar (h : Stops text cause) (kind : cause = .bareBar) (before after : List Char)
    (plain : modeAfter before = .plain) (left : emptyBefore before = true)
    (right : emptyAfter after = true) : HasBareBar (before ++ (text ++ after)) := by
  induction h generalizing before after with
  | @here s _ _ _ spelled fault =>
    subst kind
    cases fault with
    | @bareBar rest =>
      have spaces := spelled.blank_of_nil
      refine ⟨before ++ s, rest ++ after, by simp, ?_, .inl (emptyBefore_spaces spaces left)⟩
      rw [modeAfter_append plain, spelled.modeAfter_eq]
  | @inGroup s _ body rest _ cause spelled split _ ih =>
    cases cause with
    | bareBar =>
      have opened : modeAfter (before ++ s) = .plain := by
        rw [modeAfter_append plain, spelled.modeAfter_eq]
      have bar := ih rfl (before ++ s ++ ['(']) (')' :: (rest ++ after))
        (modeAfter_snoc opened (by decide)) (emptyBefore_snoc opened (by decide)) rfl
      rw [splitGroup_eq_some split]
      simpa using bar
    | _ => cases kind
  | @rightOfBar s rest _ cause spelled _ inner ih =>
    have opened : modeAfter (before ++ s) = .plain := by
      rw [modeAfter_append plain, spelled.modeAfter_eq]
    cases cause with
    | blank =>
      exact ⟨before ++ s, rest ++ after, by simp, opened,
        .inr (emptyAfter_spaces (inner.of_blank rfl) right)⟩
    | bareBar =>
      have bar := ih rfl (before ++ s ++ ['|']) after (modeAfter_snoc opened (by decide))
        (emptyBefore_snoc opened (by decide)) right
      simpa using bar
    | _ => cases kind

end Places

/-- A bar is reported for a missing operand if reading stops at a bar with an empty side, or if it stops
at an empty group on the right of some bar, and for no other fault. -/
theorem parse_eq_missingBar_iff (text : String) :
    parse text = .error (.missingOperand '|') ↔
      Stops text.toList .bareBar ∧ HasBareBar text.toList ∨
      Stops text.toList .hollowBar ∧ HasHollowBar text.toList := by
  rw [parse_eq_error_iff]
  constructor
  · rintro ⟨cause, stops, error⟩
    cases cause with
    | bareBar =>
      have bar := stops.hasBareBar rfl [] [] rfl rfl rfl
      rw [List.nil_append, List.append_nil] at bar
      exact .inl ⟨stops, bar⟩
    | hollowBar => exact .inr ⟨stops, stops.hasHollowBar rfl⟩
    | other e => exact absurd (by simp [← error, Cause.error]) (stops.other_not_mem rfl)
    | blank | emptyGroup => cases error
  · rintro (⟨stops, -⟩ | ⟨stops, -⟩)
    · exact ⟨_, stops, rfl⟩
    · exact ⟨_, stops, rfl⟩

/-- The bar has both of its operands here. -/
theorem missingBar_of_emptyGroup : parse "a|()" = .error (.missingOperand '|') ∧
    ¬HasBareBar "a|()".toList := by
  constructor
  · have operand : Spelled ['a'] [char 'a'] := Spelled.nil.atom (.literal (by decide))
    have group : Stops ['(', ')'] .emptyGroup := .inGroup .nil rfl (.here .nil .blank)
    exact (Stops.rightOfBar operand (by simp) group).readAfter
  · rintro ⟨before, after, text, -, side⟩
    have chars : "a|()".toList = ['a', '|', '(', ')'] := rfl
    obtain ⟨_, rfl, rfl, rfl⟩ : ∃ rest, before = 'a' :: rest ∧ rest = [] ∧ after = ['(', ')'] := by
      simpa [chars, List.cons_eq_append_iff] using text
    exact absurd side (by decide)

end Lexing.Pattern
