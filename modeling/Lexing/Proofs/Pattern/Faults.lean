import Lexing.Proofs.Pattern.Reading

/- What is wrong with a text that is no pattern. Reading stops at one fault, which may lie inside groups and
behind bars, and the fault decides what is reported. A bar takes an empty pattern on its right for a
missing operand, and so it takes an empty group there, however deep. -/

set_option autoImplicit false

namespace Lexing.Pattern

inductive Cause where
  /-- A pattern without operands. -/
  | blank
  /-- A group without operands. -/
  | emptyGroup
  /-- A bar without an operand on one side. -/
  | bareBar
  /-- A bar with an empty group somewhere on its right. -/
  | hollowBar
  | other (e : SyntaxError)

namespace Cause

def error : Cause → SyntaxError
  | blank | emptyGroup => .empty
  | bareBar | hollowBar => .missingOperand '|'
  | other e => e

def inGroup : Cause → Cause
  | blank => emptyGroup
  | cause => cause

def rightOfBar : Cause → Cause
  | blank => bareBar
  | emptyGroup => hollowBar
  | cause => cause

theorem error_inGroup (cause : Cause) : cause.inGroup.error = cause.error := by
  cases cause <;> rfl

theorem error_rightOfBar {cause : Cause} (apart : cause ≠ other .empty) :
    cause.rightOfBar.error =
      if cause.error = .empty then .missingOperand '|' else cause.error := by
  cases cause with
  | other e => exact (if_neg fun empty => apart (congrArg other empty)).symm
  | _ => rfl

end Cause

/-- A fault that a text begins with, after some operands. -/
inductive Fault : List Pattern → List Char → Cause → Prop where
  | blank : Fault [] [] .blank
  | bareBar {rest : List Char} : Fault [] ('|' :: rest) .bareBar
  | operator {c : Char} {rest : List Char} : c = '?' ∨ c = '*' ∨ c = '+' →
      Fault [] (c :: rest) (.other (.missingOperand c))
  | unclosedGroup {operands : List Pattern} {text : List Char} : splitGroup 0 text = none →
      Fault operands ('(' :: text) (.other .unclosedGroup)
  | unopenedGroup {operands : List Pattern} {rest : List Char} :
      Fault operands (')' :: rest) (.other .unopenedGroup)
  | unclosedBracket {operands : List Pattern} {text : List Char} : splitBracket text = none →
      Fault operands ('[' :: text) (.other .unclosedBracket)
  | invalidRange {operands : List Pattern} {text body rest : List Char} :
      splitBracket text = some (body, rest) → (∀ p, readRange body ≠ .ok p) →
      Fault operands ('[' :: text) (.other (.invalidRange body))
  | danglingEscape {operands : List Pattern} : Fault operands ['\\'] (.other .danglingEscape)
  | invalidEscape {operands : List Pattern} {c : Char} {rest : List Char} : ¬isEscapable c →
      Fault operands ('\\' :: c :: rest) (.other (.invalidEscape c))
  | unsupported {operands : List Pattern} {c : Char} {rest : List Char} : ¬isLiteral c →
      c ∉ operators ∨ c = ']' → Fault operands (c :: rest) (.other (.unsupported c))

/-- The fault that reading a text stops at: after the operands that were read, in the group after them,
or on the right of the bar after them. -/
inductive Stops : List Char → Cause → Prop where
  | here {s text : List Char} {operands : List Pattern} {cause : Cause} :
      Spelled s operands → Fault operands text cause → Stops (s ++ text) cause
  | inGroup {s text body rest : List Char} {operands : List Pattern} {cause : Cause} :
      Spelled s operands → splitGroup 0 text = some (body, rest) → Stops body cause →
      Stops (s ++ '(' :: text) cause.inGroup
  | rightOfBar {s text : List Char} {operands : List Pattern} {cause : Cause} :
      Spelled s operands → operands ≠ [] → Stops text cause →
      Stops (s ++ '|' :: text) cause.rightOfBar

section Errors

variable {operands : List Pattern} {text rest : List Char} {cause : Cause} {e : SyntaxError}

theorem Fault.other_not_mem (h : Fault operands text (.other e)) :
    e ∉ [SyntaxError.empty, .missingOperand '|'] := by
  cases h with
  | operator c => rcases c with rfl | rfl | rfl <;> decide
  | _ => simp

/-- No other error passes for an empty pattern or a bar without an operand. -/
theorem Stops.other_not_mem (h : Stops text cause) (kind : cause = .other e) :
    e ∉ [SyntaxError.empty, .missingOperand '|'] := by
  induction h with
  | here _ fault =>
    subst kind
    exact fault.other_not_mem
  | @inGroup _ _ _ _ _ cause _ _ _ ih => cases cause <;> simp_all [Cause.inGroup]
  | @rightOfBar _ _ _ cause _ _ _ ih => cases cause <;> simp_all [Cause.rightOfBar]

theorem readRange_eq_error_iff {body : List Char} :
    readRange body = .error e ↔ e = .invalidRange body ∧ ∀ p, readRange body ≠ .ok p := by
  rw [readRange.eq_def]
  split
  · split
    · simp
    · simp [eq_comm]
  · simp [eq_comm]

theorem readAfter_error_bar (present : operands ≠ []) (right : readAfter [] rest = .error e) :
    readAfter operands ('|' :: rest) =
      .error (if e = .empty then .missingOperand '|' else e) := by
  rw [readAfter.eq_def]
  simp only [Char.reduceEq, if_true, if_false, or_self]
  split
  next missing => exact absurd (join?_eq_none_iff.1 missing) present
  · rw [right]
    cases e <;> rfl

theorem Fault.readAfter (h : Fault operands text cause) :
    readAfter operands text = .error cause.error := by
  cases h with
  | blank =>
    rw [readAfter.eq_def]
    rfl
  | unclosedGroup unclosed => simp only [readAfter_parenthesis, unclosed, Cause.error]
  | unclosedBracket unclosed => simp only [readAfter_openBracket, unclosed, Cause.error]
  | @invalidRange _ _ body _ split invalid =>
    have refused := readRange_eq_error_iff.2 ⟨rfl, invalid⟩
    simp only [readAfter_openBracket, split, refused, Cause.error]
  | operator c =>
    rw [readAfter.eq_def]
    rcases c with rfl | rfl | rfl <;> simp [Cause.error]
  | unsupported invalid kind =>
    rw [readAfter.eq_def]
    rcases kind with plain | rfl
    · simp only [operators, List.mem_cons, List.not_mem_nil, or_false, not_or] at plain
      simp [plain, invalid, Cause.error]
    · simp [invalid, Cause.error]
  | bareBar | unopenedGroup | danglingEscape =>
    rw [readAfter.eq_def]
    simp [join?, Cause.error]
  | invalidEscape invalid =>
    rw [readAfter.eq_def]
    simp [invalid, Cause.error]

theorem Spelled.readAfter {s : List Char} (h : Spelled s operands) (text : List Char) :
    readAfter [] (s ++ text) = readAfter operands text := by
  induction h generalizing text with
  | @blank s spaces =>
    induction s with
    | nil => rfl
    | cons c rest ih =>
      rw [spaces c List.mem_cons_self, List.cons_append, readAfter_space]
      exact ih fun d mem => spaces d (List.mem_cons_of_mem _ mem)
  | item _ last ih =>
    rw [List.append_assoc, ih]
    exact last.readable _ _

/-- The error is the one of the fault. -/
theorem Stops.readAfter (h : Stops text cause) : readAfter [] text = .error cause.error := by
  induction h with
  | here before fault =>
    rw [before.readAfter]
    exact fault.readAfter
  | inGroup before split _ ih =>
    simp only [before.readAfter, Cause.error_inGroup, readAfter_parenthesis, split, ih]
  | rightOfBar before present inner ih =>
    have apart := fun kind => inner.other_not_mem kind List.mem_cons_self
    rw [before.readAfter, Cause.error_rightOfBar apart]
    exact readAfter_error_bar present ih

theorem Stops.exists_rightOfBar {s : List Char} {left : Pattern} (right : Stops text cause)
    (before : Spelled s operands) (join : join? operands = some left) :
    ∃ whole, Stops (s ++ '|' :: text) whole ∧
      whole.error = if cause.error = .empty then .missingOperand '|' else cause.error := by
  have apart := fun kind => right.other_not_mem kind List.mem_cons_self
  exact ⟨_, .rightOfBar before (ne_nil_of_join? join) right, Cause.error_rightOfBar apart⟩

/-- A text that is refused after some operands has a fault. The induction follows the reader. -/
theorem stops_of_readAfter {s : List Char} (h : readAfter operands text = .error e)
    (before : Spelled s operands) : ∃ cause, Stops (s ++ text) cause ∧ cause.error = e := by
  fun_induction readAfter operands text generalizing s e with
  -- the text is a pattern
  | case2 | case19 => cases h
  -- the end of the text
  | case1 operands join =>
    obtain rfl := join?_eq_none_iff.1 join
    obtain rfl := Except.error.inj h
    exact ⟨_, .here before .blank, rfl⟩
  -- a space
  | case3 operands rest ih =>
    rw [List.append_cons]
    exact ih h before.space
  -- a group
  | case4 operands text split =>
    obtain rfl := Except.error.inj h
    exact ⟨_, .here before (.unclosedGroup split), rfl⟩
  | case5 operands text body rest split inner wrong _ ih =>
    obtain rfl := Except.error.inj h
    obtain ⟨cause, stops, rfl⟩ := ih wrong .nil
    exact ⟨_, .inGroup before split stops, cause.error_inGroup⟩
  | case6 operands text body rest split q inner _ _ ih =>
    have group : Spells .atom ('(' :: body ++ [')']) q := .group (spells_of_readAfter inner .nil)
    rw [splitGroup_eq_some split]
    simpa using ih h (before.atom group)
  | case7 operands rest =>
    obtain rfl := Except.error.inj h
    exact ⟨_, .here before .unopenedGroup, rfl⟩
  -- a bracket
  | case8 operands text split =>
    obtain rfl := Except.error.inj h
    exact ⟨_, .here before (.unclosedBracket split), rfl⟩
  | case9 operands text body rest split e range =>
    obtain rfl := Except.error.inj h
    obtain ⟨rfl, invalid⟩ := readRange_eq_error_iff.1 range
    exact ⟨_, .here before (.invalidRange split invalid), rfl⟩
  | case10 operands text body rest split q range _ _ _ ih =>
    rw [splitBracket_eq_some split]
    simpa using ih h (before.atom (spells_of_readRange range))
  -- a backslash
  | case11 operands =>
    obtain rfl := Except.error.inj h
    exact ⟨_, .here before .danglingEscape, rfl⟩
  | case12 operands c rest escapable _ _ _ _ ih =>
    simpa using ih h (before.atom (.escaped escapable))
  | case13 operands c rest invalid =>
    obtain rfl := Except.error.inj h
    exact ⟨_, .here before (.invalidEscape invalid), rfl⟩
  -- an operator
  | case14 c rest _ _ _ _ _ operator =>
    obtain rfl := Except.error.inj h
    exact ⟨_, .here before (.operator operator), rfl⟩
  | case15 c rest _ _ _ _ _ operator q operands wrapped =>
    rename_i ih
    rw [List.append_cons]
    exact ih h (before.operator operator)
  -- a bar
  | case16 operands rest join =>
    obtain rfl := join?_eq_none_iff.1 join
    obtain rfl := Except.error.inj h
    exact ⟨_, .here before .bareBar, rfl⟩
  | case17 operands rest left join wrong =>
    rename_i ih
    obtain rfl := Except.error.inj h
    obtain ⟨cause, stops, kind⟩ := ih wrong .nil
    obtain ⟨whole, stopsWhole, error⟩ := stops.exists_rightOfBar before join
    exact ⟨whole, stopsWhole, error.trans (if_pos kind)⟩
  | case18 operands rest left join e other wrong =>
    rename_i ih
    obtain rfl := Except.error.inj h
    obtain ⟨cause, stops, rfl⟩ := ih wrong .nil
    obtain ⟨whole, stopsWhole, error⟩ := stops.exists_rightOfBar before join
    exact ⟨whole, stopsWhole, error.trans (if_neg other)⟩
  -- other characters
  | case20 operands c rest _ _ _ _ _ _ _ literal ih =>
    simpa using ih h (before.atom (.literal literal))
  | case21 operands c rest _ _ _ _ _ _ _ invalid =>
    obtain rfl := Except.error.inj h
    refine ⟨_, .here before (.unsupported invalid ?_), rfl⟩
    by_cases closing : c = ']'
    · exact .inr closing
    · exact .inl (by simp [operators, *])

end Errors

/-- A text is refused for exactly the fault that reading it stops at. -/
theorem parse_eq_error_iff (text : String) (e : SyntaxError) :
    parse text = .error e ↔ ∃ cause, Stops text.toList cause ∧ cause.error = e := by
  constructor
  · intro h
    exact stops_of_readAfter h .nil
  · rintro ⟨cause, stops, rfl⟩
    exact stops.readAfter

end Lexing.Pattern
