import Lexing.Proofs.Pattern.Faults

set_option autoImplicit false

namespace Lexing.Pattern

/-- The spaces of a text do not matter for the place where a group is closed. The search for it pairs
backslashes as the reader does, although it looks into brackets. -/
theorem splitGroup_unspaced {mode : Mode} (own : mode ≠ .escaped) (depth : Nat) (text : List Char) :
    splitGroup depth (unspaced mode text) = (splitGroup depth text).map fun (body, after) =>
      (unspaced mode body, unspaced (body.foldl Mode.next mode) after) := by
  fun_induction splitGroup depth text generalizing mode with
  | case1 => rfl
  | case2 depth c rest ih =>
    rw [unspaced_backslash own, splitGroup, ih (Mode.next_backslash own c)]
    simp [Function.comp_def, unspaced_backslash own]
  | case3 rest _ =>
    rw [unspaced_cons (by decide), Mode.next_closing own]
    simp [splitGroup, unspaced]
  | case4 rest depth _ ih =>
    rw [unspaced_cons (by decide), Mode.next_closing own]
    simp [splitGroup, ih own, Function.comp_def, unspaced_cons, Mode.next_closing own]
  | case5 depth c rest shown other ih =>
    by_cases last : c = '\\'
    · -- nothing follows the backslash
      subst last
      cases rest with
      | nil => cases mode <;> rfl
      | cons d more => exact (shown d more rfl rfl).elim
    by_cases drop : mode = .plain ∧ c = ' '
    · obtain ⟨rfl, rfl⟩ := drop
      have next := ih own
      simp only [Char.reduceEq, if_false] at next
      simp [unspaced_space, next, Function.comp_def, Mode.next]
    · have next := ih (Mode.next_ne_escaped own last)
      simp [unspaced, drop, splitGroup_cons last other, next, Function.comp_def]

theorem splitBracket_unspaced (text : List Char) :
    splitBracket (unspaced .bracket text) = (splitBracket text).map fun (body, after) =>
      (body, unspaced .plain after) := by
  induction text with
  | nil => rfl
  | cons c rest ih =>
    rw [unspaced_hidden (by decide), splitBracket, splitBracket, Mode.next]
    split
    · rfl
    · rw [ih, Option.map_map, Option.map_map]
      rfl

/-- The insignificant spaces of a text change nothing in how it is read after some operands. -/
theorem readAfter_unspaced (operands : List Pattern) (text : List Char) :
    readAfter operands (unspaced .plain text) = readAfter operands text := by
  fun_induction readAfter operands text with
  -- the end of the text
  | case1 operands join =>
    obtain rfl := join?_eq_none_iff.1 join
    exact Fault.blank.readAfter
  | case2 operands p join => exact readAfter_nil join
  -- a space
  | case3 operands rest ih =>
    rw [unspaced_space]
    exact ih
  -- a group
  | case4 operands text split =>
    rw [unspaced_plain (by decide), readAfter_parenthesis, splitGroup_unspaced (by decide), split]
    rfl
  | case5 operands text body rest split e wrong _ ih =>
    rw [unspaced_plain (by decide), readAfter_parenthesis, splitGroup_unspaced (by decide), split]
    simp only [Option.map_some, ih, wrong]
  | case6 operands text body rest split p inner _ ihInner ih =>
    -- a body that was read leaves no bracket open
    have closed : body.foldl Mode.next .plain = .plain :=
      (spells_of_readAfter inner .nil).modeAfter_eq
    rw [unspaced_plain (by decide), readAfter_parenthesis, splitGroup_unspaced (by decide), split]
    simp only [Option.map_some, ihInner, inner, closed, ih]
  | case7 operands rest =>
    rw [unspaced_plain (by decide)]
    exact Fault.unopenedGroup.readAfter
  -- a bracket
  | case8 operands text split =>
    rw [unspaced_openBracket, readAfter_openBracket, splitBracket_unspaced, split]
    rfl
  | case9 operands text body rest split e range =>
    rw [unspaced_openBracket, readAfter_openBracket, splitBracket_unspaced, split]
    simp only [Option.map_some, range]
  | case10 operands text body rest split p range _ _ _ ih =>
    rw [unspaced_openBracket, readAfter_openBracket, splitBracket_unspaced, split]
    simp only [Option.map_some, range, ih]
  -- a backslash
  | case11 operands => exact Fault.danglingEscape.readAfter
  | case12 operands c rest escapable _ _ _ _ ih =>
    rw [unspaced_backslash (by decide), readAfter_escaped escapable]
    exact ih
  | case13 operands c rest invalid =>
    rw [unspaced_backslash (by decide)]
    exact (Fault.invalidEscape invalid).readAfter
  -- an operator
  | case14 c rest _ _ _ _ _ operator =>
    have own : c ∉ [' ', '\\', '['] := by simp [*]
    rw [unspaced_plain own]
    exact (Fault.operator operator).readAfter
  | case15 c rest _ _ _ _ _ operator p operands wrapped =>
    rename_i ih
    have own : c ∉ [' ', '\\', '['] := by simp [*]
    have listed : (c, wrapped) ∈ [('?', opt p), ('*', star p), ('+', plus p)] := by
      rcases operator with rfl | rfl | rfl <;> simp [wrapped]
    rw [unspaced_plain own, readAfter_operator listed, ih]
  -- a bar
  | case16 operands rest join =>
    obtain rfl := join?_eq_none_iff.1 join
    rw [unspaced_plain (by decide)]
    exact Fault.bareBar.readAfter
  | case17 operands rest left join wrong =>
    rename_i ih
    have present := ne_nil_of_join? join
    rw [unspaced_plain (by decide), readAfter_error_bar present (ih.trans wrong), if_pos rfl]
  | case18 operands rest left join e other wrong =>
    rename_i ih
    have present := ne_nil_of_join? join
    rw [unspaced_plain (by decide), readAfter_error_bar present (ih.trans wrong), if_neg other]
  | case19 operands rest left join right more _ _ _ _ _ _ ih =>
    rw [unspaced_plain (by decide)]
    exact readAfter_bar join (ih.trans more)
  -- other characters
  | case20 operands c rest _ _ _ _ _ _ _ literal ih =>
    have own : c ∉ [' ', '\\', '['] := by simp [*]
    rw [unspaced_plain own, readAfter_literal literal]
    exact ih
  | case21 operands c rest _ _ _ _ _ _ _ invalid =>
    have own : c ∉ [' ', '\\', '['] := by simp [*]
    rw [unspaced_plain own]
    refine (Fault.unsupported invalid ?_).readAfter
    by_cases closing : c = ']'
    · exact .inr closing
    · exact .inl (by simp [operators, *])

/-- A space that is neither escaped nor in a bracket can be left out of a text: the text spells the same
pattern then, or is refused for the same reason. -/
theorem parse_append_space (before after : String) (plain : modeAfter before.toList = .plain) :
    parse (before ++ " " ++ after) = parse (before ++ after) := by
  have same : unspaced .plain (before ++ " " ++ after).toList =
      unspaced .plain (before ++ after).toList := by
    have text : (before ++ " " ++ after).toList = before.toList ++ ' ' :: after.toList := by simp
    rw [text, String.toList_append, unspaced_append, unspaced_append, ← modeAfter, plain,
      unspaced_space]
  calc parse (before ++ " " ++ after)
    _ = readAfter [] (unspaced .plain (before ++ " " ++ after).toList) :=
      (readAfter_unspaced [] _).symm
    _ = readAfter [] (unspaced .plain (before ++ after).toList) := by rw [same]
    _ = parse (before ++ after) := readAfter_unspaced [] _

/-- The backslash hides the closing bracket from the search for the closing parenthesis only. -/
theorem parse_append_space_inGroup : modeAfter "([a-\\]".toList = .plain ∧
    parse ("([a-\\]" ++ " " ++ ")*") = parse ("([a-\\]" ++ ")*") ∧
    parse "([a-\\] )*" = .error (.invalidRange ['a', '-', '\\']) := by
  have refused : readRange ['a', '-', '\\'] = .error (.invalidRange ['a', '-', '\\']) := by
    rw [readRange, if_neg (by decide)]
  have fault : Stops ['[', 'a', '-', '\\', ']', ' '] (.other (.invalidRange ['a', '-', '\\'])) :=
    .here .nil (.invalidRange rfl (readRange_eq_error_iff.1 refused).2)
  have whole : Stops "([a-\\] )*".toList (.other (.invalidRange ['a', '-', '\\'])) :=
    .inGroup .nil rfl fault
  exact ⟨by decide, parse_append_space _ _ (by decide), whole.readAfter⟩

end Lexing.Pattern
