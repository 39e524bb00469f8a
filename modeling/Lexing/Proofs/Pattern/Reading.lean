import Lexing.Pattern.Grammar
import Lexing.Pattern.Parser
import Lexing.Pattern.Scan

/- Reading accepts exactly the texts of the grammar. A text of the grammar closes every group that it
opens, so a group is cut out where the grammar ends it, and reading an item puts one operand on the
stack. The other way, each operand on the stack is spelled by a piece of the text that was read. -/

set_option autoImplicit false

namespace Lexing.Pattern

/-- The characters with a meaning of their own in a written pattern. -/
def operators : List Char := [' ', '(', ')', '[', ']', '\\', '?', '*', '+', '|']

theorem any_isLiteral_operators : operators.any isLiteral = false := by decide

theorem not_mem_operators {c : Char} (literal : isLiteral c = true) : c ∉ operators := by
  intro mem
  exact List.any_eq_false.1 any_isLiteral_operators c mem literal

theorem not_mem_of_subset {c : Char} {chars : List Char} (literal : isLiteral c = true)
    (inside : chars ⊆ operators) : c ∉ chars :=
  fun mem => not_mem_operators literal (inside mem)

theorem isLiteral_of_isAlphanumeric {c : Char} (alphanumeric : Text.isAlphanumeric c = true) :
    isLiteral c = true := by
  rw [isLiteral, alphanumeric, Bool.or_true]

section Steps

variable {operands : List Pattern} {rest : List Char}

theorem readAfter_nil {p : Pattern} (join : join? operands = some p) :
    readAfter operands [] = .ok p := by
  rw [readAfter.eq_def]
  simp [join]

theorem readAfter_space : readAfter operands (' ' :: rest) = readAfter operands rest := by
  rw [readAfter.eq_def]
  simp

theorem readAfter_parenthesis (text : List Char) :
    readAfter operands ('(' :: text) =
      match splitGroup 0 text with
      | none => .error .unclosedGroup
      | some (body, after) =>
        match readAfter [] body with
        | .error e => .error e
        | .ok p => readAfter (p :: operands) after := by
  rw [readAfter.eq_def]
  simp only [Char.reduceEq, if_true, if_false]
  split
  next unclosed => rw [unclosed]
  next body _ closed => cases inner : readAfter [] body <;> simp only [closed, inner]

theorem readAfter_group {text body : List Char} {p : Pattern}
    (split : splitGroup 0 text = some (body, rest)) (inner : readAfter [] body = .ok p) :
    readAfter operands ('(' :: text) = readAfter (p :: operands) rest := by
  simp only [readAfter_parenthesis, split, inner]

theorem readAfter_openBracket (text : List Char) :
    readAfter operands ('[' :: text) =
      match splitBracket text with
      | none => .error .unclosedBracket
      | some (body, after) =>
        match readRange body with
        | .error e => .error e
        | .ok p => readAfter (p :: operands) after := by
  rw [readAfter.eq_def]
  simp only [Char.reduceEq, if_true, if_false]
  split
  next unclosed => rw [unclosed]
  next body _ closed => cases inner : readRange body <;> simp only [closed, inner]

theorem readAfter_bracket {text body : List Char} {p : Pattern}
    (split : splitBracket text = some (body, rest)) (inner : readRange body = .ok p) :
    readAfter operands ('[' :: text) = readAfter (p :: operands) rest := by
  simp only [readAfter_openBracket, split, inner]

theorem readAfter_escaped {c : Char} (escapable : isEscapable c = true) :
    readAfter operands ('\\' :: c :: rest) = readAfter (char c :: operands) rest := by
  rw [readAfter.eq_def]
  simp [escapable]

theorem readAfter_operator {c : Char} {p q : Pattern}
    (wrapped : (c, q) ∈ [('?', opt p), ('*', star p), ('+', plus p)]) :
    readAfter (p :: operands) (c :: rest) = readAfter (q :: operands) rest := by
  simp only [List.mem_cons, List.not_mem_nil, or_false, Prod.mk.injEq] at wrapped
  rw [readAfter.eq_def]
  rcases wrapped with ⟨rfl, rfl⟩ | ⟨rfl, rfl⟩ | ⟨rfl, rfl⟩ <;> simp

theorem readAfter_literal {c : Char} (literal : isLiteral c = true) :
    readAfter operands (c :: rest) = readAfter (char c :: operands) rest := by
  have plain := not_mem_operators literal
  simp only [operators, List.mem_cons, List.not_mem_nil, or_false, not_or] at plain
  rw [readAfter.eq_def]
  simp [plain, literal]

theorem readAfter_bar {left right : Pattern} (join : join? operands = some left)
    (more : readAfter [] rest = .ok right) :
    readAfter operands ('|' :: rest) = .ok (alt left right) := by
  rw [readAfter.eq_def]
  simp [join, more]

end Steps

theorem readRange_of_le {first last : Char} (alphanumericFirst : Text.isAlphanumeric first = true)
    (alphanumericLast : Text.isAlphanumeric last = true) (ordered : first ≤ last) :
    readRange [first, '-', last] = .ok (range first last) := by
  rw [readRange, if_pos ⟨alphanumericFirst, alphanumericLast, ordered⟩]

theorem spells_of_readRange {body : List Char} {p : Pattern} (h : readRange body = .ok p) :
    Spells .atom ('[' :: body ++ [']']) p := by
  rw [readRange.eq_def] at h
  split at h
  next first last =>
    split at h
    next ends =>
      obtain ⟨alphanumericFirst, alphanumericLast, ordered⟩ := ends
      obtain rfl := Except.ok.inj h
      exact .bracket alphanumericFirst alphanumericLast ordered
    · cases h
  · cases h

theorem ne_closing {c : Char} (alphanumeric : Text.isAlphanumeric c = true) : c ≠ ']' := by
  rintro rfl
  exact not_mem_operators (isLiteral_of_isAlphanumeric alphanumeric) (by decide)

theorem splitBracket_range {first last : Char} {rest : List Char}
    (alphanumericFirst : Text.isAlphanumeric first = true)
    (alphanumericLast : Text.isAlphanumeric last = true) :
    splitBracket (first :: '-' :: last :: ']' :: rest) = some ([first, '-', last], rest) := by
  simp [splitBracket, ne_closing alphanumericFirst, ne_closing alphanumericLast]

theorem splitGroup_cons {c : Char} (shown : c ≠ '\\') (inner : c ≠ ')') (depth : Nat)
    (rest : List Char) :
    splitGroup depth (c :: rest) =
      (splitGroup (if c = '(' then depth + 1 else depth) rest).map fun (body, after) =>
        (c :: body, after) := by
  cases depth <;> simp [splitGroup, shown, inner]

/-- A text that neither closes a group around it nor leaves one open. -/
def Balanced (s : List Char) : Prop :=
  ∀ depth rest, splitGroup depth (s ++ rest) =
    (splitGroup depth rest).map fun (body, after) => (s ++ body, after)

theorem Balanced.append {s t : List Char} (left : Balanced s) (right : Balanced t) :
    Balanced (s ++ t) := by
  intro depth rest
  rw [List.append_assoc, left, right, Option.map_map]
  simp [Function.comp_def]

theorem balanced_singleton {c : Char} (plain : c ∉ ['\\', '(', ')']) : Balanced [c] := by
  intro depth rest
  simp only [List.mem_cons, List.not_mem_nil, or_false, not_or] at plain
  obtain ⟨shown, opening, inner⟩ := plain
  simp [splitGroup_cons shown inner, opening]

theorem balanced_of_isLiteral {c : Char} (literal : isLiteral c = true) : Balanced [c] :=
  balanced_singleton (not_mem_of_subset literal (by decide))

theorem balanced_escaped (c : Char) : Balanced ['\\', c] := by
  intro depth rest
  simp [splitGroup]

theorem Balanced.group {s : List Char} (inner : Balanced s) : Balanced ('(' :: s ++ [')']) := by
  intro depth rest
  have closed : splitGroup (depth + 1) (')' :: rest) =
      (splitGroup depth rest).map fun (body, after) => (')' :: body, after) := by
    simp [splitGroup]
  simp [splitGroup_cons, inner (depth + 1), closed, Function.comp_def]

theorem Balanced.splitGroup {s : List Char} (inner : Balanced s) (rest : List Char) :
    splitGroup 0 (s ++ ')' :: rest) = some (s, rest) := by
  rw [inner]
  simp [Pattern.splitGroup]

theorem Spells.balanced {level : Level} {s : List Char} {p : Pattern} (h : Spells level s p) :
    Balanced s := by
  induction h with
  | single _ ih => exact ih
  | bar _ _ left right => exact left.append ((balanced_singleton (by decide)).append right)
  | one _ ih => exact ih
  | more _ _ left right => exact left.append right
  | plain _ ih => exact ih
  | opt _ ih => exact ih.append (balanced_singleton (by decide))
  | star _ ih => exact ih.append (balanced_singleton (by decide))
  | plus _ ih => exact ih.append (balanced_singleton (by decide))
  | spaceBefore _ ih => exact (balanced_singleton (by decide)).append ih
  | spaceAfter _ ih => exact ih.append (balanced_singleton (by decide))
  | literal literal => exact balanced_of_isLiteral literal
  | escaped _ => exact balanced_escaped _
  | @bracket first last alphanumericFirst alphanumericLast _ =>
    have first := balanced_of_isLiteral (isLiteral_of_isAlphanumeric alphanumericFirst)
    have last := balanced_of_isLiteral (isLiteral_of_isAlphanumeric alphanumericLast)
    have hyphen : Balanced ['-'] := balanced_singleton (by decide)
    have opening : Balanced ['['] := balanced_singleton (by decide)
    exact opening.append (first.append (hyphen.append (last.append (balanced_singleton (by decide)))))
  | group _ ih => exact ih.group

/-- A text of the grammar ends outside every bracket and escape. -/
theorem Spells.modeAfter_eq {level : Level} {s : List Char} {p : Pattern}
    (h : Spells level s p) :
    modeAfter s = .plain := by
  induction h with
  | single _ ih | one _ ih | plain _ ih => exact ih
  | bar _ _ left right => exact (modeAfter_append left).trans right
  | more _ _ left right => exact (modeAfter_append left).trans right
  | opt _ ih | star _ ih | plus _ ih | spaceAfter _ ih => exact modeAfter_snoc ih (by decide)
  | spaceBefore _ ih => exact ih
  | literal literal => exact modeAfter_snoc (s := []) rfl (not_mem_of_subset literal (by decide))
  | escaped _ => rfl
  | @bracket first last alphanumericFirst alphanumericLast _ =>
    simp [modeAfter, Mode.next, ne_closing alphanumericFirst, ne_closing alphanumericLast]
  | @group s p _ ih => exact modeAfter_snoc (s := '(' :: s) ih (by decide)

/-- What it is to read a text of each level: an item puts its pattern on the operands, a sequence
leaves operands that join to its pattern, and an alternation is read to the end. -/
def Readable : Level → List Char → Pattern → Prop
  | .alternation, s, p => readAfter [] s = .ok p
  | .sequence, s, p => ∃ operands, join? operands = some p ∧
      ∀ rest, readAfter [] (s ++ rest) = readAfter operands rest
  | .item, s, p | .atom, s, p => ∀ operands rest,
      readAfter operands (s ++ rest) = readAfter (p :: operands) rest

theorem Spells.readable {level : Level} {s : List Char} {p : Pattern} (h : Spells level s p) :
    Readable level s p := by
  induction h with
  | single _ ih =>
    obtain ⟨operands, join, read⟩ := ih
    have all := read []
    rw [List.append_nil, readAfter_nil join] at all
    exact all
  | bar _ _ left right =>
    obtain ⟨operands, join, read⟩ := left
    exact (read _).trans (readAfter_bar join right)
  | one _ ih => exact ⟨_, rfl, ih []⟩
  | @more s t p q _ _ left right =>
    obtain ⟨operands, join, read⟩ := left
    refine ⟨q :: operands, by simp [join?, join], fun rest => ?_⟩
    rw [List.append_assoc, read, right]
  | plain _ ih => exact ih
  | opt _ ih | star _ ih | plus _ ih =>
    intro operands rest
    rw [List.append_assoc, ih]
    exact readAfter_operator (by simp)
  | spaceBefore _ ih =>
    intro operands rest
    rw [List.cons_append, readAfter_space, ih]
  | spaceAfter _ ih =>
    intro operands rest
    rw [List.append_assoc, ih]
    exact readAfter_space
  | literal literal => exact fun operands rest => readAfter_literal literal
  | escaped escapable => exact fun operands rest => readAfter_escaped escapable
  | bracket alphanumericFirst alphanumericLast ordered =>
    intro operands rest
    exact readAfter_bracket (splitBracket_range alphanumericFirst alphanumericLast)
      (readRange_of_le alphanumericFirst alphanumericLast ordered)
  | @group s p inner ih =>
    intro operands rest
    rw [List.append_assoc]
    exact readAfter_group (inner.balanced.splitGroup rest) ih

/-- A text that spells some operands, each as an item, the last of them first in the list. Without
operands it holds spaces only. -/
inductive Spelled : List Char → List Pattern → Prop where
  | blank {s : List Char} : (∀ c ∈ s, c = ' ') → Spelled s []
  | item {s t : List Char} {operands : List Pattern} {p : Pattern} :
      Spelled s operands → Spells .item t p → Spelled (s ++ t) (p :: operands)

theorem Spelled.nil : Spelled [] [] := .blank (by simp)

theorem Spelled.atom {s t : List Char} {operands : List Pattern} {p : Pattern}
    (before : Spelled s operands) (last : Spells .atom t p) : Spelled (s ++ t) (p :: operands) :=
  before.item last.plain

theorem Spelled.space {s : List Char} {operands : List Pattern} (h : Spelled s operands) :
    Spelled (s ++ [' ']) operands := by
  cases h with
  | blank spaces =>
    refine .blank fun c mem => ?_
    rcases List.mem_append.1 mem with old | new
    · exact spaces c old
    · exact List.mem_singleton.1 new
  | item before last =>
    rw [List.append_assoc]
    exact before.item last.spaceAfter

/-- So does a text that spells some operands. -/
theorem Spelled.modeAfter_eq {s : List Char} {operands : List Pattern} (h : Spelled s operands) :
    modeAfter s = .plain := by
  induction h with
  | blank spaces => exact modeAfter_spaces spaces
  | item _ last ih => exact (modeAfter_append ih).trans last.modeAfter_eq

/-- A postfix operator applies to the last operand. -/
theorem Spelled.operator {s : List Char} {operands : List Pattern} {p : Pattern} {c : Char}
    (h : Spelled s (p :: operands)) (kind : c = '?' ∨ c = '*' ∨ c = '+') :
    Spelled (s ++ [c]) ((if c = '?' then p.opt else if c = '*' then p.star else p.plus) :: operands) := by
  cases h with
  | item before last =>
    rw [List.append_assoc]
    rcases kind with rfl | rfl | rfl
    · exact before.item last.opt
    · exact before.item last.star
    · exact before.item last.plus

theorem Spells.blank {s t : List Char} {p : Pattern} (spaces : ∀ c ∈ s, c = ' ')
    (item : Spells .item t p) : Spells .item (s ++ t) p := by
  induction s with
  | nil => exact item
  | cons c rest ih =>
    rw [spaces c (List.mem_cons_self ..)]
    exact (ih fun d mem => spaces d (List.mem_cons_of_mem _ mem)).spaceBefore

theorem Spelled.sequence {s : List Char} {operands : List Pattern} {p : Pattern}
    (h : Spelled s operands) (join : join? operands = some p) : Spells .sequence s p := by
  induction h generalizing p with
  | blank _ => cases join
  | @item s t operands q before last ih =>
    rw [join?] at join
    split at join
    next empty =>
      obtain rfl := Option.some.inj join
      cases before with
      | blank spaces => exact (last.blank spaces).one
      | item _ _ => simp at empty
    next left some =>
      obtain rfl := Option.some.inj join
      exact (ih some).more last

/-- If the operands are spelled by what was read before them, the pattern is spelled by all of it. The
induction follows the reader, whose branches stand here in its own order. -/
theorem spells_of_readAfter {operands : List Pattern} {text s : List Char} {p : Pattern}
    (h : readAfter operands text = .ok p) (before : Spelled s operands) :
    Spells .alternation (s ++ text) p := by
  fun_induction readAfter operands text generalizing s p with
  -- the text is refused
  | case1 | case4 | case5 | case7 | case8 | case9 | case11 | case13 | case14 | case16 | case17
  | case18 | case21 => cases h
  -- the end of the text
  | case2 operands q join =>
    obtain rfl := Except.ok.inj h
    rw [List.append_nil]
    exact (before.sequence join).single
  -- a space
  | case3 operands rest ih =>
    rw [List.append_cons]
    exact ih h before.space
  -- a group
  | case6 operands text body rest split q inner _ ihInner ih =>
    have group : Spells .atom ('(' :: body ++ [')']) q :=
      .group (ihInner inner .nil)
    have whole := ih h (before.atom group)
    rw [splitGroup_eq_some split]
    simpa using whole
  -- a bracket
  | case10 operands text body rest split q range _ _ _ ih =>
    have whole := ih h (before.atom (spells_of_readRange range))
    rw [splitBracket_eq_some split]
    simpa using whole
  -- an escaped character
  | case12 operands c rest escapable _ _ _ _ ih =>
    simpa using ih h (before.atom (.escaped escapable))
  -- an operator
  | case15 c rest _ _ _ _ _ operator q operands wrapped =>
    rename_i ih
    rw [List.append_cons]
    exact ih h (before.operator operator)
  -- a bar
  | case19 operands rest left join right more _ _ _ _ _ _ ih =>
    obtain rfl := Except.ok.inj h
    exact .bar (before.sequence join) (ih more .nil)
  -- a literal character
  | case20 operands c rest _ _ _ _ _ _ _ literal ih =>
    simpa using ih h (before.atom (.literal literal))

/-- A spelled pattern can be written again. -/
theorem Spells.wellFormed {level : Level} {s : List Char} {p : Pattern} (h : Spells level s p) :
    p.WellFormed := by
  induction h with
  | single _ ih | one _ ih | plain _ ih | group _ ih => exact ih
  | bar _ _ left right | more _ _ left right => exact ⟨left, right⟩
  | opt _ ih | star _ ih | plus _ ih | spaceBefore _ ih | spaceAfter _ ih => exact ih
  | literal literal => exact .inl literal
  | escaped escapable => exact .inr escapable
  | bracket alphanumericFirst alphanumericLast ordered =>
    exact ⟨alphanumericFirst, alphanumericLast, ordered⟩

/-- Reading a text gives a pattern exactly when the grammar spells that pattern with the text. -/
theorem parse_eq_ok_iff (text : String) (p : Pattern) :
    parse text = .ok p ↔ Spells .alternation text.toList p := by
  constructor
  · intro h
    exact spells_of_readAfter h .nil
  · intro h
    exact h.readable

end Lexing.Pattern
