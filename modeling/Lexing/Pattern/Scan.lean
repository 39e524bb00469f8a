/- What a character of a written pattern stands for, as far as the text before it tells: a part of the
pattern itself, an escaped character, or a part of a bracket. An operand may be missing beside a bar of
the pattern itself only, and only a space of the pattern itself can be left out. -/

set_option autoImplicit false

namespace Lexing.Pattern

/-- What the next character of a text is a part of. -/
inductive Mode where
  | plain
  | escaped
  | bracket
  deriving DecidableEq, Repr

/-- A backslash escapes the character after it, and a bracket ends with the first closing one. -/
def Mode.next : Mode → Char → Mode
  | plain, c => if c = '\\' then escaped else if c = '[' then bracket else plain
  | escaped, _ => plain
  | bracket, c => if c = ']' then plain else bracket

def modeAfter (text : List Char) : Mode := text.foldl Mode.next .plain

/-- What is left of a text without its spaces outside escapes and brackets. -/
def unspaced : Mode → List Char → List Char
  | _, [] => []
  | mode, c :: rest =>
    if mode = .plain ∧ c = ' ' then unspaced mode rest else c :: unspaced (mode.next c) rest

def isSpace (c : Char) : Bool := c = ' '

/-- Whether a text ends with spaces after its beginning, an opening parenthesis or a bar. -/
def emptyBefore (before : List Char) : Bool :=
  match before.reverse.dropWhile isSpace with
  | [] => true
  | c :: earlier => c ∈ ['(', '|'] && modeAfter earlier.reverse = .plain

/-- Whether a text begins with spaces before its end, a closing parenthesis or a bar. -/
def emptyAfter (after : List Char) : Bool :=
  match after.dropWhile isSpace with
  | [] => true
  | c :: _ => c ∈ [')', '|']

/-- Some bar has an empty side. -/
def HasBareBar (text : List Char) : Prop :=
  ∃ before after, text = before ++ '|' :: after ∧ modeAfter before = .plain ∧
    (emptyBefore before = true ∨ emptyAfter after = true)

/-- Some group holds nothing but spaces. -/
def HasEmptyGroup (text : List Char) : Prop :=
  ∃ before spaces after, text = before ++ '(' :: (spaces ++ ')' :: after) ∧
    modeAfter before = .plain ∧ ∀ c ∈ spaces, c = ' '

/-- Some bar has such a group on its right. -/
def HasHollowBar (text : List Char) : Prop :=
  ∃ before after, text = before ++ '|' :: after ∧ modeAfter before = .plain ∧ HasEmptyGroup after

theorem modeAfter_append {s t : List Char} (plain : modeAfter s = .plain) :
    modeAfter (s ++ t) = modeAfter t := by
  rw [modeAfter, List.foldl_append, ← modeAfter, plain, modeAfter]

theorem modeAfter_snoc {s : List Char} {c : Char} (plain : modeAfter s = .plain)
    (own : c ∉ ['\\', '[']) : modeAfter (s ++ [c]) = .plain := by
  simp only [List.mem_cons, List.not_mem_nil, or_false, not_or] at own
  rw [modeAfter_append plain, modeAfter, List.foldl_cons, List.foldl_nil, Mode.next, if_neg own.1,
    if_neg own.2]

theorem modeAfter_spaces {spaces : List Char} (blank : ∀ c ∈ spaces, c = ' ') :
    modeAfter spaces = .plain := by
  induction spaces with
  | nil => rfl
  | cons c rest ih =>
    rw [blank c List.mem_cons_self]
    exact ih fun d mem => blank d (List.mem_cons_of_mem _ mem)

theorem dropWhile_spaces {spaces : List Char} (blank : ∀ c ∈ spaces, c = ' ') (text : List Char) :
    (spaces ++ text).dropWhile isSpace = text.dropWhile isSpace := by
  refine List.dropWhile_append_of_pos fun c mem => ?_
  rw [blank c mem]
  rfl

theorem emptyBefore_spaces {before spaces : List Char} (blank : ∀ c ∈ spaces, c = ' ')
    (empty : emptyBefore before = true) : emptyBefore (before ++ spaces) = true := by
  rw [emptyBefore, List.reverse_append, dropWhile_spaces, ← emptyBefore, empty]
  exact fun c mem => blank c (List.mem_reverse.1 mem)

theorem emptyAfter_spaces {spaces after : List Char} (blank : ∀ c ∈ spaces, c = ' ')
    (empty : emptyAfter after = true) : emptyAfter (spaces ++ after) = true := by
  rw [emptyAfter, dropWhile_spaces blank, ← emptyAfter, empty]

theorem emptyBefore_snoc {before : List Char} {c : Char} (plain : modeAfter before = .plain)
    (opening : c ∈ ['(', '|']) : emptyBefore (before ++ [c]) = true := by
  have shown : isSpace c = false := by
    rcases List.mem_cons.1 opening with rfl | bar
    · rfl
    · rw [List.mem_singleton.1 bar]
      rfl
  rw [emptyBefore, List.reverse_append, List.reverse_singleton, List.singleton_append,
    List.dropWhile_cons_of_neg (by simp [shown])]
  simp [opening, plain]

/-- A group of a part of a text is a group of the text. -/
theorem HasEmptyGroup.context {text : List Char} (h : HasEmptyGroup text) {before : List Char}
    (plain : modeAfter before = .plain) (after : List Char) :
    HasEmptyGroup (before ++ (text ++ after)) := by
  obtain ⟨left, spaces, right, rfl, inner, blank⟩ := h
  refine ⟨before ++ left, spaces, right ++ after, by simp, ?_, blank⟩
  rw [modeAfter_append plain, inner]

theorem HasHollowBar.context {text : List Char} (h : HasHollowBar text) {before : List Char}
    (plain : modeAfter before = .plain) (after : List Char) :
    HasHollowBar (before ++ (text ++ after)) := by
  obtain ⟨left, right, rfl, inner, group⟩ := h
  have whole : HasEmptyGroup ([] ++ (right ++ after)) := group.context rfl after
  refine ⟨before ++ left, right ++ after, by simp, ?_, whole⟩
  rw [modeAfter_append plain, inner]

section Spaces

variable {mode : Mode} {c : Char}

/-- A closing parenthesis changes no mode. -/
theorem Mode.next_closing (own : mode ≠ .escaped) : mode.next ')' = mode := by
  cases mode with
  | escaped => exact absurd rfl own
  | plain | bracket => rfl

theorem Mode.next_ne_escaped (own : mode ≠ .escaped) (shown : c ≠ '\\') :
    mode.next c ≠ .escaped := by
  cases mode with
  | plain =>
    rw [Mode.next, if_neg shown]
    split <;> exact nofun
  | escaped => exact absurd rfl own
  | bracket =>
    rw [Mode.next]
    split <;> exact nofun

/-- After a backslash and one more character no escape is open, also in a bracket, where the backslash
opens none. -/
theorem Mode.next_backslash (own : mode ≠ .escaped) (c : Char) :
    (mode.next '\\').next c ≠ .escaped := by
  cases mode with
  | plain => exact nofun
  | escaped => exact absurd rfl own
  | bracket =>
    show (if c = ']' then plain else bracket) ≠ escaped
    split <;> exact nofun

theorem unspaced_space (rest : List Char) :
    unspaced .plain (' ' :: rest) = unspaced .plain rest := by
  rw [unspaced, if_pos ⟨rfl, rfl⟩]

theorem unspaced_hidden (hidden : mode ≠ .plain) (rest : List Char) :
    unspaced mode (c :: rest) = c :: unspaced (mode.next c) rest := by
  rw [unspaced, if_neg fun drop => hidden drop.1]

theorem unspaced_cons (other : c ≠ ' ') (rest : List Char) :
    unspaced mode (c :: rest) = c :: unspaced (mode.next c) rest := by
  rw [unspaced, if_neg fun drop => other drop.2]

theorem unspaced_plain (own : c ∉ [' ', '\\', '[']) (rest : List Char) :
    unspaced .plain (c :: rest) = c :: unspaced .plain rest := by
  simp only [List.mem_cons, List.not_mem_nil, or_false, not_or] at own
  rw [unspaced_cons own.1, Mode.next, if_neg own.2.1, if_neg own.2.2]

theorem unspaced_openBracket (rest : List Char) :
    unspaced .plain ('[' :: rest) = '[' :: unspaced .bracket rest :=
  unspaced_cons (by decide) rest

theorem unspaced_append (mode : Mode) (s t : List Char) :
    unspaced mode (s ++ t) = unspaced mode s ++ unspaced (s.foldl Mode.next mode) t := by
  induction s generalizing mode with
  | nil => rfl
  | cons c rest ih =>
    rw [List.cons_append, List.foldl_cons, unspaced, unspaced, ih, ih]
    split
    next drop =>
      obtain ⟨rfl, rfl⟩ := drop
      rfl
    · rfl

theorem unspaced_backslash (own : mode ≠ .escaped) (c : Char) (rest : List Char) :
    unspaced mode ('\\' :: c :: rest) = '\\' :: c :: unspaced ((mode.next '\\').next c) rest := by
  have hidden : mode.next '\\' ≠ .plain := by
    cases mode with
    | escaped => exact absurd rfl own
    | plain | bracket => exact nofun
  rw [unspaced_cons (by decide), unspaced_hidden hidden]

end Spaces

end Lexing.Pattern
