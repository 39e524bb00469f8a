import Lexing.Pattern.Basic

set_option autoImplicit false

namespace Lexing.Pattern

/-- Splits the text after an opening parenthesis at the one that closes it, where `depth` inner
groups are open. A backslash hides the character after it. -/
def splitGroup : Nat → List Char → Option (List Char × List Char)
  | _, [] => none
  | depth, '\\' :: c :: rest =>
    (splitGroup depth rest).map fun (body, after) => ('\\' :: c :: body, after)
  | depth, c :: rest =>
    if c = ')' then
      match depth with
      | 0 => some ([], rest)
      | depth + 1 => (splitGroup depth rest).map fun (body, after) => (c :: body, after)
    else
      (splitGroup (if c = '(' then depth + 1 else depth) rest).map fun (body, after) =>
        (c :: body, after)

/-- The two parts and the closing parenthesis between them make up the text. -/
theorem splitGroup_eq_some {depth : Nat} {text body after : List Char}
    (h : splitGroup depth text = some (body, after)) : text = body ++ ')' :: after := by
  fun_induction splitGroup depth text generalizing body with
  | case1 => simp at h
  | case2 depth c rest ih =>
    obtain ⟨⟨inner, tail⟩, split, same⟩ := Option.map_eq_some_iff.1 h
    obtain ⟨rfl, rfl⟩ := Prod.mk.inj same
    simp [ih split]
  | case3 rest _ =>
    obtain ⟨rfl, rfl⟩ := Prod.mk.inj (Option.some.inj h)
    rfl
  | case4 rest depth _ ih =>
    obtain ⟨⟨inner, tail⟩, split, same⟩ := Option.map_eq_some_iff.1 h
    obtain ⟨rfl, rfl⟩ := Prod.mk.inj same
    simp [ih split]
  | case5 depth c rest _ other ih =>
    obtain ⟨⟨inner, tail⟩, split, same⟩ := Option.map_eq_some_iff.1 h
    obtain ⟨rfl, rfl⟩ := Prod.mk.inj same
    simp [ih split]

/-- Splits the text after an opening bracket at the first closing one. -/
def splitBracket : List Char → Option (List Char × List Char)
  | [] => none
  | c :: rest =>
    if c = ']' then some ([], rest)
    else (splitBracket rest).map fun (body, after) => (c :: body, after)

theorem splitBracket_eq_some {text body after : List Char}
    (h : splitBracket text = some (body, after)) : text = body ++ ']' :: after := by
  induction text generalizing body with
  | nil => simp [splitBracket] at h
  | cons c rest ih =>
    rw [splitBracket] at h
    split at h
    next closing =>
      obtain ⟨rfl, rfl⟩ := Prod.mk.inj (Option.some.inj h)
      simp [closing]
    · obtain ⟨⟨inner, tail⟩, split, same⟩ := Option.map_eq_some_iff.1 h
      obtain ⟨rfl, rfl⟩ := Prod.mk.inj same
      simp [ih split]

def readRange : List Char → Except SyntaxError Pattern
  | [first, '-', last] =>
    if Text.isAlphanumeric first ∧ Text.isAlphanumeric last ∧ first ≤ last then
      .ok (.range first last)
    else .error (.invalidRange [first, '-', last])
  | body => .error (.invalidRange body)

/-- Reads the rest of a pattern after some operands, the last of them first in the list. -/
def readAfter (operands : List Pattern) (text : List Char) : Except SyntaxError Pattern :=
  match text with
  | [] =>
    match join? operands with
    | none => .error .empty
    | some p => .ok p
  | c :: rest =>
    if c = ' ' then readAfter operands rest
    else if c = '(' then
      match _split : splitGroup 0 rest with
      | none => .error .unclosedGroup
      | some (body, after) =>
        match readAfter [] body with
        | .error e => .error e
        | .ok p => readAfter (p :: operands) after
    else if c = ')' then .error .unopenedGroup
    else if c = '[' then
      match _split : splitBracket rest with
      | none => .error .unclosedBracket
      | some (body, after) =>
        match readRange body with
        | .error e => .error e
        | .ok p => readAfter (p :: operands) after
    else if c = '\\' then
      match rest with
      | [] => .error .danglingEscape
      | e :: after =>
        if isEscapable e then readAfter (.char e :: operands) after
        else .error (.invalidEscape e)
    else if c = '?' ∨ c = '*' ∨ c = '+' then
      match operands with
      | [] => .error (.missingOperand c)
      | p :: before =>
        let wrapped := if c = '?' then Pattern.opt p else if c = '*' then .star p else .plus p
        readAfter (wrapped :: before) rest
    else if c = '|' then
      match join? operands with
      | none => .error (.missingOperand '|')
      | some left =>
        match readAfter [] rest with
        | .error .empty => .error (.missingOperand '|')
        | .error e => .error e
        | .ok right => .ok (.alt left right)
    else if isLiteral c then readAfter (.char c :: operands) rest
    else .error (.unsupported c)
termination_by text.length
decreasing_by
  all_goals try simp only [List.length_cons]
  all_goals try have whole := congrArg List.length (splitGroup_eq_some _split)
  all_goals try have whole := congrArg List.length (splitBracket_eq_some _split)
  all_goals try simp only [List.length_append, List.length_cons] at whole
  all_goals omega

def ofChars (text : List Char) : Except SyntaxError Pattern := readAfter [] text

def parse (text : String) : Except SyntaxError Pattern := ofChars text.toList

end Lexing.Pattern
