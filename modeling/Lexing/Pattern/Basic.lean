import Lexing.Text.Alphanumeric
import Lexing.Text.Printable

set_option autoImplicit false

namespace Lexing

/-- A regular expression. A range stands for one character between its two ends, both included, and
for none at all if the ends are in the wrong order. -/
inductive Pattern where
  | char (c : Char)
  | range (first last : Char)
  | seq (left right : Pattern)
  | alt (left right : Pattern)
  | opt (body : Pattern)
  | star (body : Pattern)
  | plus (body : Pattern)
  deriving DecidableEq, Repr

namespace Pattern

/-- Characters that stand for themselves in a written pattern. -/
def isLiteral (c : Char) : Bool :=
  c ∈ ['-', '.', '_', ':', '@', '\n'] || Text.isAlphanumeric c

/-- Characters that stand for themselves after a backslash. -/
def isEscapable (c : Char) : Bool := c ∈ [' ', '(', ')', '+', '*', '/']

/-- The sequence of some operands, nested to the left. The last operand comes first in the list. -/
def join? : List Pattern → Option Pattern
  | [] => none
  | last :: before =>
    match join? before with
    | none => some last
    | some left => some (.seq left last)

@[simp] theorem join?_eq_none_iff {operands : List Pattern} :
    join? operands = none ↔ operands = [] := by
  cases operands with
  | nil => simp [join?]
  | cons last before => rw [join?]; split <;> simp

theorem ne_nil_of_join? {operands : List Pattern} {p : Pattern} (join : join? operands = some p) :
    operands ≠ [] := by
  rintro rfl
  cases join

end Pattern

inductive SyntaxError where
  /-- An operator with nothing to apply to. -/
  | missingOperand (operator : Char)
  /-- An opening parenthesis that nothing closes. -/
  | unclosedGroup
  /-- A closing parenthesis that nothing opens. -/
  | unopenedGroup
  /-- An opening bracket that nothing closes. -/
  | unclosedBracket
  /-- A bracket that does not hold two letters or digits in order with a hyphen between them. -/
  | invalidRange (body : List Char)
  | invalidEscape (c : Char)
  /-- A backslash with nothing after it. -/
  | danglingEscape
  | unsupported (c : Char)
  /-- A pattern, or a group, without any operand. -/
  | empty
  deriving DecidableEq, Repr

def SyntaxError.message : SyntaxError → String
  | missingOperand operator => s!"missing operand for `{operator}`"
  | unclosedGroup => "unclosed parenthesis"
  | unopenedGroup => "unexpected parenthesis"
  | unclosedBracket => "unmatched opening bracket `[`"
  | invalidRange body => "invalid character range [" ++ String.ofList body ++ "]"
  | invalidEscape c => "invalid escape character " ++ Text.quoteChar c
  | danglingEscape => "pattern ends with a backslash"
  | unsupported c => "unsupported character " ++ Text.quoteChar c
  | empty => "empty expression"

end Lexing
