import Lexing.SortedSet
import Lexing.Text.Printable

set_option autoImplicit false

namespace Lexing

/-- States are numbered from 0. -/
abbrev State := Nat

abbrev StateSet := SortedSet State

/-- The members in ascending order, as in `{0, 1}`. -/
def StateSet.render (s : StateSet) : String :=
  "\x7b" ++ ", ".intercalate (s.toList.map toString) ++ "\x7d"

/-- The first number that has no room in a word of 64 bits. -/
abbrev wordBound : Nat := 0x10000000000000000

/-- The first number of bytes that is too large for an array: half of the addresses. -/
abbrev arrayBound : Nat := 0x8000000000000000

theorem lt_wordBound {a : Nat} (fits : a < arrayBound) : a < wordBound :=
  Nat.lt_trans fits (by decide)

/-- What becomes of a number that has no room in a word: the program stops, or the high bits are lost. -/
inductive Overflow where
  | stop
  | wrap

def word? (o : Overflow) (a : Nat) : Option Nat :=
  if a < wordBound then some a
  else
    match o with
    | .stop => none
    | .wrap => some (a % wordBound)

theorem word?_of_lt {o : Overflow} {a : Nat} (fits : a < wordBound) : word? o a = some a := if_pos fits

theorem word?_wrap (a : Nat) : word? .wrap a = some (a % wordBound) := by
  unfold word?
  split
  next fits => rw [Nat.mod_eq_of_lt fits]
  · rfl

theorem word?_eq_some {o : Overflow} {a b : Nat} (done : word? o a = some b) :
    b = a ∨ o = .wrap ∧ wordBound ≤ a := by
  unfold word? at done
  split at done
  · exact .inl (Option.some.inj done).symm
  next large =>
    cases o with
    | stop => cases done
    | wrap => exact .inr ⟨rfl, Nat.not_lt.1 large⟩

/-- No automaton has more states than the largest 64-bit word, so every state fits into a word. -/
def maxStates : Nat := 0xffffffffffffffff

inductive EditError where
  | unknownState (q : State)
  | unknownSymbol (c : Char)
  | tooManyStates
  deriving DecidableEq, Repr

def EditError.message : EditError → String
  | unknownState q => s!"unknown state {q}"
  | unknownSymbol c => "symbol " ++ Text.quoteChar c ++ " is not in the alphabet"
  | tooManyStates => "state id overflow"

end Lexing
