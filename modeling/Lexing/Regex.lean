import Lexing.Dfa.Built
import Lexing.Pattern.Fragment
import Lexing.Pattern.Parser

set_option autoImplicit false

namespace Lexing

inductive CompileError where
  | illFormed (e : SyntaxError)
  | tooManyStates
  deriving DecidableEq, Repr

def CompileError.message : CompileError → String
  | illFormed e => e.message
  | tooManyStates => "state counter overflow occured"

def Pattern.compile (p : Pattern) : Except CompileError Nfa :=
  match p.toNfa? with
  | none => .error .tooManyStates
  | some n => .ok n

def Nfa.ofText (text : String) : Except CompileError Nfa :=
  match Pattern.parse text with
  | .error e => .error (.illFormed e)
  | .ok p => p.compile

/-- The smallest deterministic automaton of a pattern. -/
structure Regex where
  dfa : Dfa

namespace Regex

def ofText (text : String) : Except CompileError Regex :=
  match Nfa.ofText text with
  | .error e => .error e
  | .ok n => .ok ⟨n.determinize.minimize⟩

/-- Whether the pattern matches all of a text. -/
def isMatch (r : Regex) (text : String) : Bool := r.dfa.accepts text.toList

end Regex

end Lexing
