import Lexing.Scanner.Basic

set_option autoImplicit false

namespace Lexing

namespace Trace

inductive Level where
  | debug
  | trace
  deriving DecidableEq, Repr

inductive Stage where
  | determinization
  | minimization
  | scanning
  deriving DecidableEq, Repr

end Trace

structure Trace.Record where
  level : Trace.Level
  stage : Trace.Stage
  text : String
  deriving DecidableEq, Repr

namespace Trace

/-- The record of a set of states that is found with the number it gets. -/
def discovery (qs : StateSet) (number : State) : Record :=
  ⟨.trace, .determinization,
    "discovered subset " ++ qs.render ++ " as state " ++ toString number⟩

/-- A record for each set of states that is found after the first, the empty one apart, and one for
the size of the result. -/
def determinization (n : Nfa) : List Record :=
  let subsets := n.subsets
  let later := (subsets.zipIdx.drop 1).filter fun (qs, _) => !qs.isEmpty
  later.map (fun (qs, number) => discovery qs number) ++
    [⟨.debug, .determinization,
      "subset construction: " ++ toString n.numStates ++ " NFA states -> " ++
        toString subsets.length ++ " DFA states (sink: " ++
        toString (subsets.any SortedSet.isEmpty) ++ ")"⟩]

def minimization (d : Dfa) : List Record :=
  [⟨.debug, .minimization, "minimization: " ++ toString d.numStates ++ " -> " ++
    toString d.minimize.numStates ++ " states"⟩]

def compilation (text : String) : List Record :=
  match Nfa.ofText text with
  | .error _ => []
  | .ok n => determinization n ++ minimization n.determinize

/-- The records of building a scanner: those of its rules up to the first that cannot be compiled,
and if all can, the number of rules. -/
def building (rules : List (String × String)) : List Record :=
  let compiled := rules.takeWhile fun r => (Nfa.ofText r.2).isOk
  compiled.flatMap (fun r => compilation r.2) ++
    if compiled.length = rules.length then
      [⟨.debug, .scanning, "lexer: " ++ toString rules.length ++ " rules"⟩]
    else []

/-- A record for each token, with the number of characters before it. -/
def tokens (offset : Nat) : List Token → List Record
  | [] => []
  | t :: rest =>
    ⟨.trace, .scanning, t.kind ++ " " ++ Text.quote t.lexeme ++ " at " ++ toString offset⟩ ::
      tokens (offset + t.lexeme.length) rest

def scanning (rules : List (String × String)) (text : String) : List Record :=
  match Scanner.ofRules rules with
  | .error _ => building rules
  | .ok s => building rules ++ tokens 0 (s.run text).tokens

end Trace

end Lexing
