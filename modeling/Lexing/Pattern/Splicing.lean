import Lexing.Nfa.Basic
import Lexing.Pattern.Basic

set_option autoImplicit false

namespace Lexing

/-- An automaton that is being made, and the number of its next new state. -/
structure Splicing where
  next : Nat
  nfa : Nfa

structure Ends where
  start : State
  accept : State
  deriving DecidableEq, Repr

namespace Splicing

/-- Takes a state from the counter, which must not run over. -/
def fresh (s : Splicing) : Option (State × Splicing) :=
  if s.next < maxStates then some (s.next, { s with next := s.next + 1 }) else none

def pair (s : Splicing) : Option (Ends × Splicing) := do
  let (start, s) ← s.fresh
  let (accept, s) ← s.fresh
  return (⟨start, accept⟩, s)

def edge (s : Splicing) (e : Edge) : Option Splicing :=
  match s.nfa.addEdge e with
  | (nfa, .ok _) => some { s with nfa }
  | (_, .error _) => none

/-- Adds two new ends and then some edges, which may use them. -/
def frame (s : Splicing) (es : Ends → List Edge) : Option (Ends × Splicing) := do
  let (f, s) ← s.pair
  let s ← (es f).foldlM edge s
  return (f, s)

/-- The edges around the ends of a part that may be passed by (`skip`) and run again (`again`). -/
def wrapping (skip again : Bool) (inner f : Ends) : List Edge :=
  [⟨f.start, none, inner.start⟩] ++
  (if skip then [⟨f.start, none, f.accept⟩] else []) ++
  (if again then [⟨inner.accept, none, inner.start⟩] else []) ++
  [⟨inner.accept, none, f.accept⟩]

end Splicing

namespace Pattern

def splice : Pattern → Splicing → Option (Ends × Splicing)
  | char c, s => s.frame fun f => [⟨f.start, some c, f.accept⟩]
  | range first last, s => s.frame fun f =>
      (Text.between first last).map fun c => ⟨f.start, some c, f.accept⟩
  | seq left right, s => do
    let (f, s) ← left.splice s
    let (g, s) ← right.splice s
    let s ← s.edge ⟨f.accept, none, g.start⟩
    return (⟨f.start, g.accept⟩, s)
  | alt left right, s => do
    let (f, s) ← left.splice s
    let (g, s) ← right.splice s
    s.frame fun ends => [⟨ends.start, none, f.start⟩, ⟨ends.start, none, g.start⟩,
      ⟨f.accept, none, ends.accept⟩, ⟨g.accept, none, ends.accept⟩]
  | opt body, s => do
    let (inner, s) ← body.splice s
    s.frame (Splicing.wrapping true false inner)
  | star body, s => do
    let (inner, s) ← body.splice s
    s.frame (Splicing.wrapping true true inner)
  | plus body, s => do
    let (inner, s) ← body.splice s
    s.frame (Splicing.wrapping false true inner)

/-- The automaton of a pattern, unless the states run out or an end does not exist. -/
def spliced? (p : Pattern) : Option Nfa := do
  let (f, s) ← p.splice ⟨0, .new⟩
  s.nfa.applyAll? [.setStart f.start, .addAccepting f.accept]

end Pattern

end Lexing
