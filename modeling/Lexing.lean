import Lexing.Dfa.Built
import Lexing.Dfa.Guarded.Isomorphism
import Lexing.Dfa.Guarded.Minimize
import Lexing.Dfa.Guarded.Table
import Lexing.Dfa.Isomorphism
import Lexing.Graph.Stack
import Lexing.Main
import Lexing.Nfa.Keyed
import Lexing.Nfa.Run
import Lexing.Pattern.Grammar
import Lexing.Pattern.Language
import Lexing.Pattern.Scan
import Lexing.Pattern.Splicing
import Lexing.Proofs.Dfa.Bounds
import Lexing.Proofs.Dfa.Canonical
import Lexing.Proofs.Dfa.Determinization
import Lexing.Proofs.Dfa.Equivalence
import Lexing.Proofs.Dfa.Fewest
import Lexing.Proofs.Dfa.FiniteMap
import Lexing.Proofs.Dfa.Idempotence
import Lexing.Proofs.Dfa.Isomorphism
import Lexing.Proofs.Dfa.Minimization
import Lexing.Proofs.Dfa.Quotient
import Lexing.Proofs.Dfa.Renaming
import Lexing.Proofs.Dfa.Run
import Lexing.Proofs.Dfa.Subsets
import Lexing.Proofs.Dfa.Table
import Lexing.Proofs.Dfa.Uniqueness
import Lexing.Proofs.Dfa.WellFormed
import Lexing.Proofs.Fragment.Language
import Lexing.Proofs.Graph.Discovery
import Lexing.Proofs.Graph.Stack
import Lexing.Proofs.Guarded.Table
import Lexing.Proofs.Nfa.Closure
import Lexing.Proofs.Nfa.Edges
import Lexing.Proofs.Nfa.Growth
import Lexing.Proofs.Nfa.Paths
import Lexing.Proofs.Nfa.Session
import Lexing.Proofs.Nfa.Simulation
import Lexing.Proofs.Nfa.WellFormed
import Lexing.Proofs.Partition.Coarsest
import Lexing.Proofs.Pattern.Automaton
import Lexing.Proofs.Pattern.Denotation
import Lexing.Proofs.Pattern.Faults
import Lexing.Proofs.Pattern.Leaves
import Lexing.Proofs.Pattern.MissingBar
import Lexing.Proofs.Pattern.Printing
import Lexing.Proofs.Pattern.Reading
import Lexing.Proofs.Pattern.Shape
import Lexing.Proofs.Pattern.Spacing
import Lexing.Proofs.Regex
import Lexing.Proofs.Scanner.Boundaries
import Lexing.Proofs.Scanner.Literals
import Lexing.Proofs.Scanner.Location
import Lexing.Proofs.Scanner.Longest
import Lexing.Proofs.Scanner.MaximalMunch
import Lexing.Proofs.Scanner.Pairs
import Lexing.Trace
