import Lexing.Dfa.Basic
import Lexing.Regex
import Lexing.SortedSet

set_option autoImplicit false

namespace Lexing

inductive Position where
  /-- The number of characters before the place on its line. -/
  | column (n : Nat)
  /-- The text ends with a character that some rule could go on from. -/
  | endOfText
  deriving DecidableEq, Repr

def Position.render : Position → String
  | column n => toString n
  | endOfText => "EOF"

structure Diagnostic where
  /-- The number of characters before the place. -/
  offset : Nat
  /-- The number of lines before its line. -/
  line : Nat
  position : Position
  deriving DecidableEq, Repr

namespace Diagnostic

def message (d : Diagnostic) : String :=
  "No viable alternative at character " ++ d.position.render ++ ", line " ++ toString d.line

def lastLine (text : List Char) : Nat := (text.reverse.takeWhile (· ≠ '\n')).length

/-- Whether a place holds the last character of a text, and that is one of the literals. -/
def atEnd (literals : SortedSet Char) (text : List Char) (offset : Nat) : Bool :=
  match text.drop offset with
  | [c] => c ∈ literals
  | _ => false

def locate (literals : SortedSet Char) (text : List Char) (offset : Nat) : Diagnostic :=
  let before := text.take offset
  ⟨offset, before.count '\n',
    if atEnd literals text offset then .endOfText else .column (lastLine before)⟩

end Diagnostic

structure Token where
  kind : String
  lexeme : String
  deriving DecidableEq, Repr

/-- A kind of token with the automaton of its lexemes. -/
structure Rule where
  kind : String
  dfa : Dfa
  /-- For each state of the automaton, whether an accepting state can be reached from it. -/
  live : Array Bool

namespace Rule

def ofPattern (kind text : String) : Except CompileError Rule :=
  match Regex.ofText text with
  | .error e => .error e
  | .ok r => .ok ⟨kind, r.dfa, r.dfa.live⟩

/-- The length of the longest match of a rule, when some characters have been read and a match was
seen before or not. Reading stops where no accepting state is in reach. -/
def longestFrom (r : Rule) (q : State) (read : Nat) (seen : Option Nat) : List Char → Option Nat
  | [] => seen
  | c :: rest =>
    match r.dfa.next? q c with
    | none => seen
    | some target =>
      if r.live.getD target false then
        let seen := if r.dfa.isAccepting target then some (read + 1) else seen
        r.longestFrom target (read + 1) seen rest
      else seen

theorem longestFrom_gt {r : Rule} {q : State} {read len : Nat} {seen : Option Nat}
    {text : List Char} (h : r.longestFrom q read seen text = some len) :
    seen = some len ∨ read < len := by
  induction text generalizing q read seen with
  | nil => exact .inl h
  | cons c rest ih =>
    rw [longestFrom] at h
    split at h
    · exact .inl h
    · split at h
      · have later := ih h
        split at later
        · rcases later with now | after
          · have : read + 1 = len := Option.some.inj now
            omega
          · omega
        · rcases later with now | after
          · exact .inl now
          · omega
      · exact .inl h

def longest (r : Rule) (text : List Char) : Option Nat := r.longestFrom r.dfa.start 0 none text

theorem longest_pos {r : Rule} {text : List Char} {len : Nat} (h : r.longest text = some len) :
    0 < len :=
  (longestFrom_gt h).resolve_left (fun none => by cases none)

end Rule

structure RuleError where
  kind : String
  cause : CompileError
  deriving DecidableEq, Repr

def RuleError.message (e : RuleError) : String :=
  "invalid pattern for token `" ++ e.kind ++ "`"

structure Scanner where
  rules : List Rule
  /-- The letters and digits that stand in the text of some pattern. -/
  literals : SortedSet Char

namespace Scanner

/-- Compiles rules in order up to the first that cannot be compiled. -/
def compileRules : List (String × String) → Except RuleError (List Rule)
  | [] => .ok []
  | (kind, text) :: rest =>
    match Rule.ofPattern kind text with
    | .error cause => .error ⟨kind, cause⟩
    | .ok rule =>
      match compileRules rest with
      | .error e => .error e
      | .ok rules => .ok (rule :: rules)

def ofRules (rules : List (String × String)) : Except RuleError Scanner :=
  match compileRules rules with
  | .error e => .error e
  | .ok compiled =>
    .ok ⟨compiled, .ofList ((rules.flatMap fun r => r.2.toList).filter Text.isAlphanumeric)⟩

/-- The kind and the length of the longest match of some rules. A later rule must match more than
all rules before it. -/
def longestOf (text : List Char) : List Rule → Option (String × Nat)
  | [] => none
  | r :: rest =>
    match r.longest text, longestOf text rest with
    | none, later => later
    | some len, none => some (r.kind, len)
    | some len, some (kind, laterLen) =>
      if len < laterLen then some (kind, laterLen) else some (r.kind, len)

theorem longestOf_pos {text : List Char} {rules : List Rule} {kind : String} {len : Nat}
    (h : longestOf text rules = some (kind, len)) : 0 < len := by
  induction rules generalizing kind len with
  | nil => cases h
  | cons r rest ih =>
    rw [longestOf] at h
    split at h
    next later => exact ih h
    next own found _ =>
      cases h
      exact Rule.longest_pos found
    next own laterKind laterLen found later =>
      split at h
      · cases h
        exact ih later
      · cases h
        exact Rule.longest_pos found

/-- The kind and the length of the token at the beginning of a text. -/
def first? (s : Scanner) (text : List Char) : Option (String × Nat) := longestOf text s.rules

/-- What scanning a text gave: the tokens found, and the place where no rule matched, if any. -/
structure Scan where
  tokens : List Token
  stuck : Option Nat
  deriving DecidableEq, Repr

/-- Scans the rest of a text after some tokens, the last of them first in the list. -/
def scanFrom (s : Scanner) (found : List Token) (offset : Nat) (text : List Char) : Scan :=
  if text.isEmpty then ⟨found.reverse, none⟩
  else
    match _first : s.first? text with
    | none => ⟨found.reverse, some offset⟩
    | some (kind, len) =>
      let lexeme := String.ofList (text.take len)
      s.scanFrom (⟨kind, lexeme⟩ :: found) (offset + len) (text.drop len)
termination_by text.length
decreasing_by
  have positive := longestOf_pos _first
  have some_left : 0 < text.length := by
    cases text with
    | nil => simp at *
    | cons c rest => simp
  rw [List.length_drop]
  omega

def run (s : Scanner) (text : String) : Scan := s.scanFrom [] 0 text.toList

def scan (s : Scanner) (text : String) : Except Diagnostic (List Token) :=
  let result := s.run text
  match result.stuck with
  | none => .ok result.tokens
  | some offset => .error (.locate s.literals text.toList offset)

/-- The tokens as pairs of kind and lexeme. A failure is a pair of an empty kind and the message. -/
def pairs (s : Scanner) (text : String) : List (String × String) :=
  match s.scan text with
  | .ok tokens => tokens.map fun t => (t.kind, t.lexeme)
  | .error d => [("", d.message)]

end Scanner

end Lexing
