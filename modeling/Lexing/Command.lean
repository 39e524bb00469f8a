import Lexing.Scanner.Basic

set_option autoImplicit false

namespace Lexing

namespace Command

inductive Source where
  | missing
  | bytes (content : ByteArray)

inductive Failure where
  | notARule (rule : String)
  | invalidRule (e : RuleError)
  | fileNotFound
  | notText
  | stuck (d : Diagnostic)
  deriving DecidableEq, Repr

def Failure.message : Failure → String
  | notARule rule => "rule " ++ Text.quote rule ++ " is not KIND=PATTERN"
  | invalidRule e => e.message
  | fileNotFound => "No such file or directory (os error 2)"
  | notText => "stream did not contain valid UTF-8"
  | stuck d => d.message

/-- What lies behind a failure. -/
def Failure.cause? : Failure → Option String
  | invalidRule e => some e.cause.message
  | _ => none

def indent (text : String) : String :=
  String.ofList (text.toList.flatMap fun c => if c = '\n' then "\n    ".toList else [c])

def Failure.report (f : Failure) : String :=
  "Error: " ++ f.message ++ "\n" ++
    match f.cause? with
    | none => ""
    | some cause => "\nCaused by:\n    " ++ indent cause ++ "\n"

def splitRule (rule : String) : Except Failure (String × String) :=
  let text := rule.toList
  let kind := text.takeWhile (· ≠ '=')
  match text.dropWhile (· ≠ '=') with
  | [] => .error (.notARule rule)
  | _ :: pattern => .ok (String.ofList kind, String.ofList pattern)

def Source.text : Source → Except Failure String
  | missing => .error .fileNotFound
  | bytes content =>
    match String.fromUTF8? content with
    | none => .error .notText
    | some text => .ok text

def scanner (rules : List (String × String)) : Except Failure Scanner :=
  match Scanner.ofRules rules with
  | .error e => .error (.invalidRule e)
  | .ok s => .ok s

def scan (s : Scanner) (text : String) : Except Failure (List Token) :=
  match s.scan text with
  | .error d => .error (.stuck d)
  | .ok tokens => .ok tokens

/-- The tokens of a file. The rules come first, all of them are split before one is compiled, and
the first failure ends the work. -/
def tokens (rules : List String) (source : Source) : Except Failure (List Token) := do
  let pairs ← rules.mapM splitRule
  let s ← scanner pairs
  let text ← source.text
  scan s text

def listing (tokens : List Token) : String :=
  String.join (tokens.map fun t => t.kind ++ "\t" ++ Text.quote t.lexeme ++ "\n")

structure Arguments where
  rules : List String
  file : String
  deriving DecidableEq, Repr

/-- Reads the remaining words of a call after some rules, the last of them first in the list. -/
def Arguments.readAfter (rules : List String) (file : Option String) :
    List String → Option Arguments
  | [] =>
    match rules, file with
    | _ :: _, some name => some ⟨rules.reverse, name⟩
    | _, _ => none
  | "-r" :: rule :: rest => readAfter (rule :: rules) file rest
  | "--rule" :: rule :: rest => readAfter (rule :: rules) file rest
  | word :: rest =>
    match word.toList with
    | '-' :: '-' :: 'r' :: 'u' :: 'l' :: 'e' :: '=' :: rule =>
      readAfter (String.ofList rule :: rules) file rest
    | '-' :: 'r' :: rule => readAfter (String.ofList rule :: rules) file rest
    | _ =>
      match file with
      | none => readAfter rules (some word) rest
      | some _ => none

def Arguments.read (words : List String) : Option Arguments := readAfter [] none words

def usage : String := "usage: lex --rule=KIND=PATTERN ... FILE"

structure Outcome where
  code : Nat
  stdout : String
  stderr : String
  deriving DecidableEq, Repr

def run (rules : List String) (source : Source) : Outcome :=
  match tokens rules source with
  | .ok found => ⟨0, listing found, ""⟩
  | .error failure => ⟨1, "", failure.report⟩

end Command

end Lexing
