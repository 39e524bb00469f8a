import Lexing.Command

set_option autoImplicit false

open Lexing

/-- The bytes of a file. One that cannot be read counts as missing. -/
def readSource (file : String) : IO Command.Source := do
  try
    return .bytes (← IO.FS.readBinFile file)
  catch _ =>
    return .missing

def main (words : List String) : IO UInt32 := do
  match Command.Arguments.read words with
  | none =>
    IO.eprintln Command.usage
    return 2
  | some arguments =>
    let outcome := Command.run arguments.rules (← readSource arguments.file)
    IO.print outcome.stdout
    IO.eprint outcome.stderr
    return outcome.code.toUInt32
