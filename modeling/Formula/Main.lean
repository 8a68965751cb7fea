import Formula.CommandLine

set_option autoImplicit false

/-! # The program

Hands the environment, the files that the arguments name, and the arguments to the command line, and
writes what it gives. -/

namespace Formula

/-- The environment variables that are looked at. -/
def environmentNames : List String := ["PLAINEXPR_STRICT_LEXING", "PLAINEXPR_DEBUG"]

end Formula

open Formula

/-- Evaluates, validates or lists as the arguments say. -/
def main (arguments : List String) : IO UInt32 := do
  let mut environment : Dictionary String String := .empty
  for name in environmentNames do
    if let some value ← IO.getEnv name then
      environment := environment.put name value
  let mut files : Dictionary String String := .empty
  for path in CommandLine.filesNamed arguments do
    let text ← try some <$> IO.FS.readFile path catch _ => pure none
    if let some text := text then
      files := files.put path text
  let outcome := CommandLine.run environment files arguments
  (← IO.getStdout).putStr outcome.output
  (← IO.getStderr).putStr outcome.errors
  return outcome.exit.toUInt32
