import PathExpr.Cli.Arguments

/-!
# The program

Runs the command line.  The document is read from the standard input when a command needs one and the
command line gives none, unless the standard input is a terminal.
-/

namespace PathExpr.Cli

/-- The document on the standard input, if there is one; an input that is no text is told by its
outcome. -/
def readDocument : IO (Except Outcome (Option String)) := do
  let stdin ← IO.getStdin
  if ← stdin.isTty then return .ok none
  match String.fromUTF8? (← stdin.readBinToEnd) with
  | some text => return .ok (some text)
  | none => return .error ⟨1, "", "IO error: stream did not contain valid UTF-8\n"⟩

/-- Print an outcome and end with its code. -/
def report (outcome : Outcome) : IO UInt32 := do
  (← IO.getStdout).putStr outcome.stdout
  (← IO.getStderr).putStr outcome.stderr
  return outcome.code.toUInt32

end PathExpr.Cli

open PathExpr in
/-- Run the command line. -/
def main (arguments : List String) : IO UInt32 := do
  match Cli.parse arguments with
  | .error fault => Cli.report (.ofUsage fault)
  | .ok invocation =>
      if invocation.command.takesInput && invocation.input.isNone then
        match ← Cli.readDocument with
        | .ok input => Cli.report (invocation.run input)
        | .error outcome => Cli.report outcome
      else Cli.report (invocation.run none)
