import DynTypes.Cli.Run
/-!
# The program

Hands the command line to the commands and prints what they leave behind.
-/

/-- Runs the command line. -/
def main (arguments : List String) : IO UInt32 := do
  let outcome := DynTypes.Cli.run arguments
  IO.print outcome.output
  IO.eprint outcome.diagnostics
  return UInt32.ofNat outcome.code
