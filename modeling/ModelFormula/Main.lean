import ModelFormula.CommandLine.Run

/-!
# The program

Prints the report of the command line: its output, then its errors, and ends with its exit code.
-/

open ModelFormula in
/-- Runs the command line. -/
def main (arguments : List String) : IO UInt32 := do
  let report := CommandLine.run arguments
  (← IO.getStdout).putStr report.output
  let errors ← IO.getStderr
  for message in report.errors do
    errors.putStrLn message
  return report.code.toUInt32
