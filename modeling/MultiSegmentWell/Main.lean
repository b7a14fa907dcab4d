/-
# The command line

SPEC_FULL.md, 6: output, warnings on standard error; 7: failures.

Reads the file that the command names and prints the outcome: lines on standard
output, warnings and failures on standard error.
-/

import MultiSegmentWell.Cli.Run

namespace MultiSegmentWell
namespace Cli

/-- How the program is called. -/
def usageText : String :=
  "Usage: [--json] validate|wells DECK\n"
    ++ "       [--json] segments|connections DECK WELL\n"
    ++ "       [--json] branches DECK WELL [-b BRANCH]"

/-- The text of a failure. -/
def Failure.text : Failure → String
  | .usage => usageText
  | .load fault => "failed to load deck: " ++ fault.message?.getD "the file cannot be read"
  | .build fault => fault.message?.getD ""

/-- The text of a file, if it can be read. -/
def readFile? (name : String) : IO (Option String) :=
  try
    return some (← IO.FS.readFile ⟨name⟩)
  catch _ => return none

/-- Prints an outcome and gives its exit code. -/
def report (o : Outcome) : IO UInt32 := do
  for line in o.lines do IO.println line
  for d in o.warnings do IO.eprintln d.display
  match o.failure with
  | some f => IO.eprintln f.text
  | none => pure ()
  return UInt32.ofNat o.exitCode

end Cli
end MultiSegmentWell

open MultiSegmentWell in
/-- Runs the command that the arguments name. -/
def main (args : List String) : IO UInt32 := do
  match Cli.parse args with
  | some i => Cli.report (i.run (← Cli.readFile? i.command.file))
  | none => Cli.report { failure := some .usage }
