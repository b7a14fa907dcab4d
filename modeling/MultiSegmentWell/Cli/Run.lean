/-
# Running a command

SPEC_FULL.md, 6: `validate`, `wells`, `segments`, `branches` and `connections`.

What a command prints and how it ends, given the texts of files. Warnings about the
wells that were built are kept apart from the output.
-/

import MultiSegmentWell.Cli.Arguments
import MultiSegmentWell.Deck.File
import MultiSegmentWell.Report.Table

namespace MultiSegmentWell
namespace Cli

/-- Why a command fails. -/
inductive Failure where
  | usage
  /-- The deck cannot be loaded. -/
  | load (fault : DeckError)
  /-- A well cannot be built or shown. -/
  | build (fault : DeckError)
deriving Repr, DecidableEq

/-- What a command leaves behind. -/
structure Outcome where
  /-- The lines that are printed. -/
  lines : List String := []
  warnings : List Diagnostic := []
  failure : Option Failure := none

/-- The exit code of a command. -/
def Outcome.exitCode (o : Outcome) : Nat :=
  match o.failure with
  | none => 0
  | some .usage => 2
  | some _ => 1

variable [TextFormats]

/-- The outcome with a value shown or a failure. -/
def Outcome.show (o : Outcome) (json : Bool) (result : Except SegmentError α) (toJson : α → Json)
    (lines : α → List String) : Outcome :=
  match result with
  | .ok a =>
    if json then { o with lines := [TextFormats.writeJson (toJson a)] }
    else { o with lines := lines a }
  | .error e => { o with failure := some (.build (.segment e)) }

/-- A list as a value. -/
def listJson (toJson : α → Json) (items : List α) : Json := .list (items.map toJson)

variable [UnitConversions]

/-- The warnings among findings. -/
def warningsOf (findings : List Finding) : List Diagnostic :=
  (findings.map Finding.toDiagnostic).filter fun d => d.severity == .warning

/-- Builds all wells of a deck and shows their summaries. -/
def validate (json : Bool) (d : Deck) : Outcome :=
  let built := d.build
  let warnings := warningsOf built.findings
  match built.outcome with
  | .error e => { warnings, failure := some (.build e) }
  | .ok wells =>
    Outcome.show { warnings } json (.ok (wells.map fun w => Report.summary w.segments))
      (listJson Report.Summary.toJson) fun summaries =>
        summaries.map Report.Summary.line
          ++ ["✓ Deck is valid (" ++ Report.countText warnings.length ++ " warnings)"]

/-- Shows the wells of a deck. -/
def wells (json : Bool) (d : Deck) : Outcome :=
  Outcome.show {} json (.ok d) (fun d => listJson (fun w => .text w.name) d.wells) Report.wellLines

/-- Builds a well of a deck and shows something of it. -/
def withWell (d : Deck) (name : String) (shown : Outcome → BuiltWell → Outcome) : Outcome :=
  let built := d.buildNamed name
  let o : Outcome := { warnings := warningsOf built.findings }
  match built.outcome with
  | .error e => { o with failure := some (.build e) }
  | .ok well => shown o well

/-- What a command shows of a deck. -/
def Command.apply (json : Bool) (d : Deck) : Command → Outcome
  | .validate _ => Cli.validate json d
  | .wells _ => Cli.wells json d
  | .segments _ name => withWell d name fun o w =>
    o.show json (Report.segmentRows w.segments d.units) (listJson Report.SegmentRow.toJson)
      (Report.segmentLines w.segments.well d.units)
  | .branches _ name branch => withWell d name fun o w =>
    o.show json (Report.branchRows w.segments branch) (listJson Report.BranchRow.toJson)
      (fun rows => rows.map Report.BranchRow.line)
  | .connections _ name => withWell d name fun o w =>
    o.show json (.ok (Report.connectionRows d.units w.connections))
      (listJson Report.ConnectionRow.toJson) (Report.connectionLines w.segments.well d.units)

/-- The file that a command works on. -/
def Command.file : Command → String
  | .validate file | .wells file | .segments file _ | .branches file _ _ | .connections file _ =>
    file

/-- What is printed before the deck is loaded. -/
def Invocation.preamble (i : Invocation) : List String :=
  match i.json, i.command with
  | false, .validate file => ["Validating deck: " ++ file]
  | _, _ => []

/-- The outcome of an invocation on a file with a text, which may be missing. -/
def Invocation.run (i : Invocation) (text : Option String) : Outcome :=
  match Deck.load i.command.file text with
  | .error e => { lines := i.preamble, failure := some (.load e) }
  | .ok d =>
    let o := i.command.apply i.json d
    { o with lines := i.preamble ++ o.lines }

end Cli
end MultiSegmentWell
