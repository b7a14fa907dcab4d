/-
# Findings

SPEC_FULL.md, 6: diagnostics; 4.2 and 4.5: the two warnings.

What is worth telling about a well although work on it goes on: a roughness that
was limited, a segment that is steeper than it is long, and the note that a tree
is resolved. A `Reported` outcome carries the findings made on the way to it, also
where it is a failure.

Diagnostics are findings as text. A `Log` keeps diagnostics in the order in which
they arrive.
-/

import MultiSegmentWell.Error

namespace MultiSegmentWell

/-- Something worth telling about a well. -/
inductive Finding where
  /-- The roughness of a range is too high and was limited. -/
  | limitedRoughness (well : String) (first last : Int) (given limited : Float)
  /-- The depth changes along a segment by more than its length allows. -/
  | steepSegment (well : String) (number : Int) (units : UnitSystem) (depthChange length : Float)
  /-- The tree of a well is resolved. -/
  | resolved (well : String) (segments branches : Nat) (mode : GeometryMode)
deriving Repr, DecidableEq

/-- How much a diagnostic matters. -/
inductive Severity where
  | warning
  | note
deriving Repr, DecidableEq

/-- The word in front of a diagnostic. -/
def Severity.name : Severity → String
  | warning => "warning"
  | note => "note"

/-- A message with its severity. -/
structure Diagnostic where
  severity : Severity
  text : String
deriving Repr, DecidableEq

/-- A diagnostic on one line. -/
def Diagnostic.display (d : Diagnostic) : String := d.severity.name ++ ": " ++ d.text

namespace Finding

/-- The severity of a finding. -/
def severity : Finding → Severity
  | resolved .. => .note
  | _ => .warning

/-- The text of a finding. -/
def text [UnitConversions] : Finding → String
  | limitedRoughness well first last given limited =>
    "Well " ++ well ++ " WELSEGS segment " ++ integerText first ++ " to " ++ integerText last
      ++ ": Too high roughness " ++ Layout.scientific 3 given ++ " is limited to "
      ++ Layout.scientific 3 limited ++ " to avoid singularity in friction factor calculation."
  | steepSegment well number units depthChange length =>
    let shown (v : Float) := realText (units.lengthFromSI v) ++ " " ++ units.lengthName
    " Segment " ++ integerText number ++ " of well " ++ well ++ " has a depth change of "
      ++ shown depthChange ++ ", but it has a length of " ++ shown length
      ++ ", which is unphysical."
  | resolved well segments branches mode =>
    aboutWell well ("resolved " ++ Layout.digitText segments ++ " segments on "
      ++ Layout.digitText branches ++ " branches (" ++ mode.name ++ ")")

/-- A finding as a diagnostic. -/
def toDiagnostic [UnitConversions] (f : Finding) : Diagnostic := ⟨f.severity, f.text⟩

end Finding

/-- Diagnostics in the order in which they arrived. -/
structure Log where
  entries : List Diagnostic := []
deriving Repr, DecidableEq

namespace Log

/-- A log with one more diagnostic. -/
def add (log : Log) (d : Diagnostic) : Log := ⟨log.entries ++ [d]⟩

/-- The diagnostics of one severity. -/
def ofSeverity (log : Log) (s : Severity) : List Diagnostic :=
  log.entries.filter fun d => d.severity == s

/-- Whether nothing was reported. -/
def isEmpty (log : Log) : Bool := log.entries.isEmpty

end Log

/-- An outcome with the findings made on the way to it. -/
structure Reported (ε α : Type) where
  findings : List Finding
  outcome : Except ε α

namespace Reported

/-- An outcome without findings. -/
def ofExcept (outcome : Except ε α) : Reported ε α := ⟨[], outcome⟩

/-- A single finding. -/
def tell (f : Finding) : Reported ε Unit := ⟨[f], .ok ()⟩

/-- Findings add up until the first failure. -/
def bind (r : Reported ε α) (next : α → Reported ε β) : Reported ε β :=
  match r.outcome with
  | .error e => ⟨r.findings, .error e⟩
  | .ok a => ⟨r.findings ++ (next a).findings, (next a).outcome⟩

instance : Monad (Reported ε) where
  pure a := ⟨[], .ok a⟩
  bind := bind

/-- The same outcome with its failure in other words. -/
def mapError (f : ε → δ) (r : Reported ε α) : Reported δ α := ⟨r.findings, r.outcome.mapError f⟩

/-- The diagnostics for the findings. -/
def diagnostics [UnitConversions] (r : Reported ε α) : List Diagnostic :=
  r.findings.map Finding.toDiagnostic

end Reported
end MultiSegmentWell
