/-
# Why an operation on segments fails

SPEC_FULL.md, 7: the kinds of failure and the context they carry.

Every failure names the well. `SegmentError.message` is the only place where the
causes become text.
-/

import MultiSegmentWell.Device.Basic
import MultiSegmentWell.Number.Layout
import MultiSegmentWell.Settings

namespace MultiSegmentWell

/-- What is wrong with the range of a record. -/
inductive RangeFault where
  /-- The range covers the top segment or a number below it. -/
  | startsTooLow
  /-- The range ends before it starts. -/
  | reversed
  /-- The range has several segments, but absolute values belong to one. -/
  | severalAbsolute
deriving Repr, DecidableEq

/-- Why a flow scaling factor cannot be computed. -/
inductive ScalingFault where
  | zeroLength
  | lengthNotPositive
  | zeroConnectionLength
  | unknownMethod
deriving Repr, DecidableEq

/-- Why an operation on the segments of a well fails. -/
inductive SegmentError where
  | malformedRange (well : String) (first last : Int) (fault : RangeFault)
  | invalidBranch (well : String) (branch first last : Int)
  | unknownSegment (well : String) (number : Int)
  /-- The outlets of these segments lead nowhere or in a circle. -/
  | unresolvableTopology (well : String) (numbers : List Int)
  /-- Two segments both continue a branch. -/
  | ambiguousOutlet (well : String) (branch first second : Int)
  | nonPositiveLength (well : String) (number : Int) (length : Float)
  /-- No segment with values of its own closes the range that starts here. -/
  | incompleteRange (well : String) (number : Int)
  | frictionRequired (well : String) (kind : DeviceKind)
  | branchLoop (well : String) (branch : Int)
  | connectionNotAllocated (well : String) (branch : Int) (start finish : Float)
  | notResolved (well : String)
  | alreadyLoaded (well : String)
  | unknownSetting (setting : Setting) (value : String)
  | invalidScaling (method : Int) (fault : ScalingFault)
deriving Repr, DecidableEq

/-- The reason that a message gives for refusing a range. -/
def RangeFault.reason : RangeFault → String
  | startsTooLow => "segment 1 must be at least 2"
  | reversed => "segment 2 is smaller than segment 1"
  | severalAbsolute =>
    "multiple segments in one record are not supported with ABS length and depth"

/-- The reason that a message gives for a missing scaling factor. -/
def ScalingFault.reason : ScalingFault → String
  | zeroLength => "zero device length"
  | lengthNotPositive => "device length must be positive"
  | zeroConnectionLength => "zero connection length"
  | unknownMethod => "unknown scaling method"

/-- An integer in a message. -/
def integerText (n : Int) : String := String.ofList (Layout.integerChars n)

/-- A double in a message. -/
def realText (x : Float) : String := Layout.plain.write x

/-- Integers in a message, in brackets. -/
def integersText (ns : List Int) : String :=
  "[" ++ String.intercalate ", " (ns.map integerText) ++ "]"

/-- How a message about a well starts. -/
def aboutWell (well text : String) : String := "Well " ++ well ++ ": " ++ text

namespace SegmentError

/-- The text of a failure. -/
def message : SegmentError → String
  | malformedRange well first last fault =>
    aboutWell well ("illegal WELSEGS range " ++ integerText first ++ ".." ++ integerText last
      ++ ": " ++ fault.reason)
  | invalidBranch well branch first last =>
    aboutWell well ("illegal branch number " ++ integerText branch ++ " for segments "
      ++ integerText first ++ ".." ++ integerText last)
  | unknownSegment well number =>
    aboutWell well ("unknown segment number " ++ integerText number)
  | unresolvableTopology well numbers =>
    aboutWell well ("could not resolve the outlet chain of segments " ++ integersText numbers)
  | ambiguousOutlet well branch first second =>
    aboutWell well ("segments " ++ integerText first ++ " and " ++ integerText second
      ++ " in branch " ++ integerText branch ++ " share the same outlet segment")
  | nonPositiveLength well number length =>
    aboutWell well ("non positive length " ++ realText length ++ " obtained for segment "
      ++ integerText number)
  | incompleteRange well number =>
    aboutWell well ("WELSEGS range starting at segment " ++ integerText number
      ++ " has no closing record")
  | frictionRequired well kind =>
    aboutWell well ("to use " ++ kind.name ++ " segments you have to activate the frictional "
      ++ "pressure drop calculation in WELSEGS")
  | branchLoop well branch =>
    aboutWell well ("loop detected in the segment structure of branch " ++ integerText branch)
  | connectionNotAllocated well branch start finish =>
    aboutWell well ("connection at " ++ realText start ++ ".." ++ realText finish ++ " on branch "
      ++ integerText branch ++ " cannot be allocated to a well segment based on MD")
  | notResolved well => aboutWell well "segment structure has not been resolved"
  | alreadyLoaded well => aboutWell well "segment structure is already defined"
  | unknownSetting setting value =>
    "Unknown " ++ setting.name ++ " value '" ++ value ++ "'"
  | invalidScaling method fault =>
    "Cannot compute flow scaling factor for ICD (method " ++ integerText method ++ "): "
      ++ fault.reason

end SegmentError

namespace GeometryMode

/-- The mode that a word names, or the failure to read it. -/
def ofText (text : String) : Except SegmentError GeometryMode :=
  match ofText? text with
  | some mode => .ok mode
  | none => .error (.unknownSetting .geometryMode (Text.trim text))

end GeometryMode

namespace PressureDrop

/-- The components that a word names, or the failure to read it. -/
def ofText (text : String) : Except SegmentError PressureDrop :=
  match ofText? text with
  | some components => .ok components
  | none => .error (.unknownSetting .pressureDrop (Text.trim text))

end PressureDrop

namespace FlowModel

/-- The model that a word names, or the failure to read it. -/
def ofText (text : String) : Except SegmentError FlowModel :=
  match ofText? text with
  | some model => .ok model
  | none => .error (.unknownSetting .flowModel (Text.trim text))

end FlowModel
end MultiSegmentWell
