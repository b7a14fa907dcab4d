/-
# Arguments of the command line

SPEC_FULL.md, 6: the commands and options of the command line.

A command line is a command with its operands and options in any order. The option
`--json` may also stand in front of the command; in each of the two places it may
stand once. Only the command `branches` takes a number of a branch, as `-b N`,
`-bN`, `-b=N`, `--branch N` or `--branch=N`; a number with a minus must be attached.
Behind `--` everything is an operand.
-/

namespace MultiSegmentWell
namespace Cli

/-- What to show of the deck in a file. -/
inductive Command where
  | validate (file : String)
  | wells (file : String)
  | segments (file well : String)
  | branches (file well : String) (branch : Option Int)
  | connections (file well : String)
deriving Repr, DecidableEq

/-- A command and whether its output is to be read by machine. -/
structure Invocation where
  json : Bool
  command : Command
deriving Repr, DecidableEq

/-- A number of 32 bits with a sign that may be missing. -/
def number? (text : List Char) : Option Int :=
  let (negative, digits) := match text with
    | '-' :: rest => (true, rest)
    | '+' :: rest => (false, rest)
    | _ => (false, text)
  if digits.isEmpty || !digits.all Char.isDigit then none
  else
    let n : Int := digits.foldl (fun n c => 10 * n + (c.toNat - '0'.toNat)) 0
    let n := if negative then -n else n
    if -0x80000000 ≤ n && n < 0x80000000 then some n else none

/-- The options and operands behind a command. -/
structure Rest where
  json : Bool := false
  branch : Option Int := none
  operands : List String := []
deriving Repr, DecidableEq

namespace Rest

/-- The option for reading by machine, once. -/
def setJson (r : Rest) : Option Rest := if r.json then none else some { r with json := true }

/-- The number of a branch, once. -/
def setBranch (r : Rest) (text : List Char) : Option Rest :=
  if r.branch.isSome then none
  else (number? text).map fun n => { r with branch := some n }

/-- One more operand. -/
def addOperand (r : Rest) (text : String) : Rest := { r with operands := r.operands ++ [text] }

/-- The value attached to an option that starts with these characters. -/
def attached? (start text : List Char) : Option (List Char) :=
  if start.isPrefixOf text && start.length < text.length then some (text.drop start.length)
  else none

/-- The branch that an argument gives by itself. -/
def attachedBranch? (text : List Char) : Option (List Char) :=
  (attached? "--branch=".toList text).or <|
    (attached? "-b=".toList text).or <|
      if text.take 3 == "-b=".toList then none else attached? "-b".toList text

/-- Whether an argument is an option by its form. -/
def isOption (a : String) : Bool := a.startsWith "-" && a != "-"

/-- The options and operands among arguments; `takesBranch` tells whether the command
takes a branch. -/
def parse (takesBranch : Bool) (r : Rest) : List String → Option Rest
  | [] => some r
  | "--" :: rest => some { r with operands := r.operands ++ rest }
  | "--json" :: rest => do parse takesBranch (← r.setJson) rest
  | [a] =>
    match takesBranch, attachedBranch? a.toList with
    | true, some value => r.setBranch value
    | _, _ => if isOption a then none else some (r.addOperand a)
  | a :: b :: rest => do
    match takesBranch, attachedBranch? a.toList with
    | true, some value => parse takesBranch (← r.setBranch value) (b :: rest)
    | _, _ =>
      if takesBranch && (a == "-b" || a == "--branch") then
        if b.startsWith "-" then none else parse takesBranch (← r.setBranch b.toList) rest
      else if isOption a then none
      else parse takesBranch (r.addOperand a) (b :: rest)

end Rest

/-- The command with a name and what stands behind it. -/
def command? (name : String) (r : Rest) : Option Command :=
  match name, r.operands with
  | _, "" :: _ => none
  | "validate", [file] => some (.validate file)
  | "wells", [file] => some (.wells file)
  | "segments", [file, well] => some (.segments file well)
  | "branches", [file, well] => some (.branches file well r.branch)
  | "connections", [file, well] => some (.connections file well)
  | _, _ => none

/-- The invocation that arguments describe, where the option for reading by machine
stood in front of them or not. -/
def parseFrom (json : Bool) : List String → Option Invocation
  | "--json" :: rest => if json then none else parseFrom true rest
  | name :: rest => do
    let r ← Rest.parse (name == "branches") {} rest
    some ⟨json || r.json, ← command? name r⟩
  | [] => none

/-- The invocation that arguments describe. -/
def parse (args : List String) : Option Invocation := parseFrom false args

end Cli
end MultiSegmentWell
