/-
# Nodes of a YAML text

The reader that programs run with; deck files may be read by another one (`TextFormats`).

The tree of scalars, sequences and mappings that the tokens of a text describe. A
node that is left out is an empty plain scalar. Only texts with a single document
are read.

Each reader is given fewer tokens or less fuel than the one that calls it; every
node takes a token or ends its collection, so the fuel in `parse` is always enough.
-/

import MultiSegmentWell.Yaml.Token

namespace MultiSegmentWell
namespace Yaml

/-- A node. -/
inductive Node where
  /-- A scalar, with whether it is neither quoted nor a block. -/
  | scalar (plain : Bool) (text : String)
  | sequence (items : List Node)
  | mapping (entries : List (Node × Node))
deriving Inhabited

/-- What stands for a node that is left out. -/
def Node.empty : Node := .scalar true ""

/-- Whether a token ends the part of a block mapping in front of it. -/
def endsMappingPart : List Token → Bool
  | .key :: _ | .value :: _ | .blockEnd :: _ => true
  | _ => false

mutual

/-- A node. Within a block mapping, items may stand at the column of the mapping
without opening a sequence of their own. -/
def node (inBlock itemsAllowed : Bool) : (fuel : Nat) → List Token → Option (Node × List Token)
  | 0, _ => none
  | fuel + 1, tokens =>
    match tokens with
    | .scalar plain text :: rest => some (.scalar plain text, rest)
    | .flowSequenceStart :: .flowSequenceEnd :: rest => some (.sequence [], rest)
    | .flowSequenceStart :: rest =>
      (flowItems fuel rest).map fun (items, rest) => (.sequence items, rest)
    | .flowMappingStart :: .flowMappingEnd :: rest => some (.mapping [], rest)
    | .flowMappingStart :: rest =>
      (flowEntries fuel rest).map fun (entries, rest) => (.mapping entries, rest)
    | .sequenceStart :: rest =>
      if inBlock then
        (blockItems fuel rest).map fun (items, rest) => (.sequence items, rest)
      else none
    | .mappingStart :: rest =>
      if inBlock then
        (blockEntries fuel rest).map fun (entries, rest) => (.mapping entries, rest)
      else none
    | .item :: _ =>
      if itemsAllowed then
        (bareItems fuel tokens).map fun (items, rest) => (.sequence items, rest)
      else none
    | _ => none

/-- The items of a block sequence with their end. -/
def blockItems : (fuel : Nat) → List Token → Option (List Node × List Token)
  | 0, _ => none
  | fuel + 1, tokens =>
    match tokens with
    | .blockEnd :: rest => some ([], rest)
    | .item :: rest => do
      let (v, rest) ← match rest with
        | .item :: _ | .blockEnd :: _ => some (Node.empty, rest)
        | _ => node true false fuel rest
      (blockItems fuel rest).map fun (vs, rest) => (v :: vs, rest)
    | _ => none

/-- Items at the column of the mapping around them. -/
def bareItems : (fuel : Nat) → List Token → Option (List Node × List Token)
  | 0, _ => none
  | fuel + 1, tokens =>
    match tokens with
    | .item :: rest => do
      let bare := match rest with
        | .item :: _ => true
        | _ => endsMappingPart rest
      let (v, rest) ← if bare then some (Node.empty, rest) else node true false fuel rest
      (bareItems fuel rest).map fun (vs, rest) => (v :: vs, rest)
    | _ => some ([], tokens)

/-- The entries of a block mapping with their end. -/
def blockEntries : (fuel : Nat) → List Token → Option (List (Node × Node) × List Token)
  | 0, _ => none
  | fuel + 1, tokens =>
    match tokens with
    | .blockEnd :: rest => some ([], rest)
    | .key :: rest => do
      let (k, rest) ← if endsMappingPart rest then some (Node.empty, rest) else node true true fuel rest
      let (v, rest) ← blockValue fuel rest
      (blockEntries fuel rest).map fun (es, rest) => ((k, v) :: es, rest)
    | _ => none

/-- The value of an entry of a block mapping. -/
def blockValue : (fuel : Nat) → List Token → Option (Node × List Token)
  | 0, _ => none
  | fuel + 1, tokens =>
    match tokens with
    | .value :: rest =>
      if endsMappingPart rest then some (Node.empty, rest) else node true true fuel rest
    | _ => some (Node.empty, tokens)

/-- An item of a flow sequence; a key makes it a mapping with one entry. -/
def flowItem : (fuel : Nat) → List Token → Option (Node × List Token)
  | 0, _ => none
  | fuel + 1, tokens =>
    match tokens with
    | .key :: rest => do
      let (k, rest) ← match rest with
        | .value :: _ | .comma :: _ | .flowSequenceEnd :: _ => some (Node.empty, rest)
        | _ => node false false fuel rest
      match rest with
      | .value :: rest =>
        let (v, rest) ← match rest with
          | .comma :: _ | .flowSequenceEnd :: _ => some (Node.empty, rest)
          | _ => node false false fuel rest
        some (.mapping [(k, v)], rest)
      | _ => some (.mapping [(k, Node.empty)], rest)
    | _ => node false false fuel tokens

/-- The items of a flow sequence that has some, with its end. -/
def flowItems : (fuel : Nat) → List Token → Option (List Node × List Token)
  | 0, _ => none
  | fuel + 1, tokens => do
    let (v, rest) ← flowItem fuel tokens
    match rest with
    | .flowSequenceEnd :: rest | .comma :: .flowSequenceEnd :: rest => some ([v], rest)
    | .comma :: rest => (flowItems fuel rest).map fun (vs, rest) => (v :: vs, rest)
    | _ => none

/-- An entry of a flow mapping. -/
def flowEntry : (fuel : Nat) → List Token → Option ((Node × Node) × List Token)
  | 0, _ => none
  | fuel + 1, tokens =>
    match tokens with
    | .key :: rest => do
      let (k, rest) ← match rest with
        | .value :: _ | .comma :: _ | .flowMappingEnd :: _ => some (Node.empty, rest)
        | _ => node false false fuel rest
      match rest with
      | .value :: rest =>
        let (v, rest) ← match rest with
          | .comma :: _ | .flowMappingEnd :: _ => some (Node.empty, rest)
          | _ => node false false fuel rest
        some ((k, v), rest)
      | _ => some ((k, Node.empty), rest)
    | _ => (node false false fuel tokens).map fun (k, rest) => ((k, Node.empty), rest)

/-- The entries of a flow mapping that has some, with its end. -/
def flowEntries : (fuel : Nat) → List Token → Option (List (Node × Node) × List Token)
  | 0, _ => none
  | fuel + 1, tokens => do
    let (e, rest) ← flowEntry fuel tokens
    match rest with
    | .flowMappingEnd :: rest | .comma :: .flowMappingEnd :: rest => some ([e], rest)
    | .comma :: rest => (flowEntries fuel rest).map fun (es, rest) => (e :: es, rest)
    | _ => none

end

/-- The root of a document whose start was marked or not. -/
def root (tokens : List Token) : Option (Node × List Token) :=
  let full (tokens : List Token) := node true false (4 * tokens.length + 4) tokens
  match tokens with
  | .documentStart :: rest =>
    match rest with
    | [] | .documentStart :: _ | .documentEnd :: _ => some (Node.empty, rest)
    | _ => full rest
  | [] => none
  | _ => full tokens

/-- The root of the only document in a text. -/
def parse (text : String) : Option Node := do
  let (n, rest) ← root (← tokens text)
  if rest.all (· == .documentEnd) then some n else none

end Yaml
end MultiSegmentWell
