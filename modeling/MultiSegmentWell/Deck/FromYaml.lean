/-
# Decks in YAML

SPEC_FULL.md, 6: `from_yaml_str`.

How the nodes of a YAML text give the parts of a deck. Any scalar can be a text;
numbers and null are plain scalars. Fields come from mappings only, and a list may
be left empty. An alternative without contents is written as its name.
-/

import MultiSegmentWell.Deck.FromJson
import MultiSegmentWell.Yaml.Resolution

namespace MultiSegmentWell
namespace Deck
namespace Source

/-- The fields of a mapping whose keys are all scalars. -/
def mappingFields? : Yaml.Node → Option (List (String × Yaml.Node))
  | .mapping entries => entries.mapM fun
    | (.scalar _ name, v) => some (name, v)
    | _ => none
  | _ => none

/-- The items of a sequence; what is left out is an empty one. -/
def sequenceItems? : Yaml.Node → Option (List Yaml.Node)
  | .sequence items => some items
  | .scalar true "" => some []
  | _ => none

/-- The text of a plain scalar. -/
def plainText? : Yaml.Node → Option String
  | .scalar true text => some text
  | _ => none

/-- The text of a scalar. -/
def scalarText? : Yaml.Node → Option String
  | .scalar _ text => some text
  | _ => none

/-- How deep a node in an entry of a device may be nested. -/
def deepestNode : Nat := 123

/-- The nodes of a YAML text. -/
def yaml : Source Yaml.Node where
  fields? _ := mappingFields?
  namedFields? := mappingFields?
  describe? v := v.describe?.filter fun j => j.depth ≤ deepestNode
  items? := sequenceItems?
  isNull v := (plainText? v).any Yaml.standsForNull
  integer? v := (plainText? v).bind fun t => Yaml.integerOfText? t.toList
  natural? v := (plainText? v).bind fun t => Yaml.naturalOfText? t.toList
  real? v := (plainText? v).bind Yaml.realOfText?
  text? := scalarText?
  word? := scalarText?

end Source

/-- The deck that a YAML node holds. -/
def ofYaml? (n : Yaml.Node) : Option Deck := read .yaml .plain n

end Deck
end MultiSegmentWell
