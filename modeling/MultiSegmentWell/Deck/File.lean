/-
# Deck files

SPEC_FULL.md, 6: `load`, `load_json`, `load_yaml`, `save_json` and `save_yaml`.

The name of a file decides its format: `json` behind the last point of the name
means JSON, anything else means YAML. A deck is validated when it is loaded and
before it is saved.

How the texts of the two formats are read and written is not part of this library:
readers and writers are given as `TextFormats`, and what is proved of files holds for
all that read back what they write. Programs run with `nearest`, which reads every
numeral as the double nearest to it.
-/

import MultiSegmentWell.Deck.Building
import MultiSegmentWell.Deck.FromYaml
import MultiSegmentWell.Json.Printer
import MultiSegmentWell.Yaml.Printer

namespace MultiSegmentWell

namespace FileFormat

/-- What stands behind the last point of a name, if something stands in front of it. -/
def fileSuffix? (name : List Char) : Option (List Char) :=
  let base := (name.reverse.takeWhile (· != '/')).reverse
  let suffix := (base.reverse.takeWhile (· != '.')).reverse
  if suffix.length + 1 < base.length && base != ['.', '.'] then some suffix else none

/-- The format of a file with a name. -/
def ofName (name : String) : FileFormat :=
  if fileSuffix? name.toList = some ['j', 's', 'o', 'n'] then .json else .yaml

end FileFormat

/-- Readers and writers of JSON and of YAML. -/
class TextFormats where
  /-- The value in a JSON text. -/
  readJson : String → Option Json
  writeJson : Json → String
  /-- The node in a YAML text. -/
  readYaml : String → Option Yaml.Node
  writeYaml : Json → String

/-- The formats with numerals read as the nearest doubles. -/
instance TextFormats.nearest : TextFormats where
  readJson := Json.parse
  writeJson := Json.print Json.spread
  readYaml := Yaml.parse
  writeYaml := Yaml.print

namespace Deck

variable [TextFormats]

/-- The deck that a text holds, not validated. -/
def parse? (format : FileFormat) (text : String) : Option Deck :=
  match format with
  | .json => (TextFormats.readJson text).bind ofJson?
  | .yaml => (TextFormats.readYaml text).bind ofYaml?

/-- The deck that a text holds, not validated, or the failure to read it. -/
def parse (format : FileFormat) (text : String) : Except DeckError Deck :=
  match parse? format text with
  | some d => .ok d
  | none => .error (.unreadable format)

/-- The valid deck that a text holds. -/
def ofText (format : FileFormat) (text : String) : Except DeckError Deck := do
  let d ← parse format text
  d.validate.mapError .validation
  .ok d

/-- The valid deck in a file with a name and a text, which may be missing. -/
def load (name : String) (text : Option String) : Except DeckError Deck :=
  match text with
  | some text => ofText (.ofName name) text
  | none => .error .missingFile

/-- A deck as text. -/
def print (format : FileFormat) (d : Deck) : String :=
  match format with
  | .json => TextFormats.writeJson d.toJson
  | .yaml => TextFormats.writeYaml d.toJson

/-- The text of a valid deck. -/
def save (format : FileFormat) (d : Deck) : Except DeckError String := do
  d.validate.mapError .validation
  .ok (d.print format)

end Deck
end MultiSegmentWell
