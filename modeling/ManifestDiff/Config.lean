import ManifestDiff.Diff.Equivalence
import ManifestDiff.Number.Layout
import ManifestDiff.Text
import ManifestDiff.Toml.Document
import ManifestDiff.Toml.Value
/-!
# Configuration

The settings of a run, each with a default, and how they are decoded: in the order of the document,
and the first error counts. A section may also be written as an array of the values of its fields.
The identity section ignores unknown fields, which the rest of the configuration does not.
-/
namespace ManifestDiff

inductive OutputFormat where
  | text
  | json
deriving DecidableEq, Repr, Inhabited

namespace OutputFormat

def name : OutputFormat → String
  | .text => "text"
  | .json => "json"

def ofName? (name : String) : Option OutputFormat :=
  [text, json].find? fun format => format.name == name

end OutputFormat

structure OutputSettings where
  color : Bool := true
  format : OutputFormat := .text
deriving DecidableEq, Repr, Inhabited

structure Config where
  identity : IdentityRule := {}
  output : OutputSettings := {}
deriving DecidableEq, Repr, Inhabited

inductive Found where
  | string (s : String)
  | integer (i : Int64)
  | float (x : Binary64)
  | boolean (b : Bool)
  | map
  | sequence
deriving DecidableEq, Repr

/-- Floats are told with all their digits and always with a fraction. -/
def Layout.told : Layout := ⟨.up, none, none, true, false⟩

def Found.phrase : Found → String
  | .string s => "string " ++ quoted s
  | .integer i => "integer \x60" ++ toString i.toInt ++ "\x60"
  | .float .nan => "floating point \x60NaN\x60"
  | .float (.infinite negative) =>
    "floating point \x60" ++ (if negative then "-inf" else "inf") ++ "\x60"
  | .float (.finite negative index) =>
    "floating point \x60" ++ Layout.told.finite negative index ++ "\x60"
  | .boolean b => "boolean \x60" ++ (if b then "true" else "false") ++ "\x60"
  | .map => "map"
  | .sequence => "sequence"

def Toml.Value.found : Toml.Value → Found
  | .string s => .string s
  | .integer i => .integer i
  | .float x => .float x
  | .boolean b => .boolean b
  | .datetime _ => .map
  | .array _ => .sequence
  | .tables _ => .sequence
  | .table .. => .map

def Toml.Value.typeName : Toml.Value → String
  | .string _ => "string"
  | .integer _ => "integer"
  | .float _ => "float"
  | .boolean _ => "boolean"
  | .datetime _ => "datetime"
  | .array _ => "array"
  | .tables _ => "array of tables"
  | .table .. => "table"

inductive Expected where
  | string
  | boolean
  | identity
  | output
deriving DecidableEq, Repr

def Expected.phrase : Expected → String
  | .string => "a string"
  | .boolean => "a boolean"
  | .identity => "struct IdentityRule"
  | .output => "struct OutputConfig"

inductive ConfigError where
  | notToml
  | unknownField (name first second : String)
  | wrongType (found : Found) (expected : Expected)
  | unknownFormat (name : String)
  | notAFormat
  | noFormatKey
  | manyFormatKeys
  | formatContent (inTables : Bool)
  /-- The key of a table in place of a format has a value that is no table. -/
  | formatValue (typeName : String)
deriving DecidableEq, Repr

/-- The message; what is wrong with a text that is not TOML is not part of it. -/
def ConfigError.message : ConfigError → String
  | .notToml => "TOML parse error"
  | .unknownField name first second =>
    "unknown field \x60" ++ name ++ "\x60, expected \x60" ++ first ++ "\x60 or \x60" ++ second ++
      "\x60"
  | .wrongType found expected =>
    "invalid type: " ++ found.phrase ++ ", expected " ++ expected.phrase
  | .unknownFormat name =>
    "unknown variant \x60" ++ name ++ "\x60, expected \x60text\x60 or \x60json\x60"
  | .notAFormat => "wanted string or table"
  | .noFormatKey => "wanted exactly 1 element, found 0 elements"
  | .manyFormatKeys => "wanted exactly 1 element, more than 1 element"
  | .formatContent inTables => if inTables then "expected empty array" else "expected empty table"
  | .formatValue typeName => "expected table, found " ++ typeName

/-- The fields that a section gives values to. The values of an array belong to the fields in order.
-/
def Toml.Value.fields? (names : List String) : Toml.Value → Option Toml.Entries
  | .table _ entries => some entries
  | .array items => some (names.zip items)
  | .tables items => some (names.zip items)
  | .datetime text => some [("$__toml_private_datetime", .string text)]
  | _ => none

def stringOf : Toml.Value → Except ConfigError String
  | .string s => .ok s
  | value => .error (.wrongType value.found .string)

def booleanOf : Toml.Value → Except ConfigError Bool
  | .boolean b => .ok b
  | value => .error (.wrongType value.found .boolean)

namespace OutputFormat

def ofKey (name : String) : Except ConfigError OutputFormat :=
  match ofName? name with
  | some format => .ok format
  | none => .error (.unknownFormat name)

def checkEmpty : Toml.Value → Except ConfigError Unit
  | .table _ entries => if entries.isEmpty then .ok () else .error (.formatContent false)
  | .array items => if items.isEmpty then .ok () else .error (.formatContent false)
  | .tables items => if items.isEmpty then .ok () else .error (.formatContent true)
  | value => .error (.formatValue value.typeName)

def ofToml : Toml.Value → Except ConfigError OutputFormat
  | .string name => ofKey name
  | .table _ [] => .error .noFormatKey
  | .table _ [(name, value)] => do
    let format ← ofKey name
    checkEmpty value
    return format
  | .table .. => .error .manyFormatKeys
  | _ => .error .notAFormat

end OutputFormat

def IdentityRule.setField (rule : IdentityRule) :
    String × Toml.Value → Except ConfigError IdentityRule
  | ("name_key", value) => do return { rule with nameKey := ← stringOf value }
  | ("type_key", value) => do return { rule with typeKey := ← stringOf value }
  | ("label", value) => do return { rule with label := ← stringOf value }
  | _ => .ok rule

def IdentityRule.ofToml (value : Toml.Value) : Except ConfigError IdentityRule :=
  match value.fields? ["name_key", "type_key", "label"] with
  | some fields => fields.foldlM setField {}
  | none => .error (.wrongType value.found .identity)

def OutputSettings.setField (settings : OutputSettings) :
    String × Toml.Value → Except ConfigError OutputSettings
  | ("color", value) => do return { settings with color := ← booleanOf value }
  | ("format", value) => do return { settings with format := ← OutputFormat.ofToml value }
  | (name, _) => .error (.unknownField name "color" "format")

def OutputSettings.ofToml (value : Toml.Value) : Except ConfigError OutputSettings :=
  match value.fields? ["color", "format"] with
  | some fields => fields.foldlM setField {}
  | none => .error (.wrongType value.found .output)

namespace Config

def setField (config : Config) : String × Toml.Value → Except ConfigError Config
  | ("identity", value) => do return { config with identity := ← IdentityRule.ofToml value }
  | ("output", value) => do return { config with output := ← OutputSettings.ofToml value }
  | (name, _) => .error (.unknownField name "identity" "output")

def parse (text : String) : Except ConfigError Config :=
  match Toml.read? text with
  | some entries => entries.foldlM setField {}
  | none => .error .notToml

end Config
end ManifestDiff
