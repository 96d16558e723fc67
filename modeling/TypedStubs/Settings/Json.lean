import TypedStubs.Settings.Basic
import TypedStubs.Json.Reader
import TypedStubs.Json.Printer

/-! # Settings as JSON

Settings are written as one object.  They are read from an object, whose unknown keys mean nothing
and whose missing keys keep the standard value, or from a list of the values in the order of the
keys.  A known key may stand only once.
-/
namespace TypedStubs.Settings

/-- The keys of the settings, in order. -/
def keys : List String := [
  "root_package", "required_prefix", "excluded_paths", "excluded_names", "excluded_attributes",
  "logger_factories", "excluded_parameters", "receiver_names", "generic_module", "generic_types",
  "generic_aliases", "builtin_types", "class_var_marker", "unknown_type",
  "significant_decorators", "builtin_decorators", "dropped_decorators", "redirect_decorators",
  "hidden_parameter_sources", "getter_prefix", "inline_code_delimiter", "path_separator",
  "match_policy", "baseline_imports", "source_extension", "interface_extension"]

/-- The names of the policies. -/
def policyNames : List (String × MatchPolicy) := [("first", .first), ("unique", .unique)]

/-- How a place in docstrings is read: both the title and the field have to be given. -/
def placeLayout : Json.Layout DocstringPlace where
  title := "struct DocstringField"
  keys := ["section", "field"]
  isStrict := true
  value key place := do
    let value ← Json.aText
    return if key == "section" then { place with title := value } else { place with field := value }

/-- Aliases in the order of their names, with one more; an alias of the same name gives way. -/
def putAlias (name target : String) : List (String × String) → List (String × String)
  | [] => [(name, target)]
  | (n, t) :: rest =>
    if n < name then (n, t) :: putAlias name target rest
    else if n = name then (name, target) :: rest
    else (name, target) :: (n, t) :: rest

/-- Aliases; of a repeated name the last one counts. -/
def aliases : Json.Reader (List (String × String)) := do
  let entries ← Json.entriesOf Json.aText
  return entries.foldl (fun sorted (name, target) => putAlias name target sorted) []

/-- A list of texts. -/
def texts : Json.Reader (List String) := Json.listOf Json.aText

/-- The settings with the value of a key read into them. -/
def readKey (key : String) (s : Settings) : Json.Reader Settings := do
  match key with
  | "root_package" => return { s with rootPackage := ← Json.orNothing Json.aText }
  | "required_prefix" => return { s with requiredPrefix := ← Json.orNothing Json.aText }
  | "excluded_paths" => return { s with excludedPaths := ← texts }
  | "excluded_names" => return { s with excludedNames := ← texts }
  | "excluded_attributes" => return { s with excludedAttributes := ← texts }
  | "logger_factories" => return { s with loggerFactories := ← texts }
  | "excluded_parameters" => return { s with excludedParameters := ← texts }
  | "receiver_names" => return { s with receiverNames := ← texts }
  | "generic_module" => return { s with genericModule := ← Json.aText }
  | "generic_types" => return { s with genericTypes := ← texts }
  | "generic_aliases" => return { s with genericAliases := ← aliases }
  | "builtin_types" => return { s with builtinTypes := ← texts }
  | "class_var_marker" => return { s with classVarMarker := ← Json.aText }
  | "unknown_type" => return { s with unknownType := ← Json.aText }
  | "significant_decorators" => return { s with significantDecorators := ← texts }
  | "builtin_decorators" => return { s with builtinDecorators := ← texts }
  | "dropped_decorators" => return { s with droppedDecorators := ← texts }
  | "redirect_decorators" => return { s with redirectDecorators := ← texts }
  | "hidden_parameter_sources" =>
    return { s with hiddenParameterPlaces := ← Json.listOf (placeLayout.record ⟨"", ""⟩) }
  | "getter_prefix" => return { s with getterPrefix := ← Json.aText }
  | "inline_code_delimiter" => return { s with inlineCodeDelimiter := ← Json.aCharacter }
  | "path_separator" => return { s with pathSeparator := ← Json.aCharacter }
  | "match_policy" => return { s with matchPolicy := ← Json.oneOf policyNames }
  | "baseline_imports" => return { s with baselineImports := ← texts }
  | "source_extension" => return { s with sourceExtension := ← Json.aText }
  | "interface_extension" => return { s with interfaceExtension := ← Json.aText }
  | _ => return s

/-- How settings are read: a key that is missing leaves the standard value. -/
def layout : Json.Layout Settings where
  title := "struct StubConfig"
  keys := keys
  isStrict := false
  value := readKey

/-- Why a text gives no settings. -/
inductive LoadProblem where
  /-- The text is no JSON, or a value in it is of the wrong kind. -/
  | json (problem : Json.Problem)
  /-- The settings cannot steer a run. -/
  | refused (problem : Problem)
  deriving DecidableEq

/-- Settings read from a text. -/
def read (text : String) : Except LoadProblem Settings := do
  let s ← (Json.readAll (layout.record standard) text).mapError .json
  s.validate.mapError .refused

/-- The name of a policy. -/
def policyName : MatchPolicy → String
  | .first => "first"
  | .unique => "unique"

/-- Settings as a JSON value. -/
def toJson (s : Settings) : Json :=
  let values := [
    .ofOption s.rootPackage, .ofOption s.requiredPrefix, .ofStrings s.excludedPaths,
    .ofStrings s.excludedNames, .ofStrings s.excludedAttributes, .ofStrings s.loggerFactories,
    .ofStrings s.excludedParameters, .ofStrings s.receiverNames, .text s.genericModule,
    .ofStrings s.genericTypes,
    .object (s.genericAliases.map fun (name, target) => (name, .text target)),
    .ofStrings s.builtinTypes, .text s.classVarMarker, .text s.unknownType,
    .ofStrings s.significantDecorators, .ofStrings s.builtinDecorators,
    .ofStrings s.droppedDecorators, .ofStrings s.redirectDecorators,
    .array (s.hiddenParameterPlaces.map fun place =>
      .object [("section", .text place.title), ("field", .text place.field)]),
    .text s.getterPrefix, .text (String.singleton s.inlineCodeDelimiter),
    .text (String.singleton s.pathSeparator), .text (policyName s.matchPolicy),
    .ofStrings s.baselineImports, .text s.sourceExtension, .text s.interfaceExtension]
  .object (keys.zip values)

end TypedStubs.Settings
