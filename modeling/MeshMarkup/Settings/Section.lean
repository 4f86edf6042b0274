import MeshMarkup.Json.Value
import MeshMarkup.Settings.Severity

namespace MeshMarkup

inductive Section where
  | grammar
  | extraction
  | packing
  | shared
  deriving DecidableEq

namespace Section

def all : List Section := [grammar, extraction, packing, shared]

def name : Section → String
  | grammar => "grammar"
  | extraction => "extraction"
  | packing => "packing"
  | shared => "global_"

def typeName : Section → String
  | grammar => "GrammarConfig"
  | extraction => "ExtractionConfig"
  | packing => "PackingConfig"
  | shared => "GlobalConfig"

end Section

abbrev Members := List (String × Json)

/-- The argument that every call is given already: the object that it is about. -/
def ownArgument : String := "self"

def refusedArgument (callee argument : String) : String :=
  let problem :=
    if argument = ownArgument then "multiple values for argument"
    else "an unexpected keyword argument"
  callee ++ "() got " ++ problem ++ " '" ++ argument ++ "'"

def unexpectedArgument (typeName argument : String) : String :=
  refusedArgument (typeName ++ ".__init__") argument

inductive SectionError where
  | unknownField (owner : Section) (field : String)
  | notAFlag (field : String)
  | emptyKey (field : String)
  | indexingWithoutPacking
  | unknownLevel
  | limitNotPositive
  | limitNotANumber (kind : String)
  deriving DecidableEq

namespace SectionError

def message : SectionError → String
  | unknownField owner field => unexpectedArgument owner.typeName field
  | notAFlag field => field ++ " must be a bool"
  | emptyKey field => field ++ " cannot be empty"
  | indexingWithoutPacking => "deduplicate_vertices requires pack_on_load"
  | unknownLevel =>
    "logging_level must be one of ['DEBUG', 'INFO', 'WARNING', 'ERROR', 'CRITICAL']"
  | limitNotPositive => "max_input_size_bytes must be > 0 or None"
  | limitNotANumber kind => "'<=' not supported between instances of '" ++ kind ++ "' and 'int'"

end SectionError

namespace Members

def valueOr (members : Members) (field : String) (usual : Json) : Json :=
  (Json.member? field members).getD usual

def checkFields (members : Members) (owner : Section) (fields : List String) :
    Except SectionError Unit :=
  match members.find? fun m => !fields.contains m.1 with
  | some m => .error (.unknownField owner m.1)
  | none => .ok ()

def flag (members : Members) (field : String) (usual : Bool) : Except SectionError Bool :=
  match valueOr members field (.bool usual) with
  | .bool flag => .ok flag
  | _ => .error (.notAFlag field)

def key (members : Members) (field usual : String) : Except SectionError Json :=
  let value := valueOr members field (.text usual)
  if value.truthy then .ok value else .error (.emptyKey field)

def level (members : Members) (field : String) (usual : Severity) : Except SectionError Severity :=
  match valueOr members field (.text usual.name) with
  | .text name =>
    match Severity.ofName? name with
    | some level => .ok level
    | none => .error .unknownLevel
  | _ => .error .unknownLevel

def limit (members : Members) (field : String) : Except SectionError Json :=
  let value := valueOr members field .null
  match value, value.numeric? with
  | .null, _ => .ok .null
  | _, some n => if n.atMost 0 then .error .limitNotPositive else .ok value
  | _, none => .error (.limitNotANumber value.kindName)

end Members

structure GrammarSettings where
  strictCloseTags : Bool
  allowTrailingContent : Bool

namespace GrammarSettings

def fields : List String := ["strict_close_tags", "allow_trailing_content"]

def ofMembers (members : Members) : Except SectionError GrammarSettings := do
  members.checkFields .grammar fields
  let strictCloseTags ← members.flag "strict_close_tags" false
  let allowTrailingContent ← members.flag "allow_trailing_content" true
  return ⟨strictCloseTags, allowTrailingContent⟩

def members (s : GrammarSettings) : Members :=
  [("strict_close_tags", .bool s.strictCloseTags),
   ("allow_trailing_content", .bool s.allowTrailingContent)]

def usual : GrammarSettings := ⟨false, true⟩

end GrammarSettings

structure ExtractionSettings where
  positionKey : Json
  normalKey : Json
  coordinatesKey : Json
  requireCoordinates : Json
  identityWhenNoTransform : Json

namespace ExtractionSettings

def fields : List String :=
  ["position_key", "normal_key", "texcoord_key", "require_texture_coordinates",
   "identity_when_no_transform"]

def ofMembers (members : Members) : Except SectionError ExtractionSettings := do
  members.checkFields .extraction fields
  let positionKey ← members.key "position_key" "position"
  let normalKey ← members.key "normal_key" "normal"
  let coordinatesKey ← members.key "texcoord_key" "map"
  return ⟨positionKey, normalKey, coordinatesKey,
    members.valueOr "require_texture_coordinates" (.bool true),
    members.valueOr "identity_when_no_transform" (.bool true)⟩

def members (s : ExtractionSettings) : Members :=
  [("position_key", s.positionKey), ("normal_key", s.normalKey),
   ("texcoord_key", s.coordinatesKey), ("require_texture_coordinates", s.requireCoordinates),
   ("identity_when_no_transform", s.identityWhenNoTransform)]

def keys (s : ExtractionSettings) : List Json := [s.positionKey, s.normalKey, s.coordinatesKey]

def usual : ExtractionSettings :=
  ⟨.text "position", .text "normal", .text "map", .bool true, .bool true⟩

end ExtractionSettings

structure PackingSettings where
  deduplicateVertices : Json
  packOnLoad : Json

namespace PackingSettings

def fields : List String := ["deduplicate_vertices", "pack_on_load"]

def ofMembers (members : Members) : Except SectionError PackingSettings := do
  members.checkFields .packing fields
  let deduplicateVertices := members.valueOr "deduplicate_vertices" (.bool false)
  let packOnLoad := members.valueOr "pack_on_load" (.bool true)
  if deduplicateVertices.truthy && !packOnLoad.truthy then throw .indexingWithoutPacking
  return ⟨deduplicateVertices, packOnLoad⟩

def members (s : PackingSettings) : Members :=
  [("deduplicate_vertices", s.deduplicateVertices), ("pack_on_load", s.packOnLoad)]

def usual : PackingSettings := ⟨.bool false, .bool true⟩

end PackingSettings

structure SharedSettings where
  loggingLevel : Severity
  trackCorrelation : Json
  maxInputBytes : Json

namespace SharedSettings

def fields : List String :=
  ["logging_level", "enable_correlation_tracking", "max_input_size_bytes"]

def ofMembers (members : Members) : Except SectionError SharedSettings := do
  members.checkFields .shared fields
  let loggingLevel ← members.level "logging_level" .info
  let maxInputBytes ← members.limit "max_input_size_bytes"
  return ⟨loggingLevel, members.valueOr "enable_correlation_tracking" (.bool true), maxInputBytes⟩

def members (s : SharedSettings) : Members :=
  [("logging_level", .text s.loggingLevel.name),
   ("enable_correlation_tracking", s.trackCorrelation),
   ("max_input_size_bytes", s.maxInputBytes)]

def usual : SharedSettings := ⟨.info, .bool true, .null⟩

end SharedSettings

def Section.build (s : Section) (given : Members) : Except SectionError Members :=
  match s with
  | grammar => (GrammarSettings.ofMembers given).map GrammarSettings.members
  | extraction => (ExtractionSettings.ofMembers given).map ExtractionSettings.members
  | packing => (PackingSettings.ofMembers given).map PackingSettings.members
  | shared => (SharedSettings.ofMembers given).map SharedSettings.members

end MeshMarkup
