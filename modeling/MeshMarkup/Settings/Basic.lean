import MeshMarkup.Settings.Section
import MeshMarkup.Json.Reader

namespace MeshMarkup

structure Settings where
  grammar : GrammarSettings
  extraction : ExtractionSettings
  packing : PackingSettings
  shared : SharedSettings
  name : Json
  description : Json

inductive SettingsError where
  | inSection (s : Section) (cause : SectionError)
  | sectionNotObject (s : Section)
  | unknownComponent (key : String)
  | keysNotDistinct
  | malformedText (message : String)
  | notAnObject
  | noMembers (kind : String)
  /-- A source key holds a list or an object, so that it cannot be compared with the others. -/
  | keyNotComparable (kind : String)
  | sectionReplaced (kind : String)
  | unknownSetting (key : String)
  /-- An override uses the name of the argument that it is given already. -/
  | ownKey
  | oversizedInteger (digits : Nat)
  | tooDeep
  deriving DecidableEq

namespace SettingsError

def componentOf (key : String) : String :=
  match Text.find? ['_', '_'] key.toList with
  | some count => String.ofList (key.toList.take count)
  | none => key

def message : SettingsError → String
  | inSection _ cause => cause.message
  | sectionNotObject s => "Section " ++ s.name ++ " must be an object"
  | unknownComponent key => "Unknown configuration component: " ++ componentOf key
  | keysNotDistinct => "Extraction source keys must be distinct"
  | malformedText message => "Invalid configuration JSON: " ++ message
  | notAnObject => "Configuration JSON must be an object"
  | noMembers kind => "'" ++ kind ++ "' object has no attribute 'get'"
  | keyNotComparable kind => "unhashable type: '" ++ kind ++ "'"
  | sectionReplaced kind => "'" ++ kind ++ "' object has no attribute '__post_init__'"
  | unknownSetting key => unexpectedArgument "LoaderConfig" key
  | ownKey => refusedArgument "LoaderConfig.override" ownArgument
  | oversizedInteger digits => Json.ReadError.oversizedIntegerMessage digits
  | tooDeep => "maximum recursion depth exceeded"

def field? : SettingsError → Option String
  | inSection s _ | sectionNotObject s => some s.name
  | unknownComponent key => some key
  | keysNotDistinct => some Section.extraction.name
  | _ => none

def suggestions : SettingsError → List String
  | unknownComponent _ => Section.all.map Section.name
  | keysNotDistinct => ["Give positions, normals and texcoords different keys"]
  | _ => []

/-- Whether an error is reported as one of the settings; the others escape as they are. -/
def isReported : SettingsError → Bool
  | noMembers _ | keyNotComparable _ | sectionReplaced _ | unknownSetting _ | ownKey
  | oversizedInteger _ | tooDeep => false
  | _ => true

end SettingsError

namespace Settings

def usual : Settings := ⟨.usual, .usual, .usual, .usual, .null, .null⟩

def lenient : Settings :=
  { usual with name := .text "lenient", description := .text "Accept anything the grammar reads" }

def strict : Settings where
  grammar := ⟨true, false⟩
  extraction := { ExtractionSettings.usual with identityWhenNoTransform := .bool false }
  packing := .usual
  shared := .usual
  name := .text "strict"
  description := .text "Reject mismatched tags, trailing content and missing data"

def positionsOnly : Settings where
  grammar := .usual
  extraction := { ExtractionSettings.usual with requireCoordinates := .bool false }
  packing := ⟨.bool false, .bool false⟩
  shared := .usual
  name := .text "positions_only"
  description := .text "Load geometry arrays without building vertices"

def presets : List (String × Settings) :=
  [("lenient", lenient), ("positions_only", positionsOnly), ("strict", strict)]

def preset? (name : String) : Option Settings := (presets.find? (·.1 = name)).map (·.2)

def toJson (s : Settings) : Json :=
  .object
    [(Section.grammar.name, .object s.grammar.members),
     (Section.extraction.name, .object s.extraction.members),
     (Section.packing.name, .object s.packing.members),
     (Section.shared.name, .object s.shared.members),
     ("name", s.name), ("description", s.description)]

def same (s t : Settings) : Bool := s.toJson.same t.toJson

def hasRepeated : List Json → Bool
  | [] => false
  | key :: keys => keys.any (key.same ·) || hasRepeated keys

mutual

/-- The list or object that keeps a value from being compared as a key. Tuples are compared by
their items. -/
def uncomparable? : Json → Option Json
  | .array items => some (.array items)
  | .object members => some (.object members)
  | .tuple items => uncomparableAmong? items
  | _ => none

def uncomparableAmong? : List Json → Option Json
  | [] => none
  | item :: items =>
    match uncomparable? item with
    | some part => some part
    | none => uncomparableAmong? items

end

/-- The check across sections: the source keys can be compared and are distinct. -/
def checked (s : Settings) : Except SettingsError Settings :=
  match uncomparableAmong? s.extraction.keys with
  | some part => .error (.keyNotComparable part.kindName)
  | none => if hasRepeated s.extraction.keys then .error .keysNotDistinct else .ok s

/-- The members given for a section; whatever counts as false gives none. -/
def sectionMembers (data : Members) (s : Section) : Except SettingsError Members :=
  let given := Members.valueOr data s.name .null
  match given with
  | .object members => .ok members
  | _ => if given.truthy then .error (.sectionNotObject s) else .ok []

def buildSection {α : Type} (s : Section) (build : Members → Except SectionError α)
    (given : Members) : Except SettingsError α :=
  (build given).mapError (.inSection s)

def ofMembers (data : Members) : Except SettingsError Settings := do
  let grammar ← buildSection .grammar GrammarSettings.ofMembers (← sectionMembers data .grammar)
  let extraction ← buildSection .extraction ExtractionSettings.ofMembers
    (← sectionMembers data .extraction)
  let packing ← buildSection .packing PackingSettings.ofMembers (← sectionMembers data .packing)
  let shared ← buildSection .shared SharedSettings.ofMembers (← sectionMembers data .shared)
  checked ⟨grammar, extraction, packing, shared,
    data.valueOr "name" .null, data.valueOr "description" .null⟩

def ofData : Json → Except SettingsError Settings
  | .object members => ofMembers members
  | data => .error (.noMembers data.kindName)

def toText (s : Settings) (memory : Nat) (indent : Option Int) : Except Json.WriteError String :=
  s.toJson.toText memory indent

def ofText (nestingLimit : Nat) (text : String) : Except SettingsError Settings :=
  match Json.read nestingLimit text with
  | .ok (.object members) => ofMembers members
  | .ok _ => .error .notAnObject
  | .error (.malformed problem offset) => .error (.malformedText (problem.messageAt text offset))
  | .error (.oversizedInteger digits) => .error (.oversizedInteger digits)
  | .error .tooDeep => .error .tooDeep

end Settings

end MeshMarkup
