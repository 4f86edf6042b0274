import MeshMarkup.Settings.Basic

namespace MeshMarkup.Settings

inductive Target where
  | field (s : Section) (name : String)
  | setting (name : String)
  | unknown (key : String)
  deriving DecidableEq

def fieldIn? (key : String) (s : Section) : Option (Section × String) :=
  let lead := s.name.toList ++ ['_', '_']
  if Text.startsWith lead key.toList then
    some (s, String.ofList (key.toList.drop lead.length))
  else none

def target (key : String) : Target :=
  if !Text.contains ['_', '_'] key.toList then .setting key
  else match Section.all.findSome? (fieldIn? key) with
    | some (s, name) => .field s name
    | none => .unknown key

/-- Changes sorted by what they name. Sections come in the order of their first change. -/
structure Changes where
  sections : List (Section × Members)
  settings : Members

def Changes.none : Changes := ⟨[], []⟩

def setField (s : Section) (name : String) (value : Json) :
    List (Section × Members) → List (Section × Members)
  | [] => [(s, [(name, value)])]
  | (t, members) :: sections =>
    if t = s then (t, Json.setMember name value members) :: sections
    else (t, members) :: setField s name value sections

def Changes.add (changes : Changes) (change : String × Json) : Except SettingsError Changes :=
  match target change.1 with
  | .field s name => .ok { changes with sections := setField s name change.2 changes.sections }
  | .setting name => .ok { changes with settings := Json.setMember name change.2 changes.settings }
  | .unknown key => .error (.unknownComponent key)

def changeSection (base s : Settings) (change : Section × Members) :
    Except SettingsError Settings :=
  let given := change.2
  match change.1 with
  | .grammar => do
    let new ← buildSection .grammar GrammarSettings.ofMembers (given ++ base.grammar.members)
    return { s with grammar := new }
  | .extraction => do
    let new ← buildSection .extraction ExtractionSettings.ofMembers
      (given ++ base.extraction.members)
    return { s with extraction := new }
  | .packing => do
    let new ← buildSection .packing PackingSettings.ofMembers (given ++ base.packing.members)
    return { s with packing := new }
  | .shared => do
    let new ← buildSection .shared SharedSettings.ofMembers (given ++ base.shared.members)
    return { s with shared := new }

def ownSettings : List String := Section.all.map Section.name ++ ["name", "description"]

/-- A setting given for a whole section is no section, unless fields of that section are given
too, which replace it. -/
def replacedSection? (changes : Changes) : Option Json :=
  Section.all.findSome? fun s =>
    if changes.sections.any (·.1 = s) then none else Json.member? s.name changes.settings

def settle (changes : Changes) (changed : Settings) : Except SettingsError Settings :=
  match changes.settings.find? fun m => !ownSettings.contains m.1 with
  | some m => .error (.unknownSetting m.1)
  | none =>
    match replacedSection? changes with
    | some value => .error (.sectionReplaced value.kindName)
    | none =>
      checked { changed with
        name := Members.valueOr changes.settings "name" changed.name
        description := Members.valueOr changes.settings "description" changed.description }

def override (s : Settings) (changes : List (String × Json)) : Except SettingsError Settings := do
  if changes.any (·.1 = ownArgument) then throw .ownKey
  let sorted ← changes.foldlM Changes.add Changes.none
  let changed ← sorted.sections.foldlM (changeSection s) s
  settle sorted changed

end MeshMarkup.Settings
