import MeshMarkup.Proofs.Except
import MeshMarkup.Settings.Basic

namespace MeshMarkup

theorem Severity.name_eq_iff {a b : Severity} : a.name = b.name ↔ a = b := by
  constructor
  · intro h
    have ha := a.ofName?_name
    rwa [h, b.ofName?_name, Option.some.injEq, eq_comm] at ha
  · exact fun h => congrArg Severity.name h

namespace Members

variable {members : Members} {field : String}

theorem checkFields_eq_ok {owner : Section} {fields : List String} :
    members.checkFields owner fields = .ok () ↔ ∀ m ∈ members, m.1 ∈ fields := by
  rw [checkFields]
  cases h : members.find? fun m => !fields.contains m.1 with
  | none =>
      rw [List.find?_eq_none] at h
      exact ⟨fun _ m hm => by simpa using h m hm, fun _ => rfl⟩
  | some m =>
      have hm := List.find?_some h
      constructor
      · intro hok
        nomatch hok
      · intro hall
        have hin := hall m (List.mem_of_find?_eq_some h)
        simp [hin] at hm

theorem flag_eq_ok {usual flag : Bool} :
    members.flag field usual = .ok flag ↔ members.valueOr field (.bool usual) = .bool flag := by
  rw [Members.flag]
  cases members.valueOr field (.bool usual) <;> simp

theorem key_eq_ok {usual : String} {key : Json} :
    members.key field usual = .ok key ↔
      members.valueOr field (.text usual) = key ∧ key.truthy = true := by
  rw [Members.key]
  by_cases h : (members.valueOr field (.text usual)).truthy = true
  · simp only [h, if_true, Except.ok.injEq]
    exact ⟨fun he => ⟨he, he ▸ h⟩, fun he => he.1⟩
  · simp only [h, Bool.false_eq_true, if_false, reduceCtorEq, false_iff]
    rintro ⟨rfl, htruthy⟩
    exact h htruthy

theorem level_eq_ok {usual level : Severity} :
    members.level field usual = .ok level ↔
      members.valueOr field (.text usual.name) = .text level.name := by
  rw [Members.level]
  cases members.valueOr field (.text usual.name) with
  | text name =>
      cases h : Severity.ofName? name with
      | some found =>
          have hname := List.find?_some h
          obtain rfl : found.name = name := of_decide_eq_true hname
          simp [h, Severity.name_eq_iff]
      | none =>
          have hne : name ≠ level.name := by
            rintro rfl
            rw [level.ofName?_name] at h
            nomatch h
          simp [h, hne]
  | null | bool | integer | number | array | tuple | object => simp

/-- A limit that the settings accept: none, or a number that is not known to be zero or less. -/
def IsLimit (value : Json) : Prop :=
  value = .null ∨ ∃ n, value.numeric? = some n ∧ n.atMost 0 = false

theorem isLimit_numeric {value : Json} {n : Json.Numeric} (h : value.numeric? = some n) :
    IsLimit value ↔ n.atMost 0 = false := by
  constructor
  · rintro (rfl | ⟨m, hm, hlow⟩)
    · nomatch h
    · rw [h, Option.some.injEq] at hm
      rwa [hm]
  · exact fun hlow => Or.inr ⟨n, h, hlow⟩

theorem checkedLimit_eq_ok {value : Json} {n : Json.Numeric} {v : Json} (hv : v.numeric? = some n) :
    (if n.atMost 0 then Except.error SectionError.limitNotPositive else .ok v) = .ok value ↔
      v = value ∧ IsLimit value := by
  by_cases h : n.atMost 0 = true
  · simp only [h, if_true, reduceCtorEq, false_iff]
    rintro ⟨rfl, hlimit⟩
    rw [isLimit_numeric hv, h] at hlimit
    nomatch hlimit
  · simp only [h, Bool.false_eq_true, if_false, Except.ok.injEq, iff_self_and]
    rintro rfl
    exact (isLimit_numeric hv).mpr (Bool.eq_false_iff.mpr h)

theorem limit_eq_ok {value : Json} :
    members.limit field = .ok value ↔ members.valueOr field .null = value ∧ IsLimit value := by
  rw [Members.limit]
  cases members.valueOr field .null with
  | null =>
      have hnull : IsLimit .null := Or.inl rfl
      simp only [Except.ok.injEq, iff_self_and]
      rintro rfl
      exact hnull
  | bool flag => exact checkedLimit_eq_ok rfl
  | integer n => exact checkedLimit_eq_ok rfl
  | number x => exact checkedLimit_eq_ok rfl
  | text | array | tuple | object =>
      simp only [Json.numeric?, reduceCtorEq, false_iff]
      rintro ⟨rfl, he | ⟨n, hn, -⟩⟩
      · nomatch he
      · nomatch hn

end Members

namespace GrammarSettings

theorem ofMembers_eq_ok {given : Members} {s : GrammarSettings} :
    ofMembers given = .ok s ↔ (∀ m ∈ given, m.1 ∈ fields) ∧
      given.valueOr "strict_close_tags" (.bool false) = .bool s.strictCloseTags ∧
      given.valueOr "allow_trailing_content" (.bool true) = .bool s.allowTrailingContent := by
  simp only [ofMembers, bind_eq_ok, Members.flag_eq_ok]
  constructor
  · rintro ⟨⟨⟩, hfields, strict, hstrict, trailing, htrailing, hs⟩
    cases hs
    exact ⟨Members.checkFields_eq_ok.mp hfields, hstrict, htrailing⟩
  · rintro ⟨hfields, hstrict, htrailing⟩
    exact ⟨(), Members.checkFields_eq_ok.mpr hfields, _, hstrict, _, htrailing, rfl⟩

theorem ofMembers_members (s : GrammarSettings) : ofMembers s.members = .ok s := by
  rw [ofMembers_eq_ok]
  refine ⟨?_, rfl, rfl⟩
  simp [members, fields]

end GrammarSettings

namespace ExtractionSettings

theorem ofMembers_eq_ok {given : Members} {s : ExtractionSettings} :
    ofMembers given = .ok s ↔ (∀ m ∈ given, m.1 ∈ fields) ∧
      given.valueOr "position_key" (.text "position") = s.positionKey ∧
      given.valueOr "normal_key" (.text "normal") = s.normalKey ∧
      given.valueOr "texcoord_key" (.text "map") = s.coordinatesKey ∧
      given.valueOr "require_texture_coordinates" (.bool true) = s.requireCoordinates ∧
      given.valueOr "identity_when_no_transform" (.bool true) = s.identityWhenNoTransform ∧
      ∀ key ∈ s.keys, key.truthy = true := by
  simp only [ofMembers, bind_eq_ok, Members.key_eq_ok, keys, List.forall_mem_cons]
  constructor
  · rintro ⟨⟨⟩, hfields, position, ⟨hposition, hp⟩, normal, ⟨hnormal, hn⟩, coordinates,
      ⟨hcoordinates, hc⟩, hs⟩
    cases hs
    exact ⟨Members.checkFields_eq_ok.mp hfields, hposition, hnormal, hcoordinates, rfl, rfl,
      hp, hn, hc, List.forall_mem_nil _⟩
  · rintro ⟨hfields, hposition, hnormal, hcoordinates, hrequire, hidentity, hp, hn, hc, -⟩
    refine ⟨(), Members.checkFields_eq_ok.mpr hfields, _, ⟨hposition, hp⟩, _, ⟨hnormal, hn⟩, _,
      ⟨hcoordinates, hc⟩, ?_⟩
    rw [hrequire, hidentity]
    rfl

theorem ofMembers_members {s : ExtractionSettings} :
    ofMembers s.members = .ok s ↔ ∀ key ∈ s.keys, key.truthy = true := by
  rw [ofMembers_eq_ok]
  constructor
  · exact fun h => h.2.2.2.2.2.2
  · intro h
    refine ⟨?_, rfl, rfl, rfl, rfl, rfl, h⟩
    simp [members, fields]

end ExtractionSettings

namespace PackingSettings

theorem ofMembers_eq_ok {given : Members} {s : PackingSettings} :
    ofMembers given = .ok s ↔ (∀ m ∈ given, m.1 ∈ fields) ∧
      given.valueOr "deduplicate_vertices" (.bool false) = s.deduplicateVertices ∧
      given.valueOr "pack_on_load" (.bool true) = s.packOnLoad ∧
      (s.deduplicateVertices.truthy = true → s.packOnLoad.truthy = true) := by
  obtain ⟨deduplicate, pack⟩ := s
  rw [ofMembers, bind_eq_ok]
  generalize given.valueOr "deduplicate_vertices" (.bool false) = deduplicate'
  generalize given.valueOr "pack_on_load" (.bool true) = pack'
  by_cases h : (deduplicate'.truthy && !pack'.truthy) = true
  · simp only [h, if_true]
    simp only [Bool.and_eq_true, Bool.not_eq_true'] at h
    constructor
    · rintro ⟨_, _, hs⟩
      nomatch hs
    · rintro ⟨_, rfl, rfl, himp⟩
      rw [himp h.1] at h
      nomatch h.2
  · simp only [h, Bool.false_eq_true, if_false]
    have himp : deduplicate'.truthy = true → pack'.truthy = true := by simpa using h
    constructor
    · rintro ⟨⟨⟩, hfields, hs⟩
      cases hs
      exact ⟨Members.checkFields_eq_ok.mp hfields, rfl, rfl, himp⟩
    · rintro ⟨hfields, rfl, rfl, _⟩
      exact ⟨(), Members.checkFields_eq_ok.mpr hfields, rfl⟩

theorem ofMembers_members {s : PackingSettings} : ofMembers s.members = .ok s ↔
    (s.deduplicateVertices.truthy = true → s.packOnLoad.truthy = true) := by
  rw [ofMembers_eq_ok]
  constructor
  · exact fun h => h.2.2.2
  · intro h
    refine ⟨?_, rfl, rfl, h⟩
    simp [members, fields]

end PackingSettings

namespace SharedSettings

theorem ofMembers_eq_ok {given : Members} {s : SharedSettings} :
    ofMembers given = .ok s ↔ (∀ m ∈ given, m.1 ∈ fields) ∧
      given.valueOr "logging_level" (.text "INFO") = .text s.loggingLevel.name ∧
      given.valueOr "enable_correlation_tracking" (.bool true) = s.trackCorrelation ∧
      given.valueOr "max_input_size_bytes" .null = s.maxInputBytes ∧
      Members.IsLimit s.maxInputBytes := by
  simp only [ofMembers, bind_eq_ok, Members.level_eq_ok, Members.limit_eq_ok]
  constructor
  · rintro ⟨⟨⟩, hfields, level, hlevel, limit, ⟨hlimit, hl⟩, hs⟩
    cases hs
    exact ⟨Members.checkFields_eq_ok.mp hfields, hlevel, rfl, hlimit, hl⟩
  · rintro ⟨hfields, hlevel, htrack, hlimit, hl⟩
    refine ⟨(), Members.checkFields_eq_ok.mpr hfields, _, hlevel, _, ⟨hlimit, hl⟩, ?_⟩
    rw [htrack]
    rfl

theorem ofMembers_members {s : SharedSettings} :
    ofMembers s.members = .ok s ↔ Members.IsLimit s.maxInputBytes := by
  rw [ofMembers_eq_ok]
  constructor
  · exact fun h => h.2.2.2.2
  · intro h
    refine ⟨?_, rfl, rfl, rfl, h⟩
    simp [members, fields]

end SharedSettings

namespace Section

def each {α : Type} (grammar extraction packing shared : α) : Section → α
  | .grammar => grammar
  | .extraction => extraction
  | .packing => packing
  | .shared => shared

theorem forall_iff {P : Section → Prop} :
    (∀ x, P x) ↔ P .grammar ∧ P .extraction ∧ P .packing ∧ P .shared := by
  constructor
  · exact fun h => ⟨h _, h _, h _, h _⟩
  · rintro ⟨hgrammar, hextraction, hpacking, hshared⟩ (_ | _ | _ | _)
    · exact hgrammar
    · exact hextraction
    · exact hpacking
    · exact hshared

end Section

def Section.Builds (x : Section) (given : Members) : Prop := ∃ members, x.build given = .ok members

namespace Settings

/-- What is certain of settings that were made. -/
structure Valid (s : Settings) : Prop where
  keys : ∀ key ∈ s.extraction.keys, key.truthy = true
  comparable : uncomparableAmong? s.extraction.keys = none
  distinct : hasRepeated s.extraction.keys = false
  packed : s.packing.deduplicateVertices.truthy = true → s.packing.packOnLoad.truthy = true
  limit : Members.IsLimit s.shared.maxInputBytes

theorem Valid.limit_pos {s : Settings} (hvalid : s.Valid) {n : Int}
    (h : s.shared.maxInputBytes = .integer n) : 0 < n := by
  have hpositive := hvalid.limit
  rw [h, Members.isLimit_numeric rfl] at hpositive
  simpa [Json.Numeric.atMost] using hpositive

theorem checked_eq_ok {s t : Settings} : checked s = .ok t ↔
    s = t ∧ uncomparableAmong? s.extraction.keys = none ∧
      hasRepeated s.extraction.keys = false := by
  rw [checked]
  cases uncomparableAmong? s.extraction.keys with
  | some part => simp
  | none => cases hasRepeated s.extraction.keys <;> simp

theorem buildSection_eq_ok {α : Type} {s : Section} {build : Members → Except SectionError α}
    {given : Members} {a : α} : buildSection s build given = .ok a ↔ build given = .ok a := by
  rw [buildSection]
  cases build given with
  | error cause => constructor <;> rintro ⟨⟩
  | ok b =>
      constructor
      · rintro ⟨⟩
        rfl
      · rintro ⟨⟩
        rfl

theorem ofMembers_eq_ok {data : Members} {s : Settings} : ofMembers data = .ok s ↔
    (∃ given : Section → Members, (∀ x, sectionMembers data x = .ok (given x)) ∧
      GrammarSettings.ofMembers (given .grammar) = .ok s.grammar ∧
      ExtractionSettings.ofMembers (given .extraction) = .ok s.extraction ∧
      PackingSettings.ofMembers (given .packing) = .ok s.packing ∧
      SharedSettings.ofMembers (given .shared) = .ok s.shared) ∧
    data.valueOr "name" .null = s.name ∧ data.valueOr "description" .null = s.description ∧
    uncomparableAmong? s.extraction.keys = none ∧ hasRepeated s.extraction.keys = false := by
  simp only [ofMembers, bind_eq_ok, buildSection_eq_ok, checked_eq_ok]
  constructor
  · rintro ⟨given₁, hgiven₁, grammar, hgrammar, given₂, hgiven₂, extraction, hextraction,
      given₃, hgiven₃, packing, hpacking, given₄, hgiven₄, shared, hshared, rfl, hkeys⟩
    let given := Section.each given₁ given₂ given₃ given₄
    have hgiven : ∀ x, sectionMembers data x = .ok (given x) :=
      Section.forall_iff.mpr ⟨hgiven₁, hgiven₂, hgiven₃, hgiven₄⟩
    exact ⟨⟨given, hgiven, hgrammar, hextraction, hpacking, hshared⟩, rfl, rfl, hkeys⟩
  · rintro ⟨⟨given, hgiven, hgrammar, hextraction, hpacking, hshared⟩, hname, hdescription, hkeys⟩
    refine ⟨_, hgiven _, _, hgrammar, _, hgiven _, _, hextraction, _, hgiven _, _, hpacking,
      _, hgiven _, _, hshared, ?_, hkeys⟩
    rw [hname, hdescription]

def sectionData (s : Settings) : Section → Members
  | .grammar => s.grammar.members
  | .extraction => s.extraction.members
  | .packing => s.packing.members
  | .shared => s.shared.members

theorem sectionMembers_toJson {s : Settings} {data : Members} (h : s.toJson = .object data)
    (x : Section) : sectionMembers data x = .ok (s.sectionData x) := by
  obtain rfl := Json.object.inj h
  cases x <;> rfl

/-- Settings are made again from their own data just when they are valid. -/
theorem ofData_toJson {s : Settings} : ofData s.toJson = .ok s ↔ s.Valid := by
  have hdata := sectionMembers_toJson (s := s) rfl
  rw [toJson, ofData, ofMembers_eq_ok]
  constructor
  · rintro ⟨⟨given, hgiven, -, hextraction, hpacking, hshared⟩, -, -, hcomparable, hdistinct⟩
    have hsame (x : Section) : given x = s.sectionData x :=
      Except.ok.inj ((hgiven x).symm.trans (hdata x))
    rw [hsame] at hextraction hpacking hshared
    exact ⟨ExtractionSettings.ofMembers_members.mp hextraction, hcomparable, hdistinct,
      PackingSettings.ofMembers_members.mp hpacking, SharedSettings.ofMembers_members.mp hshared⟩
  · intro h
    exact ⟨⟨s.sectionData, hdata, s.grammar.ofMembers_members,
      ExtractionSettings.ofMembers_members.mpr h.keys, PackingSettings.ofMembers_members.mpr h.packed,
      SharedSettings.ofMembers_members.mpr h.limit⟩, rfl, rfl, h.comparable, h.distinct⟩

theorem valid_iff {s : Settings} : s.Valid ↔ ∃ data, ofData data = .ok s := by
  constructor
  · exact fun h => ⟨s.toJson, ofData_toJson.mpr h⟩
  · rintro ⟨data, hdata⟩
    cases data with
    | object members =>
        obtain ⟨⟨_, -, -, hextraction, hpacking, hshared⟩, -, -, hcomparable, hdistinct⟩ :=
          ofMembers_eq_ok.mp hdata
        exact ⟨(ExtractionSettings.ofMembers_eq_ok.mp hextraction).2.2.2.2.2.2, hcomparable,
          hdistinct, (PackingSettings.ofMembers_eq_ok.mp hpacking).2.2.2,
          (SharedSettings.ofMembers_eq_ok.mp hshared).2.2.2.2⟩
    | null | bool | integer | number | text | array | tuple => nomatch hdata

def IsFlag (value : Json) : Prop := ∃ flag, value = .bool flag

def IsText (value : Json) : Prop := ∃ content, value = .text content

/-- The fields that any value is taken for, and that are meant to be flags. -/
def flags (s : Settings) : List Json :=
  [s.extraction.requireCoordinates, s.extraction.identityWhenNoTransform,
   s.packing.deduplicateVertices, s.packing.packOnLoad, s.shared.trackCorrelation]

/-- Every field holds a value of the kind that it is declared with. -/
structure Declared (s : Settings) : Prop where
  keys : ∀ key ∈ s.extraction.keys, IsText key
  flags : ∀ flag ∈ s.flags, IsFlag flag
  limit : s.shared.maxInputBytes = .null ∨ ∃ n, s.shared.maxInputBytes = .integer n
  name : s.name = .null ∨ IsText s.name
  description : s.description = .null ∨ IsText s.description

theorem usual_valid : usual.Valid := valid_iff.mpr ⟨usual.toJson, rfl⟩

theorem usual_declared : usual.Declared := by
  refine ⟨?_, ?_, Or.inl rfl, Or.inl rfl, Or.inl rfl⟩
  · simp [usual, ExtractionSettings.usual, ExtractionSettings.keys, IsText]
  · simp [usual, ExtractionSettings.usual, PackingSettings.usual, SharedSettings.usual, flags, IsFlag]

theorem Declared.withPacking {s : Settings} (h : s.Declared) {packing : PackingSettings}
    (hdeduplicate : IsFlag packing.deduplicateVertices) (hpack : IsFlag packing.packOnLoad) :
    ({ s with packing := packing } : Settings).Declared := by
  refine ⟨h.keys, ?_, h.limit, h.name, h.description⟩
  have hflags := h.flags
  simp only [Settings.flags, List.forall_mem_cons] at hflags ⊢
  exact ⟨hflags.1, hflags.2.1, hdeduplicate, hpack, hflags.2.2.2.2⟩

end Settings

end MeshMarkup
