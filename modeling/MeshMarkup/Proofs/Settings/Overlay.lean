import Mathlib.Data.List.Induction
import MeshMarkup.Proofs.Settings.Errors
import MeshMarkup.Proofs.Settings.Members
import MeshMarkup.Proofs.Text.Scan

namespace MeshMarkup

namespace Section

def fieldKey (x : Section) (field : String) : String := x.name ++ "__" ++ field

theorem toList_fieldKey (x : Section) (field : String) :
    (x.fieldKey field).toList = (x.name.toList ++ ['_', '_']) ++ field.toList := by
  simp [fieldKey]

/-- No section's name with a double underscore starts the key of another section's field. -/
theorem startsWith_fieldKey (x y : Section) (field : String) :
    Text.startsWith (y.name.toList ++ ['_', '_']) (x.fieldKey field).toList = true ↔ y = x := by
  rw [toList_fieldKey]
  cases x <;> cases y <;> simp [Text.startsWith, name]

end Section

namespace Settings

variable {x : Section} {field : String}

theorem fieldIn?_fieldKey (x y : Section) (field : String) :
    fieldIn? (x.fieldKey field) y = if y = x then some (x, field) else none := by
  by_cases h : y = x
  · subst h
    rw [fieldIn?, if_pos ((y.startsWith_fieldKey y field).mpr rfl), if_pos rfl,
      Section.toList_fieldKey, List.drop_left, String.ofList_toList]
  · rw [fieldIn?, if_neg (mt (x.startsWith_fieldKey y field).mp h), if_neg h]

theorem target_fieldKey (x : Section) (field : String) :
    target (x.fieldKey field) = .field x field := by
  have hcontains : Text.contains ['_', '_'] (x.fieldKey field).toList = true := by
    rw [Text.contains_iff, Section.toList_fieldKey]
    exact ⟨x.name.toList, field.toList, rfl⟩
  have hfind : Section.all.findSome? (fieldIn? (x.fieldKey field)) = some (x, field) := by
    cases x <;> simp [Section.all, fieldIn?_fieldKey]
  rw [target, hcontains, hfind]
  rfl

theorem target_eq_field {key : String} (h : target key = .field x field) :
    key = x.fieldKey field := by
  rw [target] at h
  split at h
  · cases h
  · split at h
    · next y other hfind =>
      obtain ⟨rfl, rfl⟩ := Target.field.inj h
      obtain ⟨z, -, hz⟩ := List.exists_of_findSome?_eq_some hfind
      rw [fieldIn?] at hz
      split at hz
      · next hlead =>
        obtain ⟨rfl, rfl⟩ := Prod.mk.inj (Option.some.inj hz)
        obtain ⟨rest, hrest⟩ := List.isPrefixOf_iff_prefix.mp hlead
        apply String.toList_injective
        rw [Section.toList_fieldKey, String.toList_ofList, ← hrest, List.drop_left]
      · cases hz
    · cases h

theorem fieldOf?_eq_some {key : String} :
    (target key).fieldOf? x = some field ↔ key = x.fieldKey field := by
  constructor
  · intro h
    cases htarget : target key with
    | field y other =>
        rw [htarget, Target.fieldOf?] at h
        split at h
        · next hy =>
          obtain rfl := Option.some.inj h
          exact target_eq_field (hy ▸ htarget)
        · cases h
    | setting name | unknown name =>
        rw [htarget] at h
        cases h
  · rintro rfl
    simp [target_fieldKey, Target.fieldOf?]

/-- What the changes give is looked up by the keys of the changes, the last of several. -/
theorem member?_picked {pick : Target → Option String} {name key : String}
    (hpick : ∀ other, pick (target other) = some name ↔ other = key)
    (changes : List (String × Json)) :
    Json.member? name (picked pick changes) = Json.member? key changes.reverse := by
  induction changes using List.reverseRecOn with
  | nil => rfl
  | append_singleton changes change ih =>
      rw [picked_concat, List.reverse_concat, Json.member?_cons, pickOne]
      by_cases hkey : change.1 = key
      · rw [(hpick change.1).mpr hkey, if_pos hkey]
        simp [Json.member?_setMember]
      · rw [if_neg hkey, ← ih]
        cases hother : pick (target change.1) with
        | none => rfl
        | some other =>
            have hne : other ≠ name := fun he => hkey ((hpick change.1).mp (he ▸ hother))
            simp [Json.member?_setMember, hne]

end Settings

namespace Section

variable {x : Section} {data : Members}

def overlaid (x : Section) (changes : List (String × Json)) (data : Members) : Members :=
  data.map fun m => (m.1, Members.valueOr changes (x.fieldKey m.1) m.2)

theorem keys_overlaid (changes : List (String × Json)) :
    (x.overlaid changes data).map Prod.fst = data.map Prod.fst := by
  simp [overlaid]

theorem member?_overlaid (changes : List (String × Json)) (field : String) :
    Json.member? field (x.overlaid changes data) =
      (Json.member? field data).map (Members.valueOr changes (x.fieldKey field)) := by
  induction data with
  | nil => rfl
  | cons m data ih =>
      rw [overlaid, List.map_cons, ← overlaid, Json.member?_cons, Json.member?_cons, ih]
      by_cases h : m.1 = field <;> simp [h]

end Section

namespace Settings

inductive Known : String → Prop
  | field {x : Section} {field : String} (h : field ∈ x.fields) : Known (x.fieldKey field)
  | name : Known "name"
  | description : Known "description"

/-- Changes that name known settings, none of them twice. -/
structure Named (changes : List (String × Json)) : Prop where
  distinct : (changes.map Prod.fst).Nodup
  known : ∀ change ∈ changes, Known change.1

variable {s t u : Settings} {changes later : List (String × Json)}

theorem ext_data (hsections : ∀ x, s.sectionData x = t.sectionData x) (hname : s.name = t.name)
    (hdescription : s.description = t.description) : s = t := by
  have hgrammar := hsections .grammar
  have hextraction := hsections .extraction
  have hpacking := hsections .packing
  have hshared := hsections .shared
  obtain ⟨⟨_, _⟩, ⟨_, _, _, _, _⟩, ⟨_, _⟩, ⟨_, _, _⟩, _, _⟩ := s
  obtain ⟨⟨_, _⟩, ⟨_, _, _, _, _⟩, ⟨_, _⟩, ⟨_, _, _⟩, _, _⟩ := t
  simp_all [sectionData, GrammarSettings.members, ExtractionSettings.members,
    PackingSettings.members, SharedSettings.members, Severity.name_eq_iff]

theorem Known.target_cases {key : String} (h : Known key) :
    (∃ x field, target key = .field x field ∧ field ∈ x.fields) ∨
      target key = .setting key ∧ (key = "name" ∨ key = "description") := by
  cases h with
  | @field x field h => exact .inl ⟨x, field, target_fieldKey x field, h⟩
  | name => exact .inr ⟨by decide, .inl rfl⟩
  | description => exact .inr ⟨by decide, .inr rfl⟩

theorem Known.ne_own {key : String} (h : Known key) : key ≠ ownArgument := by
  rintro rfl
  have hown : target ownArgument = .setting ownArgument := by decide
  obtain ⟨x, field, htarget, -⟩ | ⟨-, hname | hname⟩ := h.target_cases
  · rw [hown] at htarget
    nomatch htarget
  · exact absurd hname (by decide)
  · exact absurd hname (by decide)

theorem Known.ne_unknown {key : String} (h : Known key) (other : String) :
    target key ≠ .unknown other := by
  obtain ⟨x, field, htarget, -⟩ | ⟨htarget, -⟩ := h.target_cases
  · simp [htarget]
  · simp [htarget]

theorem Named.member?_fieldChanges (h : Named changes) (x : Section) (field : String) :
    Json.member? field (fieldChanges x changes) = Json.member? (x.fieldKey field) changes := by
  rw [fieldChanges, member?_picked fun _ => fieldOf?_eq_some]
  exact Json.member?_perm h.distinct changes.reverse_perm

theorem Named.mem_fieldChanges (h : Named changes) {x : Section} :
    ∀ m ∈ fieldChanges x changes, m.1 ∈ x.fields := by
  intro m hm
  obtain ⟨change, hchange, hpick⟩ := mem_keys_picked.mp (List.mem_map_of_mem hm)
  have hkey := fieldOf?_eq_some.mp hpick
  obtain ⟨y, field, htarget, hfield⟩ | ⟨htarget, -⟩ := (h.known change hchange).target_cases
  · rw [hkey, target_fieldKey] at htarget
    obtain ⟨rfl, rfl⟩ := Target.field.inj htarget
    exact hfield
  · rw [hkey, target_fieldKey] at htarget
    nomatch htarget

/-- A section is built from the given fields just when it can be built with them laid over it. -/
theorem Named.build_eq_ok (h : Named changes) {x : Section} {members : Members} :
    x.build (fieldChanges x changes ++ s.sectionData x) = .ok members ↔
      members = x.overlaid changes (s.sectionData x) ∧ x.build members = .ok members := by
  have hdata : ∀ m ∈ s.sectionData x, m.1 ∈ x.fields := fun m hm =>
    s.keys_sectionData x ▸ List.mem_map_of_mem hm
  have hkeys : (x.overlaid changes (s.sectionData x)).map Prod.fst = x.fields :=
    (x.keys_overlaid changes).trans (s.keys_sectionData x)
  have hsame : x.build (fieldChanges x changes ++ s.sectionData x) =
      x.build (x.overlaid changes (s.sectionData x)) := by
    refine Section.build_congr ?_ ?_ fun field hfield => ?_
    · rw [List.forall_mem_append]
      exact ⟨h.mem_fieldChanges, hdata⟩
    · exact fun m hm => hkeys ▸ List.mem_map_of_mem hm
    · obtain ⟨value, hvalue⟩ : ∃ value, Json.member? field (s.sectionData x) = some value := by
        rw [← Option.ne_none_iff_exists', ne_eq, member?_eq_none, s.keys_sectionData x]
        exact not_not_intro hfield
      rw [Json.member?_append, h.member?_fieldChanges, Section.member?_overlaid, hvalue,
        Option.map_some, Members.valueOr]
      cases Json.member? (x.fieldKey field) changes <;> rfl
  rw [hsame]
  constructor
  · intro hbuild
    obtain rfl := Section.build_full hkeys hbuild
    exact ⟨rfl, hbuild⟩
  · rintro ⟨rfl, hbuild⟩
    exact hbuild

theorem fieldChanges_ne_nil {x : Section} :
    fieldChanges x changes ≠ [] ↔ ∃ field, x.fieldKey field ∈ changes.map Prod.fst := by
  rw [ne_eq, ← List.map_eq_nil_iff (f := Prod.fst), List.eq_nil_iff_forall_not_mem]
  simp only [fieldChanges, mem_keys_picked, fieldOf?_eq_some, not_forall, not_not]
  simp only [List.mem_map]

theorem Named.overlaid_of_untouched (h : Named changes) {x : Section}
    (huntouched : fieldChanges x changes = []) (data : Members) : x.overlaid changes data = data := by
  have hnone (field : String) : Json.member? (x.fieldKey field) changes = none := by
    rw [← h.member?_fieldChanges, huntouched]
    rfl
  simp [Section.overlaid, Members.valueOr, hnone]

/-- Settings with the data of others, and the values that changes give laid over it. -/
structure Overlaid (s : Settings) (changes : List (String × Json)) (t : Settings) : Prop where
  sections : ∀ x, t.sectionData x = x.overlaid changes (s.sectionData x)
  name : t.name = Members.valueOr changes "name" s.name
  description : t.description = Members.valueOr changes "description" s.description

/-- A section is checked again where a change names one of its fields. -/
def Rechecked (changes : List (String × Json)) (t : Settings) : Prop :=
  ∀ x, fieldChanges x changes ≠ [] → x.build (t.sectionData x) = .ok (t.sectionData x)

theorem setting?_own {name key : String} (h : target name = .setting name) :
    (target key).setting? = some name ↔ key = name := by
  rw [setting?_eq_some]
  constructor
  · exact target_setting
  · rintro rfl
    exact h

theorem Named.valueOr_settings (h : Named changes) {sorted : Changes}
    (hsorted : Sorted changes sorted) {name : String} (hname : target name = .setting name)
    (usual : Json) :
    Members.valueOr sorted.settings name usual = Members.valueOr changes name usual := by
  rw [Members.valueOr, hsorted.settings, member?_picked fun _ => setting?_own hname,
    Json.member?_perm h.distinct changes.reverse_perm, Members.valueOr]

theorem Named.settle_eq (h : Named changes) {sorted : Changes} (hsorted : Sorted changes sorted)
    (t : Settings) : settle sorted t = checked
      { t with
        name := Members.valueOr changes "name" t.name
        description := Members.valueOr changes "description" t.description } := by
  have hkeys : ∀ key ∈ sorted.settings.map Prod.fst, key = "name" ∨ key = "description" := by
    intro key hkey
    obtain ⟨change, hchange, rfl, hsetting⟩ := (mem_settings hsorted).mp hkey
    obtain ⟨x, field, htarget, -⟩ | ⟨-, hkey⟩ := (h.known change hchange).target_cases
    · rw [hsetting] at htarget
      nomatch htarget
    · exact hkey
  have hfind : sorted.settings.find? (fun m => !ownSettings.contains m.1) = none := by
    rw [List.find?_eq_none]
    intro m hm
    rcases hkeys m.1 (List.mem_map_of_mem hm) with hname | hname <;> rw [hname] <;> decide
  have hreplaced : replacedSection? sorted = none := by
    rw [replacedSection?_eq_none]
    intro x _ hmem
    rcases hkeys x.name hmem with hname | hname <;> cases x <;> exact absurd hname (by decide)
  have hname : target "name" = .setting "name" := by decide
  have hdescription : target "description" = .setting "description" := by decide
  simp only [settle, hfind, hreplaced, h.valueOr_settings hsorted hname,
    h.valueOr_settings hsorted hdescription]

theorem override_eq_ok (h : Named changes) : s.override changes = .ok t ↔
    Overlaid s changes t ∧ Rechecked changes t ∧
      uncomparableAmong? t.extraction.keys = none ∧ hasRepeated t.extraction.keys = false := by
  rcases override_cases (s := s) fun change hchange => (h.known change hchange).ne_own with
    ⟨e, he, -, hnot⟩ | ⟨-, sorted, changed, hsorted, hchanged, heq⟩
  · rw [he]
    constructor
    · intro hok
      nomatch hok
    · rintro ⟨hover, hbuilt, -⟩
      refine absurd ⟨fun change hchange => (h.known change hchange).ne_unknown, ?_⟩ hnot
      exact fun x hne => ⟨_, h.build_eq_ok.mpr ⟨hover.sections x, hbuilt x hne⟩⟩
  · have hsections (x : Section) :
        changed.sectionData x = x.overlaid changes (s.sectionData x) := by
      by_cases hne : fieldChanges x changes = []
      · rw [hchanged.others x hne, h.overlaid_of_untouched hne]
      · exact (h.build_eq_ok.mp (hchanged.built x hne)).1
    rw [heq, h.settle_eq hsorted, checked_eq_ok, hchanged.name, hchanged.description]
    constructor
    · rintro ⟨rfl, hkeys⟩
      refine ⟨⟨hsections, rfl, rfl⟩, fun x hne => ?_, hkeys⟩
      exact (h.build_eq_ok.mp (hchanged.built x hne)).2
    · rintro ⟨hover, -, hkeys⟩
      have hsame : { changed with
          name := Members.valueOr changes "name" s.name
          description := Members.valueOr changes "description" s.description } = t :=
        ext_data (fun x => (hsections x).trans (hover.sections x).symm) hover.name.symm
          hover.description.symm
      rw [hsame]
      exact ⟨rfl, hkeys⟩

theorem Named.perm {others : List (String × Json)} (h : Named changes)
    (hperm : others.Perm changes) : Named others := by
  refine ⟨(hperm.map Prod.fst).nodup_iff.mpr h.distinct, fun change hchange => ?_⟩
  exact h.known change (hperm.mem_iff.mp hchange)

theorem Named.override_perm {others : List (String × Json)} (h : Named changes)
    (hperm : others.Perm changes) (hoverride : s.override changes = .ok t) :
    s.override others = .ok t := by
  have hvalue (key : String) (usual : Json) :
      Members.valueOr others key usual = Members.valueOr changes key usual := by
    rw [Members.valueOr, Json.member?_perm h.distinct hperm, Members.valueOr]
  obtain ⟨hover, hchecked, hkeys⟩ := (override_eq_ok h).mp hoverride
  refine (override_eq_ok (h.perm hperm)).mpr ⟨⟨fun x => ?_, ?_, ?_⟩, fun x hne => ?_, hkeys⟩
  · simp only [hover.sections x, Section.overlaid, hvalue]
  · rw [hover.name, hvalue]
  · rw [hover.description, hvalue]
  · apply hchecked x
    obtain ⟨field, hfield⟩ := fieldChanges_ne_nil.mp hne
    exact fieldChanges_ne_nil.mpr ⟨field, (hperm.map Prod.fst).mem_iff.mp hfield⟩

/-- Changes with later ones put in: in their place where they name the same, else at the end. -/
def updated (changes later : List (String × Json)) : List (String × Json) :=
  later.foldl (fun all change => Json.setMember change.1 change.2 all) changes

theorem updated_concat (changes later : List (String × Json)) (change : String × Json) :
    updated changes (later ++ [change]) =
      Json.setMember change.1 change.2 (updated changes later) := by
  rw [updated, List.foldl_append]
  rfl

theorem Named.member?_updated (hlater : Named later) (changes : List (String × Json))
    (key : String) : Json.member? key (updated changes later) =
      (Json.member? key later).or (Json.member? key changes) := by
  have hreverse : Json.member? key (updated changes later) =
      (Json.member? key later.reverse).or (Json.member? key changes) := by
    clear hlater
    induction later using List.reverseRecOn with
    | nil => rfl
    | append_singleton later change ih =>
        rw [updated_concat, List.reverse_concat, Json.member?_setMember, Json.member?_cons, ih]
        by_cases h : change.1 = key <;> simp [h]
  rw [hreverse, Json.member?_perm hlater.distinct later.reverse_perm]

theorem Named.valueOr_updated (hlater : Named later) (changes : List (String × Json))
    (key : String) (usual : Json) : Members.valueOr (updated changes later) key usual =
      Members.valueOr later key (Members.valueOr changes key usual) := by
  rw [Members.valueOr, hlater.member?_updated, Members.valueOr, Members.valueOr]
  cases Json.member? key later <;> rfl

theorem Named.mem_keys_updated (hlater : Named later) {key : String} :
    key ∈ (updated changes later).map Prod.fst ↔
      key ∈ later.map Prod.fst ∨ key ∈ changes.map Prod.fst := by
  rw [← not_iff_not, ← member?_eq_none, hlater.member?_updated, Option.or_eq_none_iff,
    member?_eq_none, member?_eq_none, not_or]

theorem nodup_updated (h : (changes.map Prod.fst).Nodup) :
    ((updated changes later).map Prod.fst).Nodup := by
  induction later using List.reverseRecOn with
  | nil => exact h
  | append_singleton later change ih =>
      rw [updated_concat]
      exact nodup_setMember ih

theorem Named.updated (h : Named changes) (hlater : Named later) :
    Named (updated changes later) := by
  refine ⟨nodup_updated h.distinct, fun change hchange => ?_⟩
  rcases hlater.mem_keys_updated.mp (List.mem_map_of_mem hchange) with hkey | hkey
  · obtain ⟨other, hother, hkey⟩ := List.mem_map.mp hkey
    exact hkey ▸ hlater.known other hother
  · obtain ⟨other, hother, hkey⟩ := List.mem_map.mp hkey
    exact hkey ▸ h.known other hother

theorem Overlaid.trans (hlater : Named later) (hfirst : Overlaid s changes t)
    (hsecond : Overlaid t later u) : Overlaid s (Settings.updated changes later) u := by
  refine ⟨fun x => ?_, ?_, ?_⟩
  · rw [hsecond.sections x, hfirst.sections x, Section.overlaid, Section.overlaid, List.map_map,
      Section.overlaid]
    simp only [hlater.valueOr_updated]
    rfl
  · rw [hsecond.name, hfirst.name, hlater.valueOr_updated]
  · rw [hsecond.description, hfirst.description, hlater.valueOr_updated]

theorem Named.override_override (h : Named changes) (hlater : Named later)
    (hfirst : s.override changes = .ok t) (hsecond : t.override later = .ok u) :
    s.override (Settings.updated changes later) = .ok u := by
  obtain ⟨hover, hchecked, -⟩ := (override_eq_ok h).mp hfirst
  obtain ⟨hover', hchecked', hkeys⟩ := (override_eq_ok hlater).mp hsecond
  refine (override_eq_ok (h.updated hlater)).mpr ⟨hover.trans hlater hover', fun x hne => ?_, hkeys⟩
  by_cases htouched : fieldChanges x later = []
  · have hsame : u.sectionData x = t.sectionData x := by
      rw [hover'.sections x, hlater.overlaid_of_untouched htouched]
    rw [hsame]
    apply hchecked x
    obtain ⟨field, hfield⟩ := fieldChanges_ne_nil.mp hne
    rcases hlater.mem_keys_updated.mp hfield with hfield | hfield
    · exact absurd htouched (fieldChanges_ne_nil.mpr ⟨field, hfield⟩)
    · exact fieldChanges_ne_nil.mpr ⟨field, hfield⟩
  · exact hchecked' x htouched

def overlay (s : Settings) (changes : List (String × Json)) : Json :=
  .object
    [(Section.grammar.name, .object (Section.grammar.overlaid changes s.grammar.members)),
     (Section.extraction.name, .object (Section.extraction.overlaid changes s.extraction.members)),
     (Section.packing.name, .object (Section.packing.overlaid changes s.packing.members)),
     (Section.shared.name, .object (Section.shared.overlaid changes s.shared.members)),
     ("name", Members.valueOr changes "name" s.name),
     ("description", Members.valueOr changes "description" s.description)]

theorem Overlaid.toJson_eq (h : Overlaid s changes t) : t.toJson = s.overlay changes := by
  have hgrammar : t.grammar.members = _ := h.sections .grammar
  have hextraction : t.extraction.members = _ := h.sections .extraction
  have hpacking : t.packing.members = _ := h.sections .packing
  have hshared : t.shared.members = _ := h.sections .shared
  rw [toJson, hgrammar, hextraction, hpacking, hshared, h.name, h.description]
  rfl

/-- An override changes what its changes name and nothing else, in whatever order they are given,
and an override of the result is an override by both changes at once. -/
theorem override_overlay (h : Named changes) (hoverride : s.override changes = .ok t) :
    t.toJson = s.overlay changes ∧
      (∀ others : List (String × Json), others.Perm changes → s.override others = .ok t) ∧
      ∀ later u, Named later → t.override later = .ok u →
        s.override (updated changes later) = .ok u := by
  refine ⟨((override_eq_ok h).mp hoverride).1.toJson_eq, fun others hperm => ?_, ?_⟩
  · exact h.override_perm hperm hoverride
  · exact fun later u hlater hsecond => h.override_override hlater hoverride hsecond

def strictChanges : List (String × Json) :=
  [("global___logging_level", .text "DEBUG"), ("grammar__strict_close_tags", .bool true),
   ("name", .text "checked")]

def strictUsual : Settings :=
  { usual with
    grammar := ⟨true, true⟩
    shared := ⟨.debug, .bool true, .null⟩
    name := .text "checked" }

def keyChanges : List (String × Json) :=
  [("extraction__position_key", .text "vertex"), ("global___logging_level", .text "ERROR")]

def strictKeyed : Settings :=
  { strictUsual with
    extraction := { ExtractionSettings.usual with positionKey := .text "vertex" }
    shared := ⟨.error, .bool true, .null⟩ }

theorem override_overlay_usual : usual.override strictChanges = .ok strictUsual ∧
    strictUsual.toJson = usual.overlay strictChanges ∧
    usual.override strictChanges.reverse = .ok strictUsual ∧
    strictUsual.override keyChanges = .ok strictKeyed ∧
    usual.override (updated strictChanges keyChanges) = .ok strictKeyed := by
  have hlevel : Known (Section.shared.fieldKey "logging_level") := .field (by decide)
  have hstrict : Known (Section.grammar.fieldKey "strict_close_tags") := .field (by decide)
  have hposition : Known (Section.extraction.fieldKey "position_key") := .field (by decide)
  have hchanges : Named strictChanges := by
    refine ⟨by decide, ?_⟩
    rw [strictChanges]
    simp only [List.forall_mem_cons]
    exact ⟨hlevel, hstrict, .name, List.forall_mem_nil _⟩
  have hlater : Named keyChanges := by
    refine ⟨by decide, ?_⟩
    rw [keyChanges]
    simp only [List.forall_mem_cons]
    exact ⟨hposition, hlevel, List.forall_mem_nil _⟩
  have hfirst : usual.override strictChanges = .ok strictUsual := rfl
  have hsecond : strictUsual.override keyChanges = .ok strictKeyed := rfl
  obtain ⟨hdata, hperm, hboth⟩ := override_overlay hchanges hfirst
  exact ⟨hfirst, hdata, hperm _ strictChanges.reverse_perm, hsecond,
    hboth keyChanges _ hlater hsecond⟩

end Settings

end MeshMarkup
