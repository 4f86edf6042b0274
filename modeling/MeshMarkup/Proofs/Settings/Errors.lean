import MeshMarkup.Proofs.Settings.Override

namespace MeshMarkup.Settings

/-- A result that is an error of another kind than those of the settings. -/
def Escapes {α : Type} (result : Except SettingsError α) : Prop :=
  ∃ e, result = .error e ∧ e.isReported = false

theorem not_escapes_ok {α : Type} (a : α) : ¬ Escapes (.ok a) := by
  rintro ⟨e, he, -⟩
  nomatch he

theorem not_escapes_reported {α : Type} {e : SettingsError} (h : e.isReported = true) :
    ¬ Escapes (.error e : Except SettingsError α) := by
  rintro ⟨_, he, hnot⟩
  cases he
  rw [h] at hnot
  nomatch hnot

/-- A value that cannot be compared as a key: a list or an object, by itself or inside a tuple. -/
inductive Uncomparable : Json → Prop
  | array (items : List Json) : Uncomparable (.array items)
  | object (members : Members) : Uncomparable (.object members)
  | tuple {items : List Json} {item : Json} (hitem : item ∈ items) (h : Uncomparable item) :
      Uncomparable (.tuple items)

mutual

theorem uncomparable_of_some {value part : Json} (h : uncomparable? value = some part) :
    Uncomparable value := by
  cases value with
  | array items => exact .array items
  | object members => exact .object members
  | tuple items =>
      obtain ⟨item, hitem, hvalue⟩ := uncomparable_of_among h
      exact .tuple hitem hvalue
  | null | bool | integer | number | text => nomatch h

theorem uncomparable_of_among {items : List Json} {part : Json}
    (h : uncomparableAmong? items = some part) : ∃ item ∈ items, Uncomparable item := by
  cases items with
  | nil => nomatch h
  | cons item items =>
      rw [uncomparableAmong?] at h
      cases hitem : uncomparable? item with
      | some other => exact ⟨item, List.mem_cons_self, uncomparable_of_some hitem⟩
      | none =>
          rw [hitem] at h
          obtain ⟨other, hother, hvalue⟩ := uncomparable_of_among h
          exact ⟨other, List.mem_cons_of_mem _ hother, hvalue⟩

end

theorem among_ne_none {items : List Json} {item : Json} (hitem : item ∈ items)
    (h : uncomparable? item ≠ none) : uncomparableAmong? items ≠ none := by
  induction items with
  | nil => nomatch hitem
  | cons first items ih =>
      rw [uncomparableAmong?]
      rcases List.mem_cons.mp hitem with rfl | hitem
      · cases hvalue : uncomparable? item with
        | some part => simp
        | none => exact absurd hvalue h
      · cases uncomparable? first with
        | some part => simp
        | none => exact ih hitem

theorem Uncomparable.ne_none {value : Json} (h : Uncomparable value) :
    uncomparable? value ≠ none := by
  induction h with
  | array items => simp [uncomparable?]
  | object members => simp [uncomparable?]
  | tuple hitem h ih =>
      rw [uncomparable?]
      exact among_ne_none hitem ih

theorem uncomparableAmong_iff {items : List Json} :
    uncomparableAmong? items ≠ none ↔ ∃ item ∈ items, Uncomparable item := by
  constructor
  · intro h
    obtain ⟨part, hpart⟩ := Option.ne_none_iff_exists'.mp h
    exact uncomparable_of_among hpart
  · rintro ⟨item, hitem, h⟩
    exact among_ne_none hitem h.ne_none

theorem escapes_checked {s : Settings} :
    Escapes (checked s) ↔ ∃ key ∈ s.extraction.keys, Uncomparable key := by
  rw [← uncomparableAmong_iff, checked, Escapes]
  cases uncomparableAmong? s.extraction.keys with
  | some part => simp [SettingsError.isReported]
  | none => cases hasRepeated s.extraction.keys <;> simp [SettingsError.isReported]

def sourceKeys (given : Members) : List Json :=
  [given.valueOr "position_key" (.text "position"), given.valueOr "normal_key" (.text "normal"),
   given.valueOr "texcoord_key" (.text "map")]

theorem sourceKeys_members (s : ExtractionSettings) : sourceKeys s.members = s.keys := rfl

theorem sourceKeys_built {given : Members} {s : ExtractionSettings}
    (h : ExtractionSettings.ofMembers given = .ok s) : s.keys = sourceKeys given := by
  obtain ⟨-, hposition, hnormal, hcoordinates, -⟩ := ExtractionSettings.ofMembers_eq_ok.mp h
  rw [sourceKeys, hposition, hnormal, hcoordinates]
  rfl

theorem escapes_bind {α β : Type} {step : Except SettingsError α}
    {next : α → Except SettingsError β} :
    Escapes (step >>= next) ↔ Escapes step ∨ ∃ a, step = .ok a ∧ Escapes (next a) := by
  cases step <;> simp [Escapes, bind, Except.bind]

theorem not_escapes_sectionMembers (data : Members) (x : Section) :
    ¬ Escapes (sectionMembers data x) := by
  rw [sectionMembers]
  split
  · exact not_escapes_ok _
  · split
    · exact not_escapes_reported rfl
    · exact not_escapes_ok _

theorem not_escapes_buildSection {α : Type} (x : Section)
    (build : Members → Except SectionError α) (given : Members) :
    ¬ Escapes (buildSection x build given) := by
  rw [buildSection]
  cases build given with
  | ok a => exact not_escapes_ok a
  | error cause => exact not_escapes_reported rfl

theorem escapes_ofMembers {data : Members} : Escapes (ofMembers data) ↔
    ∃ given : Section → Members, (∀ x, sectionMembers data x = .ok (given x)) ∧
      (∀ x : Section, x.Builds (given x)) ∧
      ∃ key ∈ sourceKeys (given .extraction), Uncomparable key := by
  simp only [ofMembers, escapes_bind, not_escapes_sectionMembers, not_escapes_buildSection,
    false_or, buildSection_eq_ok, escapes_checked]
  constructor
  · rintro ⟨given₁, hgiven₁, grammar, hgrammar, given₂, hgiven₂, extraction, hextraction,
      given₃, hgiven₃, packing, hpacking, given₄, hgiven₄, shared, hshared, key, hkey, h⟩
    let given := Section.each given₁ given₂ given₃ given₄
    have hgiven : ∀ x, sectionMembers data x = .ok (given x) :=
      Section.forall_iff.mpr ⟨hgiven₁, hgiven₂, hgiven₃, hgiven₄⟩
    have hbuilds : ∀ x : Section, x.Builds (given x) :=
      Section.forall_iff.mpr ⟨map_eq_ok.mpr ⟨_, hgrammar⟩, map_eq_ok.mpr ⟨_, hextraction⟩,
        map_eq_ok.mpr ⟨_, hpacking⟩, map_eq_ok.mpr ⟨_, hshared⟩⟩
    exact ⟨given, hgiven, hbuilds, key, sourceKeys_built hextraction ▸ hkey, h⟩
  · rintro ⟨given, hgiven, hbuilds, key, hkey, h⟩
    obtain ⟨grammar, hgrammar⟩ := map_eq_ok.mp (hbuilds .grammar)
    obtain ⟨extraction, hextraction⟩ := map_eq_ok.mp (hbuilds .extraction)
    obtain ⟨packing, hpacking⟩ := map_eq_ok.mp (hbuilds .packing)
    obtain ⟨shared, hshared⟩ := map_eq_ok.mp (hbuilds .shared)
    exact ⟨_, hgiven _, _, hgrammar, _, hgiven _, _, hextraction, _, hgiven _, _, hpacking,
      _, hgiven _, _, hshared, key, (sourceKeys_built hextraction).symm ▸ hkey, h⟩

inductive EscapingText (nestingLimit : Nat) (text : String) : Prop
  | oversized {digits : Nat}
      (hread : Json.read nestingLimit text = .error (.oversizedInteger digits))
  | tooDeep (hread : Json.read nestingLimit text = .error .tooDeep)
  | keys {data : Members} (hread : Json.read nestingLimit text = .ok (.object data))
      {given : Section → Members} (hgiven : ∀ x, sectionMembers data x = .ok (given x))
      (hbuilds : ∀ x : Section, x.Builds (given x))
      {key : Json} (hkey : key ∈ sourceKeys (given .extraction)) (h : Uncomparable key)

theorem escapes_ofText {nestingLimit : Nat} {text : String} :
    Escapes (ofText nestingLimit text) ↔ EscapingText nestingLimit text := by
  constructor
  · intro h
    rw [ofText] at h
    split at h
    · next data hread =>
      obtain ⟨given, hgiven, hbuilds, key, hkey, huncomparable⟩ := escapes_ofMembers.mp h
      exact .keys hread hgiven hbuilds hkey huncomparable
    · exact absurd h (not_escapes_reported rfl)
    · exact absurd h (not_escapes_reported rfl)
    · next digits hread => exact .oversized hread
    · next hread => exact .tooDeep hread
  · intro h
    rw [ofText]
    cases h with
    | oversized hread =>
        rw [hread]
        exact ⟨_, rfl, rfl⟩
    | tooDeep hread =>
        rw [hread]
        exact ⟨_, rfl, rfl⟩
    | keys hread hgiven hbuilds hkey h =>
        rw [hread]
        exact escapes_ofMembers.mpr ⟨_, hgiven, hbuilds, _, hkey, h⟩

theorem member?_eq_none {name : String} {members : Members} :
    Json.member? name members = none ↔ name ∉ members.map Prod.fst := by
  rw [Json.member?, Option.map_eq_none_iff, List.find?_eq_none, List.mem_map]
  constructor
  · rintro h ⟨m, hm, rfl⟩
    exact h m hm (by simp)
  · intro h m hm heq
    exact h ⟨m, hm, of_decide_eq_true heq⟩

theorem mem_all (x : Section) : x ∈ Section.all := by
  cases x <;> decide

theorem replacedSection?_eq_none {sorted : Changes} : replacedSection? sorted = none ↔
    ∀ x, x ∉ sorted.sections.map Prod.fst → x.name ∉ sorted.settings.map Prod.fst := by
  have hany (x : Section) : sorted.sections.any (·.1 = x) = true ↔
      x ∈ sorted.sections.map Prod.fst := by simp
  rw [replacedSection?, List.findSome?_eq_none_iff]
  constructor
  · intro h x hx
    have hnone := h x (mem_all x)
    rwa [if_neg (mt (hany x).mp hx), member?_eq_none] at hnone
  · intro h x _
    by_cases hx : x ∈ sorted.sections.map Prod.fst
    · rw [if_pos ((hany x).mpr hx)]
    · rw [if_neg (mt (hany x).mp hx), member?_eq_none]
      exact h x hx

theorem escapes_settle {sorted : Changes} {t : Settings} : Escapes (settle sorted t) ↔
    (∃ name ∈ sorted.settings.map Prod.fst, name ∉ ownSettings) ∨
    (∃ x, x ∉ sorted.sections.map Prod.fst ∧ x.name ∈ sorted.settings.map Prod.fst) ∨
    ∃ key ∈ t.extraction.keys, Uncomparable key := by
  rw [settle]
  cases hfind : sorted.settings.find? fun m => !ownSettings.contains m.1 with
  | some m =>
      have hname : m.1 ∉ ownSettings := by simpa using List.find?_some hfind
      have hmem := List.mem_map_of_mem (f := Prod.fst) (List.mem_of_find?_eq_some hfind)
      exact ⟨fun _ => Or.inl ⟨m.1, hmem, hname⟩, fun _ => ⟨_, rfl, rfl⟩⟩
  | none =>
      have hown : ¬ ∃ name ∈ sorted.settings.map Prod.fst, name ∉ ownSettings := by
        rintro ⟨name, hmem, hname⟩
        obtain ⟨m, hm, rfl⟩ := List.mem_map.mp hmem
        exact absurd (List.find?_eq_none.mp hfind m hm) (by simpa using hname)
      rw [or_iff_right hown]
      cases hreplaced : replacedSection? sorted with
      | some value =>
          have hx : ∃ x, x ∉ sorted.sections.map Prod.fst ∧ x.name ∈ sorted.settings.map Prod.fst := by
            refine Classical.byContradiction fun hnot => ?_
            have hnone : replacedSection? sorted = none :=
              replacedSection?_eq_none.mpr fun x hx hmem => hnot ⟨x, hx, hmem⟩
            rw [hnone] at hreplaced
            nomatch hreplaced
          exact ⟨fun _ => Or.inl hx, fun _ => ⟨_, rfl, rfl⟩⟩
      | none =>
          have hx := replacedSection?_eq_none.mp hreplaced
          rw [or_iff_right fun ⟨x, hnot, hmem⟩ => hx x hnot hmem]
          exact escapes_checked

theorem target_name (x : Section) : target x.name = .setting x.name := by
  cases x <;> decide

theorem setting?_eq_some {key name : String} :
    (target key).setting? = some name ↔ target key = .setting name := by
  cases target key <;> simp [Target.setting?]

theorem target_setting {key name : String} (h : target key = .setting name) : key = name := by
  rw [target] at h
  split at h
  · exact Target.setting.inj h
  · split at h <;> nomatch h

theorem mem_settings {changes : List (String × Json)} {sorted : Changes} (h : Sorted changes sorted)
    {name : String} : name ∈ sorted.settings.map Prod.fst ↔
      ∃ change ∈ changes, change.1 = name ∧ target name = .setting name := by
  rw [h.settings, mem_keys_picked]
  simp only [setting?_eq_some]
  constructor
  · rintro ⟨change, hmem, htarget⟩
    obtain rfl := target_setting htarget
    exact ⟨change, hmem, rfl, htarget⟩
  · rintro ⟨change, hmem, rfl, htarget⟩
    exact ⟨change, hmem, htarget⟩

inductive EscapingOverride (s : Settings) (changes : List (String × Json)) : Prop
  | own (h : ∃ change ∈ changes, change.1 = ownArgument)
  | unknown (haccepted : Accepted s changes)
      (h : ∃ change ∈ changes, target change.1 = .setting change.1 ∧ change.1 ∉ ownSettings)
  | replaced (haccepted : Accepted s changes) {x : Section}
      (h : ∃ change ∈ changes, change.1 = x.name) (hfields : fieldChanges x changes = [])
  | keys (haccepted : Accepted s changes) {key : Json}
      (hkey : key ∈ sourceKeys (fieldChanges .extraction changes ++ s.extraction.members))
      (h : Uncomparable key)

theorem Changed.keys_eq {s t : Settings} {changes : List (String × Json)}
    (h : Changed s changes t) :
    t.extraction.keys = sourceKeys (fieldChanges .extraction changes ++ s.extraction.members) := by
  have hmembers (u : Settings) : sourceKeys (u.sectionData .extraction) = u.extraction.keys := rfl
  by_cases hne : fieldChanges .extraction changes = []
  · rw [hne, List.nil_append, ← hmembers, h.others .extraction hne]
    rfl
  · have hbuilt := h.built .extraction hne
    cases hnew : ExtractionSettings.ofMembers
        (fieldChanges .extraction changes ++ s.extraction.members) with
    | error cause =>
        simp only [Section.build, sectionData, hnew, Except.map] at hbuilt
        cases hbuilt
    | ok new =>
        simp only [Section.build, sectionData, hnew, Except.map, Except.ok.injEq] at hbuilt
        rw [← sourceKeys_built hnew, ← sourceKeys_members new, hbuilt]
        rfl

theorem escapes_override {s : Settings} {changes : List (String × Json)} :
    Escapes (s.override changes) ↔ EscapingOverride s changes := by
  by_cases hown : ∃ change ∈ changes, change.1 = ownArgument
  · have hany : changes.any (·.1 = ownArgument) = true := by simpa using hown
    refine ⟨fun _ => .own hown, fun _ => ⟨.ownKey, ?_, rfl⟩⟩
    rw [override, if_pos hany]
    rfl
  · rcases override_cases (s := s) fun change hmem he => hown ⟨change, hmem, he⟩ with
      ⟨e, he, hreported, hnot⟩ | ⟨haccepted, sorted, t, hsorted, hchanged, heq⟩
    · constructor
      · intro h
        rw [he] at h
        exact absurd h (not_escapes_reported hreported)
      · rintro (hown' | ⟨haccepted, -⟩ | ⟨haccepted, -, -⟩ | ⟨haccepted, -, -⟩)
        · exact absurd hown' hown
        · exact absurd haccepted hnot
        · exact absurd haccepted hnot
        · exact absurd haccepted hnot
    · rw [heq, escapes_settle, hchanged.keys_eq]
      constructor
      · rintro (⟨name, hmem, hname⟩ | ⟨x, hx, hmem⟩ | ⟨key, hkey, h⟩)
        · obtain ⟨change, hchange, rfl, htarget⟩ := (mem_settings hsorted).mp hmem
          exact .unknown haccepted ⟨change, hchange, htarget, hname⟩
        · obtain ⟨change, hchange, hname, -⟩ := (mem_settings hsorted).mp hmem
          exact .replaced haccepted ⟨change, hchange, hname⟩ (hsorted.notMem_iff.mp hx)
        · exact .keys haccepted hkey h
      · rintro (hown' | ⟨-, change, hchange, htarget, hname⟩ |
          ⟨-, ⟨change, hchange, hname⟩, hfields⟩ | ⟨-, hkey, h⟩)
        · exact absurd hown' hown
        · exact Or.inl ⟨change.1, (mem_settings hsorted).mpr ⟨change, hchange, rfl, htarget⟩, hname⟩
        · exact Or.inr (Or.inl ⟨_, hsorted.notMem_iff.mpr hfields,
            (mem_settings hsorted).mpr ⟨change, hchange, hname, target_name _⟩⟩)
        · exact Or.inr (Or.inr ⟨_, hkey, h⟩)

/-- A result with settings, or with an error that is reported as one of the settings. -/
def Closed (result : Except SettingsError Settings) : Prop :=
  (∃ s, result = .ok s) ∨ ∃ e, result = .error e ∧ e.isReported = true

instance decidableClosed : (result : Except SettingsError Settings) → Decidable (Closed result)
  | .ok s => .isTrue (Or.inl ⟨s, rfl⟩)
  | .error e => decidable_of_iff (e.isReported = true) (by simp [Closed])

theorem closed_iff_not_escapes {result : Except SettingsError Settings} :
    Closed result ↔ ¬ Escapes result := by
  cases result with
  | ok s => simp [Closed, Escapes]
  | error e => simp [Closed, Escapes]

/-- Reading text and overriding settings end with settings or with an error of the settings, but
for just these texts and these overrides. -/
theorem closed_iff (nestingLimit : Nat) (text : String) (s : Settings)
    (changes : List (String × Json)) :
    (Closed (ofText nestingLimit text) ↔ ¬ EscapingText nestingLimit text) ∧
      (Closed (s.override changes) ↔ ¬ EscapingOverride s changes) := by
  constructor
  · rw [closed_iff_not_escapes, escapes_ofText]
  · rw [closed_iff_not_escapes, escapes_override]

theorem listed_key_not_closed :
    ¬ Closed (ofText 9 "\x7b\"extraction\": \x7b\"position_key\": [1]\x7d\x7d") := by
  decide +kernel

example : ¬ Closed (usual.override [("nope", .integer 1)]) := by
  decide +kernel

end MeshMarkup.Settings
