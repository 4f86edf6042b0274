import MeshMarkup.Proofs.Settings.Errors

namespace MeshMarkup.Settings

variable {s t : Settings}

def levelNames : List String := ["DEBUG", "INFO", "WARNING", "ERROR", "CRITICAL"]

/-- What is certain of settings, as their data shows it. -/
structure Sound (s : Settings) : Prop where
  flags : ∀ m ∈ s.sectionData .grammar, IsFlag m.2
  keys : ∀ key ∈ s.extraction.keys, key.truthy = true
  comparable : ∀ key ∈ s.extraction.keys, ¬ Uncomparable key
  distinct : s.extraction.keys.Pairwise fun a b => a.same b = false
  packed : s.packing.deduplicateVertices.truthy = true → s.packing.packOnLoad.truthy = true
  level : ∃ name ∈ levelNames,
    Json.member? "logging_level" (s.sectionData .shared) = some (.text name)
  limit : s.shared.maxInputBytes = .null ∨
    ∃ n, s.shared.maxInputBytes.numeric? = some n ∧ n.atMost 0 = false

theorem hasRepeated_eq_false {keys : List Json} :
    hasRepeated keys = false ↔ keys.Pairwise fun a b => a.same b = false := by
  induction keys with
  | nil => simp [hasRepeated]
  | cons key keys ih => simp [hasRepeated, ih]

theorem uncomparableAmong?_eq_none {keys : List Json} :
    uncomparableAmong? keys = none ↔ ∀ key ∈ keys, ¬ Uncomparable key := by
  rw [← not_iff_not, ← ne_eq, uncomparableAmong_iff]
  simp

theorem Valid.sound (h : s.Valid) : s.Sound where
  flags := by
    simp only [sectionData, GrammarSettings.members, List.forall_mem_cons]
    exact ⟨⟨_, rfl⟩, ⟨_, rfl⟩, List.forall_mem_nil _⟩
  keys := h.keys
  comparable := uncomparableAmong?_eq_none.mp h.comparable
  distinct := hasRepeated_eq_false.mp h.distinct
  packed := h.packed
  level := by
    have hname (level : Severity) : level.name ∈ levelNames := by cases level <;> decide
    exact ⟨_, hname s.shared.loggingLevel, rfl⟩
  limit := h.limit

theorem Sound.valid (h : s.Sound) : s.Valid where
  keys := h.keys
  comparable := uncomparableAmong?_eq_none.mpr h.comparable
  distinct := hasRepeated_eq_false.mpr h.distinct
  packed := h.packed
  limit := h.limit

/-- Settings are valid where each section is as some members build it and the source keys pass the
check across sections. -/
theorem valid_of_built (hbuilt : ∀ x : Section, ∃ given, x.build given = .ok (s.sectionData x))
    (hcomparable : uncomparableAmong? s.extraction.keys = none)
    (hdistinct : hasRepeated s.extraction.keys = false) : s.Valid := by
  obtain ⟨given, hextraction⟩ := hbuilt .extraction
  obtain ⟨extraction, hextraction, hkeys⟩ := ok_of_map hextraction
  obtain ⟨given, hpacking⟩ := hbuilt .packing
  obtain ⟨packing, hpacking, hflags⟩ := ok_of_map hpacking
  obtain ⟨given, hshared⟩ := hbuilt .shared
  obtain ⟨shared, hshared, hlimit⟩ := ok_of_map hshared
  have hkeys : s.extraction.keys = extraction.keys := congrArg sourceKeys hkeys.symm
  simp only [PackingSettings.members, sectionData, List.cons.injEq, Prod.mk.injEq, true_and,
    and_true] at hflags
  simp only [SharedSettings.members, sectionData, List.cons.injEq, Prod.mk.injEq, true_and,
    and_true] at hlimit
  refine ⟨?_, hcomparable, hdistinct, ?_, ?_⟩
  · rw [hkeys]
    exact (ExtractionSettings.ofMembers_eq_ok.mp hextraction).2.2.2.2.2.2
  · rw [← hflags.1, ← hflags.2]
    exact (PackingSettings.ofMembers_eq_ok.mp hpacking).2.2.2
  · rw [← hlimit.2.2]
    exact (SharedSettings.ofMembers_eq_ok.mp hshared).2.2.2.2

theorem Valid.built (h : s.Valid) (x : Section) : ∃ given, x.build given = .ok (s.sectionData x) := by
  refine ⟨s.sectionData x, ?_⟩
  cases x with
  | grammar => simp only [Section.build, sectionData, s.grammar.ofMembers_members, Except.map]
  | extraction =>
      simp only [Section.build, sectionData, ExtractionSettings.ofMembers_members.mpr h.keys,
        Except.map]
  | packing =>
      simp only [Section.build, sectionData, PackingSettings.ofMembers_members.mpr h.packed,
        Except.map]
  | shared =>
      simp only [Section.build, sectionData, SharedSettings.ofMembers_members.mpr h.limit,
        Except.map]

theorem settle_eq_ok {sorted : Changes} (h : settle sorted s = .ok t) :
    (∀ x, t.sectionData x = s.sectionData x) ∧ uncomparableAmong? t.extraction.keys = none ∧
      hasRepeated t.extraction.keys = false := by
  rw [settle] at h
  split at h
  · cases h
  · split at h
    · cases h
    · obtain ⟨rfl, hkeys⟩ := checked_eq_ok.mp h
      exact ⟨fun x => by cases x <;> rfl, hkeys⟩

theorem Valid.override {changes : List (String × Json)} (h : s.Valid)
    (hoverride : s.override changes = .ok t) : t.Valid := by
  have hown : ∀ change ∈ changes, change.1 ≠ ownArgument := by
    intro change hchange he
    have hany : changes.any (·.1 = ownArgument) = true :=
      List.any_eq_true.mpr ⟨change, hchange, decide_eq_true he⟩
    rw [Settings.override, if_pos hany] at hoverride
    cases hoverride
  rcases override_cases (s := s) hown with ⟨e, he, -⟩ | ⟨-, sorted, changed, -, hchanged, heq⟩
  · rw [he] at hoverride
    cases hoverride
  · rw [heq] at hoverride
    obtain ⟨hsections, hcomparable, hdistinct⟩ := settle_eq_ok hoverride
    refine valid_of_built (fun x => ?_) hcomparable hdistinct
    rw [hsections]
    by_cases hne : fieldChanges x changes = []
    · rw [hchanged.others x hne]
      exact h.built x
    · exact ⟨_, hchanged.built x hne⟩

inductive Step where
  | usual
  | preset (name : String)
  | data (data : Json)
  | text (nestingLimit : Nat) (text : String)
  | override (changes : List (String × Json))

def made? (held : Option Settings) : Step → Option Settings
  | .usual => some usual
  | .preset name => preset? name
  | .data data => (ofData data).toOption
  | .text nestingLimit text => (ofText nestingLimit text).toOption
  | .override changes => held.bind fun s => (s.override changes).toOption

def hold (held : Option Settings) (step : Step) : Option Settings := (made? held step).or held

def held (steps : List Step) : Option Settings := steps.foldl hold none

theorem presets_valid : ∀ preset ∈ presets, preset.2.Valid := by
  have hlenient : ofData lenient.toJson = .ok lenient := rfl
  have hpositions : ofData positionsOnly.toJson = .ok positionsOnly := rfl
  have hstrict : ofData strict.toJson = .ok strict := rfl
  simp only [presets, List.forall_mem_cons]
  exact ⟨valid_iff.mpr ⟨_, hlenient⟩, valid_iff.mpr ⟨_, hpositions⟩, valid_iff.mpr ⟨_, hstrict⟩,
    List.forall_mem_nil _⟩

theorem toOption_eq_some {α ε : Type} {x : Except ε α} {a : α} (h : x.toOption = some a) :
    x = .ok a := by
  cases x with
  | error e => nomatch h
  | ok b => rw [Option.some.inj h]

theorem ofText_valid {nestingLimit : Nat} {text : String} (h : ofText nestingLimit text = .ok s) :
    s.Valid := by
  rw [ofText] at h
  split at h
  · next members _ => exact valid_iff.mpr ⟨.object members, h⟩
  all_goals cases h

theorem made_valid {before : Option Settings} (hbefore : ∀ s, before = some s → s.Valid)
    {step : Step} (h : made? before step = some t) : t.Valid := by
  cases step with
  | usual => exact Option.some.inj h ▸ usual_valid
  | preset name =>
      obtain ⟨preset, hpreset, rfl⟩ := Option.map_eq_some_iff.mp h
      exact presets_valid preset (List.mem_of_find?_eq_some hpreset)
  | data data => exact valid_iff.mpr ⟨data, toOption_eq_some h⟩
  | text nestingLimit text => exact ofText_valid (toOption_eq_some h)
  | override changes =>
      obtain ⟨s, hs, hchanged⟩ := Option.bind_eq_some_iff.mp h
      exact (hbefore s hs).override (toOption_eq_some hchanged)

theorem hold_valid {before : Option Settings} (hbefore : ∀ s, before = some s → s.Valid)
    (step : Step) : ∀ t, hold before step = some t → t.Valid := by
  intro t ht
  rcases Option.or_eq_some_iff.mp ht with hmade | ⟨-, hkept⟩
  · exact made_valid hbefore hmade
  · exact hbefore t hkept

theorem foldl_hold_valid {before : Option Settings} (hbefore : ∀ s, before = some s → s.Valid)
    (steps : List Step) : ∀ t, steps.foldl hold before = some t → t.Valid := by
  induction steps generalizing before with
  | nil => exact hbefore
  | cons step steps ih => exact ih (hold_valid hbefore step)

/-- The settings that some steps leave held are the sound ones. -/
theorem held_iff_sound (s : Settings) : (∃ steps, held steps = some s) ↔ s.Sound := by
  constructor
  · rintro ⟨steps, hsteps⟩
    have hnone : ∀ t, (none : Option Settings) = some t → t.Valid := fun t h => nomatch h
    exact (foldl_hold_valid hnone steps s hsteps).sound
  · intro h
    refine ⟨[.data s.toJson], ?_⟩
    have hmade : ofData s.toJson = .ok s := ofData_toJson.mpr h.valid
    simp only [held, List.foldl_cons, List.foldl_nil, hold, made?, hmade]
    rfl

/-- An override that fails keeps the usual settings, although it could change a first part of them. -/
example : held [.usual, .override [("grammar__strict_close_tags", .bool true),
    ("packing__deduplicate_vertices", .bool true), ("packing__pack_on_load", .bool false)]] =
      some usual := rfl

end MeshMarkup.Settings
