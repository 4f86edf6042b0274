import MeshMarkup.Settings.Override
import MeshMarkup.Proofs.Settings.Valid

namespace MeshMarkup.Settings

variable {x : Section} {name : String} {value : Json} {given : Members}

def Target.fieldOf? (x : Section) : Target → Option String
  | .field y name => if y = x then some name else none
  | _ => none

def Target.setting? : Target → Option String
  | .setting name => some name
  | _ => none

def pickOne (pick : Target → Option String) (given : Members) (change : String × Json) : Members :=
  match pick (target change.1) with
  | some name => Json.setMember name change.2 given
  | none => given

/-- The values that changes give for the names that are picked. The last of several counts. -/
def picked (pick : Target → Option String) (changes : List (String × Json)) : Members :=
  changes.foldl (pickOne pick) []

theorem picked_concat (pick : Target → Option String) (changes : List (String × Json))
    (change : String × Json) :
    picked pick (changes ++ [change]) = pickOne pick (picked pick changes) change := by
  rw [picked, List.foldl_append]
  rfl

theorem mem_keys_setMember {key : String} : key ∈ (Json.setMember name value given).map Prod.fst ↔
    key = name ∨ key ∈ given.map Prod.fst := by
  induction given with
  | nil => simp [Json.setMember]
  | cons m given ih =>
      rw [Json.setMember]
      by_cases hm : m.1 = name
      · simp [hm]
      · simp only [hm, if_false, List.map_cons, List.mem_cons, ih]
        exact or_left_comm

theorem nodup_setMember (h : (given.map Prod.fst).Nodup) :
    ((Json.setMember name value given).map Prod.fst).Nodup := by
  induction given with
  | nil => simp [Json.setMember]
  | cons m given ih =>
      rw [List.map_cons, List.nodup_cons] at h
      rw [Json.setMember]
      by_cases hm : m.1 = name
      · simp only [hm, if_true, List.map_cons, List.nodup_cons]
        exact hm ▸ h
      · simp only [hm, if_false, List.map_cons, List.nodup_cons, mem_keys_setMember, false_or]
        exact ⟨h.1, ih h.2⟩

theorem mem_keys_pickOne {pick : Target → Option String} {change : String × Json} :
    name ∈ (pickOne pick given change).map Prod.fst ↔
      pick (target change.1) = some name ∨ name ∈ given.map Prod.fst := by
  rw [pickOne]
  cases pick (target change.1) with
  | none => simp
  | some other => simp [mem_keys_setMember, eq_comm]

theorem mem_keys_picked {pick : Target → Option String} {changes : List (String × Json)} :
    name ∈ (picked pick changes).map Prod.fst ↔ ∃ c ∈ changes, pick (target c.1) = some name := by
  have hfrom (given : Members) : name ∈ (changes.foldl (pickOne pick) given).map Prod.fst ↔
      (∃ c ∈ changes, pick (target c.1) = some name) ∨ name ∈ given.map Prod.fst := by
    induction changes generalizing given with
    | nil => simp
    | cons c changes ih =>
        simp only [List.foldl_cons, ih, mem_keys_pickOne, List.mem_cons, exists_eq_or_imp]
        rw [or_left_comm, or_assoc]
  rw [picked, hfrom []]
  simp

theorem setMember_ne_nil : Json.setMember name value given ≠ [] := by
  cases given with
  | nil => simp [Json.setMember]
  | cons m given =>
      rw [Json.setMember]
      split <;> simp

section Sorting

variable {y : Section} {sections : List (Section × Members)}

def fieldsFor (x : Section) : List (Section × Members) → Members
  | [] => []
  | (y, given) :: sections => if y = x then given else fieldsFor x sections

theorem fieldsFor_setField : fieldsFor y (setField x name value sections) =
    if x = y then Json.setMember name value (fieldsFor y sections) else fieldsFor y sections := by
  induction sections with
  | nil => simp [setField, fieldsFor, Json.setMember]
  | cons p sections ih =>
      obtain ⟨z, given⟩ := p
      by_cases hx : z = x
      · by_cases hy : x = y <;> simp [setField, fieldsFor, hx, hy]
      · by_cases hy : z = y
        · subst hy
          simp [setField, fieldsFor, hx, Ne.symm hx]
        · simp [setField, fieldsFor, hx, hy, ih]

theorem mem_setField (h : y ∈ (setField x name value sections).map Prod.fst) :
    y = x ∨ y ∈ sections.map Prod.fst := by
  induction sections with
  | nil => simpa [setField] using h
  | cons p sections ih =>
      rw [setField] at h
      by_cases hp : p.1 = x
      · simp only [hp, if_true, List.map_cons, List.mem_cons] at h ⊢
        exact Or.inr h
      · simp only [hp, if_false, List.map_cons, List.mem_cons] at h ⊢
        rcases h with h | h
        · exact Or.inr (Or.inl h)
        · exact (ih h).imp id Or.inr

theorem nodup_setField (h : (sections.map Prod.fst).Nodup) :
    ((setField x name value sections).map Prod.fst).Nodup := by
  induction sections with
  | nil => simp [setField]
  | cons p sections ih =>
      rw [List.map_cons, List.nodup_cons] at h
      rw [setField]
      by_cases hp : p.1 = x
      · simp only [hp, if_true, List.map_cons, List.nodup_cons]
        exact hp ▸ h
      · simp only [hp, if_false, List.map_cons, List.nodup_cons]
        refine ⟨fun hmem => ?_, ih h.2⟩
        rcases mem_setField hmem with he | hmem
        · exact hp he
        · exact h.1 hmem

theorem setField_nonempty (h : ∀ p ∈ sections, p.2 ≠ []) :
    ∀ p ∈ setField x name value sections, p.2 ≠ [] := by
  induction sections with
  | nil => simp [setField]
  | cons p sections ih =>
      rw [List.forall_mem_cons] at h
      rw [setField]
      by_cases hp : p.1 = x
      · simp only [hp, if_true, List.forall_mem_cons]
        exact ⟨setMember_ne_nil, h.2⟩
      · simp only [hp, if_false, List.forall_mem_cons]
        exact ⟨h.1, ih h.2⟩

theorem fieldsFor_eq (hnodup : (sections.map Prod.fst).Nodup) (h : (x, given) ∈ sections) :
    fieldsFor x sections = given := by
  induction sections with
  | nil => nomatch h
  | cons p sections ih =>
      rw [List.map_cons, List.nodup_cons] at hnodup
      rcases List.mem_cons.mp h with rfl | h
      · simp [fieldsFor]
      · have hne : ¬ p.1 = x := fun he => hnodup.1 (he ▸ List.mem_map_of_mem h)
        simpa [fieldsFor, hne] using ih hnodup.2 h

theorem mem_of_fieldsFor (h : fieldsFor x sections ≠ []) : (x, fieldsFor x sections) ∈ sections := by
  induction sections with
  | nil => exact absurd rfl h
  | cons p sections ih =>
      obtain ⟨y, given⟩ := p
      by_cases hy : y = x
      · simp [fieldsFor, hy]
      · simp only [fieldsFor, hy, if_false] at h ⊢
        exact List.mem_cons_of_mem _ (ih h)

end Sorting

/-- Sorted changes hold what the changes give for each section and for the settings of their own. -/
structure Sorted (changes : List (String × Json)) (sorted : Changes) : Prop where
  distinct : (sorted.sections.map Prod.fst).Nodup
  nonempty : ∀ p ∈ sorted.sections, p.2 ≠ []
  fields : ∀ x, fieldsFor x sorted.sections = picked (Target.fieldOf? x) changes
  settings : sorted.settings = picked Target.setting? changes

theorem Sorted.none : Sorted [] Changes.none := by
  refine ⟨List.nodup_nil, ?_, fun _ => rfl, rfl⟩
  simp [Changes.none]

theorem Sorted.add {changes : List (String × Json)} {sorted : Changes} (h : Sorted changes sorted)
    (change : String × Json) :
    (∃ key, target change.1 = .unknown key ∧
      sorted.add change = .error (.unknownComponent key)) ∨
    (∀ key, target change.1 ≠ .unknown key) ∧ ∃ next, sorted.add change = .ok next ∧
      Sorted (changes ++ [change]) next := by
  rw [Changes.add]
  cases htarget : target change.1 with
  | unknown key => exact Or.inl ⟨key, rfl, rfl⟩
  | field x name =>
      refine Or.inr ⟨by simp, _, rfl, nodup_setField h.distinct, setField_nonempty h.nonempty, ?_, ?_⟩
      · intro y
        rw [picked_concat, pickOne, fieldsFor_setField, h.fields, htarget]
        by_cases hy : x = y <;> simp [Target.fieldOf?, hy]
      · rw [picked_concat, pickOne, h.settings, htarget]
        rfl
  | setting name =>
      refine Or.inr ⟨by simp, _, rfl, h.distinct, h.nonempty, ?_, ?_⟩
      · intro y
        rw [picked_concat, pickOne, h.fields, htarget]
        rfl
      · rw [picked_concat, pickOne, h.settings, htarget]
        rfl

theorem Sorted.addAll {done : List (String × Json)} {sorted : Changes} (h : Sorted done sorted)
    (changes : List (String × Json)) :
    (∃ change ∈ changes, ∃ key, target change.1 = .unknown key ∧
      changes.foldlM Changes.add sorted = .error (.unknownComponent key)) ∨
    (∀ change ∈ changes, ∀ key, target change.1 ≠ .unknown key) ∧
      ∃ final, changes.foldlM Changes.add sorted = .ok final ∧ Sorted (done ++ changes) final := by
  induction changes generalizing done sorted with
  | nil => exact Or.inr ⟨by simp, sorted, rfl, by simpa using h⟩
  | cons change changes ih =>
      rw [List.foldlM_cons]
      rcases h.add change with ⟨key, htarget, hadd⟩ | ⟨hknown, next, hadd, hnext⟩
      · rw [hadd]
        exact Or.inl ⟨change, List.mem_cons_self, key, htarget, rfl⟩
      · rw [hadd]
        rcases ih hnext with ⟨other, hmem, key, htarget, herror⟩ | ⟨hrest, final, hfinal, hsorted⟩
        · exact Or.inl ⟨other, List.mem_cons_of_mem _ hmem, key, htarget, herror⟩
        · rw [List.append_assoc] at hsorted
          exact Or.inr ⟨List.forall_mem_cons.mpr ⟨hknown, hrest⟩, final, hfinal, hsorted⟩

structure Replaced (s : Settings) (x : Section) (members : Members) (t : Settings) : Prop where
  section_eq : t.sectionData x = members
  others : ∀ y, y ≠ x → t.sectionData y = s.sectionData y
  name : t.name = s.name
  description : t.description = s.description

theorem buildSection_cases {α : Type} {s : Settings} {x : Section}
    (build : Members → Except SectionError α) (data : α → Members) (put : α → Settings)
    (given : Members) (hput : ∀ a, Replaced s x (data a) (put a)) :
    (∃ cause, (build given).map data = .error cause ∧
      (buildSection x build given >>= fun a => pure (put a)) = .error (.inSection x cause)) ∨
    ∃ members t, (build given).map data = .ok members ∧
      (buildSection x build given >>= fun a => pure (put a)) = .ok t ∧ Replaced s x members t := by
  rw [buildSection]
  cases build given with
  | error cause => exact Or.inl ⟨cause, rfl, rfl⟩
  | ok a => exact Or.inr ⟨data a, put a, rfl, rfl, hput a⟩

theorem changeSection_cases (base s : Settings) (x : Section) (given : Members) :
    (∃ cause, x.build (given ++ base.sectionData x) = .error cause ∧
      changeSection base s (x, given) = .error (.inSection x cause)) ∨
    ∃ members t, x.build (given ++ base.sectionData x) = .ok members ∧
      changeSection base s (x, given) = .ok t ∧ Replaced s x members t := by
  cases x
  case' grammar => apply buildSection_cases GrammarSettings.ofMembers
  case' extraction => apply buildSection_cases ExtractionSettings.ofMembers
  case' packing => apply buildSection_cases PackingSettings.ofMembers
  case' shared => apply buildSection_cases SharedSettings.ofMembers
  all_goals
    refine fun new => ⟨rfl, ?_, rfl, rfl⟩
    rintro (_ | _ | _ | _) hne <;> first | rfl | exact absurd rfl hne

/-- Settings in which the sections that are listed were built again. -/
structure Rebuilt (base s : Settings) (sections : List (Section × Members)) (t : Settings) : Prop where
  built : ∀ p ∈ sections, p.1.build (p.2 ++ base.sectionData p.1) = .ok (t.sectionData p.1)
  others : ∀ x, x ∉ sections.map Prod.fst → t.sectionData x = s.sectionData x
  name : t.name = s.name
  description : t.description = s.description

theorem changeSections_cases (base s : Settings) {sections : List (Section × Members)}
    (hdistinct : (sections.map Prod.fst).Nodup) :
    (∃ p ∈ sections, ∃ cause, p.1.build (p.2 ++ base.sectionData p.1) = .error cause ∧
      sections.foldlM (changeSection base) s = .error (.inSection p.1 cause)) ∨
    ∃ t, sections.foldlM (changeSection base) s = .ok t ∧ Rebuilt base s sections t := by
  induction sections generalizing s with
  | nil => exact Or.inr ⟨s, rfl, by simp, fun _ _ => rfl, rfl, rfl⟩
  | cons p sections ih =>
      rw [List.map_cons, List.nodup_cons] at hdistinct
      rw [List.foldlM_cons]
      rcases changeSection_cases base s p.1 p.2 with
        ⟨cause, hbuild, hstep⟩ | ⟨members, t, hbuild, hstep, hreplaced⟩
      · rw [hstep]
        exact Or.inl ⟨p, List.mem_cons_self, cause, hbuild, rfl⟩
      · rw [hstep]
        rcases ih t hdistinct.2 with ⟨q, hq, cause, hbuild, herror⟩ | ⟨u, hu, hrebuilt⟩
        · exact Or.inl ⟨q, List.mem_cons_of_mem _ hq, cause, hbuild, herror⟩
        · have hfirst : u.sectionData p.1 = members :=
            (hrebuilt.others p.1 hdistinct.1).trans hreplaced.section_eq
          refine Or.inr ⟨u, hu, ?_, ?_, hrebuilt.name.trans hreplaced.name,
            hrebuilt.description.trans hreplaced.description⟩
          · exact List.forall_mem_cons.mpr ⟨hfirst ▸ hbuild, hrebuilt.built⟩
          · intro x hx
            rw [List.map_cons, List.mem_cons, not_or] at hx
            exact (hrebuilt.others x hx.2).trans (hreplaced.others x hx.1)

def fieldChanges (x : Section) (changes : List (String × Json)) : Members :=
  picked (Target.fieldOf? x) changes

/-- Each change names something, and each section that fields are given for can be built. -/
structure Accepted (s : Settings) (changes : List (String × Json)) : Prop where
  named : ∀ change ∈ changes, ∀ key, target change.1 ≠ .unknown key
  builds : ∀ x, fieldChanges x changes ≠ [] →
    x.Builds (fieldChanges x changes ++ s.sectionData x)

/-- The settings before the last steps of an override. -/
structure Changed (s : Settings) (changes : List (String × Json)) (t : Settings) : Prop where
  built : ∀ x, fieldChanges x changes ≠ [] →
    x.build (fieldChanges x changes ++ s.sectionData x) = .ok (t.sectionData x)
  others : ∀ x, fieldChanges x changes = [] → t.sectionData x = s.sectionData x
  name : t.name = s.name
  description : t.description = s.description

theorem Sorted.mem_iff {changes : List (String × Json)} {sorted : Changes}
    (h : Sorted changes sorted) :
    (x, given) ∈ sorted.sections ↔ given ≠ [] ∧ fieldChanges x changes = given := by
  constructor
  · intro hmem
    exact ⟨h.nonempty _ hmem, (h.fields x).symm.trans (fieldsFor_eq h.distinct hmem)⟩
  · rintro ⟨hne, rfl⟩
    rw [fieldChanges, ← h.fields] at hne ⊢
    exact mem_of_fieldsFor hne

theorem Sorted.notMem_iff {changes : List (String × Json)} {sorted : Changes}
    (h : Sorted changes sorted) :
    x ∉ sorted.sections.map Prod.fst ↔ fieldChanges x changes = [] := by
  constructor
  · intro hnot
    refine Classical.byContradiction fun hne => hnot ?_
    exact List.mem_map_of_mem (h.mem_iff.mpr ⟨hne, rfl⟩)
  · intro he hmem
    obtain ⟨⟨y, given⟩, hp, rfl⟩ := List.mem_map.mp hmem
    obtain ⟨hne, rfl⟩ := h.mem_iff.mp hp
    exact hne he

theorem override_cases {s : Settings} {changes : List (String × Json)}
    (hown : ∀ change ∈ changes, change.1 ≠ ownArgument) :
    (∃ e, s.override changes = .error e ∧ e.isReported = true ∧ ¬ Accepted s changes) ∨
    Accepted s changes ∧ ∃ sorted t, Sorted changes sorted ∧ Changed s changes t ∧
      s.override changes = settle sorted t := by
  have hfalse : changes.any (·.1 = ownArgument) = false := by
    simpa using hown
  simp only [override, hfalse, Bool.false_eq_true, if_false]
  rcases Sorted.none.addAll changes with
    ⟨change, hmem, key, htarget, herror⟩ | ⟨hnamed, sorted, hsorted, h⟩
  · refine Or.inl ⟨.unknownComponent key, ?_, rfl, fun ha => ha.named change hmem key htarget⟩
    rw [herror]
    rfl
  · rw [List.nil_append] at h
    rw [hsorted]
    rcases changeSections_cases s s h.distinct with
      ⟨⟨x, given⟩, hp, cause, hbuild, herror⟩ | ⟨t, ht, hrebuilt⟩
    · obtain ⟨hne, rfl⟩ := h.mem_iff.mp hp
      refine Or.inl ⟨.inSection x cause, ?_, rfl, fun ha => ?_⟩
      · simp only [bind, Except.bind, herror]
      · obtain ⟨members, hmembers⟩ := ha.builds x hne
        rw [hbuild] at hmembers
        nomatch hmembers
    · have hbuilt : ∀ x, fieldChanges x changes ≠ [] →
          x.build (fieldChanges x changes ++ s.sectionData x) = .ok (t.sectionData x) :=
        fun x hne => hrebuilt.built (x, _) (h.mem_iff.mpr ⟨hne, rfl⟩)
      refine Or.inr ⟨⟨hnamed, fun x hne => ⟨_, hbuilt x hne⟩⟩, sorted, t, h,
        ⟨hbuilt, fun x he => hrebuilt.others x (h.notMem_iff.mpr he), hrebuilt.name,
          hrebuilt.description⟩, ?_⟩
      simp only [bind, Except.bind, ht]

end MeshMarkup.Settings
