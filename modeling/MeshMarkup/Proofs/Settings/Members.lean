import MeshMarkup.Proofs.Settings.Valid

namespace MeshMarkup

namespace Json

variable {key : String} {value : Json} {a b : List (String × Json)}

theorem member?_cons {m : String × Json} {members : List (String × Json)} :
    member? key (m :: members) = if m.1 = key then some m.2 else member? key members := by
  by_cases h : m.1 = key <;> simp [member?, h]

theorem member?_append : member? key (a ++ b) = (member? key a).or (member? key b) := by
  rw [member?, member?, member?, List.find?_append]
  cases a.find? (·.1 = key) <;> rfl

theorem member?_setMember {other : String} :
    member? other (setMember key value a) = if key = other then some value else member? other a := by
  induction a with
  | nil => simp [setMember, member?]
  | cons m a ih =>
      rw [setMember]
      by_cases hm : m.1 = key
      · by_cases hother : key = other <;> simp [member?_cons, hm, hother]
      · by_cases hother : key = other
        · subst hother
          simp [member?_cons, hm, ih]
        · simp [member?_cons, hm, ih, hother]

/-- Where no key stands twice, a member is looked up just when it is there. -/
theorem member?_eq_some (h : (a.map Prod.fst).Nodup) :
    member? key a = some value ↔ (key, value) ∈ a := by
  induction a with
  | nil => simp [member?]
  | cons m a ih =>
      obtain ⟨name, other⟩ := m
      rw [List.map_cons, List.nodup_cons] at h
      rw [member?_cons, List.mem_cons, Prod.mk.injEq]
      by_cases hname : name = key
      · subst hname
        have hnot : (name, value) ∉ a := fun hmem => h.1 (List.mem_map.mpr ⟨_, hmem, rfl⟩)
        simp [hnot, eq_comm]
      · simp [hname, Ne.symm hname, ih h.2]

theorem member?_perm (h : (b.map Prod.fst).Nodup) (hperm : a.Perm b) :
    member? key a = member? key b := by
  have ha : (a.map Prod.fst).Nodup := (hperm.map Prod.fst).nodup_iff.mpr h
  refine Option.ext fun value => ?_
  rw [member?_eq_some ha, member?_eq_some h, hperm.mem_iff]

end Json

/-- Members with the same keys, none of them twice, are equal where the values are. -/
theorem Members.ext_valueOr {a b : Members} (hkeys : a.map Prod.fst = b.map Prod.fst)
    (hnodup : (a.map Prod.fst).Nodup)
    (h : ∀ key ∈ a.map Prod.fst, ∃ usual, a.valueOr key usual = b.valueOr key usual) : a = b := by
  induction a generalizing b with
  | nil => exact (List.map_eq_nil_iff.mp hkeys.symm).symm
  | cons m a ih =>
      obtain _ | ⟨n, b⟩ := b
      · nomatch hkeys
      rw [List.map_cons, List.map_cons, List.cons.injEq] at hkeys
      rw [List.map_cons, List.nodup_cons] at hnodup
      simp only [List.map_cons, List.forall_mem_cons, Members.valueOr, Json.member?_cons] at h
      obtain ⟨⟨_, hvalue⟩, hrest⟩ := h
      rw [if_pos trivial, if_pos hkeys.1.symm, Option.getD_some, Option.getD_some] at hvalue
      have htail : a = b := by
        refine ih hkeys.2 hnodup.2 fun key hkey => ?_
        have hne : m.1 ≠ key := fun he => hnodup.1 (he ▸ hkey)
        obtain ⟨usual, hvalue⟩ := hrest key hkey
        rw [if_neg hne, if_neg (hkeys.1 ▸ hne)] at hvalue
        exact ⟨usual, hvalue⟩
      rw [Prod.ext hkeys.1 hvalue, htail]

namespace Section

variable {x : Section} {a b data members : Members}

def fields : Section → List String
  | grammar => GrammarSettings.fields
  | extraction => ExtractionSettings.fields
  | packing => PackingSettings.fields
  | shared => SharedSettings.fields

/-- What is built depends only on what is looked up for the fields. -/
theorem build_congr (ha : ∀ m ∈ a, m.1 ∈ x.fields) (hb : ∀ m ∈ b, m.1 ∈ x.fields)
    (h : ∀ field ∈ x.fields, Json.member? field a = Json.member? field b) :
    x.build a = x.build b := by
  have hcheck : a.checkFields x x.fields = b.checkFields x x.fields :=
    (Members.checkFields_eq_ok.mpr ha).trans (Members.checkFields_eq_ok.mpr hb).symm
  have hvalue : ∀ field ∈ x.fields, ∀ usual, a.valueOr field usual = b.valueOr field usual := by
    intro field hfield usual
    rw [Members.valueOr, h field hfield, Members.valueOr]
  cases x with
  | grammar =>
      simp only [fields] at hcheck hvalue
      simp only [GrammarSettings.fields, List.forall_mem_cons] at hvalue
      obtain ⟨hstrict, htrailing, -⟩ := hvalue
      simp only [build, GrammarSettings.ofMembers, Members.flag, hcheck, hstrict, htrailing]
  | extraction =>
      simp only [fields] at hcheck hvalue
      simp only [ExtractionSettings.fields, List.forall_mem_cons] at hvalue
      obtain ⟨hposition, hnormal, hcoordinates, hrequire, hidentity, -⟩ := hvalue
      simp only [build, ExtractionSettings.ofMembers, Members.key, hcheck, hposition, hnormal,
        hcoordinates, hrequire, hidentity]
  | packing =>
      simp only [fields] at hcheck hvalue
      simp only [PackingSettings.fields, List.forall_mem_cons] at hvalue
      obtain ⟨hdeduplicate, hpack, -⟩ := hvalue
      simp only [build, PackingSettings.ofMembers, hcheck, hdeduplicate, hpack]
  | shared =>
      simp only [fields] at hcheck hvalue
      simp only [SharedSettings.fields, List.forall_mem_cons] at hvalue
      obtain ⟨hlevel, htrack, hlimit, -⟩ := hvalue
      simp only [build, SharedSettings.ofMembers, Members.level, Members.limit, hcheck,
        hlevel, htrack, hlimit]

theorem fields_nodup (x : Section) : x.fields.Nodup := by
  cases x <;> decide

theorem build_valueOr {given : Members} (h : x.build given = .ok members) :
    members.map Prod.fst = x.fields ∧
      ∀ field ∈ x.fields, ∃ usual, given.valueOr field usual = members.valueOr field usual := by
  cases x with
  | grammar =>
      obtain ⟨s, hs, rfl⟩ := ok_of_map h
      obtain ⟨-, hstrict, htrailing⟩ := GrammarSettings.ofMembers_eq_ok.mp hs
      simp only [fields, GrammarSettings.fields, List.forall_mem_cons]
      exact ⟨rfl, ⟨_, hstrict⟩, ⟨_, htrailing⟩, List.forall_mem_nil _⟩
  | extraction =>
      obtain ⟨s, hs, rfl⟩ := ok_of_map h
      obtain ⟨-, hposition, hnormal, hcoordinates, hrequire, hidentity, -⟩ :=
        ExtractionSettings.ofMembers_eq_ok.mp hs
      simp only [fields, ExtractionSettings.fields, List.forall_mem_cons]
      exact ⟨rfl, ⟨_, hposition⟩, ⟨_, hnormal⟩, ⟨_, hcoordinates⟩, ⟨_, hrequire⟩, ⟨_, hidentity⟩,
        List.forall_mem_nil _⟩
  | packing =>
      obtain ⟨s, hs, rfl⟩ := ok_of_map h
      obtain ⟨-, hdeduplicate, hpack, -⟩ := PackingSettings.ofMembers_eq_ok.mp hs
      simp only [fields, PackingSettings.fields, List.forall_mem_cons]
      exact ⟨rfl, ⟨_, hdeduplicate⟩, ⟨_, hpack⟩, List.forall_mem_nil _⟩
  | shared =>
      obtain ⟨s, hs, rfl⟩ := ok_of_map h
      obtain ⟨-, hlevel, htrack, hlimit, -⟩ := SharedSettings.ofMembers_eq_ok.mp hs
      simp only [fields, SharedSettings.fields, List.forall_mem_cons]
      exact ⟨rfl, ⟨_, hlevel⟩, ⟨_, htrack⟩, ⟨_, hlimit⟩, List.forall_mem_nil _⟩

theorem build_full (hdata : data.map Prod.fst = x.fields) (h : x.build data = .ok members) :
    members = data := by
  obtain ⟨hkeys, hvalues⟩ := build_valueOr h
  refine Members.ext_valueOr (hkeys.trans hdata.symm) (hkeys ▸ x.fields_nodup) fun field hfield => ?_
  obtain ⟨usual, hvalue⟩ := hvalues field (hkeys ▸ hfield)
  exact ⟨usual, hvalue.symm⟩

end Section

theorem Settings.keys_sectionData (s : Settings) (x : Section) :
    (s.sectionData x).map Prod.fst = x.fields := by
  cases x <;> rfl

end MeshMarkup
