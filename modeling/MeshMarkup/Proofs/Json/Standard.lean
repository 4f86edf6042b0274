import MeshMarkup.Proofs.Json.Scalar

namespace MeshMarkup.Json

def IsHexDigit (c : Char) : Prop := c.isDigit = true ∨ 'a' ≤ c ∧ c ≤ 'f' ∨ 'A' ≤ c ∧ c ≤ 'F'

/-- A quoted text without its opening quote, and what follows it. -/
inductive Quoted : List Char → List Char → Prop
  | close {after : List Char} : Quoted ('"' :: after) after
  | plain {c : Char} {text after : List Char} (hcontrol : 0x20 ≤ c.toNat) (hquote : c ≠ '"')
      (hescape : c ≠ '\\') (h : Quoted text after) : Quoted (c :: text) after
  | short {c : Char} {text after : List Char}
      (hc : c ∈ ['"', '\\', '/', 'b', 'f', 'n', 'r', 't']) (h : Quoted text after) :
      Quoted ('\\' :: c :: text) after
  | unit {ds text after : List Char} (hlength : ds.length = 4) (hds : ∀ c ∈ ds, IsHexDigit c)
      (h : Quoted text after) : Quoted ('\\' :: 'u' :: (ds ++ text)) after

/-- What stands in a data text: a value, a member of an object, and the values of an array or the
members of an object up to the closing mark. -/
inductive Phrase where
  | value
  | values
  | member
  | members

inductive Standard : Phrase → List Char → List Char → Prop
  | null {after : List Char} : Standard .value ("null".toList ++ after) after
  | true {after : List Char} : Standard .value ("true".toList ++ after) after
  | false {after : List Char} : Standard .value ("false".toList ++ after) after
  | number {t : NumberText} {s after : List Char} (hs : Spelled t s) :
      Standard .value (s ++ after) after
  | text {text after : List Char} (h : Quoted text after) : Standard .value ('"' :: text) after
  | noValues {gap after : List Char} (hgap : Spaces gap) :
      Standard .value ('[' :: (gap ++ ']' :: after)) after
  | array {gap text after : List Char} (hgap : Spaces gap) (h : Standard .values text after) :
      Standard .value ('[' :: (gap ++ text)) after
  | noMembers {gap after : List Char} (hgap : Spaces gap) :
      Standard .value ('{' :: (gap ++ '}' :: after)) after
  | object {gap text after : List Char} (hgap : Spaces gap) (h : Standard .members text after) :
      Standard .value ('{' :: (gap ++ text)) after
  | lastValue {text gap after : List Char} (hgap : Spaces gap)
      (h : Standard .value text (gap ++ ']' :: after)) : Standard .values text after
  | nextValue {text gap space rest after : List Char} (hgap : Spaces gap) (hspace : Spaces space)
      (h : Standard .value text (gap ++ ',' :: (space ++ rest)))
      (hrest : Standard .values rest after) : Standard .values text after
  | member {key gap space text after : List Char} (hgap : Spaces gap) (hspace : Spaces space)
      (hkey : Quoted key (gap ++ ':' :: (space ++ text))) (h : Standard .value text after) :
      Standard .member ('"' :: key) after
  | lastMember {text gap after : List Char} (hgap : Spaces gap)
      (h : Standard .member text (gap ++ '}' :: after)) : Standard .members text after
  | nextMember {text gap space rest after : List Char} (hgap : Spaces gap) (hspace : Spaces space)
      (h : Standard .member text (gap ++ ',' :: (space ++ rest)))
      (hrest : Standard .members rest after) : Standard .members text after

/-- A whole text in the standard grammar: one value, with white space around it. -/
def IsStandard (text : String) : Prop :=
  ∃ before body after, Spaces before ∧ Spaces after ∧ text.toList = before ++ body ∧
    Standard .value body after

def parts : Json → List Json
  | array items | tuple items => items
  | object members => members.map Prod.snd
  | _ => []

theorem sizeOf_part_lt {part v : Json} (h : part ∈ v.parts) : sizeOf part < sizeOf v := by
  cases v with
  | array items | tuple items =>
      have hlt : sizeOf part < sizeOf items := List.sizeOf_lt_of_mem h
      simp only [array.sizeOf_spec, tuple.sizeOf_spec]
      omega
  | object members =>
      obtain ⟨m, hm, rfl⟩ := List.mem_map.mp h
      have hlt := List.sizeOf_lt_of_mem hm
      obtain ⟨key, value⟩ := m
      simp only [Prod.mk.sizeOf_spec] at hlt
      simp only [object.sizeOf_spec]
      omega
  | null | bool | integer | number | text => nomatch h

theorem induction_parts {P : Json → Prop} (h : ∀ v, (∀ part ∈ v.parts, P part) → P v) (v : Json) :
    P v := by
  induction hn : sizeOf v using Nat.strongRecOn generalizing v with
  | ind n ih =>
      subst hn
      exact h v fun part hpart => ih _ (sizeOf_part_lt hpart) part rfl

inductive AllFinite : Json → Prop
  | mk {v : Json} (hnumber : ∀ x, v = .number x → x.isFinite = true)
      (hparts : ∀ part ∈ v.parts, AllFinite part) : AllFinite v

theorem AllFinite.part {part v : Json} (h : v.AllFinite) (hpart : part ∈ v.parts) :
    part.AllFinite := by
  cases h with
  | mk hnumber hparts => exact hparts part hpart

section AllFinite

variable {items : List Json} {members : List (String × Json)}

theorem allFinite_scalar {v : Json} (hnumber : ∀ x, v ≠ .number x) (hparts : v.parts = []) :
    v.AllFinite :=
  ⟨fun x hx => absurd hx (hnumber x), by simp [hparts]⟩

@[simp]
theorem allFinite_null : null.AllFinite := allFinite_scalar (by simp) rfl

@[simp]
theorem allFinite_bool (flag : Bool) : (bool flag).AllFinite := allFinite_scalar (by simp) rfl

@[simp]
theorem allFinite_integer (n : Int) : (integer n).AllFinite := allFinite_scalar (by simp) rfl

@[simp]
theorem allFinite_text (content : String) : (text content).AllFinite :=
  allFinite_scalar (by simp) rfl

@[simp]
theorem allFinite_number {x : Binary64} : (number x).AllFinite ↔ x.isFinite = true := by
  constructor
  · rintro ⟨hnumber, -⟩
    exact hnumber x rfl
  · intro h
    refine ⟨?_, by simp [parts]⟩
    rintro _ ⟨⟩
    exact h

@[simp]
theorem allFinite_array : (array items).AllFinite ↔ ∀ item ∈ items, item.AllFinite := by
  constructor
  · rintro ⟨-, hparts⟩
    exact hparts
  · exact fun h => ⟨(fun x hx => nomatch hx), h⟩

@[simp]
theorem allFinite_tuple : (tuple items).AllFinite ↔ ∀ item ∈ items, item.AllFinite := by
  constructor
  · rintro ⟨-, hparts⟩
    exact hparts
  · exact fun h => ⟨(fun x hx => nomatch hx), h⟩

@[simp]
theorem allFinite_object : (object members).AllFinite ↔ ∀ m ∈ members, m.2.AllFinite := by
  constructor
  · rintro ⟨-, hparts⟩ m hm
    exact hparts m.2 (List.mem_map_of_mem hm)
  · intro h
    refine ⟨(fun x hx => nomatch hx), fun part hpart => ?_⟩
    obtain ⟨m, hm, rfl⟩ := List.mem_map.mp hpart
    exact h m hm

end AllFinite

section Written

variable {layout : Layout} {level : Nat} {after : List Char}

theorem isHexDigit_hexDigit : ∀ d < 16, IsHexDigit (Text.hexDigit d) := by
  unfold IsHexDigit
  decide

theorem isHexDigit_hexDigits (width n : Nat) : ∀ c ∈ Text.hexDigits width n, IsHexDigit c := by
  induction width generalizing n with
  | zero => exact fun c hc => nomatch hc
  | succ width ih =>
      intro c hc
      rcases List.mem_append.mp hc with h | h
      · exact ih _ c h
      · rw [List.mem_singleton.mp h]
        exact isHexDigit_hexDigit _ (Nat.mod_lt _ (by decide))

theorem quoted_escapeUnit (n : Nat) {text : List Char} (h : Quoted text after) :
    Quoted (escapeUnit n ++ text) after :=
  .unit (length_hexDigits 4 n) (isHexDigit_hexDigits 4 n) h

theorem quoted_escapeChar (c : Char) {text : List Char} (h : Quoted text after) :
    Quoted (escapeChar c ++ text) after := by
  rcases escapeChar_cases c with ⟨letter, hletter, he⟩ | ⟨hquote, hescape, hcontrol, he⟩ |
    ⟨-, he⟩ | ⟨-, he⟩ <;> rw [he]
  · refine .short ?_ h
    simp only [shortEscapes, List.mem_cons, Prod.mk.injEq, List.not_mem_nil, or_false] at hletter
    rcases hletter with ⟨rfl, -⟩ | ⟨rfl, -⟩ | ⟨rfl, -⟩ | ⟨rfl, -⟩ | ⟨rfl, -⟩ | ⟨rfl, -⟩ |
      ⟨rfl, -⟩ <;> decide
  · exact .plain hcontrol hquote hescape h
  · exact quoted_escapeUnit _ h
  · rw [List.append_assoc]
    exact quoted_escapeUnit _ (quoted_escapeUnit _ h)

theorem quoted_writeText (content : String) (after : List Char) :
    ∃ text, writeText content ++ after = '"' :: text ∧ Quoted text after := by
  refine ⟨content.toList.flatMap escapeChar ++ '"' :: after, by simp [writeText], ?_⟩
  induction content.toList with
  | nil => exact .close
  | cons c content ih =>
      rw [List.flatMap_cons, List.append_assoc]
      exact quoted_escapeChar c ih

/-- A written value is standard, whatever follows it. -/
def WritesStandard (layout : Layout) (v : Json) : Prop :=
  ∀ level after, Standard .value (write layout level v after) after

theorem standard_writeItems {item : Json} {items : List Json} {gap : List Char}
    (h : ∀ i ∈ item :: items, WritesStandard layout i) (hgap : Spaces gap) :
    Standard .values (write layout level item (writeItems layout level items (gap ++ ']' :: after)))
      after := by
  induction items generalizing item with
  | nil => exact .lastValue hgap (h item List.mem_cons_self level _)
  | cons next items ih =>
      obtain ⟨space, hsep, hspace⟩ := layout.itemSeparator_eq level
      have hitem := h item List.mem_cons_self level
        (writeItems layout level (next :: items) (gap ++ ']' :: after))
      rw [writeItems, hsep, List.cons_append] at hitem ⊢
      exact .nextValue spaces_nil hspace hitem (ih fun i hi => h i (List.mem_cons_of_mem item hi))

theorem standard_member (key : String) {v : Json} (h : WritesStandard layout v) (level : Nat)
    (after : List Char) :
    Standard .member (writeText key ++ ':' :: ' ' :: write layout level v after) after := by
  obtain ⟨text, he, hkey⟩ := quoted_writeText key (':' :: ' ' :: write layout level v after)
  rw [he]
  exact .member spaces_nil (spaces_singleton rfl) hkey (h level after)

theorem standard_writeMembers {key : String} {v : Json} {members : List (String × Json)}
    {gap : List Char} (h : ∀ m ∈ (key, v) :: members, WritesStandard layout m.2)
    (hgap : Spaces gap) :
    Standard .members (writeText key ++ ':' :: ' ' :: write layout level v
      (writeMembers layout level members (gap ++ '}' :: after))) after := by
  induction members generalizing key v with
  | nil => exact .lastMember hgap (standard_member key (h _ List.mem_cons_self) level _)
  | cons next members ih =>
      obtain ⟨nextKey, nextValue⟩ := next
      obtain ⟨space, hsep, hspace⟩ := layout.itemSeparator_eq level
      have hmember := standard_member key (h _ List.mem_cons_self) level
        (writeMembers layout level ((nextKey, nextValue) :: members) (gap ++ '}' :: after))
      rw [writeMembers, hsep, List.append_assoc, List.cons_append] at hmember ⊢
      exact .nextMember spaces_nil hspace hmember (ih fun m hm => h m (List.mem_cons_of_mem _ hm))

theorem standard_write {v : Json} (h : v.AllFinite) : WritesStandard layout v := by
  induction v using induction_parts with
  | h v ih =>
      have hparts : ∀ part ∈ v.parts, WritesStandard layout part :=
        fun part hpart => ih part hpart (h.part hpart)
      intro level after
      cases v with
      | null => exact .null
      | bool flag =>
          cases flag with
          | false => exact .false
          | true => exact .true
      | integer n =>
          obtain ⟨t, hs, -⟩ := exists_spelled_integer n
          exact .number hs
      | number x =>
          obtain ⟨t, hs, -⟩ := exists_spelled_number (allFinite_number.mp h)
          exact .number hs
      | text content =>
          obtain ⟨text, he, hquoted⟩ := quoted_writeText content after
          rw [write, he]
          exact .text hquoted
      | array items | tuple items =>
          cases items with
          | nil => exact .noValues spaces_nil
          | cons item items =>
              rw [write, List.cons_append]
              exact .array (layout.spaces_lineBreak _)
                (standard_writeItems hparts (layout.spaces_lineBreak _))
      | object members =>
          have hmembers : ∀ m ∈ members, WritesStandard layout m.2 :=
            fun m hm => hparts m.2 (List.mem_map_of_mem hm)
          cases members with
          | nil => exact .noMembers spaces_nil
          | cons m members =>
              obtain ⟨key, value⟩ := m
              rw [write, List.append_assoc, List.cons_append]
              exact .object (layout.spaces_lineBreak _)
                (standard_writeMembers hmembers (layout.spaces_lineBreak _))

end Written

/-- Where a scan stands: outside quoted texts, inside one, or after a backslash inside one. -/
inductive Place where
  | outside
  | inside
  | escaped

/-- A scan ends at a letter outside quoted texts that starts no value of the standard grammar. -/
def Place.next? : Place → Char → Option Place
  | outside, '"' => some inside
  | outside, 'N' | outside, 'I' => none
  | outside, _ => some outside
  | inside, '"' => some outside
  | inside, '\\' => some escaped
  | inside, _ => some inside
  | escaped, _ => some inside

def scan : Place → List Char → Option Place
  | place, [] => some place
  | place, c :: rest =>
    match place.next? c with
    | some next => scan next rest
    | none => none

def Bare (c : Char) : Prop := c ≠ '"' ∧ c ≠ 'N' ∧ c ≠ 'I'

section Scan

variable {text after : List Char}

theorem scan_bare {s : List Char} (h : ∀ c ∈ s, Bare c) (text : List Char) :
    scan .outside (s ++ text) = scan .outside text := by
  induction s with
  | nil => rfl
  | cons c s ih =>
      obtain ⟨hquote, hn, hi⟩ := h c List.mem_cons_self
      have hnext : Place.next? .outside c = some .outside := by simp [Place.next?]
      rw [List.cons_append, scan, hnext]
      exact ih fun d hd => h d (List.mem_cons_of_mem c hd)

theorem bare_of_isDigit {c : Char} (h : c.isDigit = true) : Bare c :=
  ⟨ne_of_isDigit h rfl, ne_of_isDigit h rfl, ne_of_isDigit h rfl⟩

theorem FractionText.bare {ds f : List Char} (h : FractionText ds f) : ∀ c ∈ f, Bare c := by
  cases h with
  | absent => exact fun c hc => nomatch hc
  | present hne hd =>
      rw [List.forall_mem_cons]
      exact ⟨by simp [Bare], fun c hc => bare_of_isDigit (hd c hc)⟩

theorem ExponentText.bare {negative : Bool} {ds e : List Char} (h : ExponentText negative ds e) :
    ∀ c ∈ e, Bare c := by
  cases h with
  | absent => exact fun c hc => nomatch hc
  | present hmark hsign hne hd =>
      rw [List.forall_mem_cons, List.forall_mem_append]
      refine ⟨by rcases hmark with rfl | rfl <;> simp [Bare], ?_,
        fun c hc => bare_of_isDigit (hd c hc)⟩
      simp only [List.mem_cons, Prod.mk.injEq, List.not_mem_nil, or_false] at hsign
      rcases hsign with ⟨-, rfl⟩ | ⟨-, rfl⟩ | ⟨-, rfl⟩ <;> simp [Bare]

theorem Spelled.bare {t : NumberText} {s : List Char} (h : Spelled t s) : ∀ c ∈ s, Bare c := by
  cases h with
  | @mk negative negativeExponent whole fraction exponent f e hw hf he =>
      have hbody : ∀ c ∈ whole ++ (f ++ e), Bare c := by
        rw [List.forall_mem_append, List.forall_mem_append]
        exact ⟨fun c hc => bare_of_isDigit (hw.digits c hc), hf.bare, he.bare⟩
      cases negative with
      | false => exact hbody
      | true => exact List.forall_mem_cons.mpr ⟨by simp [Bare], hbody⟩

theorem Spaces.bare {gap : List Char} (h : Spaces gap) : ∀ c ∈ gap, Bare c := by
  intro c hc
  have hspace := h c hc
  simp only [isSpace, Bool.or_eq_true, decide_eq_true_eq] at hspace
  rcases hspace with ((rfl | rfl) | rfl) | rfl <;> simp [Bare]

theorem IsHexDigit.next {c : Char} (h : IsHexDigit c) : Place.next? .inside c = some .inside := by
  have hquote : c ≠ '"' := by
    rintro rfl
    exact absurd h (by unfold IsHexDigit; decide)
  have hescape : c ≠ '\\' := by
    rintro rfl
    exact absurd h (by unfold IsHexDigit; decide)
  simp [Place.next?]

theorem Quoted.scan_eq (h : Quoted text after) : scan .inside text = scan .outside after := by
  induction h with
  | close => rfl
  | @plain c text after hcontrol hquote hescape h ih =>
      have hnext : Place.next? .inside c = some .inside := by simp [Place.next?]
      rw [scan, hnext]
      exact ih
  | short hc h ih => exact ih
  | @unit ds text after hlength hds h ih =>
      have hinside : scan .inside (ds ++ text) = scan .inside text := by
        clear hlength
        induction ds with
        | nil => rfl
        | cons c ds ihds =>
            rw [List.cons_append, scan, (hds c List.mem_cons_self).next]
            exact ihds fun d hd => hds d (List.mem_cons_of_mem c hd)
      exact hinside.trans ih

theorem Standard.scan_eq {phrase : Phrase} (h : Standard phrase text after) :
    scan .outside text = scan .outside after := by
  induction h with
  | null => rfl
  | true => rfl
  | false => rfl
  | number hs => exact scan_bare hs.bare _
  | text h => exact h.scan_eq
  | noValues hgap => exact scan_bare hgap.bare _
  | array hgap h ih => exact (scan_bare hgap.bare _).trans ih
  | noMembers hgap => exact scan_bare hgap.bare _
  | object hgap h ih => exact (scan_bare hgap.bare _).trans ih
  | lastValue hgap h ih => exact ih.trans (scan_bare hgap.bare _)
  | nextValue hgap hspace h hrest ih ihrest =>
      exact ih.trans ((scan_bare hgap.bare _).trans ((scan_bare hspace.bare _).trans ihrest))
  | member hgap hspace hkey h ih =>
      exact hkey.scan_eq.trans ((scan_bare hgap.bare _).trans ((scan_bare hspace.bare _).trans ih))
  | lastMember hgap h ih => exact ih.trans (scan_bare hgap.bare _)
  | nextMember hgap hspace h hrest ih ihrest =>
      exact ih.trans ((scan_bare hgap.bare _).trans ((scan_bare hspace.bare _).trans ihrest))

theorem NumberName.scan_eq {x : Binary64} {name : String} (h : NumberName x name)
    (after : List Char) : scan .outside (name.toList ++ after) = none := by
  cases h <;> rfl

/-- What a scan finds of a written value: that its numbers are finite. -/
def ScansFinite (layout : Layout) (v : Json) : Prop :=
  ∀ level after place, scan .outside (write layout level v after) = some place →
    v.AllFinite ∧ scan .outside after = some place

theorem scan_writeItems {layout : Layout} {level : Nat} {items : List Json} {place : Place}
    (h : ∀ i ∈ items, ScansFinite layout i)
    (hscan : scan .outside (writeItems layout level items after) = some place) :
    (∀ i ∈ items, i.AllFinite) ∧ scan .outside after = some place := by
  induction items with
  | nil => exact ⟨fun i hi => (nomatch hi), hscan⟩
  | cons item items ih =>
      obtain ⟨space, hsep, hspace⟩ := layout.itemSeparator_eq level
      rw [writeItems, hsep, List.cons_append] at hscan
      have hrest : scan .outside (space ++ _) = some place := hscan
      rw [scan_bare hspace.bare] at hrest
      obtain ⟨hitem, hrest⟩ := h item List.mem_cons_self _ _ _ hrest
      obtain ⟨hitems, hafter⟩ := ih (fun i hi => h i (List.mem_cons_of_mem item hi)) hrest
      exact ⟨List.forall_mem_cons.mpr ⟨hitem, hitems⟩, hafter⟩

theorem scan_writeText (content : String) (after : List Char) :
    scan .outside (writeText content ++ after) = scan .outside after := by
  obtain ⟨text, he, hquoted⟩ := quoted_writeText content after
  rw [he]
  exact hquoted.scan_eq

theorem scan_writeMembers {layout : Layout} {level : Nat} {members : List (String × Json)}
    {place : Place} (h : ∀ m ∈ members, ScansFinite layout m.2)
    (hscan : scan .outside (writeMembers layout level members after) = some place) :
    (∀ m ∈ members, m.2.AllFinite) ∧ scan .outside after = some place := by
  induction members with
  | nil => exact ⟨fun m hm => (nomatch hm), hscan⟩
  | cons m members ih =>
      obtain ⟨space, hsep, hspace⟩ := layout.itemSeparator_eq level
      rw [writeMembers, hsep, List.append_assoc, List.cons_append] at hscan
      have hrest : scan .outside (space ++ (writeText m.1 ++ _)) = some place := hscan
      rw [scan_bare hspace.bare, scan_writeText] at hrest
      have hvalue : scan .outside (write layout level m.2 _) = some place := hrest
      obtain ⟨hvalue, hrest⟩ := h m List.mem_cons_self _ _ _ hvalue
      obtain ⟨hmembers, hafter⟩ := ih (fun m' hm => h m' (List.mem_cons_of_mem m hm)) hrest
      exact ⟨List.forall_mem_cons.mpr ⟨hvalue, hmembers⟩, hafter⟩

theorem scansFinite (layout : Layout) (v : Json) : ScansFinite layout v := by
  induction v using induction_parts with
  | h v ih =>
      intro level after place hscan
      cases v with
      | null => exact ⟨allFinite_null, hscan⟩
      | bool flag =>
          cases flag <;> exact ⟨allFinite_bool _, hscan⟩
      | integer n =>
          obtain ⟨t, hs, -⟩ := exists_spelled_integer n
          rw [write, scan_bare hs.bare] at hscan
          exact ⟨allFinite_integer n, hscan⟩
      | number x =>
          cases hx : x.isFinite with
          | true =>
              obtain ⟨t, hs, -⟩ := exists_spelled_number hx
              rw [write, scan_bare hs.bare] at hscan
              exact ⟨allFinite_number.mpr hx, hscan⟩
          | false =>
              obtain ⟨name, hname, htext⟩ := exists_numberName hx
              rw [write, htext, hname.scan_eq] at hscan
              nomatch hscan
      | text content =>
          rw [write, scan_writeText] at hscan
          exact ⟨allFinite_text content, hscan⟩
      | array items | tuple items =>
          cases items with
          | nil => exact ⟨by simp, hscan⟩
          | cons item items =>
              rw [write, List.cons_append] at hscan
              have hopen : scan .outside (layout.lineBreak (level + 1) ++ _) = some place := hscan
              rw [scan_bare (layout.spaces_lineBreak _).bare] at hopen
              obtain ⟨hitem, hrest⟩ := ih item List.mem_cons_self _ _ _ hopen
              obtain ⟨hitems, hclose⟩ :=
                scan_writeItems (fun i hi => ih i (List.mem_cons_of_mem item hi)) hrest
              rw [scan_bare (layout.spaces_lineBreak _).bare] at hclose
              exact ⟨by simpa [hitem] using hitems, hclose⟩
      | object members =>
          cases members with
          | nil => exact ⟨by simp, hscan⟩
          | cons m members =>
              have hparts : ∀ m' ∈ m :: members, ScansFinite layout m'.2 :=
                fun m' hm => ih m'.2 (List.mem_map_of_mem hm)
              rw [write, List.append_assoc, List.cons_append] at hscan
              have hopen : scan .outside (layout.lineBreak (level + 1) ++ (writeText m.1 ++ _)) =
                some place := hscan
              rw [scan_bare (layout.spaces_lineBreak _).bare, scan_writeText] at hopen
              have hvalue : scan .outside (write layout (level + 1) m.2 _) = some place := hopen
              obtain ⟨hvalue, hrest⟩ := hparts m List.mem_cons_self _ _ _ hvalue
              obtain ⟨hmembers, hclose⟩ :=
                scan_writeMembers (fun m' hm => hparts m' (List.mem_cons_of_mem m hm)) hrest
              rw [scan_bare (layout.spaces_lineBreak _).bare] at hclose
              refine ⟨?_, hclose⟩
              rw [allFinite_object, List.forall_mem_cons]
              exact ⟨hvalue, hmembers⟩

end Scan

def Extends (layout : Layout) (v : Json) : Prop :=
  ∀ level after more, write layout level v (after ++ more) = write layout level v after ++ more

theorem writeItems_append {layout : Layout} {items : List Json}
    (h : ∀ i ∈ items, Extends layout i) (level : Nat) (after more : List Char) :
    writeItems layout level items (after ++ more) =
      writeItems layout level items after ++ more := by
  induction items with
  | nil => rfl
  | cons item items ih =>
      rw [writeItems, ih fun i hi => h i (List.mem_cons_of_mem item hi),
        h item List.mem_cons_self, ← List.append_assoc, writeItems]

theorem writeMembers_append {layout : Layout} {members : List (String × Json)}
    (h : ∀ m ∈ members, Extends layout m.2) (level : Nat) (after more : List Char) :
    writeMembers layout level members (after ++ more) =
      writeMembers layout level members after ++ more := by
  induction members with
  | nil => rfl
  | cons m members ih =>
      rw [writeMembers, ih fun m' hm => h m' (List.mem_cons_of_mem m hm),
        h m List.mem_cons_self, writeMembers, List.append_assoc _ _ more]
      rfl

theorem extends_write (layout : Layout) (v : Json) : Extends layout v := by
  induction v using induction_parts with
  | h v ih =>
      intro level after more
      cases v with
      | null => rfl
      | bool flag => cases flag <;> rfl
      | integer n => exact (List.append_assoc ..).symm
      | number x => exact (List.append_assoc ..).symm
      | text content => exact (List.append_assoc ..).symm
      | array items | tuple items =>
          cases items with
          | nil => rfl
          | cons item items =>
              have hitems := writeItems_append fun i hi => ih i (List.mem_cons_of_mem item hi)
              have hclose : layout.lineBreak level ++ ']' :: (after ++ more) =
                  layout.lineBreak level ++ ']' :: after ++ more := by simp
              rw [write, write, hclose, hitems, ih item List.mem_cons_self]
              exact (List.append_assoc ..).symm
      | object members =>
          have hparts : ∀ m ∈ members, Extends layout m.2 :=
            fun m hm => ih m.2 (List.mem_map_of_mem hm)
          cases members with
          | nil => rfl
          | cons m members =>
              have hmembers :=
                writeMembers_append fun m' hm => hparts m' (List.mem_cons_of_mem m hm)
              have hclose : layout.lineBreak level ++ '}' :: (after ++ more) =
                  layout.lineBreak level ++ '}' :: after ++ more := by simp
              rw [write, write, hclose, hmembers, hparts m List.mem_cons_self]
              exact (List.append_assoc _ (_ :: _ :: _) more).symm

theorem toList_render_append (v : Json) (layout : Layout) (gap : String) :
    (v.render layout ++ gap).toList = write layout 0 v gap.toList := by
  rw [String.toList_append, render, String.toList_ofList, ← extends_write, List.nil_append]

/-- The text of a value, with white space after it, is standard just when all numbers in the value
are finite. -/
theorem isStandard_render_append {v : Json} {layout : Layout} {gap : String}
    (hgap : Spaces gap.toList) : IsStandard (v.render layout ++ gap) ↔ v.AllFinite := by
  rw [IsStandard, toList_render_append]
  constructor
  · rintro ⟨before, body, after, hbefore, hafter, he, hbody⟩
    have hscan : scan .outside (write layout 0 v gap.toList) = some .outside := by
      rw [he, scan_bare hbefore.bare, hbody.scan_eq, ← List.append_nil after,
        scan_bare hafter.bare]
      rfl
    exact (scansFinite layout v 0 gap.toList .outside hscan).1
  · intro h
    exact ⟨[], _, gap.toList, spaces_nil, hgap, rfl, standard_write h 0 gap.toList⟩

end MeshMarkup.Json
