import MeshMarkup.Proofs.Document.Rendering

namespace MeshMarkup

open Text

theorem append_cons_inj {c : Char} {v w u u' : List Char} (hv : c ∉ v) (hw : c ∉ w)
    (h : v ++ c :: u = w ++ c :: u') : v = w ∧ u = u' := by
  induction v generalizing w with
  | nil =>
      cases w with
      | nil => exact ⟨rfl, (List.cons.inj h).2⟩
      | cons d w => exact absurd ((List.cons.inj h).1 ▸ List.mem_cons_self) hw
  | cons e v ih =>
      cases w with
      | nil => exact absurd ((List.cons.inj h).1 ▸ List.mem_cons_self) hv
      | cons d w =>
          obtain ⟨rfl, ht⟩ := List.cons.inj h
          obtain ⟨rfl, rfl⟩ := ih (List.not_mem_of_not_mem_cons hv)
            (List.not_mem_of_not_mem_cons hw) ht
          exact ⟨rfl, rfl⟩

theorem IntegerLiteral.not_mem_text {l : IntegerLiteral} (h : l.WellFormed) {c : Char}
    (hd : c.isDigit = false) (hm : c ≠ '-') : c ∉ l.text := by
  intro hc
  have hdigits : c ∉ l.digits := fun hmem => ne_of_isDigit (h.digits c hmem) hd rfl
  rw [text, Numeral.withSign] at hc
  split at hc
  · obtain rfl | hc := List.mem_cons.mp hc
    · exact hm rfl
    · exact hdigits hc
  · exact hdigits hc

namespace Grammar

open MeshMarkup.Parser

instance : attributeName.Local := inferInstanceAs (upToAny _).Local

instance : integerAttribute.Local := inferInstanceAs (Parser.map _ _).Local

instance : textAttribute.Local := inferInstanceAs (Parser.map _ _).Local

instance : anyAttribute.Local := inferInstanceAs (Parser.filter _ _).Local

instance : attributes.Local := inferInstanceAs (Parser.optional _ _).Local

def nameStops : List Char := ['=', '/', '<', '>']

theorem scans_attributeName : Scans nameStops attributeName := scans_upToAny rfl

section Attribute

variable {name : String} (hn : ∀ c ∈ name.toList, c ∉ nameStops)
include hn

theorem reading_attributeName (rest : List Char) :
    (attributeName.andThen (token "=\"")).reading (name.toList ++ '=' :: '"' :: rest) =
      .matched rest (name, "=\"") := by
  refine andThen_matched.mpr ⟨'=' :: '"' :: rest, ?_, reading_token "=\"" rest⟩
  rw [reading_scan scans_attributeName hn (by decide), String.ofList_toList]

theorem reading_integerAttribute {l : IntegerLiteral} (hl : l.WellFormed) (rest : List Char) :
    integerAttribute.reading (name.toList ++ '=' :: '"' :: (l.text ++ '"' :: rest)) =
      .matched rest ⟨name, .integer l.value⟩ := by
  refine map_matched.mpr ⟨(((name, "=\""), l.value), "\""), ?_, rfl⟩
  refine andThen_matched.mpr ⟨'"' :: rest, ?_, reading_token "\"" rest⟩
  exact andThen_matched.mpr ⟨_, reading_attributeName hn _,
    reading_integer hl (noDigit_cons.mpr (by decide))⟩

theorem reading_textAttribute {content : String} (hc : '"' ∉ content.toList) (rest : List Char) :
    textAttribute.reading (name.toList ++ '=' :: '"' :: (content.toList ++ '"' :: rest)) =
      .matched rest ⟨name, .text content⟩ := by
  refine map_matched.mpr ⟨(((name, "=\""), content), "\""), ?_, rfl⟩
  refine andThen_matched.mpr ⟨'"' :: rest, ?_, reading_token "\"" rest⟩
  refine andThen_matched.mpr ⟨_, reading_attributeName hn _, ?_⟩
  rw [reading_upTo rfl hc, String.ofList_toList]

/-- A text that is no integer is not read as one, although an integer may stand at its front. -/
theorem integerAttribute_noMatch {content : String} (hc : AttributeValue.Shaped (.text content))
    (rest : List Char) :
    integerAttribute.reading (name.toList ++ '=' :: '"' :: (content.toList ++ '"' :: rest)) =
      .noMatch := by
  rw [integerAttribute, reading_map, reading_andThen, reading_andThen, reading_attributeName hn,
    Reading.bind_matched]
  cases hi : integer.reading (content.toList ++ '"' :: rest) with
  | fault cause => exact absurd hi integer_ne_fault
  | noMatch => rfl
  | matched u n =>
      obtain ⟨l, hl, -, htext⟩ := integer_matched hi
      have htoken : (token "\"").reading u = .noMatch := token_noMatch.mpr fun ⟨v, hv⟩ => by
        subst hv
        have hquote := IntegerLiteral.not_mem_text hl (c := '"') (by decide) (by decide)
        exact hc.2 l hl (append_cons_inj hc.1 hquote htext).1.symm
      rw [Reading.map_matched, Reading.bind_matched, htoken]
      rfl

end Attribute

theorem reading_anyAttribute {a : Attribute} {s : List Char} (h : AttributeText a s)
    (ha : a.Shaped) (rest : List Char) : anyAttribute.reading (s ++ rest) = .matched rest a := by
  refine filter_matched.mpr ⟨?_, ?_⟩
  · cases h with
    | @text name content =>
        have hi := integerAttribute_noMatch ha.name ha.value rest
        have ht := reading_textAttribute ha.name ha.value.1 rest
        simp only [List.append_assoc, List.cons_append, List.nil_append]
        exact orElse_matched.mpr (Or.inr ⟨hi, ht⟩)
    | @integer name l hl =>
        have hi := reading_integerAttribute ha.name hl rest
        simp only [List.append_assoc, List.cons_append, List.nil_append]
        exact orElse_matched.mpr (Or.inl hi)
  · rw [validAttributeName, List.all_eq_true]
    intro c hc
    have := ha.name c hc
    simp_all

theorem attributeName_matched {text rest : List Char} {name e : String}
    (h : (attributeName.andThen (token "=\"")).reading text = .matched rest (name, e)) :
    text = name.toList ++ '=' :: '"' :: rest ∧ ∀ c ∈ name.toList, c ∉ nameStops := by
  obtain ⟨mid, hname, htoken⟩ := andThen_matched.mp h
  obtain ⟨rfl, -⟩ := token_matched.mp htoken
  obtain ⟨habs, hmid, -⟩ | ⟨c, u, hcu, hc, htext, hw⟩ := scan_matched scans_attributeName hname
  · subst hmid
    exact absurd (by decide : '=' ∈ nameStops) (habs '=' List.mem_cons_self)
  · rw [← hcu] at htext
    exact ⟨htext, hw⟩

theorem integerAttribute_matched {text rest : List Char} {a : Attribute}
    (h : integerAttribute.reading text = .matched rest a) :
    ∃ s, text = s ++ rest ∧ AttributeText a s ∧ (∀ c ∈ a.name.toList, c ∉ nameStops) ∧
      a.value.Shaped := by
  obtain ⟨⟨⟨⟨name, e⟩, n⟩, q⟩, hall, rfl⟩ := map_matched.mp h
  obtain ⟨u, hvalue, hquote⟩ := andThen_matched.mp hall
  obtain ⟨v, hname, hint⟩ := andThen_matched.mp hvalue
  obtain ⟨rfl, hw⟩ := attributeName_matched hname
  obtain ⟨l, hl, rfl, rfl⟩ := integer_matched hint
  obtain ⟨rfl, -⟩ := token_matched.mp hquote
  exact ⟨_, by simp, .integer hl, hw, trivial⟩

theorem textAttribute_matched {text rest : List Char} {a : Attribute}
    (h : textAttribute.reading text = .matched rest a)
    (hn : integerAttribute.reading text = .noMatch) :
    ∃ s, text = s ++ rest ∧ AttributeText a s ∧ (∀ c ∈ a.name.toList, c ∉ nameStops) ∧
      a.value.Shaped := by
  obtain ⟨⟨⟨⟨name, e⟩, content⟩, q⟩, hall, rfl⟩ := map_matched.mp h
  obtain ⟨u, hvalue, hquote⟩ := andThen_matched.mp hall
  obtain ⟨v, hname, hscan⟩ := andThen_matched.mp hvalue
  obtain ⟨rfl, hw⟩ := attributeName_matched hname
  obtain ⟨rfl, -⟩ := token_matched.mp hquote
  obtain ⟨habs, hu, -⟩ | ⟨u, hu, rfl, hcontent⟩ := upTo_matched rfl hscan
  · exact absurd (hu ▸ List.mem_cons_self) habs
  · rw [← hu] at hn ⊢
    refine ⟨_, by simp, .text, hw, hcontent, fun l hl hl' => ?_⟩
    rw [← hl'] at hn
    exact absurd (hn.symm.trans (reading_integerAttribute hw hl rest)) (by simp)

theorem anyAttribute_matched {text rest : List Char} {a : Attribute} (hs : Solid text)
    (h : anyAttribute.reading text = .matched rest a) :
    ∃ s, text = s ++ rest ∧ s ≠ [] ∧ AttributeText a s ∧ a.Shaped := by
  have hparts : ∃ s, text = s ++ rest ∧ AttributeText a s ∧
      (∀ c ∈ a.name.toList, c ∉ nameStops) ∧ a.value.Shaped := by
    obtain hi | ⟨hn, ht⟩ := orElse_matched.mp (filter_matched.mp h).1
    · exact integerAttribute_matched hi
    · exact textAttribute_matched ht hn
  obtain ⟨s, rfl, ha, hname, hvalue⟩ := hparts
  have hfront : ∃ u, s = a.name.toList ++ '=' :: u := by
    cases ha <;> exact ⟨_, rfl⟩
  obtain ⟨u, hu⟩ := hfront
  refine ⟨s, rfl, by simp [hu], ha, hname, ?_, hvalue⟩
  rw [hu, List.append_assoc] at hs
  exact hs.of_append

theorem anyAttribute_noMatch {c : Char} (hc : c ∈ ['/', '<', '>']) (u : List Char) :
    anyAttribute.reading (c :: u) = .noMatch := by
  have hstop : c ∈ nameStops := List.mem_cons_of_mem _ hc
  have hne : c ≠ '=' := by
    rintro rfl
    exact absurd hc (by decide)
  have hname : (attributeName.andThen (token "=\"")).reading (c :: u) = .noMatch := by
    rw [reading_andThen, ← List.nil_append (c :: u),
      reading_scan scans_attributeName (by simp) hstop, Reading.bind_matched,
      token_noMatch_of_ne rfl hne]
    rfl
  rw [anyAttribute, reading_filter, reading_orElse, integerAttribute, textAttribute,
    reading_map, reading_map, reading_andThen, reading_andThen (attributeName.andThen _),
    reading_andThen _ (token "\""), reading_andThen (attributeName.andThen _), hname]
  rfl

theorem attributeText_solid {a : Attribute} {s : List Char} (h : AttributeText a s)
    (ha : a.Shaped) : s ≠ [] ∧ Solid s := by
  have hfront : ∃ u, s = a.name.toList ++ '=' :: u := by
    cases h <;> exact ⟨_, rfl⟩
  obtain ⟨u, rfl⟩ := hfront
  refine ⟨by simp, ?_⟩
  cases hl : a.name.toList with
  | nil => exact solid_cons.mpr (by decide)
  | cons c cs => exact (hl ▸ ha.start).append (by simp)

theorem solid_of_mem {c : Char} (hc : c ∈ ['/', '<', '>']) (u : List Char) : Solid (c :: u) := by
  refine solid_cons.mpr ?_
  simp only [List.mem_cons, List.not_mem_nil, or_false] at hc
  obtain rfl | rfl | rfl := hc <;> decide

theorem reading_attributes {as : List Attribute} {s : List Char}
    (h : Spaced AttributeText BlankGap as s) (ha : ∀ a ∈ as, a.Shaped) {c : Char}
    (hc : c ∈ ['/', '<', '>']) (rest : List Char) :
    attributes.reading (s ++ c :: rest) = .matched (c :: rest) as := by
  refine optional_matched.mpr (Or.inl ?_)
  exact reading_delimited delimits_blanks (fun _ => True) (fun _ _ => trivial) trivial
    (solid_of_mem hc rest) (anyAttribute_noMatch hc rest) h
    (fun a hm _ _ hs _ => reading_anyAttribute hs (ha a hm) _)
    fun a hm _ hs => attributeText_solid hs (ha a hm)

theorem reading_attributes_absent {c : Char} (hc : c ∈ ['/', '<', '>']) (rest : List Char) :
    attributes.reading (c :: rest) = .matched (c :: rest) [] :=
  optional_matched.mpr (Or.inr ⟨delimited_noMatch.mpr (anyAttribute_noMatch hc rest), rfl, rfl⟩)

theorem attributes_matched {text rest : List Char} {as : List Attribute} (hs : Solid text)
    (h : attributes.reading text = .matched rest as) : as = [] ∧ text = rest ∨
      ∃ s, text = s ++ rest ∧ Spaced AttributeText BlankGap as s ∧ ∀ a ∈ as, a.Shaped := by
  obtain hd | ⟨-, ht, ha⟩ := optional_matched.mp h
  · obtain ⟨s, ht, -, hrow, -⟩ := spaced_of_delimited delimits_blanks
      (R := fun a s => AttributeText a s ∧ a.Shaped) anyAttribute_matched hs hd
    exact Or.inr ⟨s, ht, hrow.imp fun _ _ _ h => h.1, hrow.forall fun _ _ h => h.2⟩
  · exact Or.inl ⟨ha.symm, ht⟩

instance : optionalBlanks.Local := inferInstanceAs (Parser.optional _ _).Local

instance (name : Parser String) [name.Local] : (opening name).Local :=
  inferInstanceAs (Parser.andThen _ _).Local

theorem validElementName_iff {name : String} : validElementName name = true ↔ '/' ∉ name.toList := by
  rw [validElementName, List.all_eq_true]
  constructor
  · intro h hm
    simpa using h '/' hm
  · intro h c hc
    have hne : c ≠ '/' := fun he => h (he ▸ hc)
    simpa using hne

section Opening

variable {p : Parser String} [p.Local] {cs : List Char} (hp : Scans cs p)
include hp

/-- A name and attributes are read up to the end of the tag, when the name ends where it should:
at the space before the attributes, or at the end of the tag. -/
theorem reading_opening (hspace : ' ' ∈ cs) {name : String} (hn : ∀ c ∈ name.toList, c ∉ cs)
    (hslash : '/' ∉ name.toList) {as : List Attribute} {s : List Char} (h : AttributeRun as s)
    (ha : ∀ a ∈ as, a.Shaped) {c : Char} (hc : c ∈ ['/', '<', '>']) (hstop : s = [] → c ∈ cs)
    (rest : List Char) :
    (opening (p.filter validElementName)).reading (name.toList ++ (s ++ c :: rest)) =
      .matched (c :: rest) (name, (), as) := by
  have hsolid := solid_of_mem hc rest
  have hname {d : Char} (hd : d ∈ cs) (u : List Char) :
      (p.filter validElementName).reading (name.toList ++ d :: u) = .matched (d :: u) name := by
    refine filter_matched.mpr ⟨?_, validElementName_iff.mpr hslash⟩
    rw [reading_scan hp hn hd, String.ofList_toList]
  cases h with
  | none =>
      exact andThen_matched.mpr ⟨_, hname (hstop rfl) rest, andThen_matched.mpr
        ⟨_, reading_optional_blanks blank_nil hsolid, reading_attributes_absent hc rest⟩⟩
  | @blank w hw =>
      have hblank : Blank (' ' :: w) := blank_cons.mpr ⟨by decide, hw⟩
      exact andThen_matched.mpr ⟨_, hname hspace (w ++ c :: rest), andThen_matched.mpr
        ⟨_, reading_optional_blanks hblank hsolid, reading_attributes_absent hc rest⟩⟩
  | @some w as s hw hs =>
      have hblank : Blank (' ' :: w) := blank_cons.mpr ⟨by decide, hw⟩
      have hrow := hs.solid (fun a hm _ hR => attributeText_solid hR (ha a hm)) (c :: rest)
      rw [List.cons_append, List.append_assoc]
      exact andThen_matched.mpr ⟨_, hname hspace (w ++ (s ++ c :: rest)), andThen_matched.mpr
        ⟨_, reading_optional_blanks hblank hrow, reading_attributes hs ha hc rest⟩⟩

end Opening

theorem attributes_matched_end {c : Char} (hc : c ∈ ['/', '<', '>'])
    {u after rest : List Char} {v : Unit} {as : List Attribute}
    (hblanks : optionalBlanks.reading (c :: u) = .matched after v)
    (hattrs : attributes.reading after = .matched rest as) : rest = c :: u ∧ as = [] := by
  have hnone := reading_optional_blanks blank_nil (solid_of_mem hc u)
  rw [List.nil_append] at hnone
  obtain ⟨rfl, -⟩ := Reading.matched.inj (hnone.symm.trans hblanks)
  obtain ⟨rfl, rfl⟩ := Reading.matched.inj ((reading_attributes_absent hc u).symm.trans hattrs)
  exact ⟨rfl, rfl⟩

theorem attributes_matched_space {u after rest : List Char} {v : Unit} {as : List Attribute}
    (hblanks : optionalBlanks.reading (' ' :: u) = .matched after v)
    (hattrs : attributes.reading after = .matched rest as) :
    ∃ s, ' ' :: u = s ++ rest ∧ AttributeRun as s ∧ ∀ a ∈ as, a.Shaped := by
  obtain ⟨w, hu, hblank, hsolid⟩ := optional_blanks_matched hblanks
  cases w with
  | nil =>
      rw [List.nil_append] at hu
      exact absurd (solid_cons.mp (hu ▸ hsolid)) (by decide)
  | cons e w =>
      obtain ⟨rfl, rfl⟩ := List.cons.inj hu
      have hw := (blank_cons.mp hblank).2
      obtain ⟨rfl, rfl⟩ | ⟨s, rfl, hrow, ha⟩ := attributes_matched hsolid hattrs
      · exact ⟨' ' :: w, rfl, .blank hw, by simp⟩
      · exact ⟨' ' :: (w ++ s), by simp, .some hw hrow, ha⟩

theorem opening_matched {p : Parser String} [p.Local] {c : Char}
    (hp : Scans [c, ' '] p) (hc : c ∈ ['/', '<', '>'])
    {text rest : List Char} {name : String} {v : Unit} {as : List Attribute}
    (h : (opening (p.filter validElementName)).reading text = .matched (c :: rest) (name, v, as)) :
    ∃ s, text = name.toList ++ (s ++ c :: rest) ∧ (∀ d ∈ name.toList, d ∉ [c, ' ']) ∧
      '/' ∉ name.toList ∧ AttributeRun as s ∧ ∀ a ∈ as, a.Shaped := by
  obtain ⟨mid, hname, hrest⟩ := andThen_matched.mp h
  obtain ⟨hscan, hvalid⟩ := filter_matched.mp hname
  have hslash := validElementName_iff.mp hvalid
  obtain ⟨after, hblanks, hattrs⟩ := andThen_matched.mp hrest
  obtain ⟨habs, rfl, rfl⟩ | ⟨d, u, rfl, hd, rfl, hw⟩ := scan_matched hp hscan
  · have hmem : c ∈ mid := ((suffix_of_reading hattrs).trans (suffix_of_reading hblanks)).subset
      List.mem_cons_self
    exact absurd List.mem_cons_self (habs c hmem)
  obtain rfl | hd := List.mem_cons.mp hd
  · obtain ⟨hu, rfl⟩ := attributes_matched_end hc hblanks hattrs
    exact ⟨[], by rw [hu]; rfl, hw, hslash, .none, by simp⟩
  · obtain rfl := List.mem_singleton.mp hd
    obtain ⟨s, hs, hrun, ha⟩ := attributes_matched_space hblanks hattrs
    exact ⟨s, by rw [hs], hw, hslash, hrun, ha⟩

end Grammar

end MeshMarkup
