import MeshMarkup.Proofs.Document.Productions

namespace MeshMarkup.Grammar

open Text MeshMarkup.Parser

variable {strict : Bool} {element : Parser Node} [element.Local]

theorem scans_openTagName : Scans ['>', ' '] (upToAny [">", " "]) := scans_upToAny rfl

theorem scans_closedTagName : Scans ['/', ' '] (upToAny ["/", " "]) := scans_upToAny rfl

inductive TagMatch (strict : Bool) (element : Parser Node) : List Char → List Char → Node → Prop
  | mk {front body mid after rest name as cs} {closing : String}
      (hopening : (opening openTagName).reading front = .matched ('>' :: body) (name, (), as))
      (hblanks : optionalBlanks.reading body = .matched mid ())
      (hcontent : (content element).reading mid = .matched after cs)
      (hend : optionalBlanks.reading after =
        .matched ('<' :: '/' :: (closing.toList ++ '>' :: rest)) ())
      (hk : '>' ∉ closing.toList) (hstrict : strict = true → closing = name) :
      TagMatch strict element ('<' :: front) rest (.element name as cs)

theorem elementParts_matched {text rest : List Char} {parts : ElementParts} :
    (elementParts element).reading text = .matched rest parts ↔
      ∃ front body mid after, text = '<' :: front ∧
        (opening openTagName).reading front = .matched ('>' :: body) (parts.name, (), parts.attributes) ∧
        optionalBlanks.reading body = .matched mid () ∧
        (content element).reading mid = .matched after parts.children ∧
        optionalBlanks.reading after =
          .matched ('<' :: '/' :: (parts.closingName.toList ++ '>' :: rest)) () ∧
        '>' ∉ parts.closingName.toList := by
  constructor
  · intro h
    obtain ⟨⟨⟨⟨⟨⟨⟨_, name, _, as⟩, _⟩, ⟨_, cs⟩, _⟩, _⟩, closing⟩, _⟩, hall, rfl⟩ := map_matched.mp h
    obtain ⟨u, hall, hclose⟩ := andThen_matched.mp hall
    obtain ⟨v, hall, hscan⟩ := andThen_matched.mp hall
    obtain ⟨u', hall, hslash⟩ := andThen_matched.mp hall
    obtain ⟨body, hall, hinner⟩ := andThen_matched.mp hall
    obtain ⟨v', hall, hgt⟩ := andThen_matched.mp hall
    obtain ⟨front, hlt, hopening⟩ := andThen_matched.mp hall
    obtain ⟨after, hinner, hend⟩ := andThen_matched.mp hinner
    obtain ⟨mid, hblanks, hcontent⟩ := andThen_matched.mp hinner
    obtain ⟨rfl, -⟩ := token_matched.mp hlt
    obtain ⟨rfl, -⟩ := token_matched.mp hgt
    obtain ⟨rfl, -⟩ := token_matched.mp hslash
    obtain ⟨rfl, -⟩ := token_matched.mp hclose
    obtain ⟨habs, hu, -⟩ | ⟨w, hu, rfl, hk⟩ := upTo_matched rfl hscan
    · exact absurd (hu ▸ List.mem_cons_self) habs
    · rw [← hu] at hend
      exact ⟨front, body, mid, after, rfl, hopening, hblanks, hcontent, hend, hk⟩
  · rintro ⟨front, body, mid, after, rfl, hopening, hblanks, hcontent, hend, hk⟩
    refine map_matched.mpr ⟨(((((("<", parts.name, (), parts.attributes), ">"),
      ((), parts.children), ()), "</"), parts.closingName), ">"), ?_, rfl⟩
    refine andThen_matched.mpr ⟨'>' :: rest, andThen_matched.mpr
      ⟨parts.closingName.toList ++ '>' :: rest, andThen_matched.mpr
        ⟨'<' :: '/' :: (parts.closingName.toList ++ '>' :: rest), andThen_matched.mpr
          ⟨body, ?_, ?_⟩, reading_token "</" _⟩, ?_⟩, reading_token ">" rest⟩
    · exact andThen_matched.mpr ⟨'>' :: body, andThen_matched.mpr
        ⟨front, reading_token "<" front, hopening⟩, reading_token ">" body⟩
    · exact andThen_matched.mpr ⟨after, andThen_matched.mpr ⟨mid, hblanks, hcontent⟩, hend⟩
    · rw [reading_upTo rfl hk, String.ofList_toList]

theorem tag_lenient (element : Parser Node) : tag false element = (elementParts element).map
    fun parts => .element parts.name parts.attributes parts.children := rfl

theorem tag_strict (element : Parser Node) :
    tag true element = ((elementParts element).filter ElementParts.closes).map
      fun parts => .element parts.name parts.attributes parts.children := rfl

theorem tag_matched {text rest : List Char} {t : Node} :
    (tag strict element).reading text = .matched rest t ↔ TagMatch strict element text rest t := by
  have hparts : (tag strict element).reading text = .matched rest t ↔
      ∃ parts : ElementParts, (elementParts element).reading text = .matched rest parts ∧
        (strict = true → parts.closes = true) ∧
        .element parts.name parts.attributes parts.children = t := by
    cases strict with
    | false => simp [tag_lenient, map_matched]
    | true => simp [tag_strict, map_matched, filter_matched, and_assoc]
  rw [hparts]
  constructor
  · rintro ⟨parts, hp, hs, rfl⟩
    obtain ⟨front, body, mid, after, rfl, ho, hb, hc, he, hk⟩ := elementParts_matched.mp hp
    refine .mk ho hb hc he hk fun hstrict => ?_
    have hcloses := hs hstrict
    rw [ElementParts.closes, decide_eq_true_eq] at hcloses
    exact hcloses.symm
  · rintro ⟨ho, hb, hc, he, hk, hs⟩
    refine ⟨⟨_, _, _, _⟩, elementParts_matched.mpr ⟨_, _, _, _, rfl, ho, hb, hc, he, hk⟩,
      fun hstrict => ?_, rfl⟩
    rw [ElementParts.closes, decide_eq_true_eq]
    exact (hs hstrict).symm

/-- Where the content of an element stops the reader for good, so does the element. -/
theorem tag_fault {front body mid : List Char} {name : String} {as : List Attribute}
    {cause : Fault}
    (hopening : (opening openTagName).reading front = .matched ('>' :: body) (name, (), as))
    (hblanks : optionalBlanks.reading body = .matched mid ())
    (hcontent : (content element).reading mid = .fault cause) :
    (tag strict element).reading ('<' :: front) = .fault cause := by
  have hfront : (((token "<").andThen (opening openTagName)).andThen (token ">")).reading
      ('<' :: front) = .matched body (("<", name, (), as), ">") :=
    andThen_matched.mpr ⟨'>' :: body, andThen_matched.mpr
      ⟨front, reading_token "<" front, hopening⟩, reading_token ">" body⟩
  have hinner : ((optionalBlanks.andThen (content element)).andThen optionalBlanks).reading body =
      .fault cause := by
    rw [reading_andThen, reading_andThen, hblanks, Reading.bind_matched, hcontent]
    rfl
  have hparts : (elementParts element).reading ('<' :: front) = .fault cause := by
    rw [elementParts, reading_map, reading_andThen, reading_andThen, reading_andThen,
      reading_andThen, hfront, Reading.bind_matched, hinner]
    rfl
  cases strict with
  | false =>
      rw [tag_lenient, reading_map, hparts]
      rfl
  | true =>
      rw [tag_strict, reading_map, reading_filter, hparts]
      rfl

theorem tag_noMatch {text : List Char}
    (h : (((token "<").andThen (opening openTagName)).andThen (token ">")).reading text = .noMatch) :
    (tag strict element).reading text = .noMatch := by
  have hparts : (elementParts element).reading text = .noMatch := by
    rw [elementParts, reading_map, reading_andThen, reading_andThen, reading_andThen,
      reading_andThen, h]
    rfl
  cases strict with
  | false =>
      rw [tag_lenient, reading_map, hparts]
      rfl
  | true =>
      rw [tag_strict, reading_map, reading_filter, hparts]
      rfl

theorem tag_noMatch_of_opening {front mid : List Char} {parts : String × Unit × List Attribute}
    {c : Char} (h : (opening openTagName).reading front = .matched (c :: mid) parts) (hc : c ≠ '>') :
    (tag strict element).reading ('<' :: front) = .noMatch := by
  refine tag_noMatch ?_
  have hopen : ((token "<").andThen (opening openTagName)).reading ('<' :: front) =
      .matched (c :: mid) ("<", parts) := andThen_matched.mpr ⟨front, reading_token "<" front, h⟩
  rw [reading_andThen, hopen, Reading.bind_matched, token_noMatch_of_ne rfl hc]
  rfl

theorem tag_noMatch_of_name {front : List Char} (h : openTagName.reading front = .noMatch) :
    (tag strict element).reading ('<' :: front) = .noMatch := by
  refine tag_noMatch ?_
  have hopen : (opening openTagName).reading front = .noMatch := by
    rw [opening, reading_andThen, h]
    rfl
  have hlt : (token "<").reading ('<' :: front) = .matched front "<" := reading_token "<" front
  rw [reading_andThen, reading_andThen, hlt, Reading.bind_matched, hopen]
  rfl

theorem tag_noMatch_of_ne {text : List Char} (h : ¬ ['<'] <+: text) :
    (tag strict element).reading text = .noMatch := by
  have ht : (token "<").reading text = .noMatch := token_noMatch.mpr h
  refine tag_noMatch ?_
  rw [reading_andThen, reading_andThen, ht]
  rfl

/-- A name with a slash in it, as in a closing tag, opens no element. -/
theorem openTagName_noMatch {w u : List Char} {c : Char} (hw : ∀ d ∈ w, d ∉ ['>', ' '])
    (hslash : '/' ∈ w) (hc : c ∈ ['>', ' ']) : openTagName.reading (w ++ c :: u) = .noMatch := by
  have hvalid : validElementName (String.ofList w) = false := by
    rw [← Bool.not_eq_true, validElementName_iff]
    simpa using hslash
  rw [openTagName, reading_filter, reading_scan scans_openTagName hw hc, Reading.bind_matched, hvalid]
  rfl

theorem tag_noMatch_closing (u : List Char) :
    (tag strict element).reading ('<' :: '/' :: u) = .noMatch := by
  obtain habs | ⟨w, c, v, hu, hw, hc⟩ := absent_or_first ['>', ' '] ('/' :: u)
  · have hname : openTagName.reading ('/' :: u) = .matched ('/' :: u) "" := by
      refine filter_matched.mpr ⟨reading_scan_absent scans_openTagName habs, by decide⟩
    have hslash : '/' ∈ ['/', '<', '>'] := by decide
    have hopening : (opening openTagName).reading ('/' :: u) = .matched ('/' :: u) ("", (), []) :=
      andThen_matched.mpr ⟨_, hname, andThen_matched.mpr ⟨_, reading_optional_blanks blank_nil
        (solid_of_mem hslash u), reading_attributes_absent hslash u⟩⟩
    exact tag_noMatch_of_opening hopening (by decide)
  · refine tag_noMatch_of_name ?_
    rw [hu]
    refine openTagName_noMatch hw ?_ hc
    cases w with
    | nil =>
        obtain ⟨rfl, -⟩ := List.cons.inj hu
        exact absurd hc (by decide)
    | cons d w => exact (List.cons.inj hu).1 ▸ List.mem_cons_self

theorem stops_of_openName {name : String} (hn : Node.OpenName name) :
    (∀ c ∈ name.toList, c ∉ ['>', ' ']) ∧ '/' ∉ name.toList := by
  refine ⟨fun c hc hm => hn c hc ?_, fun hm => hn '/' hm (by decide)⟩
  simp only [List.mem_cons, List.not_mem_nil, or_false] at hm ⊢
  obtain rfl | rfl := hm
  · exact Or.inr (Or.inr rfl)
  · exact Or.inl rfl

theorem reading_openTagName {name : String} (hn : Node.OpenName name) {as : List Attribute}
    {s : List Char} (h : AttributeRun as s) (ha : ∀ a ∈ as, a.Shaped) (u : List Char) :
    (opening openTagName).reading (name.toList ++ (s ++ '>' :: u)) =
      .matched ('>' :: u) (name, (), as) :=
  reading_opening scans_openTagName (by decide) (stops_of_openName hn).1 (stops_of_openName hn).2
    h ha (by decide) (fun _ => by decide) u

theorem tag_noMatch_closed {name : String} (hn : Node.OpenName name) {as : List Attribute}
    {s : List Char} (h : AttributeRun as s) (ha : ∀ a ∈ as, a.Shaped) (u : List Char) :
    (tag strict element).reading ('<' :: (name.toList ++ (s ++ '/' :: '>' :: u))) = .noMatch := by
  obtain ⟨hstops, hslash⟩ := stops_of_openName hn
  by_cases hs : s = []
  · subst hs
    refine tag_noMatch_of_name ?_
    have hw : ∀ d ∈ name.toList ++ ['/'], d ∉ ['>', ' '] := by
      intro d hd
      obtain hd | hd := List.mem_append.mp hd
      · exact hstops d hd
      · rw [List.mem_singleton.mp hd]
        decide
    have hname := openTagName_noMatch (u := u) hw (by simp) (List.mem_cons_self (a := '>'))
    rwa [List.append_assoc] at hname
  · exact tag_noMatch_of_opening (reading_opening scans_openTagName (by decide) hstops hslash h ha
      (by decide) (fun he => absurd he hs) ('>' :: u)) (by decide)

theorem stops_of_closedName {name : String} (hn : Node.ClosedName name) :
    (∀ c ∈ name.toList, c ∉ ['/', ' ']) ∧ '/' ∉ name.toList := by
  refine ⟨fun c hc hm => hn c hc ?_, fun hm => hn '/' hm (by decide)⟩
  simp only [List.mem_cons, List.not_mem_nil, or_false] at hm ⊢
  exact hm.symm

theorem closedName_empty : Node.ClosedName "" := by
  simp [Node.ClosedName]

theorem closedTag_matched {text rest : List Char} {t : Node} :
    closedTag.reading text = .matched rest t ↔ ∃ front name as, text = '<' :: front ∧
      (opening closedTagName).reading front = .matched ('/' :: '>' :: rest) (name, (), as) ∧
        t = .closed name as := by
  constructor
  · intro h
    obtain ⟨⟨⟨_, name, _, as⟩, _⟩, hall, rfl⟩ := map_matched.mp h
    obtain ⟨u, hall, hend⟩ := andThen_matched.mp hall
    obtain ⟨front, hlt, hopening⟩ := andThen_matched.mp hall
    obtain ⟨rfl, -⟩ := token_matched.mp hlt
    obtain ⟨rfl, -⟩ := token_matched.mp hend
    exact ⟨front, name, as, rfl, hopening, rfl⟩
  · rintro ⟨front, name, as, rfl, hopening, rfl⟩
    refine map_matched.mpr ⟨(("<", name, (), as), "/>"), andThen_matched.mpr
      ⟨'/' :: '>' :: rest, andThen_matched.mpr ⟨front, reading_token "<" front, hopening⟩,
        reading_token "/>" rest⟩, rfl⟩

theorem reading_closedTagName {name : String} (hn : Node.ClosedName name) {as : List Attribute}
    {s : List Char} (h : AttributeRun as s) (ha : ∀ a ∈ as, a.Shaped) (u : List Char) :
    (opening closedTagName).reading (name.toList ++ (s ++ '/' :: u)) =
      .matched ('/' :: u) (name, (), as) :=
  reading_opening scans_closedTagName (by decide) (stops_of_closedName hn).1
    (stops_of_closedName hn).2 h ha (by decide) (fun _ => by decide) u

theorem reading_closedTag {name : String} (hn : Node.ClosedName name) {as : List Attribute}
    {s : List Char} (h : AttributeRun as s) (ha : ∀ a ∈ as, a.Shaped) (u : List Char) :
    closedTag.reading ('<' :: (name.toList ++ (s ++ '/' :: '>' :: u))) =
      .matched u (.closed name as) :=
  closedTag_matched.mpr ⟨_, name, as, rfl, reading_closedTagName hn h ha _, rfl⟩

theorem closedTag_noMatch_of_ne {text : List Char} (h : ¬ ['<'] <+: text) :
    closedTag.reading text = .noMatch := by
  have ht : (token "<").reading text = .noMatch := token_noMatch.mpr h
  rw [closedTag, reading_map, reading_andThen, reading_andThen, ht]
  rfl

theorem closedTag_noMatch_closing {c : Char} (hc : c ≠ '>') (u : List Char) :
    closedTag.reading ('<' :: '/' :: c :: u) = .noMatch := by
  have hopen : ((token "<").andThen (opening closedTagName)).reading ('<' :: '/' :: c :: u) =
      .matched ('/' :: c :: u) ("<", "", (), []) :=
    andThen_matched.mpr ⟨'/' :: c :: u, reading_token "<" _,
      reading_closedTagName closedName_empty .none (by simp) _⟩
  have hend : (token "/>").reading ('/' :: c :: u) = .noMatch :=
    token_noMatch.mpr fun hp => hc
      (List.cons_prefix_cons.mp (List.cons_prefix_cons.mp hp).2).1.symm
  rw [closedTag, reading_map, reading_andThen, hopen, Reading.bind_matched, hend]
  rfl

theorem reading_documentOver (text : List Char) : (documentOver strict element).reading text =
    (((header element).reading text).orElse ((tag strict element).reading text)).orElse
      (closedTag.reading text) := by
  rw [documentOver, reading_orElse, reading_orElse]

theorem documentOver_matched {text rest : List Char} {t : Node} :
    (documentOver strict element).reading text = .matched rest t ↔
      (header element).reading text = .matched rest t ∨
        (header element).reading text = .noMatch ∧
          ((tag strict element).reading text = .matched rest t ∨
            (tag strict element).reading text = .noMatch ∧
              closedTag.reading text = .matched rest t) := by
  rw [reading_documentOver, Reading.orElse_eq_matched, Reading.orElse_eq_matched,
    Reading.orElse_eq_noMatch]
  constructor
  · rintro ((h | ⟨hn, h⟩) | ⟨⟨hn, hn'⟩, h⟩)
    · exact Or.inl h
    · exact Or.inr ⟨hn, Or.inl h⟩
    · exact Or.inr ⟨hn, Or.inr ⟨hn', h⟩⟩
  · rintro (h | ⟨hn, h | ⟨hn', h⟩⟩)
    · exact Or.inl (Or.inl h)
    · exact Or.inl (Or.inr ⟨hn, h⟩)
    · exact Or.inr ⟨⟨hn, hn'⟩, h⟩

theorem documentOver_noMatch {text : List Char} (h : ¬ ['<'] <+: text) :
    (documentOver strict element).reading text = .noMatch := by
  have hheader : ¬ ['<', '?'] <+: text := fun hp => h ((List.prefix_append ['<'] ['?']).trans hp)
  rw [reading_documentOver, header_noMatch hheader, tag_noMatch_of_ne h, closedTag_noMatch_of_ne h]
  rfl

theorem documentOver_noMatch_closing {closing : String} (hne : closing ≠ "")
    (hk : '>' ∉ closing.toList) (u : List Char) :
    (documentOver strict element).reading ('<' :: '/' :: (closing.toList ++ '>' :: u)) =
      .noMatch := by
  have hheader : ¬ ['<', '?'] <+: '<' :: '/' :: (closing.toList ++ '>' :: u) := fun hp =>
    absurd (List.cons_prefix_cons.mp (List.cons_prefix_cons.mp hp).2).1 (by decide)
  have hclosed : closedTag.reading ('<' :: '/' :: (closing.toList ++ '>' :: u)) = .noMatch := by
    cases hl : closing.toList with
    | nil => exact absurd (String.toList_eq_nil_iff.mp hl) hne
    | cons c w =>
        refine closedTag_noMatch_closing ?_ (w ++ '>' :: u)
        rintro rfl
        exact hk (hl ▸ List.mem_cons_self)
  rw [reading_documentOver, header_noMatch hheader, tag_noMatch_closing, hclosed]
  rfl

/-- A closing tag without a name is a document. -/
theorem documentOver_nameless_closing (u : List Char) :
    (documentOver strict element).reading ('<' :: '/' :: '>' :: u) =
      .matched u (.closed "" []) := by
  have hheader : ¬ ['<', '?'] <+: '<' :: '/' :: '>' :: u := fun hp =>
    absurd (List.cons_prefix_cons.mp (List.cons_prefix_cons.mp hp).2).1 (by decide)
  have hclosed : closedTag.reading ('<' :: '/' :: '>' :: u) = .matched u (.closed "" []) :=
    reading_closedTag closedName_empty .none (by simp) u
  rw [reading_documentOver, header_noMatch hheader, tag_noMatch_closing, hclosed]
  rfl

theorem header_noMatch_of_name {name : String} (hn : name.toList.head? ≠ some '?')
    {as : List Attribute} {s : List Char} (h : AttributeRun as s) {c : Char} (hc : c ≠ '?')
    (u : List Char) : (header element).reading ('<' :: (name.toList ++ (s ++ c :: u))) = .noMatch := by
  refine header_noMatch fun hp => ?_
  have hhead : (name.toList ++ (s ++ c :: u)).head? = some '?' := by
    obtain ⟨v, hv⟩ := (List.cons_prefix_cons.mp hp).2
    rw [← hv]
    rfl
  cases hl : name.toList with
  | cons d w =>
      rw [hl] at hn hhead
      exact hn hhead
  | nil =>
      rw [hl, List.nil_append] at hhead
      cases h with
      | none => exact hc (Option.some.inj hhead)
      | blank _ => exact absurd (Option.some.inj hhead) (by decide)
      | some _ _ => exact absurd (Option.some.inj hhead) (by decide)

instance (levels : Nat) : (documentWithin strict levels).Local := by
  induction levels with
  | zero => exact inferInstanceAs (Parser.faulty _ _).Local
  | succ levels ih => exact inferInstanceAs (documentOver strict (.deferred _ _)).Local

instance (g : Grammar) : g.document.Local := inferInstanceAs (documentWithin _ _).Local

theorem parse_eq_some {g : Grammar} {text : String} {t : Node} : g.parse text = .ok (some t) ↔
    ∃ rest, g.document.reading text.toList = .matched rest t ∧
      (g.allowTrailingContent = true ∨ Blank rest) := by
  have hrun : g.document.run (.start text.toList) =
      (g.document.reading text.toList).outcome (.start text.toList) := run_eq_outcome _ _
  delta parse
  rw [hrun]
  cases hr : g.document.reading text.toList with
  | fault cause => simp
  | noMatch => simp
  | matched rest u =>
      have hrest := Cursor.rest_skip_of_suffix (c := .start text.toList) (suffix_of_reading hr)
      simp only [Reading.outcome_matched, Except.ok.injEq, Bool.or_eq_true, Cursor.atEnd_skipBlanks,
        hrest, Option.ite_none_right_eq_some, Option.some.injEq, Reading.matched.injEq]
      constructor
      · rintro ⟨h, rfl⟩
        exact ⟨rest, ⟨rfl, rfl⟩, h⟩
      · rintro ⟨_, ⟨rfl, rfl⟩, h⟩
        exact ⟨h, rfl⟩

theorem parse_eq_error {g : Grammar} {text : String} {cause : Fault} :
    g.parse text = .error cause ↔ g.document.reading text.toList = .fault cause := by
  have hrun : g.document.run (.start text.toList) =
      (g.document.reading text.toList).outcome (.start text.toList) := run_eq_outcome _ _
  delta parse
  rw [hrun]
  cases g.document.reading text.toList <;> simp

/-- The documents nested in a document with some levels more. -/
def below (strict : Bool) (levels : Nat) : Parser Node :=
  .deferred "document" fun _ => documentWithin strict levels

instance (levels : Nat) : (below strict levels).Local := inferInstanceAs (Parser.deferred _ _).Local

theorem reading_below (levels : Nat) (text : List Char) :
    (below strict levels).reading text = (documentWithin strict levels).reading text :=
  reading_deferred _ _ text

theorem documentWithin_succ (levels : Nat) : documentWithin strict (levels + 1) =
    documentOver strict (below strict levels) := rfl

end MeshMarkup.Grammar
