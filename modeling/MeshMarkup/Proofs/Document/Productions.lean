import MeshMarkup.Proofs.Document.Numbers
import MeshMarkup.Proofs.Document.Opening

namespace MeshMarkup.Grammar

open Text MeshMarkup.Parser

variable {strict : Bool} {element : Parser Node} [element.Local]

instance : (header element).Local := inferInstanceAs (Parser.map _ _).Local

instance : text.Local := inferInstanceAs (Parser.map _ _).Local

instance : (content element).Local := inferInstanceAs (Parser.orElse _ _).Local

instance : openTagName.Local := inferInstanceAs (Parser.filter _ _).Local

instance : closedTagName.Local := inferInstanceAs (Parser.filter _ _).Local

instance : (elementParts element).Local := inferInstanceAs (Parser.map _ _).Local

instance : (tag strict element).Local := by
  cases strict with
  | false => exact inferInstanceAs (Parser.map _ (elementParts element)).Local
  | true => exact inferInstanceAs (Parser.map _ ((elementParts element).filter _)).Local

instance : closedTag.Local := inferInstanceAs (Parser.map _ _).Local

instance : (documentOver strict element).Local := inferInstanceAs (Parser.orElse _ _).Local

theorem reading_header {prologue w s : List Char} (hp : '?' ∉ prologue) (hw : Blank w)
    (hs : Solid s) :
    (header element).reading ('<' :: '?' :: (prologue ++ '?' :: '>' :: (w ++ s))) =
      (element.reading s).map .header := by
  have hscan : (upTo "?").reading (prologue ++ '?' :: '>' :: (w ++ s)) =
      .matched ('?' :: '>' :: (w ++ s)) (String.ofList prologue) :=
    reading_upTo rfl hp _
  have hfront : ((((token "<?").andThen (upTo "?")).andThen (token "?>")).andThen
      optionalBlanks).reading ('<' :: '?' :: (prologue ++ '?' :: '>' :: (w ++ s))) =
        .matched s ((("<?", String.ofList prologue), "?>"), ()) := by
    refine andThen_matched.mpr ⟨w ++ s, ?_, reading_optional_blanks hw hs⟩
    refine andThen_matched.mpr ⟨'?' :: '>' :: (w ++ s), ?_, reading_token "?>" _⟩
    exact andThen_matched.mpr ⟨_, reading_token "<?" _, hscan⟩
  rw [header, reading_map, reading_andThen, hfront, Reading.bind_matched]
  cases element.reading s <;> rfl

/-- What begins like a prologue and does not end like one is none. -/
theorem header_noMatch_of_question {p u : List Char} {c : Char} (hp : '?' ∉ p) (hc : c ≠ '>') :
    (header element).reading ('<' :: '?' :: (p ++ '?' :: c :: u)) = .noMatch := by
  have hscan : (upTo "?").reading (p ++ '?' :: c :: u) =
      .matched ('?' :: c :: u) (String.ofList p) :=
    reading_upTo rfl hp _
  have hstart : ((token "<?").andThen (upTo "?")).reading ('<' :: '?' :: (p ++ '?' :: c :: u)) =
      .matched ('?' :: c :: u) ("<?", String.ofList p) :=
    andThen_matched.mpr ⟨_, reading_token "<?" _, hscan⟩
  have hend : (token "?>").reading ('?' :: c :: u) = .noMatch := by
    refine token_noMatch.mpr fun h => ?_
    exact hc (List.cons_prefix_cons.mp (List.cons_prefix_cons.mp h).2).1.symm
  rw [header, reading_map, reading_andThen, reading_andThen, reading_andThen, hstart,
    Reading.bind_matched, hend]
  rfl

theorem header_matched {text rest : List Char} {t : Node}
    (h : (header element).reading text = .matched rest t) :
    ∃ prologue w s child, text = '<' :: '?' :: (prologue ++ '?' :: '>' :: (w ++ s)) ∧
      '?' ∉ prologue ∧ Blank w ∧ Solid s ∧ element.reading s = .matched rest child ∧
        t = .header child := by
  obtain ⟨⟨⟨⟨⟨_, prologue⟩, _⟩, _⟩, child⟩, hall, rfl⟩ := map_matched.mp h
  obtain ⟨s, hfront, hchild⟩ := andThen_matched.mp hall
  obtain ⟨u, hfront, hblanks⟩ := andThen_matched.mp hfront
  obtain ⟨v, hfront, hend⟩ := andThen_matched.mp hfront
  obtain ⟨v', hstart, hscan⟩ := andThen_matched.mp hfront
  obtain ⟨rfl, -⟩ := token_matched.mp hstart
  obtain ⟨rfl, -⟩ := token_matched.mp hend
  obtain ⟨w, rfl, hw, hs⟩ := optional_blanks_matched hblanks
  obtain ⟨habs, hv, -⟩ | ⟨v, hv, rfl, hprologue⟩ := upTo_matched rfl hscan
  · exact absurd (hv ▸ List.mem_cons_self) habs
  · rw [← hv]
    exact ⟨prologue.toList, w, s, child, rfl, hprologue, hw, hs, hchild, rfl⟩

theorem header_noMatch {text : List Char} (h : ¬ ['<', '?'] <+: text) :
    (header element).reading text = .noMatch := by
  have ht : (token "<?").reading text = .noMatch := token_noMatch.mpr h
  rw [header, reading_map, reading_andThen, reading_andThen, reading_andThen, reading_andThen, ht]
  rfl

theorem reading_text {w : List Char} (hw : '<' ∉ w) (u : List Char) : text.reading (w ++ '<' :: u) =
    .matched ('<' :: u) (if w = [] then .empty else .text (String.ofList w)) := by
  rw [text, reading_map, reading_upTo rfl hw, Reading.map_matched]
  by_cases hne : w = []
  · subst hne
    rfl
  · simp [hne]

theorem text_matched {w rest : List Char} {t : Node} (h : text.reading w = .matched rest t) :
    t = .empty ∧ rest = w ∨ ∃ content u, t = .text content ∧ content ≠ "" ∧
      rest = '<' :: u ∧ w = content.toList ++ '<' :: u ∧ '<' ∉ content.toList := by
  obtain ⟨content, hscan, rfl⟩ := map_matched.mp h
  obtain ⟨-, rfl, rfl⟩ | ⟨u, rfl, rfl, hcontent⟩ := upTo_matched rfl hscan
  · exact Or.inl ⟨rfl, rfl⟩
  · by_cases hne : content = ""
    · subst hne
      exact Or.inl ⟨rfl, rfl⟩
    · exact Or.inr ⟨content, u, by simp [hne], hne, rfl, rfl, hcontent⟩

theorem reading_content_nodes {R : Node → List Char → Prop} {cs : List Node} {s rest : List Char}
    (h : Spaced R Blank cs s)
    (helement : ∀ c ∈ cs, ∀ {s}, R c s → ∀ u, element.reading (s ++ u) = .matched u c)
    (hsolid : ∀ c ∈ cs, ∀ {s}, R c s → s ≠ [] ∧ Solid s) (hrest : Solid rest)
    (hstop : element.reading rest = .noMatch) :
    (content element).reading (s ++ rest) = .matched rest cs := by
  refine orElse_matched.mpr (Or.inl (orElse_matched.mpr (Or.inl ?_)))
  exact reading_delimited delimits_optional_blanks (fun _ => True)
    (fun _ _ => trivial) trivial hrest hstop h (fun c hc _ u hs _ => helement c hc hs u) hsolid

theorem reading_content_leaf {c : Node} {s : List Char} (hc : c.Leaf) (hs : LeafText c s)
    {u : List Char} (helement : element.reading (s ++ '<' :: u) = .noMatch) :
    (content element).reading (s ++ '<' :: u) = .matched ('<' :: u) [c] := by
  have hnodes : (element.delimited optionalBlanks).reading (s ++ '<' :: u) = .noMatch :=
    delimited_noMatch.mpr helement
  rw [content, reading_orElse, reading_orElse, hnodes, Reading.orElse_noMatch, reading_map,
    reading_map]
  cases hs with
  | numbers hs =>
      rw [reading_numbers hs]
      rfl
  | @text content =>
      cases hc with
      | text hne hopen hsolid hnumbers =>
          have hn : numbers.reading (content.toList ++ '<' :: u) = .noMatch :=
            numbers_noMatch_append hopen (reading_eq_noMatch_iff.mp hnumbers) u
          rw [hn, reading_text hopen, if_neg (by simpa using hne), String.ofList_toList]
          rfl
  | empty =>
      have hn : numbers.reading ('<' :: u) = .noMatch :=
        numbers_noMatch.mpr (Or.inl (scientific_noMatch (by decide) (by decide)))
      rw [List.nil_append, hn, ← List.nil_append ('<' :: u), reading_text (by simp)]
      rfl

theorem reading_content_numbers {w : List Char} (hn : element.reading w = .noMatch)
    (hnumbers : numbers.reading w ≠ .noMatch) :
    (content element).reading w = (numbers.reading w).map fun node => [node] := by
  have hnodes : (element.delimited optionalBlanks).reading w = .noMatch :=
    delimited_noMatch.mpr hn
  rw [content, reading_orElse, reading_orElse, hnodes, Reading.orElse_noMatch, reading_map]
  cases h : numbers.reading w with
  | fault cause => rfl
  | noMatch => exact absurd h hnumbers
  | matched rest node => rfl

theorem content_alternatives {w rest : List Char} {cs : List Node}
    (h : (content element).reading w = .matched rest cs) :
    (element.delimited optionalBlanks).reading w = .matched rest cs ∨
      element.reading w = .noMatch ∧ ∃ c, cs = [c] ∧ (numbers.reading w = .matched rest c ∨
        numbers.reading w = .noMatch ∧ text.reading w = .matched rest c) := by
  obtain h | ⟨hn, htext⟩ := orElse_matched.mp h
  · obtain hnodes | ⟨hn, hnumbers⟩ := orElse_matched.mp h
    · exact Or.inl hnodes
    · obtain ⟨c, hc, rfl⟩ := map_matched.mp hnumbers
      exact Or.inr ⟨delimited_noMatch.mp hn, c, rfl, Or.inl hc⟩
  · rw [reading_orElse, Reading.orElse_eq_noMatch, reading_map, Reading.map_eq_noMatch] at hn
    obtain ⟨c, hc, rfl⟩ := map_matched.mp htext
    exact Or.inr ⟨delimited_noMatch.mp hn.1, c, rfl, Or.inr ⟨hn.2, hc⟩⟩

theorem content_matched {R : Node → List Char → Prop}
    (helement : ∀ {text rest t}, Solid text → element.reading text = .matched rest t →
      ∃ s, text = s ++ rest ∧ s ≠ [] ∧ R t s)
    {text rest : List Char} {cs : List Node} (hs : Solid text)
    (h : (content element).reading text = .matched rest cs) :
    ∃ s, text = s ++ rest ∧ Solid rest ∧
      (Spaced R Blank cs s ∧ element.reading rest = .noMatch ∨
        ∃ c, cs = [c] ∧ c.Leaf ∧ LeafText c s ∧
          (c.isPlain = true ∨ element.reading rest = .noMatch)) := by
  obtain hnodes | ⟨hstop, c, rfl, hrun | ⟨hnumbers, hrun⟩⟩ := content_alternatives h
  · obtain ⟨s, rfl, -, hspaced, hend⟩ :=
      spaced_of_delimited delimits_optional_blanks helement hs hnodes
    obtain hoptional | ⟨hsolid, hstop⟩ := hend
    · have hne := reading_optional (p := blanks) () rest
      rw [hoptional] at hne
      exact absurd (Reading.orElse_eq_noMatch.mp hne.symm).2 (by simp)
    · exact ⟨s, rfl, hsolid, Or.inl ⟨hspaced, hstop⟩⟩
  · obtain ⟨xs, s, u, rfl, rfl, rfl, hspaced⟩ := numbers_matched hs hrun
    have hne_nan := hspaced.forall (P := (· ≠ .nan)) fun _ _ ⟨_, _, hd, _⟩ => hd.ne_nan
    have hnan : Binary64.nan ∉ xs := fun hm => hne_nan _ hm rfl
    exact ⟨s, rfl, solid_angle _, Or.inr ⟨_, rfl, .numbers hspaced.ne_nil hnan,
      .numbers hspaced, Or.inl rfl⟩⟩
  · obtain ⟨rfl, rfl⟩ | ⟨content, u, rfl, hne, rfl, rfl, hopen⟩ := text_matched hrun
    · exact ⟨[], rfl, hs, Or.inr ⟨_, rfl, .empty, .empty, Or.inr hstop⟩⟩
    · have hn := numbers_noMatch_append hopen hnumbers []
      exact ⟨content.toList, rfl, solid_angle _, Or.inr ⟨_, rfl,
        .text hne hopen hs.of_append (reading_eq_noMatch_iff.mpr hn), .text, Or.inl rfl⟩⟩

end MeshMarkup.Grammar
