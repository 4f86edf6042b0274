import MeshMarkup.Proofs.Document.Completeness
import MeshMarkup.Proofs.Document.Locality
import MeshMarkup.Proofs.Parser.Scientific

namespace MeshMarkup

open Text Magnitude MeshMarkup.Parser

def LiteralText (l : ScientificLiteral) (s : List Char) : Prop := l.WellFormed ∧ l.text = s

/-- Somewhere in a text stands a literal that is refused. -/
def HasOversized (text : List Char) : Prop :=
  ∃ l : ScientificLiteral, l.WellFormed ∧ l.Oversized ∧ l.text <:+: text

theorem ScientificLiteral.Oversized.lt_length {l : ScientificLiteral} (h : l.WellFormed)
    (ho : l.Oversized) : 300 < l.text.length := by
  by_contra hle
  have hlength : l.mantissa.length + exponentLength l.exponent ≤ 300 := by
    rw [length_text, length] at hle
    omega
  have hexponent : (exponentValue l.exponent).natAbs < 10 ^ 300 := by
    cases he : l.exponent with
    | none => decide +kernel
    | some e =>
        have hcount : e.digits.length ≤ 300 := by
          rw [he, exponentLength, IntegerLiteral.length] at hlength
          omega
        calc (exponentValue (some e)).natAbs = Numeral.placeValue e.digits := by
              rw [exponentValue, IntegerLiteral.value]
              split <;> simp
          _ < 10 ^ e.digits.length := placeValue_lt (h.exponent e he).digits
          _ ≤ 10 ^ 300 := Nat.pow_le_pow_right (by decide) hcount
  have hfraction : l.mantissa.fraction.length ≤ 300 := by
    rw [DecimalLiteral.length] at hlength
    split at hlength
    · next hf => simp [List.isEmpty_iff.mp hf]
    · omega
  have hbound : 10 ^ 300 + 300 ≤ powerBound := by decide +kernel
  obtain ⟨-, hbits | hpower⟩ := ho
  · have hfew := estimable_of_length h (by omega)
    have hsmall := Decimal.lt_powerBound (Nat.le_trans hfew (by decide))
    exact Nat.not_le_of_lt hsmall hbits
  · simp only [value, DecimalLiteral.value] at hpower
    omega

theorem HasOversized.of_suffix {u text : List Char} (h : HasOversized u) (hu : u <:+ text) :
    HasOversized text := by
  obtain ⟨l, hl, ho, htext⟩ := h
  exact ⟨l, hl, ho, htext.trans hu.isInfix⟩

theorem HasOversized.lt_length {text : List Char} (h : HasOversized text) : 300 < text.length := by
  obtain ⟨l, hl, ho, htext⟩ := h
  exact Nat.lt_of_lt_of_le (ho.lt_length hl) htext.length_le

namespace Parser

theorem reading_scientific_oversized {text : List Char} {l : ScientificLiteral}
    (h : ScientificLiteral.read? text = some l) (ho : l.Oversized) :
    scientific.reading text = .fault .oversizedPower := by
  rw [reading_scientific_eq, h]
  simp only [nearest_eq_error.mpr ⟨ho, rfl⟩]

theorem scientific_fault {text : List Char} {cause : Fault}
    (h : scientific.reading text = .fault cause) : cause = .oversizedPower ∧ HasOversized text := by
  rw [reading_scientific_eq] at h
  cases hl : ScientificLiteral.read? text with
  | none => simp [hl] at h
  | some l =>
      obtain ⟨hwf, rest, rfl⟩ := ScientificLiteral.text_of_read? hl
      cases hx : nearest l.negative l.value with
      | ok x => simp [hl, hx] at h
      | error refusal =>
          obtain ⟨ho, rfl⟩ := nearest_eq_error.mp hx
          simp only [hl, hx, Reading.fault.injEq] at h
          exact ⟨h.symm, l, hwf, ho, (List.prefix_append _ _).isInfix⟩

end Parser

namespace Grammar

theorem numbers_fault {text : List Char} {cause : Fault} (h : numbers.reading text = .fault cause) :
    cause = .oversizedPower ∧ HasOversized text :=
  have hnumbers : Built (FaultsOn fun cause text => cause = .oversizedPower ∧ HasOversized text)
      False numbers := built_numbers Plain.faultsOn ⟨inferInstance, scientific_fault⟩
  (hnumbers.faultsOn fun ⟨hc, hu⟩ hs => ⟨hc, hu.of_suffix hs⟩).reason h

theorem parse_oversized {g : Grammar} {text : String} (h : g.parse text = .error .oversizedPower) :
    HasOversized text.toList :=
  have hdocument : Built (FaultsOn fun cause text => cause = .oversizedPower → HasOversized text)
      False g.document :=
    built_production Plain.faultsOn ⟨inferInstance, fun hf _ => (scientific_fault hf).2⟩
      (fun name => ⟨inferInstance, fun hf hc => by simp [reading_faulty, hc] at hf⟩) .document
  (hdocument.faultsOn fun hu hs hc => (hu hc).of_suffix hs).reason (parse_eq_error.mp h) rfl

theorem numbers_run_oversized {c : Cursor} {l : ScientificLiteral} (hl : l.Longest c.rest)
    (ho : l.Oversized) : numbers.run c = .fault .oversizedPower := by
  have hfirst := reading_scientific_oversized (ScientificLiteral.longest_iff.mp hl) ho
  rw [reading_eq_fault_iff, numbers, reading_map, reading_andThen, (reads_delimited _ _).reading_eq]
  simp only [hfirst, Reading.bind_fault, Reading.map_fault]

theorem terminates_of_following {ls : List ScientificLiteral} {t : List Char}
    (h : Following LiteralText BlankGap ls t) (u : List Char) : Terminates (t ++ '<' :: u) := by
  cases h with
  | done hw =>
      by_cases hne : t = []
      · subst hne
        simp [Terminates]
      · exact terminates_of_blank ⟨hne, hw⟩ _
  | @next w _ s _ t hw _ _ =>
      rw [List.append_assoc]
      exact terminates_of_blank hw _

theorem breaks_of_following {ls : List ScientificLiteral} {t : List Char}
    (h : Following LiteralText BlankGap ls t) (ho : ∃ l ∈ ls, l.Oversized) (u : List Char) :
    Breaks scientific blanks .oversizedPower (t ++ '<' :: u) := by
  induction h with
  | done => simp at ho
  | @next w l s ls t hw hl ht ih =>
      obtain ⟨hwf, rfl⟩ := hl
      have hend := terminates_of_following ht u
      obtain ⟨hne, hsolid⟩ := literal_solid hwf
      have hd : blanks.reading (w ++ (l.text ++ (t ++ '<' :: u))) =
          .matched (l.text ++ (t ++ '<' :: u)) () :=
        delimits_blanks.takes hw (hsolid.append hne)
      rw [List.append_assoc, List.append_assoc]
      by_cases hl : l.Oversized
      · exact .value hd (reading_scientific_oversized (ScientificLiteral.read?_text hwf hend) hl)
      · have hmid : t ++ '<' :: u ≠ w ++ (l.text ++ (t ++ '<' :: u)) := fun he => by
          have hlen := congrArg List.length he
          have hpos := List.length_pos_iff.mpr hne
          simp only [List.length_append] at hlen
          omega
        have hrest := ((List.exists_mem_cons_iff _ _ _).mp ho).resolve_left hl
        exact .more hd (reading_scientific hwf (ScientificLiteral.denotes_converted hl) hend) hmid
          (ih hrest)

theorem numbers_oversized {ls : List ScientificLiteral} {s : List Char}
    (h : Spaced LiteralText BlankGap ls s) (ho : ∃ l ∈ ls, l.Oversized) (u : List Char) :
    numbers.reading (s ++ '<' :: u) = .fault .oversizedPower := by
  have hrow : (scientific.delimited blanks).reading (s ++ '<' :: u) = .fault .oversizedPower := by
    cases h with
    | @mk l s ls t hl ht =>
        obtain ⟨hwf, rfl⟩ := hl
        have hend := terminates_of_following ht u
        rw [List.append_assoc]
        by_cases hl : l.Oversized
        · have hread := ScientificLiteral.read?_text hwf hend
          rw [(reads_delimited _ _).reading_eq]
          simp only [reading_scientific_oversized hread hl, Reading.bind_fault]
        · have hrest := ((List.exists_mem_cons_iff _ _ _).mp ho).resolve_left hl
          exact delimited_fault _ _
            (reading_scientific hwf (ScientificLiteral.denotes_converted hl) hend)
            (breaks_of_following ht hrest u)
  rw [numbers, reading_map, reading_andThen, hrow]
  rfl

theorem spaced_converted {ls : List ScientificLiteral} {s : List Char}
    (h : Spaced LiteralText BlankGap ls s) (haccepted : ∀ l ∈ ls, ¬ l.Oversized) :
    Spaced NumberText BlankGap (ls.map ScientificLiteral.converted) s :=
  h.map fun l hl _ htext =>
    ⟨l, htext.1, ScientificLiteral.denotes_converted (haccepted l hl), htext.2⟩

theorem map_converted_eq {ls : List ScientificLiteral} {s : List Char}
    (h : Spaced LiteralText BlankGap ls s) (haccepted : ∀ l ∈ ls, ¬ l.Oversized)
    (hlength : s.length < 10 ^ 15) :
    ls.map ScientificLiteral.converted = ls.map ScientificLiteral.rounded := by
  refine List.map_congr_left fun l hl => ?_
  obtain ⟨_, ⟨hwf, rfl⟩, hin⟩ := h.stands l hl
  have hfew := ScientificLiteral.estimable_of_length hwf
    (Nat.lt_of_le_of_lt hin.length_le hlength)
  exact (ScientificLiteral.denotes_converted (haccepted l hl)).eq_rounded hfew

def literalElement (s : List Char) : List Char :=
  '<' :: 'a' :: '>' :: (s ++ ['<', '/', 'a', '>'])

theorem literals_solid {ls : List ScientificLiteral} {s : List Char}
    (h : Spaced LiteralText BlankGap ls s) (v : List Char) : Solid (s ++ '<' :: v) :=
  h.solid (fun _ _ _ hl => hl.2 ▸ literal_solid hl.1) _

theorem content_literals {strict : Bool} {levels : Nat} (hpos : 0 < levels)
    {ls : List ScientificLiteral} {s : List Char} (h : Spaced LiteralText BlankGap ls s)
    {u : List Char} {r : Reading Node} (hnumbers : numbers.reading (s ++ '<' :: u) = r)
    (hr : r ≠ .noMatch) :
    (content (below strict levels)).reading (s ++ '<' :: u) = r.map fun node => [node] := by
  subst hnumbers
  have hangle : ¬ ['<'] <+: s ++ '<' :: u := by
    cases h with
    | mk hl _ =>
        obtain ⟨hwf, rfl⟩ := hl
        obtain ⟨c, v, hcv, hc⟩ := literal_start hwf
        rw [hcv]
        intro hp
        obtain rfl := (List.cons_prefix_cons.mp hp).1
        exact absurd hc (by decide)
  exact reading_content_numbers (below_noMatch hpos hangle) hr

theorem clearName_a : Node.ClearName "a" := ⟨by simp, by decide⟩

theorem parse_oversized_literals {g : Grammar} (hlevels : 0 < g.nestingLimit)
    {ls : List ScientificLiteral} {s : List Char} (h : Spaced LiteralText BlankGap ls s)
    (ho : ∃ l ∈ ls, l.Oversized) :
    g.parse (String.ofList (literalElement s)) = .error .oversizedPower := by
  have hnumbers := numbers_oversized h ho ['/', 'a', '>']
  have hcontent : (content (below g.strictCloseTags g.nestingLimit)).reading _ = _ :=
    content_literals hlevels h hnumbers (by simp)
  rw [Reading.map_fault] at hcontent
  have hopening := reading_openTagName clearName_a.open .none (by simp) (s ++ ['<', '/', 'a', '>'])
  have hblanks : optionalBlanks.reading (s ++ ['<', '/', 'a', '>']) =
      .matched (s ++ ['<', '/', 'a', '>']) () := reading_optional_blanks blank_nil (literals_solid h _)
  have htag : (tag g.strictCloseTags (below g.strictCloseTags g.nestingLimit)).reading
      (literalElement s) = .fault .oversizedPower := tag_fault hopening hblanks hcontent
  have hheader : (header (below g.strictCloseTags g.nestingLimit)).reading (literalElement s) =
      .noMatch :=
    header_noMatch_of_name clearName_a.start .none (show '>' ≠ '?' by decide) _
  have hover : g.document.reading (literalElement s) = .fault .oversizedPower := by
    rw [document, documentWithin_succ, documentOver, reading_orElse, reading_orElse, hheader,
      Reading.orElse_noMatch, htag, Reading.orElse_fault]
  exact parse_eq_error.mpr (by rw [String.toList_ofList, hover])

theorem parse_literals {g : Grammar} (hlevels : 0 < g.nestingLimit) {ls : List ScientificLiteral}
    {s : List Char} (h : Spaced LiteralText BlankGap ls s) (haccepted : ∀ l ∈ ls, ¬ l.Oversized) :
    g.parse (String.ofList (literalElement s)) =
      .ok (some (.element "a" [] [.numbers (ls.map ScientificLiteral.converted)])) := by
  have hnumbers := reading_numbers (spaced_converted h haccepted) ['/', 'a', '>']
  have hcontent : (content (below g.strictCloseTags g.nestingLimit)).reading _ = _ :=
    content_literals hlevels h hnumbers (by simp)
  rw [Reading.map_matched] at hcontent
  refine parse_eq_some.mpr ⟨[], ?_, Or.inr blank_nil⟩
  have hread : (documentWithin g.strictCloseTags (g.nestingLimit + 1)).reading _ = _ :=
    complete_element clearName_a (by simp) .none blank_nil (literals_solid h)
      (show '>' ∉ "a".toList by decide) (fun _ => rfl) hcontent
  rw [String.toList_ofList, literalElement, document]
  simpa using hread

/-- A literal is read as a number unless its power of ten, or the count of its bits, is no number
itself; with such a literal there is neither a number nor a tree. The number is infinity or zero
exactly where the value is out of range, if the literal is not so long that its logarithm cannot
be estimated. A text without a refused literal is never refused for a number in it, and an element
with a row of literals is read just when there is none. -/
theorem literals_saturate (g : Grammar) (hlevels : 0 < g.nestingLimit) (c : Cursor) :
    (∀ l : ScientificLiteral, l.Longest c.rest → ¬ l.Oversized → ∃ m : Magnitude,
      scientific.run c = .matched (c.skip l.text.length) (.signed l.negative m) ∧
        (l.text.length < 10 ^ 15 → (m = infinity ↔ 2 ^ 1024 - 2 ^ 970 ≤ l.value.toRat) ∧
          (m = zero ↔ l.value.toRat ≤ 1 / 2 ^ 1075))) ∧
    (∀ l : ScientificLiteral, l.Longest c.rest → l.Oversized →
      scientific.run c = .fault .oversizedPower ∧ numbers.run c = .fault .oversizedPower) ∧
    (¬ HasOversized c.rest → ∀ cause, numbers.run c ≠ .fault cause) ∧
    (∀ text : String, ¬ HasOversized text.toList → g.parse text ≠ .error .oversizedPower) ∧
    ∀ (ls : List ScientificLiteral) (s : List Char), Spaced LiteralText BlankGap ls s →
      ((∃ l ∈ ls, l.Oversized) →
        g.parse (String.ofList (literalElement s)) = .error .oversizedPower) ∧
      ((∀ l ∈ ls, ¬ l.Oversized) → ∃ xs,
        g.parse (String.ofList (literalElement s)) = .ok (some (.element "a" [] [.numbers xs])) ∧
          (s.length < 10 ^ 15 → xs = ls.map ScientificLiteral.rounded)) := by
  refine ⟨fun l hl ho => ?_, fun l hl ho => ⟨?_, numbers_run_oversized hl ho⟩,
    fun hnone cause hf => ?_, fun text hnone hf => ?_,
    fun ls s h => ⟨parse_oversized_literals hlevels h,
      fun haccepted => ⟨_, parse_literals hlevels h haccepted, map_converted_eq h haccepted⟩⟩⟩
  · have hnumber := ScientificLiteral.denotes_converted ho
    refine ⟨l.value.converted?.getD .zero, ?_, fun hlength => ?_⟩
    · rw [scientific_run_longest hl, nearest_eq_ok.mpr hnumber]
      rfl
    · have hfew := ScientificLiteral.estimable_of_length hl.wellFormed hlength
      have hround := l.value.nearest_magnitude
      have hvalue : l.value.converted?.getD .zero = l.value.magnitude :=
        (Binary64.signed.inj (hnumber.eq_rounded hfew)).2
      rw [hvalue]
      exact ⟨hround.eq_infinity_iff, hround.eq_zero_iff⟩
  · rw [scientific_run_longest hl, nearest_eq_error.mpr ⟨ho, rfl⟩]
  · exact hnone (numbers_fault (reading_eq_fault_iff.mp hf)).2
  · exact hnone (parse_oversized hf)

theorem literals_saturate_powers :
    let large : ScientificLiteral := ⟨true, ⟨['1'], []⟩, some ⟨false, ['4', '0', '0']⟩⟩
    let refused : ScientificLiteral := ⟨false, ⟨['1'], []⟩, some ⟨true, List.replicate 309 '9'⟩⟩
    scientific.run (.start large.text) =
        .matched (Cursor.skip 6 (.start large.text)) (.signed true infinity) ∧
      scientific.run (.start refused.text) = .fault .oversizedPower ∧
      numbers.run (.start large.text) ≠ .fault .oversizedPower ∧
      (lenient 9).parse "<a>-1e400</a>" ≠ .error .oversizedPower ∧
      (lenient 9).parse (String.ofList (literalElement (large.text ++ ' ' :: refused.text))) =
        .error .oversizedPower := by
  intro large refused
  have hlarge : large.WellFormed := by decide
  have hrefused : refused.WellFormed := by decide +kernel
  have haccepted : ¬ large.Oversized := by decide +kernel
  have hoversized : refused.Oversized := by decide +kernel
  have hvalue : (2 ^ 1024 - 2 ^ 970 : ℚ) ≤ large.value.toRat := by
    have hbound : powerBound ≤ 10 ^ 400 := by decide +kernel
    have hdecimal : large.value = ⟨1, 400⟩ := rfl
    calc (2 ^ 1024 - 2 ^ 970 : ℚ) = powerBound := cast_powerBound.symm
      _ ≤ ((10 ^ 400 : ℕ) : ℚ) := Nat.cast_le.mpr hbound
      _ = large.value.toRat := by
        simp only [hdecimal, Decimal.toRat, Nat.cast_pow, Nat.cast_ofNat, Nat.cast_one, one_mul,
          zpow_ofNat]
  have hrow : Spaced LiteralText BlankGap [large, refused] (large.text ++ ' ' :: refused.text) := by
    have hnext : Following LiteralText BlankGap [refused] ([' '] ++ (refused.text ++ [])) :=
      .next ⟨by decide, by decide⟩ ⟨hrefused, rfl⟩ (.done blank_nil)
    rw [List.append_nil] at hnext
    exact .mk ⟨hlarge, rfl⟩ hnext
  obtain ⟨hnumber, -, hquiet, hparses, hrows⟩ :=
    literals_saturate (lenient 9) (by decide) (.start large.text)
  obtain ⟨m, hrun, hinfinity⟩ := hnumber large (ScientificLiteral.longest_text hlarge) haccepted
  rw [(hinfinity (by decide)).1.mpr hvalue] at hrun
  obtain ⟨-, hrefusal, -⟩ := literals_saturate (lenient 9) (by decide) (.start refused.text)
  refine ⟨hrun, (hrefusal refused (ScientificLiteral.longest_text hrefused) hoversized).1, ?_, ?_, ?_⟩
  · exact hquiet (fun h => absurd h.lt_length (by decide)) _
  · exact hparses _ fun h => absurd h.lt_length (by decide)
  · exact (hrows _ _ hrow).1 ⟨refused, List.mem_cons_of_mem _ List.mem_cons_self, hoversized⟩

end Grammar

end MeshMarkup
