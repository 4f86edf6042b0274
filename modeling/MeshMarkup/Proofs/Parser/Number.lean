import MeshMarkup.Proofs.Number.Estimate
import MeshMarkup.Proofs.Parser.Digits

namespace MeshMarkup

namespace ScientificLiteral

def rounded (l : ScientificLiteral) : Binary64 := .signed l.negative l.value.magnitude

/-- A significand other than zero with a power of ten, or a count of bits, that is no number. -/
def Oversized (l : ScientificLiteral) : Prop :=
  l.value.significand ≠ 0 ∧ (powerBound ≤ l.value.bits ∨ powerBound ≤ l.value.power.natAbs)

instance (l : ScientificLiteral) : Decidable l.Oversized := inferInstanceAs (Decidable (_ ∧ _))

/-- The number that a literal is read as. It is the exact value rounded, unless there are so many
digits that an estimate of the decimal logarithm may be wrong. -/
inductive Denotes (l : ScientificLiteral) : Binary64 → Prop
  | rounded (hfew : l.value.Estimable) (haccepted : ¬ l.Oversized) : Denotes l l.rounded
  | estimated {m : Magnitude} (hmany : ¬ l.value.Estimable) (h : l.value.converted? = some m) :
      Denotes l (.signed l.negative m)

variable {l : ScientificLiteral} {x : Binary64}

theorem Denotes.ne_nan (h : l.Denotes x) : x ≠ .nan := by
  cases h <;> simp [ScientificLiteral.rounded]

theorem Denotes.eq_rounded (h : l.Denotes x) (hfew : l.value.Estimable) : x = l.rounded := by
  cases h with
  | rounded => rfl
  | estimated hmany _ => exact absurd hfew hmany

theorem denotes_iff : l.Denotes x ↔ ∃ m, l.value.converted? = some m ∧ x = .signed l.negative m := by
  constructor
  · rintro (⟨hfew, haccepted⟩ | ⟨hmany, h⟩)
    · obtain ⟨m, hm⟩ := Option.ne_none_iff_exists'.mp
        (Decimal.converted?_eq_none.not.mpr haccepted)
      exact ⟨m, hm, by rw [ScientificLiteral.rounded, Decimal.converted?_eq hfew hm]⟩
    · exact ⟨_, h, rfl⟩
  · rintro ⟨m, hm, rfl⟩
    by_cases hfew : l.value.Estimable
    · have haccepted : ¬ l.Oversized := by
        intro ho
        rw [Decimal.converted?_eq_none.mpr ho] at hm
        cases hm
      have hnumber := Denotes.rounded hfew haccepted
      rwa [ScientificLiteral.rounded, ← Decimal.converted?_eq hfew hm] at hnumber
    · exact .estimated hfew hm

def converted (l : ScientificLiteral) : Binary64 :=
  .signed l.negative (l.value.converted?.getD .zero)

theorem denotes_converted (h : ¬ l.Oversized) : l.Denotes l.converted := by
  obtain ⟨m, hm⟩ := Option.ne_none_iff_exists'.mp (Decimal.converted?_eq_none.not.mpr h)
  exact denotes_iff.mpr ⟨m, hm, by rw [converted, hm, Option.getD_some]⟩

theorem denotes_of_magnitude (hfew : l.value.Estimable) (hpower : l.value.power.natAbs < powerBound)
    {m : Magnitude} (hm : l.value.magnitude = m) : l.Denotes (.signed l.negative m) := by
  have haccepted : ¬ l.Oversized := by
    rintro ⟨-, hbits | hp⟩
    · have hsmall := Decimal.lt_powerBound (Nat.le_trans hfew (by decide))
      exact Nat.not_le_of_lt hsmall hbits
    · exact Nat.not_le_of_lt hpower hp
  exact hm ▸ .rounded hfew haccepted

end ScientificLiteral

namespace Parser

theorem nearest_eq_ok {l : ScientificLiteral} {x : Binary64} :
    nearest l.negative l.value = .ok x ↔ l.Denotes x := by
  rw [ScientificLiteral.denotes_iff, nearest]
  cases l.value.converted? with
  | none => simp
  | some m => simp [eq_comm]

theorem nearest_eq_error {l : ScientificLiteral} {cause : Fault} :
    nearest l.negative l.value = .error cause ↔ l.Oversized ∧ cause = .oversizedPower := by
  rw [ScientificLiteral.Oversized, ← Decimal.converted?_eq_none, nearest]
  cases l.value.converted? with
  | none => simp [eq_comm]
  | some m => simp

theorem reading_integer {l : IntegerLiteral} (h : l.WellFormed) {rest : List Char}
    (hr : NoDigit rest) : integer.reading (l.text ++ rest) = .matched rest l.value := by
  rw [reading_integer_eq, IntegerLiteral.read?_text h hr]
  simp only [← IntegerLiteral.length_text, List.drop_left]

theorem integer_matched {text rest : List Char} {n : Int}
    (h : integer.reading text = .matched rest n) :
    ∃ l : IntegerLiteral, l.WellFormed ∧ l.value = n ∧ text = l.text ++ rest := by
  rw [reading_integer_eq] at h
  split at h
  · simp at h
  · next l hl =>
      obtain ⟨hwf, u, rfl, -⟩ := IntegerLiteral.text_of_read? hl
      rw [← IntegerLiteral.length_text, List.drop_left, Reading.matched.injEq] at h
      obtain ⟨rfl, hn⟩ := h
      exact ⟨l, hwf, hn, rfl⟩

theorem integer_ne_fault {text : List Char} {cause : Fault} :
    integer.reading text ≠ .fault cause := by
  rw [reading_integer_eq]
  split <;> simp

theorem reading_fraction (text : List Char) : ((token ".").andThen digits).reading text =
    if DecimalLiteral.readFraction text = [] then .noMatch
    else .matched (text.drop (1 + (DecimalLiteral.readFraction text).length))
      (".", (DecimalLiteral.readFraction text).map digitValue) := by
  rw [reading_andThen]
  cases text with
  | nil =>
      have hp : (token ".").reading [] = .noMatch := token_noMatch.mpr (by simp)
      rw [hp]
      rfl
  | cons c text =>
      by_cases hc : c = '.'
      · subst hc
        have hp : (token ".").reading ('.' :: text) = .matched text "." := reading_token "." text
        rw [hp, Reading.bind_matched, reading_digits, DecimalLiteral.readFraction]
        split
        · rfl
        · rw [Nat.add_comm, List.drop_succ_cons, Reading.map_matched]
      · have hp : (token ".").reading (c :: text) = .noMatch := token_noMatch_of_ne rfl hc
        rw [hp, DecimalLiteral.readFraction_cons hc]
        rfl

instance : unsigned.Local := inferInstanceAs (Parser.orElse _ _).Local

theorem reading_unsigned (text : List Char) : unsigned.reading text =
    match DecimalLiteral.read? text with
    | none => .noMatch
    | some m => .matched (text.drop m.length) m.value := by
  rw [unsigned, reading_orElse, reading_map, reading_map, reading_andThen, DecimalLiteral.read?]
  rw [reading_digits]
  cases hrun : digitRun text with
  | nil => simp
  | cons c run =>
      have hne : c :: run ≠ [] := List.cons_ne_nil c run
      simp only [if_neg hne, Reading.bind_matched, reading_fraction]
      cases hf : DecimalLiteral.readFraction (text.drop (c :: run).length) with
      | nil =>
          simp [DecimalLiteral.length, DecimalLiteral.value, ← placeSum_digitValues]
      | cons d fraction =>
          have hfne : d :: fraction ≠ [] := List.cons_ne_nil d fraction
          simp only [if_neg hfne, Reading.map_matched, Reading.orElse_matched, DecimalLiteral.length,
            DecimalLiteral.value, List.isEmpty_cons, Bool.false_eq_true, if_false, List.drop_drop,
            ← List.map_append, placeSum_digitValues, List.length_map, Nat.add_assoc]

theorem unsigned_noMatch_minus (text : List Char) : unsigned.reading ('-' :: text) = .noMatch := by
  have hr : digitRun ('-' :: text) = [] := digitRun_cons_of_not (by decide) text
  rw [reading_unsigned, DecimalLiteral.read?, hr]

instance : decimal.Local := inferInstanceAs (Parser.named _ _ _).Local

theorem reading_decimal (text : List Char) : decimal.reading text =
    match DecimalLiteral.read? text with
    | none => .noMatch
    | some m => .converted (text.drop m.length) (nearest false m.value) := by
  rw [decimal, reading_named, reading_convert, reading_unsigned]
  cases DecimalLiteral.read? text <;> rfl

instance : withExponent.Local := inferInstanceAs (Parser.convert _ _).Local

theorem reading_withExponent (text : List Char) : withExponent.reading text =
    match DecimalLiteral.read? text with
    | none => .noMatch
    | some m =>
      match ScientificLiteral.readExponent? (text.drop m.length) with
      | none => .noMatch
      | some e => .converted (text.drop (m.length + (1 + e.length)))
          (nearest false ⟨m.value.significand, e.value + m.value.power⟩) := by
  rw [withExponent, reading_convert, reading_andThen, reading_andThen, reading_unsigned]
  cases DecimalLiteral.read? text with
  | none => rfl
  | some m =>
      simp only [Reading.bind_matched, ← List.drop_drop (i := 1 + _)]
      generalize text.drop m.length = u
      cases u with
      | nil =>
          have he : (token "e").reading [] = .noMatch := token_noMatch.mpr (by simp)
          rw [he]
          rfl
      | cons c u =>
          by_cases hc : c = 'e'
          · subst hc
            have he : (token "e").reading ('e' :: u) = .matched u "e" := reading_token "e" u
            rw [he, Reading.map_matched, Reading.bind_matched, reading_integer_eq,
              ScientificLiteral.readExponent?]
            cases IntegerLiteral.read? u with
            | none => rfl
            | some e => simp only [Reading.map_matched, Reading.bind_matched, Nat.add_comm 1,
                List.drop_succ_cons]
          · have he : (token "e").reading (c :: u) = .noMatch := token_noMatch_of_ne rfl hc
            rw [he, ScientificLiteral.readExponent?_cons hc]
            rfl

theorem withExponent_noMatch_minus (text : List Char) :
    withExponent.reading ('-' :: text) = .noMatch := by
  rw [withExponent, reading_convert, reading_andThen, reading_andThen, unsigned_noMatch_minus]
  rfl

theorem decimal_noMatch_minus (text : List Char) : decimal.reading ('-' :: text) = .noMatch := by
  rw [decimal, reading_named, reading_convert, unsigned_noMatch_minus]
  rfl

instance (p : Parser Binary64) [p.Local] : (negated p).Local :=
  inferInstanceAs (Parser.map _ _).Local

theorem reading_negated (p : Parser Binary64) [p.Local] (text : List Char) :
    (negated p).reading text =
      if (splitMinus text).1 then (p.reading (splitMinus text).2).map .neg else .noMatch := by
  rw [negated, reading_map, reading_minus]
  cases (splitMinus text).1 with
  | false => rfl
  | true => cases p.reading (splitMinus text).2 <;> rfl

instance : scientific.Local := inferInstanceAs (Parser.named _ _ _).Local

/-- The first two alternatives and the last two differ only in the sign. -/
theorem reading_scientific_sign (text : List Char) : scientific.reading text =
    if (splitMinus text).1 then
      ((withExponent.reading (splitMinus text).2).orElse (decimal.reading (splitMinus text).2)).map
        .neg
    else (withExponent.reading (splitMinus text).2).orElse (decimal.reading (splitMinus text).2) := by
  rw [scientific, reading_named, reading_orElse, reading_orElse, reading_orElse, reading_negated,
    reading_negated]
  cases text with
  | nil => rfl
  | cons c text =>
      by_cases hc : c = '-'
      · subst hc
        rw [withExponent_noMatch_minus, decimal_noMatch_minus, splitMinus]
        dsimp only
        cases withExponent.reading text <;> cases decimal.reading text <;> rfl
      · rw [splitMinus_cons hc]
        cases withExponent.reading (c :: text) <;> rfl

theorem nearest_true (d : Decimal) : nearest true d = (nearest false d).map .neg := by
  rw [nearest, nearest]
  cases d.converted? <;> rfl

theorem reading_scientific_eq (text : List Char) : scientific.reading text =
    match ScientificLiteral.read? text with
    | none => .noMatch
    | some l =>
      match nearest l.negative l.value with
      | .error cause => .fault cause
      | .ok x => .matched (text.drop l.length) x := by
  rw [reading_scientific_sign, reading_withExponent, reading_decimal, ScientificLiteral.read?]
  cases hm : DecimalLiteral.read? (splitMinus text).2 with
  | none => cases hs : (splitMinus text).1 <;> simp [hm]
  | some m =>
      simp only [hm, ScientificLiteral.length, Nat.add_assoc, drop_signLength,
        ScientificLiteral.value]
      cases he : ScientificLiteral.readExponent? ((splitMinus text).2.drop m.length) with
      | none =>
          simp only [Reading.orElse_noMatch, ScientificLiteral.exponentValue,
            ScientificLiteral.exponentLength, Int.zero_add, Nat.add_zero]
          cases hs : (splitMinus text).1 with
          | false => cases h : nearest false m.value <;> rfl
          | true =>
              rw [nearest_true]
              cases h : nearest false m.value <;> rfl
      | some e =>
          simp only [ScientificLiteral.exponentValue, ScientificLiteral.exponentLength]
          cases hs : (splitMinus text).1 with
          | false =>
              cases h : nearest false ⟨m.value.significand, e.value + m.value.power⟩ <;> rfl
          | true =>
              rw [nearest_true]
              cases h : nearest false ⟨m.value.significand, e.value + m.value.power⟩ <;> rfl

theorem reading_scientific {l : ScientificLiteral} (h : l.WellFormed) {x : Binary64}
    (hx : l.Denotes x) {rest : List Char} (hr : Terminates rest) :
    scientific.reading (l.text ++ rest) = .matched rest x := by
  rw [reading_scientific_eq, ScientificLiteral.read?_text h hr]
  simp only [nearest_eq_ok.mpr hx, ← ScientificLiteral.length_text, List.drop_left]

theorem scientific_matched {text rest : List Char} {x : Binary64}
    (h : scientific.reading text = .matched rest x) :
    ∃ l : ScientificLiteral, l.WellFormed ∧ l.Denotes x ∧ text = l.text ++ rest := by
  rw [reading_scientific_eq] at h
  split at h
  · simp at h
  · next l hl =>
      obtain ⟨hwf, u, rfl⟩ := ScientificLiteral.text_of_read? hl
      split at h
      · simp at h
      · next y hy =>
          rw [← ScientificLiteral.length_text, List.drop_left, Reading.matched.injEq] at h
          obtain ⟨rfl, rfl⟩ := h
          exact ⟨l, hwf, nearest_eq_ok.mp hy, rfl⟩

theorem scientific_noMatch {c : Char} {rest : List Char} (hd : c.isDigit = false) (hm : c ≠ '-') :
    scientific.reading (c :: rest) = .noMatch := by
  have hr : digitRun (c :: rest) = [] := by simp [digitRun, hd]
  simp [reading_scientific_eq, ScientificLiteral.read?, DecimalLiteral.read?, splitMinus_cons hm, hr]

end Parser

structure Stops (c : Char) : Prop where
  digit : c.isDigit = false
  minus : c ≠ '-'
  point : c ≠ '.'
  letter : c ≠ 'e'

theorem splitMinus_append {c : Char} (hc : Stops c) (w rest : List Char) :
    splitMinus (w ++ c :: rest) = ((splitMinus w).1, (splitMinus w).2 ++ c :: rest) := by
  cases w with
  | nil => exact splitMinus_cons hc.minus rest
  | cons d w =>
      by_cases h : d = '-'
      · subst h; rfl
      · rw [List.cons_append, splitMinus_cons h, splitMinus_cons h, List.cons_append]

theorem IntegerLiteral.read?_append {c : Char} (hc : Stops c) (w rest : List Char) :
    read? (w ++ c :: rest) = read? w := by
  simp only [read?, splitMinus_append hc, digitRun_append_stop hc.digit]

theorem DecimalLiteral.readFraction_append {c : Char} (hc : Stops c) (w rest : List Char) :
    readFraction (w ++ c :: rest) = readFraction w := by
  cases w with
  | nil => exact readFraction_cons hc.point rest
  | cons d w =>
      by_cases h : d = '.'
      · subst h; exact digitRun_append_stop hc.digit w rest
      · rw [List.cons_append, readFraction_cons h, readFraction_cons h]

theorem DecimalLiteral.read?_append {c : Char} (hc : Stops c) (w rest : List Char) :
    read? (w ++ c :: rest) = read? w := by
  have hl : (digitRun w).length ≤ w.length := (List.takeWhile_prefix _).length_le
  rw [read?, read?, digitRun_append_stop hc.digit]
  split
  · rfl
  · rw [List.drop_append_of_le_length hl, readFraction_append hc]

theorem ScientificLiteral.readExponent?_append {c : Char} (hc : Stops c) (w rest : List Char) :
    readExponent? (w ++ c :: rest) = readExponent? w := by
  cases w with
  | nil => exact readExponent?_cons hc.letter rest
  | cons d w =>
      by_cases h : d = 'e'
      · subst h; exact IntegerLiteral.read?_append hc w rest
      · rw [List.cons_append, readExponent?_cons h, readExponent?_cons h]

theorem ScientificLiteral.read?_append {c : Char} (hc : Stops c) (w rest : List Char) :
    read? (w ++ c :: rest) = read? w := by
  simp only [read?, splitMinus_append hc, DecimalLiteral.read?_append hc]
  cases h : DecimalLiteral.read? (splitMinus w).2 with
  | none => rfl
  | some m =>
      have hl := DecimalLiteral.length_le_of_read? h
      simp only [List.drop_append_of_le_length hl, readExponent?_append hc]

end MeshMarkup
