import MeshMarkup.Proofs.Json.Text
import MeshMarkup.Proofs.Number.Numeral

namespace MeshMarkup

theorem Numeral.head?_natDigits {n : Nat} (h : 0 < n) : (natDigits n).head? ≠ some '0' := by
  induction n using Nat.strongRecOn with
  | _ n ih =>
      rw [natDigits, Nat.toDigits_eq_if (by decide)]
      split
      · next hlt =>
          have hdigit : ∀ d < 10, 0 < d → d.digitChar ≠ '0' := by decide
          rw [List.head?_singleton]
          exact fun he => hdigit n hlt h (Option.some.inj he)
      · next hge =>
          obtain ⟨d, ds, hds⟩ := List.exists_cons_of_ne_nil (natDigits_ne_nil (n / 10))
          have hlead := ih (n / 10) (by omega) (by omega)
          rw [natDigits] at hds
          rw [natDigits, hds] at hlead
          rw [hds]
          exact hlead

def Binary64.isFinite : Binary64 → Bool
  | nan => false
  | signed _ m => m.isFinite

namespace Json

/-- What may follow a value: the end of the text, or a mark of the array or object around it. -/
def Closing (after : List Char) : Prop := ∀ ch ∈ after.head?, ch ∈ [',', ']', '}', '\n']

theorem closing_cons {ch : Char} {after : List Char} (h : ch ∈ [',', ']', '}', '\n']) :
    Closing (ch :: after) := by
  intro d hd
  obtain rfl := Option.some.inj hd
  exact h

theorem Closing.noDigit {after : List Char} (h : Closing after) : NoDigit after := by
  intro ch hch
  have hmem := h ch hch
  simp only [List.mem_cons, List.not_mem_nil, or_false] at hmem
  rcases hmem with rfl | rfl | rfl | rfl <;> decide

structure Whole (ds : List Char) : Prop where
  ne : ds ≠ []
  digits : Digits ds
  lead : ds = ['0'] ∨ ds.head? ≠ some '0'

inductive FractionText : List Char → List Char → Prop
  | absent : FractionText [] []
  | present {ds : List Char} (hne : ds ≠ []) (hd : Digits ds) : FractionText ds ('.' :: ds)

inductive ExponentText : Bool → List Char → List Char → Prop
  | absent : ExponentText false [] []
  | present {mark : Char} {negative : Bool} {sign ds : List Char} (hmark : mark = 'e' ∨ mark = 'E')
      (hsign : (negative, sign) ∈ [(false, []), (false, ['+']), (true, ['-'])]) (hne : ds ≠ [])
      (hd : Digits ds) : ExponentText negative ds (mark :: (sign ++ ds))

inductive Spelled : NumberText → List Char → Prop
  | mk {negative negativeExponent : Bool} {whole fraction exponent f e : List Char}
      (hw : Whole whole) (hf : FractionText fraction f)
      (he : ExponentText negativeExponent exponent e) :
      Spelled ⟨negative, whole, fraction, exponent, negativeExponent,
          signLength negative + whole.length + f.length + e.length⟩
        (Numeral.withSign negative (whole ++ (f ++ e)))

section Texts

variable {t : NumberText} {s fraction exponent f e rest after : List Char} {negative : Bool}

theorem FractionText.length (h : FractionText fraction f) :
    f.length = if fraction.isEmpty then 0 else fraction.length + 1 := by
  cases h with
  | absent => rfl
  | present hne hd => rw [if_neg (by simpa using hne), List.length_cons]

theorem Spelled.length (h : Spelled t s) : t.length = s.length := by
  cases h with
  | mk hw hf he =>
      simp only [length_withSign, List.length_append]
      omega

theorem Spelled.start (h : Spelled t s) :
    ∃ d ds, d.isDigit = true ∧ (s = d :: ds ∨ s = '-' :: d :: ds) := by
  cases h with
  | @mk negative negativeExponent whole fraction exponent f e hw hf he =>
      obtain ⟨d, ds, rfl⟩ := List.exists_cons_of_ne_nil hw.ne
      refine ⟨d, ds ++ (f ++ e), hw.digits d List.mem_cons_self, ?_⟩
      cases negative with
      | false => exact Or.inl rfl
      | true => exact Or.inr rfl

theorem wholeDigits_append {whole : List Char} (hw : Whole whole) (hrest : NoDigit rest) :
    wholeDigits (whole ++ rest) = whole := by
  rcases hw.lead with rfl | hlead
  · rfl
  · obtain ⟨d, ds, rfl⟩ := List.exists_cons_of_ne_nil hw.ne
    rw [List.cons_append, wholeDigits]
    · exact digitRun_append hw.digits hrest
    · intro rest he
      exact hlead (congrArg some (List.cons.inj he).1)

theorem fractionDigits_append (hf : FractionText fraction f)
    (hrest : ∀ ch ∈ rest.head?, ch.isDigit = false ∧ ch ≠ '.') :
    fractionDigits (f ++ rest) = fraction := by
  cases hf with
  | absent =>
      rw [List.nil_append, fractionDigits]
      rintro tail rfl
      exact (hrest '.' rfl).2 rfl
  | present hne hd => exact digitRun_append hd fun ch hch => (hrest ch hch).1

theorem ExponentText.stops (he : ExponentText negative exponent e) (h : Closing after) :
    ∀ ch ∈ (e ++ after).head?, ch.isDigit = false ∧ ch ≠ '.' := by
  cases he with
  | absent =>
      intro ch hch
      have hmem := h ch hch
      simp only [List.mem_cons, List.not_mem_nil, or_false] at hmem
      rcases hmem with rfl | rfl | rfl | rfl <;> decide
  | present hmark hsign hne hd =>
      intro ch hch
      obtain rfl := Option.some.inj hch
      rcases hmark with rfl | rfl <;> decide

theorem exponentPart_append (he : ExponentText negative exponent e) (h : Closing after) :
    ∃ markLength, exponentPart (e ++ after) = (negative, exponent, markLength) ∧
      e.length = if exponent.isEmpty then 0 else exponent.length + markLength := by
  cases he with
  | absent =>
      refine ⟨0, ?_, rfl⟩
      cases after with
      | nil => rfl
      | cons ch after =>
          have hmem := h ch rfl
          simp only [List.mem_cons, List.not_mem_nil, or_false] at hmem
          rcases hmem with rfl | rfl | rfl | rfl <;> rfl
  | present hmark hsign hne hd =>
      have hrun : digitsOf (exponent ++ after) = exponent := digitRun_append hd h.noDigit
      simp only [List.mem_cons, Prod.mk.injEq, List.not_mem_nil, or_false] at hsign
      rcases hsign with ⟨rfl, rfl⟩ | ⟨rfl, rfl⟩ | ⟨rfl, rfl⟩
      · obtain ⟨d, ds, rfl⟩ := List.exists_cons_of_ne_nil hne
        have hplus : d ≠ '+' := ne_of_isDigit (hd d List.mem_cons_self) rfl
        have hminus : d ≠ '-' := ne_of_isDigit (hd d List.mem_cons_self) rfl
        refine ⟨1, ?_, by simp⟩
        rw [List.cons_append] at hrun
        rcases hmark with rfl | rfl <;> simp [exponentPart, hrun, hplus, hminus]
      · refine ⟨2, ?_, by simp [hne]⟩
        rcases hmark with rfl | rfl <;> exact congrArg (fun run => (false, run, 2)) hrun
      · refine ⟨2, ?_, by simp [hne]⟩
        rcases hmark with rfl | rfl <;> exact congrArg (fun run => (true, run, 2)) hrun

theorem numberText?_append (hs : Spelled t s) (h : Closing after) :
    numberText? (s ++ after) = some t := by
  cases hs with
  | @mk negative negativeExponent whole fraction exponent f e hw hf he =>
      have hsign : splitSign (Numeral.withSign negative (whole ++ (f ++ e)) ++ after) =
          (negative, whole ++ (f ++ (e ++ after))) := by
        rw [withSign_append, List.append_assoc, List.append_assoc]
        exact splitMinus_withSign (digits_append_ne_minus hw.ne hw.digits _)
      have hstop : NoDigit (f ++ (e ++ after)) := by
        cases hf with
        | absent => exact fun ch hch => (he.stops h ch hch).1
        | present hne hd => exact noDigit_cons.mpr rfl
      obtain ⟨markLength, hexponent, hlength⟩ := exponentPart_append he h
      simp only [numberText?, hsign, wholeDigits_append hw hstop, List.drop_left,
        fractionDigits_append hf (he.stops h), ← hf.length, hexponent, ← hlength,
        List.isEmpty_eq_false_iff.mpr hw.ne, Bool.false_eq_true, if_false]
      rfl

theorem readNumber_spelled {c : Cursor} {v : Json} (hs : Spelled t s) (hv : t.value = .ok v)
    (hc : c.rest = s ++ after) (h : Closing after) : Gives (readNumber c) v after := by
  refine ⟨c.skip t.length, ?_, rest_skip_of_length hc hs.length.symm⟩
  simp only [readNumber, hc, numberText?_append hs h, hv]

end Texts

theorem whole_natDigits (n : Nat) : Whole (Numeral.natDigits n) := by
  refine ⟨Numeral.natDigits_ne_nil n, Numeral.digits_natDigits n, ?_⟩
  rcases Nat.eq_zero_or_pos n with rfl | hpos
  · exact Or.inl rfl
  · exact Or.inr (Numeral.head?_natDigits hpos)

theorem exists_spelled_integer (n : Int) : ∃ t, Spelled t (Numeral.intDigits n) ∧
    (n.natAbs < 10 ^ integerDigitLimit → t.value = .ok (.integer n)) := by
  have hspelled : Spelled _ (Numeral.withSign (decide (n < 0)) _) :=
    .mk (whole_natDigits n.natAbs) .absent .absent
  have htext : Numeral.withSign (decide (n < 0)) (Numeral.natDigits n.natAbs ++ ([] ++ [])) =
      Numeral.intDigits n := by
    by_cases h : n < 0 <;> simp [Numeral.intDigits, Numeral.withSign, h]
  rw [htext] at hspelled
  refine ⟨_, hspelled, fun hn => ?_⟩
  have hlen : ¬ integerDigitLimit < (Numeral.natDigits n.natAbs).length := by
    rw [Nat.not_lt]
    exact (Nat.length_toDigits_le_iff (by decide) (by decide)).mpr hn
  have hvalue : (if decide (n < 0) = true then -(n.natAbs : Int) else n.natAbs) = n := by
    by_cases hneg : n < 0 <;> simp only [hneg, decide_true, decide_false, if_true,
      Bool.false_eq_true, if_false] <;> omega
  simp only [NumberText.value, List.isEmpty_nil, Bool.and_true, if_true, hlen, if_false,
    Numeral.placeValue_natDigits, hvalue]

def NumberText.decimal (t : NumberText) : Decimal :=
  ⟨Numeral.placeValue (t.whole ++ t.fraction), t.exponentValue - t.fraction.length⟩

theorem NumberText.value_eq {t : NumberText} (h : t.fraction ≠ [] ∨ t.exponent ≠ []) :
    t.value = .ok (.number (.signed t.negative t.decimal.magnitude)) := by
  have hparts : (t.fraction.isEmpty && t.exponent.isEmpty) = false := by
    rw [Bool.and_eq_false_iff, List.isEmpty_eq_false_iff, List.isEmpty_eq_false_iff]
    exact h
  rw [NumberText.value, hparts]
  rfl

theorem placeValue_nil : Numeral.placeValue [] = 0 := rfl

section Decimals

variable (negative : Bool) {ds : List Char} (hne : ds ≠ []) (hd : Digits ds)
  (hlead : ds.head? ≠ some '0') (power : Int)
include hne hd hlead

theorem exists_spelled_positional :
    ∃ t, Spelled t (Numeral.withSign negative (Numeral.positional ds (ds.length + power))) ∧
      t.value = .ok (.number (.signed negative
        (⟨Numeral.placeValue ds, power⟩ : Decimal).magnitude)) := by
  obtain ⟨l, h⟩ := pointed_positional hne hd power
  have hwhole : Whole l.whole := by
    refine ⟨h.wellFormed.whole_ne, h.wellFormed.whole, ?_⟩
    rcases h.lead with hzero | hsame
    · exact Or.inl hzero
    · exact Or.inr (hsame ▸ hlead)
  have hspelled : Spelled _ (Numeral.withSign negative _) :=
    .mk hwhole (.present h.fraction_ne h.wellFormed.fraction) .absent
  rw [List.append_nil, h.text_eq] at hspelled
  refine ⟨_, hspelled, ?_⟩
  rw [NumberText.value_eq (Or.inl h.fraction_ne), ← h.value.magnitude]
  simp [NumberText.decimal, NumberText.exponentValue, DecimalLiteral.value, placeValue_nil]

theorem exists_spelled_scientific :
    ∃ t, Spelled t (Numeral.withSign negative
        (Numeral.scientific true ds (ds.length - 1 + power))) ∧
      t.value = .ok (.number (.signed negative
        (⟨Numeral.placeValue ds, power⟩ : Decimal).magnitude)) := by
  obtain ⟨es, hes, hdigits, hvalue, htext⟩ := exists_exponentDigits (ds.length - 1 + power)
  have hpos : 0 < ds.length := List.length_pos_iff.mpr hne
  have hwhole : Whole (ds.take 1) := by
    refine ⟨by simp [hne], hd.take 1, Or.inr ?_⟩
    rwa [List.head?_take, if_neg (by decide)]
  have hfraction : ∃ f, FractionText (ds.drop 1) f ∧
      Numeral.scientific true ds (ds.length - 1 + power) =
        ds.take 1 ++ (f ++ 'e' :: Numeral.exponentDigits true (ds.length - 1 + power)) := by
    rw [Numeral.scientific]
    cases hdrop : ds.drop 1 with
    | nil => exact ⟨[], .absent, by simp⟩
    | cons c rest =>
        refine ⟨_, .present (List.cons_ne_nil c rest) (hdrop ▸ hd.drop 1), by simp⟩
  obtain ⟨f, hf, hscientific⟩ := hfraction
  have hexponent : ExponentText (decide ((ds.length : Int) - 1 + power < 0)) es
      ('e' :: Numeral.exponentDigits true (ds.length - 1 + power)) := by
    rw [htext true]
    by_cases hneg : (ds.length : Int) - 1 + power < 0
    · rw [if_pos hneg, decide_eq_true hneg]
      exact .present (Or.inl rfl) (by simp : (true, ['-']) ∈ _) hes hdigits
    · rw [if_neg hneg, decide_eq_false hneg]
      exact .present (Or.inl rfl) (by simp : (false, ['+']) ∈ _) hes hdigits
  have hspelled : Spelled _ (Numeral.withSign negative _) := .mk hwhole hf hexponent
  rw [← hscientific] at hspelled
  refine ⟨_, hspelled, ?_⟩
  rw [NumberText.value_eq (Or.inr hes)]
  have hexponentValue : (if decide ((ds.length : Int) - 1 + power < 0) = true then
      -(Numeral.placeValue es : Int) else Numeral.placeValue es) = ds.length - 1 + power := by
    rw [hvalue]
    simp only [decide_eq_true_eq]
    split <;> omega
  have hpower : (ds.length : Int) - 1 + power - (ds.length - 1 : Nat) = power := by omega
  simp only [NumberText.decimal, NumberText.exponentValue, List.take_append_drop, List.length_drop,
    hexponentValue, hpower]

end Decimals

theorem magnitude_of_zero (power : Int) : (⟨0, power⟩ : Decimal).magnitude = .zero := by
  rw [Decimal.magnitude_eq, Decimal.numerator, Nat.zero_mul, Nat.zero_mul]
  exact Magnitude.ofQuotient_of_lt (by simpa using Decimal.denominator_pos _)

theorem exists_spelled_magnitude (negative : Bool) (m : Magnitude) :
    ∃ t, Spelled t (Numeral.withSign negative (Numeral.magnitudeText true m)) ∧
      t.value = .ok (.number (.signed negative m)) := by
  rw [Numeral.magnitudeText]
  split
  · next hzero =>
      have hspelled : Spelled _ (Numeral.withSign negative _) :=
        .mk ⟨by simp, by decide, Or.inl rfl⟩ (.present (List.cons_ne_nil '0' []) (by decide)) .absent
      refine ⟨_, hspelled, ?_⟩
      rw [NumberText.value_eq (Or.inl (by simp)), hzero]
      exact congrArg (fun m => Except.ok (Json.number (.signed negative m))) (magnitude_of_zero _)
  · next hzero =>
      have hmagnitude := Decimal.magnitude_shortest m
      generalize Decimal.shortest m = d at hmagnitude
      obtain ⟨significand, power⟩ := d
      have hpos : 0 < significand := by
        refine Nat.pos_of_ne_zero fun h => hzero ?_
        rw [← hmagnitude, h, magnitude_of_zero]
      have hne := Numeral.natDigits_ne_nil significand
      have hd := Numeral.digits_natDigits significand
      have hlead := Numeral.head?_natDigits hpos
      have hpositional := exists_spelled_positional negative hne hd hlead power
      have hscientific := exists_spelled_scientific negative hne hd hlead power
      rw [Numeral.placeValue_natDigits, hmagnitude] at hpositional hscientific
      simp only [Numeral.decimalText]
      split
      · have hwhole : ((Numeral.natDigits significand).length : Int) - 1 + power + 1 =
            (Numeral.natDigits significand).length + power := by omega
        rwa [hwhole]
      · exact hscientific

theorem exists_spelled_number {x : Binary64} (h : x.isFinite = true) :
    ∃ t, Spelled t (Numeral.dataText Numeral.dataNames x) ∧ t.value = .ok (.number x) := by
  cases x with
  | nan => nomatch h
  | signed negative m =>
      have hm : m.isFinite = true := h
      rw [Numeral.dataText, if_pos hm]
      exact exists_spelled_magnitude negative m

inductive NumberName : Binary64 → String → Prop
  | nan : NumberName .nan "NaN"
  | infinity : NumberName .infinity "Infinity"
  | negative : NumberName Binary64.infinity.neg "-Infinity"

theorem exists_numberName {x : Binary64} (h : x.isFinite = false) :
    ∃ name, NumberName x name ∧ Numeral.dataText Numeral.dataNames x = name.toList := by
  cases x with
  | nan => exact ⟨_, .nan, rfl⟩
  | signed negative m =>
      have hm : m.isFinite = false := h
      rw [Numeral.dataText, hm, Magnitude.eq_infinity hm]
      cases negative with
      | false => exact ⟨_, .infinity, rfl⟩
      | true => exact ⟨_, .negative, rfl⟩

end Json

end MeshMarkup
