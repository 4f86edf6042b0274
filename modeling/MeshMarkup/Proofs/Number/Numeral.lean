import MeshMarkup.Proofs.Number.Rounding
import MeshMarkup.Proofs.Parser.Number

namespace MeshMarkup

namespace Binary64

/-- The same number without a negative zero. -/
def unsignedZero : Binary64 → Binary64
  | nan => nan
  | signed negative m => signed (negative && m ≠ .zero) m

theorem sameNumber_unsignedZero {x : Binary64} (h : x ≠ nan) :
    x.sameNumber x.unsignedZero = true := by
  cases x with
  | nan => exact absurd rfl h
  | signed negative m =>
      cases negative with
      | false => simp [unsignedZero, sameNumber, position?]
      | true =>
          by_cases hm : m = .zero
          · subst hm; rfl
          · simp [unsignedZero, sameNumber, position?, hm]

end Binary64

namespace Numeral

theorem digits_natDigits (n : Nat) : Digits (natDigits n) :=
  fun _ hc => Nat.isDigit_of_mem_toDigits (by decide) (by decide) hc

theorem natDigits_ne_nil (n : Nat) : natDigits n ≠ [] := Nat.toDigits_ne_nil

theorem placeValue_natDigits (n : Nat) : placeValue (natDigits n) = n :=
  Nat.ofDigitChars_ten_toDigits

theorem placeValue_zeros_append (n : Nat) (ds : List Char) :
    placeValue (List.replicate n '0' ++ ds) = placeValue ds := by
  rw [placeValue, Nat.ofDigitChars_append, Nat.ofDigitChars_replicate_zero, Nat.mul_zero, placeValue]

theorem placeValue_append_zeros (n : Nat) (ds : List Char) :
    placeValue (ds ++ List.replicate n '0') = placeValue ds * 10 ^ n := by
  rw [placeValue, Nat.ofDigitChars_append, Nat.ofDigitChars_replicate_zero, Nat.mul_comm, placeValue]

theorem digits_zeros (n : Nat) : Digits (List.replicate n '0') := by
  intro c hc
  rw [List.eq_of_mem_replicate hc]
  decide

end Numeral

theorem Digits.append {ds es : List Char} (hd : Digits ds) (he : Digits es) : Digits (ds ++ es) := by
  intro c hc
  rcases List.mem_append.mp hc with h | h
  · exact hd c h
  · exact he c h

theorem Digits.take {ds : List Char} (h : Digits ds) (n : Nat) : Digits (ds.take n) :=
  fun c hc => h c (List.mem_of_mem_take hc)

theorem Digits.drop {ds : List Char} (h : Digits ds) (n : Nat) : Digits (ds.drop n) :=
  fun c hc => h c (List.mem_of_mem_drop hc)

theorem exists_intDigits_literal (n : Int) : ∃ l : IntegerLiteral,
    l.WellFormed ∧ l.text = Numeral.intDigits n ∧ l.value = n := by
  refine ⟨⟨decide (n < 0), Numeral.natDigits n.natAbs⟩,
    ⟨Numeral.natDigits_ne_nil _, Numeral.digits_natDigits _⟩, ?_, ?_⟩
  · by_cases h : n < 0 <;> simp [IntegerLiteral.text, Numeral.withSign, Numeral.intDigits, h]
  · by_cases h : n < 0 <;>
      simp only [IntegerLiteral.value, Numeral.placeValue_natDigits, h, decide_true,
        decide_false, if_true, if_false, Bool.false_eq_true] <;> omega

/-- The digits of an exponent, a single one being padded, do not depend on its sign. -/
theorem exists_exponentDigits (power : Int) : ∃ ds, ds ≠ [] ∧ Digits ds ∧
    Numeral.placeValue ds = power.natAbs ∧ ∀ plus, Numeral.exponentDigits plus power =
      if power < 0 then '-' :: ds else if plus then '+' :: ds else ds := by
  by_cases hlen : (Numeral.natDigits power.natAbs).length < 2
  · refine ⟨'0' :: Numeral.natDigits power.natAbs, by simp,
      (Numeral.digits_zeros 1).append (Numeral.digits_natDigits _), ?_, ?_⟩
    · exact (Numeral.placeValue_zeros_append 1 _).trans (Numeral.placeValue_natDigits _)
    · intro plus
      simp only [Numeral.exponentDigits, hlen, if_true]
  · refine ⟨Numeral.natDigits power.natAbs, Numeral.natDigits_ne_nil _,
      Numeral.digits_natDigits _, Numeral.placeValue_natDigits _, ?_⟩
    intro plus
    simp only [Numeral.exponentDigits, hlen, if_false]

theorem exists_exponentDigits_literal (power : Int) : ∃ l : IntegerLiteral,
    l.WellFormed ∧ l.text = Numeral.exponentDigits false power ∧ l.value = power := by
  obtain ⟨ds, hne, hd, hv, ht⟩ := exists_exponentDigits power
  refine ⟨⟨decide (power < 0), ds⟩, ⟨hne, hd⟩, ?_, ?_⟩
  · rw [ht]
    by_cases h : power < 0 <;> simp [IntegerLiteral.text, Numeral.withSign, h]
  · by_cases h : power < 0 <;>
      simp only [IntegerLiteral.value, hv, h, decide_true, decide_false, if_true, if_false,
        Bool.false_eq_true] <;> omega

/-- The same decimal, or the one with its zeros and another one written out. -/
def Decimal.WrittenOut (d e : Decimal) : Prop :=
  e = d ∨ ∃ n : Nat, d.power = n ∧ e = ⟨d.significand * 10 ^ (n + 1), -1⟩

theorem Decimal.WrittenOut.magnitude {d e : Decimal} (h : d.WrittenOut e) :
    e.magnitude = d.magnitude := by
  rcases h with rfl | ⟨n, hn, rfl⟩
  · rfl
  · refine (Decimal.magnitude_shift _ (n + 1) _).trans ?_
    rw [← show d.power = -1 + (n + 1 : Nat) by omega]

theorem Decimal.WrittenOut.accepted {m : Magnitude} {e : Decimal}
    (h : (Decimal.shortest m).WrittenOut e) : e.Estimable ∧ e.power.natAbs < powerBound := by
  have hlt := Decimal.significand_shortest_lt m
  rcases h with rfl | ⟨n, hn, rfl⟩
  · exact ⟨Decimal.estimable_of_lt hlt (by decide), Decimal.power_shortest_lt m⟩
  · refine ⟨?_, Decimal.lt_powerBound (show 1 ≤ 2 ^ 53 by decide)⟩
    have hp := Decimal.power_shortest_le m
    have hten : 10 ^ (n + 1) ≤ (2 ^ 4) ^ 400 := by
      calc 10 ^ (n + 1) ≤ 10 ^ 400 := Nat.pow_le_pow_right (by decide) (by omega)
        _ ≤ (2 ^ 4) ^ 400 := Nat.pow_le_pow_left (by decide) 400
    rw [← Nat.pow_mul] at hten
    refine Decimal.estimable_of_lt (k := 7000 + 4 * 400) ?_ (by norm_num)
    rw [Nat.pow_add 2]
    exact Nat.mul_lt_mul_of_lt_of_le hlt hten (Nat.two_pow_pos _)

/-- A literal for an unsigned text, with the value of a decimal. -/
structure Spells (text : List Char) (d : Decimal) (l : ScientificLiteral) : Prop where
  wellFormed : l.WellFormed
  text_eq : l.mantissa.text ++ ScientificLiteral.exponentText l.exponent = text
  value : d.WrittenOut l.value

theorem DecimalLiteral.text_eq {l : DecimalLiteral} (h : l.fraction ≠ []) :
    l.text = l.whole ++ '.' :: l.fraction := by
  rw [text, if_neg (by simpa using h)]

/-- A text split at its point. It has the value of a decimal with given digits, and it starts with
a zero alone or as the digits do. -/
structure Pointed (text ds : List Char) (power : Int) (l : DecimalLiteral) : Prop where
  wellFormed : l.WellFormed
  fraction_ne : l.fraction ≠ []
  text_eq : l.whole ++ '.' :: l.fraction = text
  value : (⟨Numeral.placeValue ds, power⟩ : Decimal).WrittenOut l.value
  lead : l.whole = ['0'] ∨ l.whole.head? = ds.head?

section Positional

variable {ds : List Char} (hne : ds ≠ []) (hd : Digits ds)
include hne hd

theorem pointed_leading_zeros (n : Nat) :
    ∃ l, Pointed (['0', '.'] ++ List.replicate n '0' ++ ds) ds (-(n + ds.length : Nat)) l := by
  have hval := Numeral.placeValue_zeros_append (1 + n) ds
  rw [← List.replicate_append_replicate, List.append_assoc] at hval
  have hv : (⟨['0'], List.replicate n '0' ++ ds⟩ : DecimalLiteral).value =
      ⟨Numeral.placeValue ds, -(n + ds.length : Nat)⟩ := by
    rw [DecimalLiteral.value, show ['0'] = List.replicate 1 '0' from rfl, hval, List.length_append,
      List.length_replicate]
  exact ⟨_, ⟨by simp, Numeral.digits_zeros 1, (Numeral.digits_zeros n).append hd⟩, by simp [hne],
    by simp, Or.inl hv, Or.inl rfl⟩

theorem pointed_trailing_zeros (n : Nat) :
    ∃ l, Pointed (ds ++ List.replicate n '0' ++ ['.', '0']) ds n l := by
  have hval := Numeral.placeValue_append_zeros (n + 1) ds
  rw [← List.replicate_append_replicate, ← List.append_assoc] at hval
  have hv : (⟨ds ++ List.replicate n '0', ['0']⟩ : DecimalLiteral).value =
      ⟨Numeral.placeValue ds * 10 ^ (n + 1), -1⟩ := by
    rw [DecimalLiteral.value, show ['0'] = List.replicate 1 '0' from rfl, hval]
    rfl
  refine ⟨_, ⟨by simp [hne], hd.append (Numeral.digits_zeros n), Numeral.digits_zeros 1⟩, by simp,
    rfl, Or.inr ⟨n, rfl, hv⟩, Or.inr (List.head?_append_of_ne_nil _ hne)⟩

theorem pointed_split {n : Nat} (hpos : 0 < n) (hn : n < ds.length) :
    ∃ l, Pointed (ds.take n ++ '.' :: ds.drop n) ds (-(ds.length - n : Nat)) l := by
  have hv : (⟨ds.take n, ds.drop n⟩ : DecimalLiteral).value =
      ⟨Numeral.placeValue ds, -(ds.length - n : Nat)⟩ := by
    rw [DecimalLiteral.value, List.take_append_drop, List.length_drop]
  refine ⟨_, ⟨?_, hd.take n, hd.drop n⟩, by simpa using hn, rfl, Or.inl hv,
    Or.inr (by rw [List.head?_take, if_neg (by omega)])⟩
  simp only [ne_eq, List.take_eq_nil_iff, hne, or_false]
  omega

theorem pointed_positional (power : Int) :
    ∃ l, Pointed (Numeral.positional ds (ds.length + power)) ds power l := by
  have hpos : 0 < ds.length := List.length_pos_iff.mpr hne
  rw [Numeral.positional]
  split
  · obtain ⟨l, h⟩ := pointed_leading_zeros hne hd (ds.length + power).natAbs
    have hp : -(((ds.length + power).natAbs + ds.length : Nat) : Int) = power := by omega
    rw [hp] at h
    exact ⟨l, h⟩
  · split
    · obtain ⟨l, h⟩ := pointed_trailing_zeros hne hd ((ds.length + power).natAbs - ds.length)
      have hp : (((ds.length + power).natAbs - ds.length : Nat) : Int) = power := by omega
      rw [hp] at h
      exact ⟨l, h⟩
    · obtain ⟨l, h⟩ := pointed_split hne hd (n := (ds.length + power).natAbs) (by omega) (by omega)
      have hp : -((ds.length - (ds.length + power).natAbs : Nat) : Int) = power := by omega
      rw [hp] at h
      exact ⟨l, h⟩

theorem spells_positional (power : Int) :
    ∃ l, Spells (Numeral.positional ds (ds.length + power)) ⟨Numeral.placeValue ds, power⟩ l := by
  obtain ⟨l, h⟩ := pointed_positional hne hd power
  have hv : (⟨false, l, none⟩ : ScientificLiteral).value = l.value := by
    simp [ScientificLiteral.value, ScientificLiteral.exponentValue]
  refine ⟨⟨false, l, none⟩, ⟨h.wellFormed, by simp⟩, ?_, hv ▸ h.value⟩
  rw [DecimalLiteral.text_eq h.fraction_ne, h.text_eq]
  simp [ScientificLiteral.exponentText]

end Positional

theorem spells_scientific {ds : List Char} (hne : ds ≠ []) (hd : Digits ds) (power : Int) :
    ∃ l, Spells (Numeral.scientific false ds (ds.length - 1 + power))
      ⟨Numeral.placeValue ds, power⟩ l := by
  obtain ⟨e, hwf, htext, hvalue⟩ := exists_exponentDigits_literal (ds.length - 1 + power)
  have hpos : 0 < ds.length := List.length_pos_iff.mpr hne
  have hv : (⟨false, ⟨ds.take 1, ds.drop 1⟩, some e⟩ : ScientificLiteral).value =
      ⟨Numeral.placeValue ds, power⟩ := by
    simp only [ScientificLiteral.value, DecimalLiteral.value, ScientificLiteral.exponentValue,
      hvalue, List.take_append_drop, List.length_drop, Decimal.mk.injEq, true_and]
    omega
  refine ⟨_, ⟨⟨?_, hd.take 1, hd.drop 1⟩, by simpa using hwf⟩, ?_, Or.inl hv⟩
  · simp [hne]
  · rw [Numeral.scientific, ← htext]
    cases hdrop : ds.drop 1 with
    | nil => simp [DecimalLiteral.text, ScientificLiteral.exponentText]
    | cons c fraction => simp [DecimalLiteral.text, ScientificLiteral.exponentText]

theorem spells_decimalText (d : Decimal) : ∃ l, Spells (Numeral.decimalText false d) d l := by
  have hne := Numeral.natDigits_ne_nil d.significand
  have hd := Numeral.digits_natDigits d.significand
  have hpositional := spells_positional hne hd d.power
  have hscientific := spells_scientific hne hd d.power
  rw [Numeral.placeValue_natDigits] at hpositional hscientific
  rw [Numeral.decimalText]
  split
  · have hlead : ((Numeral.natDigits d.significand).length : Int) - 1 + d.power + 1 =
        (Numeral.natDigits d.significand).length + d.power := by omega
    rw [hlead]
    exact hpositional
  · exact hscientific

theorem Magnitude.eq_infinity {m : Magnitude} (h : m.isFinite = false) : m = infinity := by
  have hle : infinityRank ≤ m.rank := by simpa [isFinite] using h
  rw [← ofRank_rank m, ofRank_of_le hle]

theorem exists_infinity_literal (negative : Bool) : ∃ l : ScientificLiteral,
    l.WellFormed ∧ l.text = Numeral.withSign negative Numeral.infiniteLiteral ∧
      l.Denotes (.signed negative .infinity) := by
  refine ⟨⟨negative, ⟨['1'], []⟩, some ⟨false, ['4', '0', '0']⟩⟩, ?_, rfl, ?_⟩
  · refine ⟨⟨by simp, by simp [Digits], by simp [Digits]⟩, ?_⟩
    simp only [Option.mem_def, Option.some.injEq, forall_eq']
    exact ⟨by simp, by simp [Digits]⟩
  · have hv : (⟨negative, ⟨['1'], []⟩, some ⟨false, ['4', '0', '0']⟩⟩ : ScientificLiteral).value =
        ⟨1, .ofNat 400⟩ := rfl
    refine ScientificLiteral.denotes_of_magnitude ?_ ?_ ?_
    · rw [hv]
      exact Decimal.estimable_of_lt (k := 1) (by decide) (by decide)
    · rw [hv]
      exact Decimal.lt_powerBound (by decide)
    · rw [hv]
      simp [Decimal.magnitude, Magnitude.ofScaled]

theorem exists_whole_literal (negative : Bool) {m : Magnitude} (h : m.isWhole = true) :
    ∃ l : ScientificLiteral, l.WellFormed ∧
      l.text = Numeral.withSign negative (Numeral.natDigits m.floor) ∧
        l.Denotes (.signed negative m) := by
  have hv : (⟨negative, ⟨Numeral.natDigits m.floor, []⟩, none⟩ : ScientificLiteral).value =
      ⟨m.floor, 0⟩ := by
    simp [ScientificLiteral.value, DecimalLiteral.value, ScientificLiteral.exponentValue,
      Numeral.placeValue_natDigits]
  refine ⟨⟨negative, ⟨Numeral.natDigits m.floor, []⟩, none⟩, ?_, ?_,
    ScientificLiteral.denotes_of_magnitude ?_ ?_ ?_⟩
  · exact ⟨⟨Numeral.natDigits_ne_nil _, Numeral.digits_natDigits _, by simp [Digits]⟩, by simp⟩
  · simp [ScientificLiteral.text, DecimalLiteral.text, ScientificLiteral.exponentText]
  · rw [hv]
    have hfloor : m.floor < 2 ^ 2099 := Nat.lt_of_le_of_lt (Nat.div_le_self _ _) m.units_lt
    exact Decimal.estimable_of_lt hfloor (by decide)
  · rw [hv]
    exact Decimal.lt_powerBound (Nat.zero_le _)
  · rw [hv, Decimal.magnitude_whole h]

theorem exists_shortest_literal (negative : Bool) (m : Magnitude) : ∃ l : ScientificLiteral,
    l.WellFormed ∧
      l.text = Numeral.withSign negative (Numeral.decimalText false (Decimal.shortest m)) ∧
        l.Denotes (.signed negative m) := by
  obtain ⟨l, h⟩ := spells_decimalText (Decimal.shortest m)
  refine ⟨⟨negative, l.mantissa, l.exponent⟩, ⟨h.wellFormed.mantissa, h.wellFormed.exponent⟩,
    congrArg _ h.text_eq, ?_⟩
  obtain ⟨hfew, hpower⟩ := h.value.accepted
  have hm := h.value.magnitude.trans (Decimal.magnitude_shortest m)
  exact ScientificLiteral.denotes_of_magnitude (l := ⟨negative, l.mantissa, l.exponent⟩) hfew hpower hm

theorem Magnitude.units_zero : zero.units = 0 := by
  simp [units, zero, ofRank]

theorem Magnitude.isFinite_zero : zero.isFinite = true := by decide

theorem Magnitude.isWhole_zero : zero.isWhole = true := by
  rw [isWhole, units_zero, isFinite_zero, Nat.zero_mod]
  rfl

theorem exists_document_literal {x : Binary64} {text : List Char}
    (h : Numeral.documentText? x = some text) : ∃ l : ScientificLiteral,
      l.WellFormed ∧ l.text = text ∧ l.Denotes x.unsignedZero := by
  cases x with
  | nan => simp [Numeral.documentText?] at h
  | signed negative m =>
      simp only [Numeral.documentText?, Option.some.injEq] at h
      subst h
      by_cases hz : m = .zero
      · subst hz
        have hfloor : Magnitude.zero.floor < Numeral.wholeBound := by
          rw [Magnitude.floor, Magnitude.units_zero, Nat.zero_div]
          decide
        simpa [Magnitude.isFinite_zero, Magnitude.isWhole_zero, hfloor, Binary64.unsignedZero]
          using exists_whole_literal false Magnitude.isWhole_zero
      have hsign : (negative && decide (m ≠ .zero)) = negative := by simp [hz]
      simp only [Binary64.unsignedZero, hsign]
      split
      · next hinf =>
          rw [Magnitude.eq_infinity (m := m) (by simpa using hinf)]
          exact exists_infinity_literal negative
      · split
        · next hw =>
            simp only [Bool.and_eq_true] at hw
            exact exists_whole_literal negative hw.1
        · rw [Numeral.magnitudeText, if_neg hz]
          exact exists_shortest_literal negative m

theorem documentText?_eq_none {x : Binary64} : Numeral.documentText? x = none ↔ x = .nan := by
  cases x <;> simp [Numeral.documentText?]

end MeshMarkup
