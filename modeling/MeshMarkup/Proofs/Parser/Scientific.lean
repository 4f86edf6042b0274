import MeshMarkup.Proofs.Number.Longest
import MeshMarkup.Proofs.Parser.Number

namespace MeshMarkup

open Magnitude MeshMarkup.Parser

namespace ScientificLiteral

/-- Literals that fit into memory have significands that can be estimated. -/
theorem estimable_of_length {l : ScientificLiteral} (h : l.WellFormed)
    (hlength : l.text.length < 10 ^ 15) : l.value.Estimable := by
  obtain ⟨n, hn⟩ : ∃ n, n = (l.mantissa.whole ++ l.mantissa.fraction).length := ⟨_, rfl⟩
  have hdigits : Digits (l.mantissa.whole ++ l.mantissa.fraction) := fun c hc =>
    (List.mem_append.mp hc).elim (h.mantissa.whole c) (h.mantissa.fraction c)
  have hvalue : l.value.significand < 10 ^ n := hn ▸ placeValue_lt hdigits
  have hcount : n ≤ l.text.length := by
    rw [hn, length_text, length, DecimalLiteral.length, List.length_append]
    split
    · next he => rw [List.isEmpty_iff.mp he, List.length_nil]; omega
    · omega
  have hbits : l.value.significand < 2 ^ (4 * n) := by
    calc l.value.significand < 10 ^ n := hvalue
      _ ≤ 16 ^ n := Nat.pow_le_pow_left (by decide) n
      _ = 2 ^ (4 * n) := by rw [Nat.pow_mul]
  exact Decimal.estimable_of_lt hbits (by omega)

end ScientificLiteral

namespace Parser

open ScientificLiteral

variable {c : Cursor} {l : ScientificLiteral}

theorem scientific_run_noMatch : scientific.run c = .noMatch ↔ ¬ StartsNumber c.rest := by
  rw [reading_eq_noMatch_iff, reading_scientific_eq, ← read?_eq_none]
  cases ScientificLiteral.read? c.rest with
  | none => simp
  | some l => cases h : nearest l.negative l.value <;> simp [h]

theorem scientific_run_longest (h : l.Longest c.rest) : scientific.run c =
    match nearest l.negative l.value with
    | .error cause => .fault cause
    | .ok x => .matched (c.skip l.text.length) x := by
  rw [run_eq_outcome, reading_scientific_eq, longest_iff.mp h]
  cases hx : nearest l.negative l.value with
  | error cause => simp only [hx, Reading.outcome_fault]
  | ok x =>
      have hle := ScientificLiteral.length_le_of_read? (longest_iff.mp h)
      simp only [hx, Reading.outcome_matched, Cursor.skip_sub_drop hle, length_text]

/-- Which texts are numbers, and which number each one is: there is a match exactly where an
optional minus sign and a digit stand, it takes the longest literal there, and the value is the
exact one rounded to nearest, negated where there is a minus sign. -/
theorem scientific_rounds (c : Cursor) :
    (scientific.run c = .noMatch ↔ ¬ StartsNumber c.rest) ∧
    (StartsNumber c.rest → ∃! l : ScientificLiteral, l.Longest c.rest) ∧
    ∀ l : ScientificLiteral, l.Longest c.rest → l.text.length < 10 ^ 15 →
      l.value.power.natAbs < 10 ^ 300 → ∃ m : Magnitude, Nearest l.value.toRat m ∧
        (m = infinity ↔ 2 ^ 1024 - 2 ^ 970 ≤ l.value.toRat) ∧
        (m = zero ↔ l.value.toRat ≤ 1 / 2 ^ 1075) ∧
        scientific.run c = .matched (c.skip l.text.length) (.signed l.negative m) := by
  refine ⟨scientific_run_noMatch, fun hstart => ?_, fun l hl hlength hpower => ?_⟩
  · obtain ⟨l, hl⟩ := Option.ne_none_iff_exists'.mp fun hnone => read?_eq_none.mp hnone hstart
    refine ⟨l, longest_iff.mpr hl, fun r hr => ?_⟩
    exact Option.some.inj ((longest_iff.mp hr).symm.trans hl)
  · have hfew := estimable_of_length hl.wellFormed hlength
    have hbound : 10 ^ 300 ≤ powerBound := by decide +kernel
    have hnumber : l.Denotes l.rounded :=
      denotes_of_magnitude hfew (Nat.lt_of_lt_of_le hpower hbound) rfl
    have hround := l.value.nearest_magnitude
    refine ⟨l.value.magnitude, hround, hround.eq_infinity_iff, hround.eq_zero_iff, ?_⟩
    rw [scientific_run_longest hl, nearest_eq_ok.mpr hnumber]
    rfl

theorem scientific_rounds_halfway :
    ∃ m : Magnitude, Nearest (Decimal.toRat ⟨9007199254740993, 0⟩) m ∧
      scientific.run (.start "-9007199254740993e-<".toList) =
        .matched (Cursor.skip 17 (.start "-9007199254740993e-<".toList)) (.signed true m) := by
  have hl : Longest ⟨true, ⟨"9007199254740993".toList, []⟩, none⟩
      (Cursor.start "-9007199254740993e-<".toList).rest := longest_of_read? rfl
  obtain ⟨m, hm, -, -, hrun⟩ := (scientific_rounds (.start "-9007199254740993e-<".toList)).2.2 _ hl
    (by decide) (by decide)
  exact ⟨m, hm, hrun⟩

end Parser

end MeshMarkup
