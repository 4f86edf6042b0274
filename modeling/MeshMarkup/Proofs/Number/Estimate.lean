import Mathlib.Tactic.NormNum
import MeshMarkup.Parser.Number
import MeshMarkup.Proofs.Number.Nearest

namespace MeshMarkup

open Magnitude

def Decimal.toRat (d : Decimal) : ℚ := d.significand * 10 ^ d.power

theorem Decimal.toRat_eq (d : Decimal) :
    d.toRat = d.numerator / (d.denominator * unitsPerOne) := by
  have hten : (10 : ℚ) ≠ 0 := by norm_num
  have hpower : d.power = (d.power.toNat : Int) - ((-d.power).toNat : Int) := by omega
  rw [numerator, denominator, Nat.cast_mul, mul_div_mul_right _ _ unitsPerOne_pos.ne', Nat.cast_mul,
    Nat.cast_pow, Nat.cast_pow, Nat.cast_ofNat, toRat, mul_div_assoc]
  conv_lhs => rw [hpower, zpow_sub₀ hten, zpow_natCast, zpow_natCast]

theorem Decimal.nearest_magnitude (d : Decimal) : Nearest d.toRat d.magnitude := by
  rw [toRat_eq, magnitude_eq]
  exact nearest_ofQuotient d.denominator_pos

theorem Decimal.magnitude_of_significand_zero {d : Decimal} (h : d.significand = 0) :
    d.magnitude = zero := by
  refine d.nearest_magnitude.eq_zero_iff.mpr ?_
  rw [toRat, h, Nat.cast_zero, zero_mul, underflowBound]
  positivity

namespace Binary64

/-- The exact value of a number; the undefined number has none and counts as zero. -/
def toRat : Binary64 → ℚ
  | nan => 0
  | signed negative m => if negative then -m.toRat else m.toRat

theorem toRat_finite (negative : Bool) (m : Magnitude) :
    (signed negative m).toRat = signedUnits negative m / unitsPerOne := by
  cases negative with
  | false =>
      simp only [toRat, signedUnits, Magnitude.toRat, Bool.false_eq_true, if_false, Int.cast_natCast]
  | true =>
      simp only [toRat, signedUnits, Magnitude.toRat, if_true, Int.cast_neg, Int.cast_natCast,
        neg_div]

theorem isFinite_ofNat {n : Nat} : (Magnitude.ofNat n).isFinite = true ↔ n < powerBound := by
  rw [isFinite_iff, Ne, (Magnitude.nearest_ofNat n).eq_infinity_iff, ← cast_powerBound, not_le,
    Nat.cast_lt]

theorem ofInt?_eq (n : Int) : ofInt? n =
    if powerBound ≤ n.natAbs then none else some (signed (n < 0) (.ofNat n.natAbs)) := by
  rw [ofInt?]
  by_cases h : powerBound ≤ n.natAbs
  · rw [if_pos h, if_neg (isFinite_ofNat.not.mpr (Nat.not_lt_of_le h))]
  · rw [if_neg h, if_pos (isFinite_ofNat.mpr (Nat.lt_of_not_le h))]

/-- A sum stays on the side of a magnitude that the exact sum is on. -/
theorem add_bounds {s t : Bool} {m n : Magnitude} (hm : m.isFinite = true) (hn : n.isFinite = true)
    (k : Magnitude) :
    ((signed s m).toRat + (signed t n).toRat ≤ k.toRat →
      ((signed s m).add (signed t n)).toRat ≤ k.toRat) ∧
    (-k.toRat ≤ (signed s m).toRat + (signed t n).toRat →
      -k.toRat ≤ ((signed s m).add (signed t n)).toRat) := by
  have hk := k.toRat_nonneg
  obtain ⟨sum, hsum⟩ : ∃ sum, sum = signedUnits s m + signedUnits t n := ⟨_, rfl⟩
  have hexact : (signed s m).toRat + (signed t n).toRat = sum / unitsPerOne := by
    rw [toRat_finite, toRat_finite, hsum, Int.cast_add, add_div]
  rw [hexact]
  simp only [add, hm, hn, Bool.and_self, if_true, ← hsum]
  by_cases h0 : sum = 0
  · have hzero : (signed (s && t) Magnitude.zero).toRat = 0 := by
      cases s && t <;> simp [toRat, toRat_zero]
    rw [if_pos h0, hzero]
    exact ⟨fun _ => hk, fun _ => by linarith⟩
  · rw [if_neg h0, ofUnits]
    have hround := Magnitude.nearest_ofUnits sum.natAbs
    have hpos := (Magnitude.ofUnits sum.natAbs).toRat_nonneg
    by_cases hneg : sum < 0
    · have habs : ((sum.natAbs : Nat) : ℚ) / unitsPerOne = -(sum / unitsPerOne) := by
        rw [Nat.cast_natAbs, abs_of_neg hneg, Int.cast_neg, neg_div]
      rw [habs] at hround
      simp only [toRat, hneg, decide_true, if_true]
      exact ⟨fun _ => by linarith, fun h => neg_le_neg (hround.le (by linarith))⟩
    · have habs : ((sum.natAbs : Nat) : ℚ) / unitsPerOne = sum / unitsPerOne := by
        rw [Nat.cast_natAbs, abs_of_nonneg (not_lt.mp hneg)]
      rw [habs] at hround
      simp only [toRat, hneg, decide_false, Bool.false_eq_true, if_false]
      exact ⟨fun h => hround.le h, fun _ => by linarith⟩

theorem compareInt_lt {n : Int} (hn : (n : ℚ) < Magnitude.infinity.toRat) {x : Binary64}
    (h : compareInt n x = some .lt) : (n : ℚ) < x.toRat := by
  cases x with
  | nan => simp [compareInt] at h
  | signed s m =>
      rw [compareInt] at h
      split at h
      · rw [Option.some.injEq, compare_lt_iff_lt] at h
        rw [toRat_finite, lt_div_iff₀ unitsPerOne_pos]
        exact_mod_cast h
      · next hm =>
          have hinf : m = Magnitude.infinity := not_not.mp (isFinite_iff.not.mp hm)
          cases s with
          | false => simpa [toRat, hinf] using hn
          | true => simp at h

theorem compareInt_gt {n : Int} (hn : -Magnitude.infinity.toRat < (n : ℚ)) {x : Binary64}
    (h : compareInt n x = some .gt) : x.toRat < n := by
  cases x with
  | nan => simp [compareInt] at h
  | signed s m =>
      rw [compareInt] at h
      split at h
      · rw [Option.some.injEq, compare_gt_iff_gt] at h
        rw [toRat_finite, div_lt_iff₀ unitsPerOne_pos]
        exact_mod_cast h
      · next hm =>
          have hinf : m = Magnitude.infinity := not_not.mp (isFinite_iff.not.mp hm)
          cases s with
          | false => simp at h
          | true => simpa [toRat, hinf] using hn

/-- A whole number as rounded: itself when it is small, and beyond every small one otherwise. -/
theorem toRat_ofInt {n : Int} {k : Nat} (hk : k ≤ 2 ^ 53) :
    (n.natAbs ≤ k → (signed (n < 0) (.ofNat n.natAbs)).toRat = n) ∧
    ((k : Int) ≤ n → (k : ℚ) ≤ (signed (n < 0) (.ofNat n.natAbs)).toRat) ∧
    (n ≤ -k → (signed (n < 0) (.ofNat n.natAbs)).toRat ≤ -k) := by
  have hround := Magnitude.nearest_ofNat n.natAbs
  obtain ⟨m, hm⟩ := Magnitude.exists_toRat_eq hk
  have hge (h : k ≤ n.natAbs) : (k : ℚ) ≤ (Magnitude.ofNat n.natAbs).toRat := by
    rw [← hm]
    exact hround.ge (by rw [hm]; exact_mod_cast h)
  refine ⟨fun h => ?_, fun h => ?_, fun h => ?_⟩
  · have hvalue := hround.eq_of_whole (h.trans hk) rfl
    by_cases hneg : n < 0
    · have habs : (n.natAbs : ℚ) = -n := by
        rw [Nat.cast_natAbs, abs_of_neg hneg, Int.cast_neg]
      simp only [toRat, hneg, decide_true, if_true, hvalue]
      linarith
    · simp only [toRat, hneg, decide_false, Bool.false_eq_true, if_false, hvalue]
      rw [Nat.cast_natAbs, abs_of_nonneg (not_lt.mp hneg)]
  · have hneg : ¬ n < 0 := by omega
    simp only [toRat, hneg, decide_false, Bool.false_eq_true, if_false]
    exact hge (by omega)
  · by_cases hneg : n < 0
    · simp only [toRat, hneg, decide_true, if_true]
      exact neg_le_neg (hge (by omega))
    · obtain ⟨rfl, rfl⟩ : n = 0 ∧ k = 0 := by omega
      simpa [toRat] using ((Magnitude.nearest_ofNat 0).eq_of_whole (Nat.zero_le _) rfl).le

end Binary64

def storedLog : ℚ := 5422874305198591 / 2 ^ 54

theorem toRat_log10Two : ∃ m : Magnitude, log10Two = .signed false m ∧ m ≠ infinity ∧
    m.toRat = storedLog := by
  have h := toRat_steps (k := 5422874305198591) (s := 1020) (by decide) (Or.inr (by decide))
    (by decide)
  refine ⟨_, by decide +kernel, by decide +kernel, h.trans ?_⟩
  rw [cast_unitsPerOne, storedLog, div_eq_div_iff (by positivity) (by positivity)]
  simp only [Nat.cast_mul, Nat.cast_pow, Nat.cast_ofNat]
  rw [mul_assoc, @two_pow_mul 1020 54 0 1074 rfl, pow_zero, one_mul]

/-- Adding a whole number to a logarithm that is within a half of `t`. The sum shows on which side
of the bound the exact one is, unless the whole number alone is far beyond it. -/
theorem sum_shows {x : Magnitude} {t : ℚ} (h0 : 0 ≤ t) (ht : t ≤ 2 ^ 52)
    (hx : |t - x.toRat| ≤ 1 / 2) (hfin : x.isFinite = true) {p : Int}
    (hp : (Magnitude.ofNat p.natAbs).isFinite = true) {e : Binary64}
    (he : e = (Binary64.signed false x).add (.signed (p < 0) (.ofNat p.natAbs))) :
    (400 < e.toRat → 2 ^ 53 ≤ p ∨ 400 < t + 1 / 2 + p) ∧
      (e.toRat < -400 → p ≤ -2 ^ 53 ∨ t - 1 / 2 + p < -400) := by
  obtain ⟨hlow, hhigh⟩ := abs_le.mp hx
  obtain ⟨k, hk⟩ := exists_toRat_eq (show 400 ≤ 2 ^ 53 by decide)
  obtain ⟨hup, hdown⟩ := Binary64.add_bounds (s := false) (t := p < 0) hfin hp k
  obtain ⟨hexact, hlarge, hsmall⟩ := Binary64.toRat_ofInt (n := p) (k := 2 ^ 53) le_rfl
  have hfalse : (Binary64.signed false x).toRat = x.toRat := rfl
  rw [← he, hfalse, hk] at hup hdown
  push_cast at hup hdown hlarge hsmall
  constructor
  · intro h
    have hsum := not_le.mp fun hle => not_le.mpr h (hup hle)
    by_cases hbig : 2 ^ 53 ≤ p
    · exact Or.inl hbig
    · right
      by_cases hneg : p ≤ -2 ^ 53
      · linarith [hsmall hneg]
      · rw [hexact (by omega)] at hsum
        linarith
  · intro h
    have hsum := not_le.mp fun hle => not_le.mpr h (hdown hle)
    by_cases hbig : p ≤ -2 ^ 53
    · exact Or.inl hbig
    · right
      by_cases hpos : 2 ^ 53 ≤ p
      · linarith [hlarge hpos]
      · rw [hexact (by omega)] at hsum
        linarith

namespace Decimal

variable {d : Decimal}

def bits (d : Decimal) : Nat := d.significand.log2 + 1

/-- Few enough bits for an estimate to be safe. No text in any memory has a digit for each. -/
def Estimable (d : Decimal) : Prop := d.bits ≤ 2 ^ 52

theorem estimable_of_lt {k : Nat} (h : d.significand < 2 ^ k) (hk : k < 2 ^ 52) : d.Estimable := by
  by_cases h0 : d.significand = 0
  · rw [Estimable, bits, h0, Nat.log2_zero]
    decide
  · have hlog := (Nat.log2_lt h0).mpr h
    rw [Estimable, bits]
    omega

theorem lt_two_pow_bits (d : Decimal) : d.significand < 2 ^ d.bits := Nat.lt_log2_self

theorem two_pow_bits_le (h : d.significand ≠ 0) : 2 ^ d.bits ≤ 2 * d.significand := by
  rw [bits, Nat.pow_succ, Nat.mul_comm]
  exact Nat.mul_le_mul_left 2 (Nat.log2_self_le h)

/-- An estimate is within a half of the exact one while the power has at most 53 bits, and shows
where a larger power lies. -/
structure Estimated (d : Decimal) (e : Binary64) : Prop where
  high : 400 < e.toRat → 2 ^ 53 ≤ d.power ∨ 400 < d.bits * storedLog + 1 / 2 + d.power
  low : e.toRat < -400 → d.power ≤ -2 ^ 53 ∨ d.bits * storedLog - 1 / 2 + d.power < -400

theorem ofInt?_bits (d : Decimal) : Binary64.ofInt? (d.significand.log2 + 1) =
    if powerBound ≤ d.bits then none else some (.signed false (Magnitude.ofNat d.bits)) := by
  have habs : ((d.significand.log2 : Int) + 1).natAbs = d.bits := by
    rw [bits]
    omega
  have hneg : ¬ (d.significand.log2 : Int) + 1 < 0 := by omega
  rw [Binary64.ofInt?_eq, habs, decide_eq_false hneg]

theorem estimate?_eq_none :
    d.estimate? = none ↔ powerBound ≤ d.bits ∨ powerBound ≤ d.power.natAbs := by
  rw [estimate?, ofInt?_bits, Binary64.ofInt?_eq]
  by_cases hcount : powerBound ≤ d.bits
  · simp only [hcount, if_true, true_or, iff_true]
    rfl
  · by_cases hpower : powerBound ≤ d.power.natAbs
    · simp only [hcount, hpower, if_true, if_false, or_true, iff_true]
      rfl
    · simp only [hcount, hpower, if_false, or_self, iff_false]
      exact Option.some_ne_none _

theorem converted?_eq_none : d.converted? = none ↔
    d.significand ≠ 0 ∧ (powerBound ≤ d.bits ∨ powerBound ≤ d.power.natAbs) := by
  rw [converted?]
  by_cases h0 : d.significand = 0
  · simp [h0]
  · rw [if_neg h0, Option.map_eq_none_iff, estimate?_eq_none]
    simp [h0]

section Bits

variable (hbits : d.bits ≤ 2 ^ 52)
include hbits

theorem isFinite_bits : (Magnitude.ofNat d.bits).isFinite = true :=
  Binary64.isFinite_ofNat.mpr (lt_powerBound (hbits.trans (by decide)))

theorem bits_mul_range : 0 ≤ d.bits * storedLog ∧ d.bits * storedLog ≤ 2 ^ 52 := by
  have hcast : (d.bits : ℚ) ≤ 2 ^ 52 := by exact_mod_cast hbits
  have hpos : (0 : ℚ) ≤ d.bits := Nat.cast_nonneg _
  rw [storedLog]
  constructor <;> linarith

theorem exists_product : ∃ x : Magnitude, x.isFinite = true ∧
    (Binary64.signed false (.ofNat d.bits)).mul log10Two = .signed false x ∧
      Nearest (d.bits * storedLog) x := by
  obtain ⟨mc, hlog, hmc, hc⟩ := toRat_log10Two
  have hvalue : (Magnitude.ofNat d.bits).toRat = d.bits :=
    (Magnitude.nearest_ofNat d.bits).eq_of_whole (hbits.trans (by decide)) rfl
  have hproduct := nearest_product (Magnitude.ofNat d.bits) mc
  rw [hvalue, hc] at hproduct
  refine ⟨_, ?_, ?_, hproduct⟩
  · have hlt : ((2 ^ 53 : Nat) : ℚ) < powerBound := Nat.cast_lt.mpr (lt_powerBound le_rfl)
    push_cast at hlt
    rw [isFinite_iff, Ne, hproduct.eq_infinity_iff, ← cast_powerBound, not_le]
    linarith [(bits_mul_range hbits).2]
  · rw [hlog, Binary64.mul, isFinite_bits hbits, isFinite_iff.mpr hmc]
    rfl

end Bits

theorem estimated (hbits : d.Estimable) {e : Binary64} (he : d.estimate? = some e) :
    d.Estimated e := by
  obtain ⟨hcount, hp⟩ : ¬ powerBound ≤ d.bits ∧ ¬ powerBound ≤ d.power.natAbs := by
    rw [← not_or, ← estimate?_eq_none, he]
    exact Option.some_ne_none e
  obtain ⟨x, hfinite, hmul, hproduct⟩ := exists_product hbits
  obtain ⟨hlow, hhigh⟩ := bits_mul_range hbits
  have hpower := Binary64.isFinite_ofNat.mpr (Nat.lt_of_not_le hp)
  rw [estimate?, ofInt?_bits, if_neg hcount, Binary64.ofInt?_eq, if_neg hp] at he
  have hsum := sum_shows hlow hhigh (hproduct.abs_sub_le hlow (by linarith)) hfinite hpower
    (e := e) (by rw [← hmul]; exact (Option.some.inj he).symm)
  exact ⟨hsum.1, hsum.2⟩

/-- A comparison of two powers settles all those of no greater ratio of exponents. -/
theorem pow_le_pow_of_ratio {x y m n i j : Nat} (hx : 0 < x) (hn : n ≠ 0) (h : x ^ m ≤ y ^ n)
    (hij : i * n ≤ j * m) : x ^ i ≤ y ^ j := by
  refine (Nat.pow_le_pow_iff_left hn).mp ?_
  calc (x ^ i) ^ n = x ^ (i * n) := (Nat.pow_mul x i n).symm
    _ ≤ x ^ (m * j) := Nat.pow_le_pow_right hx (by rwa [Nat.mul_comm m j])
    _ = (x ^ m) ^ j := Nat.pow_mul x m j
    _ ≤ (y ^ n) ^ j := Nat.pow_le_pow_left h j
    _ = (y ^ j) ^ n := by rw [← Nat.pow_mul, ← Nat.pow_mul, Nat.mul_comm]

/-- A fraction slightly below the decimal logarithm of two. -/
theorem ten_pow_le_two_pow {k b : Nat} (h : k * 6432163 ≤ b * 1936274) : 10 ^ k ≤ 2 ^ b :=
  pow_le_pow_of_ratio (by decide) (by decide) (by decide +kernel : 10 ^ 1936274 ≤ 2 ^ 6432163) h

/-- A fraction slightly above the decimal logarithm of two. -/
theorem two_pow_le_ten_pow_of_le {b k : Nat} (h : b * 3774669 ≤ k * 12539179) : 2 ^ b ≤ 10 ^ k :=
  pow_le_pow_of_ratio (by decide) (by decide) (by decide +kernel : 2 ^ 12539179 ≤ 10 ^ 3774669) h

theorem two_pow_le_ten_zpow {b k : Nat} (h : b * 3774669 ≤ k * 12539179) :
    (2 : ℚ) ^ b ≤ 10 ^ (k : ℤ) := by
  rw [zpow_natCast]
  exact_mod_cast two_pow_le_ten_pow_of_le h

theorem two_mul_overflowBound_le : 2 * overflowBound ≤ 10 ^ (310 : ℤ) := by
  calc 2 * overflowBound ≤ 2 * infinity.toRat :=
        mul_le_mul_of_nonneg_left overflowBound_lt_infinity.le (by norm_num)
    _ = 2 ^ 1025 := by rw [toRat_infinity, pow_succ' 2 1024]
    _ ≤ 10 ^ (310 : ℤ) := two_pow_le_ten_zpow (by decide)

theorem le_underflowBound : (10 : ℚ) ^ (-324 : ℤ) ≤ underflowBound := by
  rw [underflowBound, zpow_neg, one_div]
  exact inv_anti₀ (pow_pos two_pos 1075) (two_pow_le_ten_zpow (by decide))

theorem magnitude_eq_infinity (h : d.significand ≠ 0) (hbits : d.bits ≤ 2 ^ 52)
    (hlarge : 2 ^ 53 ≤ d.power ∨ 400 < d.bits * storedLog + 1 / 2 + d.power) :
    d.magnitude = infinity := by
  obtain ⟨k, hk⟩ : ∃ k : Nat, k = (310 - d.power).toNat := ⟨_, rfl⟩
  have hratio : k * 6432163 ≤ d.bits * 1936274 := by
    by_cases hp : 310 ≤ d.power
    · obtain rfl : k = 0 := by omega
      rw [Nat.zero_mul]
      exact Nat.zero_le _
    · have hcast : (k : ℚ) = 310 - d.power := by
        have hint : (k : Int) = 310 - d.power := by omega
        exact_mod_cast congrArg (Int.cast : Int → ℚ) hint
      have hsum := hlarge.resolve_left (by omega)
      have hb : (d.bits : ℚ) ≤ 2 ^ 52 := by exact_mod_cast hbits
      have hle : (k : ℚ) * 6432163 ≤ d.bits * 1936274 := by
        rw [storedLog] at hsum
        linarith
      exact_mod_cast hle
  have hten : (10 : ℚ) ^ k ≤ 2 * d.significand := by
    exact_mod_cast (ten_pow_le_two_pow hratio).trans (two_pow_bits_le h)
  have hpos : (0 : ℚ) < 10 ^ d.power := zpow_pos (by norm_num) _
  rw [d.nearest_magnitude.eq_infinity_iff, toRat]
  have hvalue : 2 * overflowBound ≤ 2 * d.significand * 10 ^ d.power := by
    calc 2 * overflowBound ≤ 10 ^ (310 : ℤ) := two_mul_overflowBound_le
      _ ≤ 10 ^ (k + d.power) := zpow_le_zpow_right₀ (by norm_num) (by omega)
      _ = 10 ^ k * 10 ^ d.power := by rw [zpow_add₀ (by norm_num), zpow_natCast]
      _ ≤ 2 * d.significand * 10 ^ d.power := mul_le_mul_of_nonneg_right hten hpos.le
  linarith

theorem magnitude_eq_zero (hbits : d.bits ≤ 2 ^ 52)
    (hsmall : d.power ≤ -2 ^ 53 ∨ d.bits * storedLog - 1 / 2 + d.power < -400) :
    d.magnitude = zero := by
  have hnonneg : (0 : ℚ) ≤ d.bits := Nat.cast_nonneg _
  have hb : (d.bits : ℚ) ≤ 2 ^ 52 := by exact_mod_cast hbits
  have hpower : d.power ≤ -324 := by
    rcases hsmall with hp | hsum
    · omega
    · have hle : (d.power : ℚ) < -324 := by
        rw [storedLog] at hsum
        linarith
      exact_mod_cast hle.le
  obtain ⟨k, hk⟩ : ∃ k : Nat, (k : Int) = -324 - d.power :=
    ⟨(-324 - d.power).toNat, Int.toNat_of_nonneg (by omega)⟩
  have hratio : d.bits * 3774669 ≤ k * 12539179 := by
    rcases hsmall with hp | hsum
    · omega
    · have hcast : (k : ℚ) = -324 - d.power := by
        exact_mod_cast congrArg (Int.cast : Int → ℚ) hk
      have hle : (d.bits : ℚ) * 3774669 ≤ k * 12539179 := by
        rw [storedLog] at hsum
        linarith
      exact_mod_cast hle
  have hten : (d.significand : ℚ) ≤ 10 ^ k := by
    exact_mod_cast d.lt_two_pow_bits.le.trans (two_pow_le_ten_pow_of_le hratio)
  have hpos : (0 : ℚ) < 10 ^ d.power := zpow_pos (by norm_num) _
  rw [d.nearest_magnitude.eq_zero_iff, toRat]
  calc (d.significand : ℚ) * 10 ^ d.power ≤ 10 ^ k * 10 ^ d.power :=
        mul_le_mul_of_nonneg_right hten hpos.le
    _ = 10 ^ (k + d.power) := by rw [zpow_add₀ (by norm_num), zpow_natCast]
    _ = 10 ^ (-324 : ℤ) := by rw [hk, Int.sub_add_cancel]
    _ ≤ underflowBound := le_underflowBound

theorem expanded_eq (d : Decimal) : d.expanded = d.magnitude := by
  rw [magnitude_eq]
  obtain ⟨s, power⟩ := d
  cases power with
  | ofNat p => rw [denominator_ofNat]; rfl
  | negSucc p => rw [numerator_negSucc]; rfl

/-- What is converted by an estimate that is safe is the exact value rounded. -/
theorem converted?_eq (hbits : d.Estimable) {m : Magnitude} (h : d.converted? = some m) :
    m = d.magnitude := by
  rw [converted?] at h
  by_cases h0 : d.significand = 0
  · rw [if_pos h0] at h
    rw [← Option.some.inj h, magnitude_of_significand_zero h0]
  · rw [if_neg h0, Option.map_eq_some_iff] at h
    obtain ⟨e, he, rfl⟩ := h
    have hest := estimated hbits he
    have hbound : (400 : ℚ) < infinity.toRat := by
      have hlt : ((400 : Nat) : ℚ) < powerBound := Nat.cast_lt.mpr (lt_powerBound (by decide))
      rw [cast_powerBound] at hlt
      exact_mod_cast hlt.trans overflowBound_lt_infinity
    by_cases hhigh : Binary64.compareInt estimateBound e = some .lt
    · have hlt : (400 : ℚ) < e.toRat := by
        exact_mod_cast Binary64.compareInt_lt (by exact_mod_cast hbound) hhigh
      rw [if_pos hhigh, magnitude_eq_infinity h0 hbits (hest.high hlt)]
    · rw [if_neg hhigh]
      by_cases hlow : Binary64.compareInt (-estimateBound) e = some .gt
      · have hlt : e.toRat < -400 := by
          exact_mod_cast Binary64.compareInt_gt (by exact_mod_cast neg_lt_neg hbound) hlow
        rw [if_pos hlow, magnitude_eq_zero hbits (hest.low hlt)]
      · rw [if_neg hlow, expanded_eq]

end Decimal

end MeshMarkup
