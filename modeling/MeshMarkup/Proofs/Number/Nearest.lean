import Mathlib.Algebra.Order.Round
import Mathlib.Data.Rat.Floor
import Mathlib.Tactic.Linarith
import Mathlib.Tactic.Ring
import MeshMarkup.Proofs.Number.Rounding

namespace MeshMarkup.Magnitude

/-- The units of a rank, as if there were no last one. -/
def unitsAt (rank : Nat) : Nat :=
  if rank / binadeSize = 0 then rank % binadeSize
  else (binadeSize + rank % binadeSize) * 2 ^ (rank / binadeSize - 1)

theorem units_eq (m : Magnitude) : m.units = unitsAt m.rank := rfl

theorem binadeSize_pos : 0 < binadeSize := Nat.two_pow_pos 52

theorem unitsAt_of_lt {f : Nat} (hf : f < binadeSize) : unitsAt f = f := by
  rw [unitsAt, if_pos (Nat.div_eq_of_lt hf), Nat.mod_eq_of_lt hf]

theorem unitsAt_normal {f : Nat} (hf : f < binadeSize) (s : Nat) :
    unitsAt (binadeSize + f + s * binadeSize) = (binadeSize + f) * 2 ^ s := by
  have hrank : binadeSize + f + s * binadeSize = f + binadeSize * (s + 1) := by ring
  have hdiv : (f + binadeSize * (s + 1)) / binadeSize = s + 1 := by
    rw [Nat.add_mul_div_left _ _ binadeSize_pos, Nat.div_eq_of_lt hf, Nat.zero_add]
  rw [unitsAt, hrank, hdiv, Nat.add_mul_mod_self_left, Nat.mod_eq_of_lt hf, if_neg s.succ_ne_zero,
    Nat.add_sub_cancel]

/-- A whole number of steps in a binade, the end of the binade included. -/
theorem unitsAt_steps {k s : Nat} (hk : k ≤ 2 * binadeSize) (hs : s = 0 ∨ binadeSize ≤ k) :
    unitsAt (k + s * binadeSize) = k * 2 ^ s := by
  by_cases hlt : k < binadeSize
  · obtain rfl : s = 0 := hs.resolve_right (Nat.not_le_of_lt hlt)
    rw [Nat.zero_mul, Nat.add_zero, unitsAt_of_lt hlt, Nat.pow_zero, Nat.mul_one]
  · obtain ⟨f, rfl⟩ := Nat.exists_eq_add_of_le (Nat.le_of_not_lt hlt)
    by_cases hf : f < binadeSize
    · exact unitsAt_normal hf s
    · obtain rfl : f = binadeSize := by omega
      have h := unitsAt_normal binadeSize_pos (s + 1)
      have hrank : binadeSize + binadeSize + s * binadeSize =
          binadeSize + 0 + (s + 1) * binadeSize := by ring
      rw [hrank, h]
      ring

theorem unitsAt_lt_succ (r : Nat) : unitsAt r < unitsAt (r + 1) := by
  by_cases hr : r < binadeSize
  · have h (k : Nat) (hk : k ≤ binadeSize) : unitsAt k = k := by
      have := unitsAt_steps (k := k) (s := 0) (by omega) (Or.inl rfl)
      simpa using this
    rw [h r (by omega), h (r + 1) (by omega)]
    exact Nat.lt_succ_self r
  · have hf : r % binadeSize < binadeSize := Nat.mod_lt _ binadeSize_pos
    obtain ⟨s, hs⟩ : ∃ s, r / binadeSize = s + 1 :=
      Nat.exists_eq_succ_of_ne_zero fun h0 => hr (by
        rcases Nat.div_eq_zero_iff.mp h0 with h | h
        · exact absurd h binadeSize_pos.ne'
        · exact h)
    have hrank : r = binadeSize + r % binadeSize + s * binadeSize := by
      have := Nat.div_add_mod r binadeSize
      rw [hs] at this
      linarith [this, Nat.mul_comm binadeSize (s + 1), Nat.succ_mul s binadeSize]
    have hnext : r + 1 = binadeSize + (r % binadeSize + 1) + s * binadeSize := by omega
    rw [hnext, unitsAt_steps (by omega) (Or.inr (by omega))]
    conv_lhs => rw [hrank]
    rw [unitsAt_steps (by omega) (Or.inr (by omega))]
    exact Nat.mul_lt_mul_of_pos_right (by omega) (Nat.two_pow_pos s)

theorem unitsAt_strictMono : StrictMono unitsAt := strictMono_nat_of_lt_succ unitsAt_lt_succ

/-- The exact value of a magnitude. Infinity counts as the power of two that follows the largest
finite magnitude. -/
def toRat (m : Magnitude) : ℚ := m.units / unitsPerOne

theorem cast_unitsPerOne : (unitsPerOne : ℚ) = 2 ^ 1074 := by
  simp only [unitsPerOne, Nat.cast_pow, Nat.cast_ofNat]

theorem unitsPerOne_pos : (0 : ℚ) < unitsPerOne := by
  rw [cast_unitsPerOne]
  exact pow_pos two_pos 1074

theorem toRat_lt_toRat {m n : Magnitude} : m.toRat < n.toRat ↔ m.rank < n.rank := by
  rw [toRat, toRat, div_lt_div_iff_of_pos_right unitsPerOne_pos, Nat.cast_lt, units_eq, units_eq,
    unitsAt_strictMono.lt_iff_lt]

theorem toRat_le_toRat {m n : Magnitude} : m.toRat ≤ n.toRat ↔ m.rank ≤ n.rank := by
  rw [← not_lt, toRat_lt_toRat, Nat.not_lt]

theorem toRat_nonneg (m : Magnitude) : 0 ≤ m.toRat := div_nonneg (Nat.cast_nonneg _) unitsPerOne_pos.le

theorem ext_rank {m n : Magnitude} (h : m.rank = n.rank) : m = n := by
  cases m
  cases n
  simpa using h

theorem rank_ofRank {r : Nat} (h : r ≤ infinityRank) : (ofRank r).rank = r := Nat.min_eq_left h

theorem rank_infinity : infinity.rank = infinityRank := rank_ofRank le_rfl

theorem rank_le_infinity (n : Magnitude) : n.rank ≤ infinity.rank := rank_infinity ▸ n.rank_le

theorem isFinite_iff {m : Magnitude} : m.isFinite = true ↔ m ≠ infinity := by
  rw [isFinite, decide_eq_true_eq, ← rank_infinity]
  constructor
  · rintro h rfl
    omega
  · intro h
    exact lt_of_le_of_ne (rank_le_infinity m) fun he => h (ext_rank he)

/-- Rounding to nearest: no magnitude is nearer to the value, and where another one is equally
near, the rank is even. -/
structure Nearest (x : ℚ) (m : Magnitude) : Prop where
  closest (n : Magnitude) : |x - m.toRat| ≤ |x - n.toRat|
  even (n : Magnitude) : n ≠ m → |x - m.toRat| = |x - n.toRat| → m.rank % 2 = 0

structure Encloses (lo hi : Magnitude) (x : ℚ) : Prop where
  next : hi.rank = lo.rank + 1
  low : lo.toRat ≤ x
  high : x ≤ hi.toRat

section Encloses

variable {x : ℚ} {lo hi : Magnitude} (h : Encloses lo hi x)
include h

theorem Encloses.below_or_above (n : Magnitude) :
    n = lo ∨ n = hi ∨ n.toRat < lo.toRat ∨ hi.toRat < n.toRat := by
  have hnext := h.next
  rcases Nat.lt_trichotomy n.rank lo.rank with hn | hn | hn
  · exact Or.inr (Or.inr (Or.inl (toRat_lt_toRat.mpr hn)))
  · exact Or.inl (ext_rank hn)
  · rcases Nat.lt_or_ge hi.rank n.rank with hn' | hn'
    · exact Or.inr (Or.inr (Or.inr (toRat_lt_toRat.mpr hn')))
    · exact Or.inr (Or.inl (ext_rank (by omega)))

theorem Encloses.nearest_low (hmid : 2 * x ≤ lo.toRat + hi.toRat)
    (heven : 2 * x = lo.toRat + hi.toRat → lo.rank % 2 = 0) : Nearest x lo := by
  have hl := h.low
  have hh := h.high
  have hdist : |x - lo.toRat| = x - lo.toRat := abs_of_nonneg (by linarith)
  constructor
  · intro n
    rw [hdist, le_abs]
    rcases h.below_or_above n with rfl | rfl | hn | hn
    · exact Or.inl le_rfl
    · exact Or.inr (by linarith)
    · exact Or.inl (by linarith)
    · exact Or.inr (by linarith)
  · intro n hne heq
    refine heven ?_
    rw [hdist] at heq
    rcases h.below_or_above n with rfl | rfl | hn | hn
    · exact absurd rfl hne
    · rw [abs_of_nonpos (by linarith)] at heq
      linarith
    · rw [abs_of_nonneg (by linarith)] at heq
      linarith
    · rw [abs_of_nonpos (by linarith)] at heq
      linarith

theorem Encloses.nearest_high (hmid : lo.toRat + hi.toRat ≤ 2 * x)
    (heven : 2 * x = lo.toRat + hi.toRat → hi.rank % 2 = 0) : Nearest x hi := by
  have hl := h.low
  have hh := h.high
  have hdist : |x - hi.toRat| = hi.toRat - x := by
    rw [abs_of_nonpos (by linarith), neg_sub]
  constructor
  · intro n
    rw [hdist, le_abs]
    rcases h.below_or_above n with rfl | rfl | hn | hn
    · exact Or.inl (by linarith)
    · exact Or.inr (by linarith)
    · exact Or.inl (by linarith)
    · exact Or.inr (by linarith)
  · intro n hne heq
    refine heven ?_
    rw [hdist] at heq
    rcases h.below_or_above n with rfl | rfl | hn | hn
    · rw [abs_of_nonneg (by linarith)] at heq
      linarith
    · exact absurd rfl hne
    · rw [abs_of_nonneg (by linarith)] at heq
      linarith
    · rw [abs_of_nonpos (by linarith)] at heq
      linarith

end Encloses

theorem nearest_infinity {x : ℚ} (h : infinity.toRat ≤ x) : Nearest x infinity := by
  have hle (n : Magnitude) : n.toRat ≤ infinity.toRat := toRat_le_toRat.mpr (rank_le_infinity n)
  constructor
  · intro n
    rw [abs_of_nonneg (by linarith), abs_of_nonneg (by linarith [hle n])]
    linarith [hle n]
  · intro n hne heq
    rw [abs_of_nonneg (by linarith), abs_of_nonneg (by linarith [hle n])] at heq
    have hrank := toRat_le_toRat.mp (show infinity.toRat ≤ n.toRat by linarith)
    exact absurd (ext_rank (Nat.le_antisymm (rank_le_infinity n) hrank)) hne

theorem roundHalfEven_cases (n d : Nat) :
    (roundHalfEven n d = n / d ∧ 2 * n ≤ (2 * (n / d) + 1) * d ∧
      (2 * n = (2 * (n / d) + 1) * d → n / d % 2 = 0)) ∨
    (roundHalfEven n d = n / d + 1 ∧ (2 * (n / d) + 1) * d ≤ 2 * n ∧
      (2 * n = (2 * (n / d) + 1) * d → (n / d + 1) % 2 = 0)) := by
  have hmid : (2 * (n / d) + 1) * d = 2 * (d * (n / d)) + d := by ring
  have hdiv := Nat.div_add_mod n d
  simp only [roundHalfEven, hmid]
  generalize d * (n / d) = u at *
  generalize n / d = q at *
  generalize n % d = r at *
  split
  · left; omega
  · split
    · right; omega
    · by_cases hq : q % 2 = 0
      · left; omega
      · right; omega

/-- The steps that a quotient is counted in keep it within one binade. -/
theorem quotient_steps (n d : Nat) {s k : Nat} (hs : s = (n / d).log2 - 52)
    (hk : k = n / (d * 2 ^ s)) : k < 2 * binadeSize ∧ (s = 0 ∨ binadeSize ≤ k) := by
  rw [← Nat.div_div_eq_div_mul] at hk
  by_cases hq : (n / d).log2 ≤ 52
  · obtain rfl : s = 0 := by omega
    rw [Nat.pow_zero, Nat.div_one] at hk
    refine ⟨?_, Or.inl rfl⟩
    rw [hk]
    calc n / d < 2 ^ ((n / d).log2 + 1) := Nat.lt_log2_self
      _ ≤ 2 ^ 53 := Nat.pow_le_pow_right (by decide) (by omega)
  · have hne : n / d ≠ 0 := fun h0 => hq (by rw [h0, Nat.log2_zero]; decide)
    have hlog : (n / d).log2 = 52 + s := by omega
    have hlow : 2 ^ 52 * 2 ^ s ≤ n / d := by
      rw [← Nat.pow_add, ← hlog]
      exact Nat.log2_self_le hne
    have hhigh : n / d < 2 ^ 53 * 2 ^ s := by
      rw [← Nat.pow_add, show 53 + s = (n / d).log2 + 1 by omega]
      exact Nat.lt_log2_self
    rw [hk]
    exact ⟨(Nat.div_lt_iff_lt_mul (Nat.two_pow_pos s)).mpr hhigh,
      Or.inr ((Nat.le_div_iff_mul_le (Nat.two_pow_pos s)).mpr hlow)⟩

theorem toRat_steps {k s : Nat} (hk : k ≤ 2 * binadeSize) (hs : s = 0 ∨ binadeSize ≤ k)
    (hend : k + s * binadeSize ≤ infinityRank) :
    (ofRank (k + s * binadeSize)).toRat = (k * 2 ^ s : Nat) / unitsPerOne := by
  rw [toRat, units_eq, rank_ofRank hend, unitsAt_steps hk hs]

section Quotient

variable {n d : Nat} (hd : 0 < d)
include hd

theorem units_le_quotient (u : Nat) :
    (u / unitsPerOne : ℚ) ≤ n / (d * unitsPerOne) ↔ u * d ≤ n := by
  rw [← div_div, div_le_div_iff_of_pos_right unitsPerOne_pos, le_div_iff₀ (Nat.cast_pos.mpr hd)]
  exact_mod_cast Iff.rfl

theorem quotient_le_units (u : Nat) :
    (n / (d * unitsPerOne) : ℚ) ≤ u / unitsPerOne ↔ n ≤ u * d := by
  rw [← div_div, div_le_div_iff_of_pos_right unitsPerOne_pos, div_le_iff₀ (Nat.cast_pos.mpr hd)]
  exact_mod_cast Iff.rfl

section Steps

variable {k s : Nat} (hk : k < 2 * binadeSize) (hs : s = 0 ∨ binadeSize ≤ k)
    (hend : k + s * binadeSize < infinityRank)
include hk hs hend

theorem encloses_steps (hfloor : k = n / (d * 2 ^ s)) :
    Encloses (ofRank (k + s * binadeSize)) (ofRank (k + 1 + s * binadeSize))
      (n / (d * unitsPerOne)) := by
  have hstep : 0 < d * 2 ^ s := Nat.mul_pos hd (Nat.two_pow_pos s)
  refine ⟨?_, ?_, ?_⟩
  · rw [rank_ofRank hend.le, rank_ofRank (by omega)]
    omega
  · rw [toRat_steps hk.le hs hend.le, units_le_quotient hd]
    calc k * 2 ^ s * d = d * 2 ^ s * k := by ring
      _ ≤ n := by rw [hfloor]; exact Nat.mul_div_le n _
  · rw [toRat_steps hk (hs.imp_right (by omega)) (by omega), quotient_le_units hd]
    calc n ≤ d * 2 ^ s * (k + 1) := by rw [hfloor]; exact (Nat.lt_mul_div_succ n hstep).le
      _ = (k + 1) * 2 ^ s * d := by ring

omit hd in
theorem midpoint_steps :
    (ofRank (k + s * binadeSize)).toRat + (ofRank (k + 1 + s * binadeSize)).toRat =
      ((2 * k + 1) * 2 ^ s : Nat) / unitsPerOne := by
  have hhigh := toRat_steps (k := k + 1) (s := s) hk (hs.imp_right (by omega)) (by omega)
  rw [toRat_steps hk.le hs hend.le, hhigh, ← add_div, ← Nat.cast_add]
  congr 2
  ring

/-- Counting in the steps of a binade, the nearest whole number of them is the nearest magnitude. -/
theorem nearest_steps (hfloor : k = n / (d * 2 ^ s)) :
    Nearest (n / (d * unitsPerOne))
      (ofRank (roundHalfEven n (d * 2 ^ s) + s * binadeSize)) := by
  have henc := encloses_steps hd hk hs hend hfloor
  have hsum := midpoint_steps hk hs hend
  have hparity (j : Nat) : (j + s * binadeSize) % 2 = j % 2 := by
    rw [binadeSize]
    omega
  have htwice : (2 * (n / (d * unitsPerOne)) : ℚ) = (2 * n : Nat) / (d * unitsPerOne) := by
    push_cast
    ring
  have hassoc : (2 * k + 1) * (d * 2 ^ s) = (2 * k + 1) * 2 ^ s * d := by ring
  have hcases := roundHalfEven_cases n (d * 2 ^ s)
  rw [← hfloor, hassoc] at hcases
  rcases hcases with ⟨hr, hle, heven⟩ | ⟨hr, hle, heven⟩
  · rw [hr]
    refine henc.nearest_low ?_ fun heq => ?_
    · rw [hsum, htwice]
      exact (quotient_le_units hd _).mpr hle
    · rw [hsum, htwice] at heq
      rw [rank_ofRank hend.le, hparity]
      exact heven (le_antisymm hle ((units_le_quotient hd _).mp heq.ge))
  · rw [hr]
    refine henc.nearest_high ?_ fun heq => ?_
    · rw [hsum, htwice]
      exact (units_le_quotient hd _).mpr hle
    · rw [hsum, htwice] at heq
      rw [rank_ofRank (by omega), hparity]
      exact heven (le_antisymm ((quotient_le_units hd _).mp heq.le) hle)

end Steps

theorem nearest_ofQuotient : Nearest (n / (d * unitsPerOne)) (ofQuotient n d) := by
  obtain ⟨s, hs⟩ : ∃ s, s = (n / d).log2 - 52 := ⟨_, rfl⟩
  obtain ⟨k, hk⟩ : ∃ k, k = n / (d * 2 ^ s) := ⟨_, rfl⟩
  obtain ⟨hlt, hsteps⟩ := quotient_steps n d hs hk
  have hround : ofQuotient n d = ofRank (roundHalfEven n (d * 2 ^ s) + s * binadeSize) := by
    rw [ofQuotient, hs]
  rw [hround]
  by_cases hend : k + s * binadeSize < infinityRank
  · exact nearest_steps hd hlt hsteps hend hk
  · -- beyond the last rank there is only infinity
    have hle := le_roundHalfEven n (d * 2 ^ s)
    rw [ofRank_of_le (by omega)]
    refine nearest_infinity ((units_le_quotient hd _).mpr ?_)
    calc infinity.units * d ≤ k * 2 ^ s * d := by
          refine Nat.mul_le_mul_right d ?_
          rw [← unitsAt_steps hlt.le hsteps, units_eq, rank_infinity]
          exact unitsAt_strictMono.monotone (Nat.le_of_not_lt hend)
      _ = d * 2 ^ s * k := by ring
      _ ≤ n := by rw [hk]; exact Nat.mul_div_le n _

end Quotient

theorem nearest_ofUnits (u : Nat) : Nearest (u / unitsPerOne) (ofUnits u) := by
  have h := nearest_ofQuotient (n := u) Nat.one_pos
  rwa [Nat.cast_one, one_mul] at h

theorem nearest_ofNat (n : Nat) : Nearest n (ofNat n) := by
  have h := nearest_ofUnits (n * unitsPerOne)
  rwa [Nat.cast_mul, mul_div_cancel_right₀ _ unitsPerOne_pos.ne'] at h

theorem nearest_product (m n : Magnitude) :
    Nearest (m.toRat * n.toRat) (ofQuotient (m.units * n.units) unitsPerOne) := by
  have h := nearest_ofQuotient (n := m.units * n.units) (Nat.two_pow_pos 1074)
  rwa [← unitsPerOne, Nat.cast_mul, ← div_mul_div_comm] at h

section Nearest

variable {x y : ℚ} {m n lo hi : Magnitude}

theorem Nearest.rank_le (h : Nearest x m) (hnext : hi.rank = lo.rank + 1)
    (hx : 2 * x < lo.toRat + hi.toRat) : m.rank ≤ lo.rank := by
  by_contra hlt
  have hm : hi.toRat ≤ m.toRat := toRat_le_toRat.mpr (by omega)
  have hlow : lo.toRat < hi.toRat := toRat_lt_toRat.mpr (by omega)
  have hclose := h.closest lo
  rw [abs_of_nonpos (by linarith : x - m.toRat ≤ 0), le_abs] at hclose
  rcases hclose with hclose | hclose <;> linarith

theorem Nearest.le_rank (h : Nearest x m) (hnext : hi.rank = lo.rank + 1)
    (hx : lo.toRat + hi.toRat < 2 * x) : hi.rank ≤ m.rank := by
  by_contra hlt
  have hm : m.toRat ≤ lo.toRat := toRat_le_toRat.mpr (by omega)
  have hlow : lo.toRat < hi.toRat := toRat_lt_toRat.mpr (by omega)
  have hclose := h.closest hi
  rw [abs_of_nonneg (by linarith : 0 ≤ x - m.toRat), le_abs] at hclose
  rcases hclose with hclose | hclose <;> linarith

/-- Rounding does not cross a magnitude. -/
theorem Nearest.le (h : Nearest x m) (hx : x ≤ n.toRat) : m.toRat ≤ n.toRat := by
  by_contra hlt
  have hclose := h.closest n
  rw [abs_of_nonpos (by linarith : x - m.toRat ≤ 0), abs_of_nonpos (by linarith)] at hclose
  linarith

theorem Nearest.ge (h : Nearest x m) (hx : n.toRat ≤ x) : n.toRat ≤ m.toRat := by
  by_contra hlt
  have hclose := h.closest n
  rw [abs_of_nonneg (by linarith : 0 ≤ x - m.toRat), abs_of_nonneg (by linarith)] at hclose
  linarith

end Nearest

theorem exists_unitsAt {a : Nat} (ha : a ≤ 2 * binadeSize) (s : Nat) :
    ∃ r ≤ 2 * binadeSize + s * binadeSize, unitsAt r = a * 2 ^ s := by
  induction s generalizing a with
  | zero => exact ⟨a, by omega, by simpa using unitsAt_steps ha (Or.inl rfl)⟩
  | succ s ih =>
      by_cases hlow : binadeSize ≤ a
      · exact ⟨a + (s + 1) * binadeSize, Nat.add_le_add_right ha _, unitsAt_steps ha (Or.inr hlow)⟩
      · obtain ⟨r, hr, hunits⟩ := ih (a := 2 * a) (by omega)
        have hstep := Nat.add_one_mul s binadeSize
        refine ⟨r, by omega, ?_⟩
        rw [hunits]
        ring

theorem exists_toRat_eq {n : Nat} (hn : n ≤ 2 ^ 53) : ∃ m : Magnitude, m.toRat = n := by
  obtain ⟨r, hr, hunits⟩ := exists_unitsAt (a := n) (by rw [binadeSize]; omega) 1074
  refine ⟨ofRank r, ?_⟩
  have hle : r ≤ infinityRank := by
    rw [infinityRank]
    omega
  rw [toRat, units_eq, rank_ofRank hle, hunits, ← unitsPerOne, Nat.cast_mul,
    mul_div_cancel_right₀ _ unitsPerOne_pos.ne']

section Whole

variable {x : ℚ} {m : Magnitude} (h : Nearest x m)
include h

theorem Nearest.eq_of_whole {n : Nat} (hn : n ≤ 2 ^ 53) (hx : x = n) : m.toRat = n := by
  obtain ⟨k, hk⟩ := exists_toRat_eq hn
  have hclose := h.closest k
  rw [hk, hx, sub_self, abs_zero] at hclose
  exact (sub_eq_zero.mp (abs_nonpos_iff.mp hclose)).symm

/-- Up to 53 bits before the point, rounding moves a value by a half at most. -/
theorem Nearest.abs_sub_le (h0 : 0 ≤ x) (hx : x ≤ 2 ^ 53) : |x - m.toRat| ≤ 1 / 2 := by
  have hround := abs_sub_round x
  obtain ⟨hlow, hhigh⟩ := abs_le.mp hround
  obtain ⟨n, hn⟩ : ∃ n : Nat, round x = n := by
    refine Int.eq_ofNat_of_zero_le (Int.lt_add_one_iff.mp ?_)
    have : (0 : ℚ) < (round x : ℤ) + 1 := by linarith
    exact_mod_cast this
  rw [hn, Int.cast_natCast] at hround hlow
  have hle : n ≤ 2 ^ 53 := by
    have : (n : ℚ) < 2 ^ 53 + 1 := by linarith
    exact Nat.lt_add_one_iff.mp (by exact_mod_cast this)
  obtain ⟨k, hk⟩ := exists_toRat_eq hle
  exact (h.closest k).trans (hk ▸ hround)

end Whole

section Ends

variable {x : ℚ} {m lo hi : Magnitude} (h : Nearest x m) (hnext : hi.rank = lo.rank + 1)
include h hnext

/-- At the midpoint of two neighbours the even one is taken. -/
theorem Nearest.le_rank_iff (heven : hi.rank % 2 = 0) :
    hi.rank ≤ m.rank ↔ lo.toRat + hi.toRat ≤ 2 * x := by
  constructor
  · intro hle
    by_contra hlt
    have := h.rank_le hnext (not_le.mp hlt)
    omega
  · intro hle
    by_contra hlt
    have heq : lo.toRat + hi.toRat = 2 * x :=
      le_antisymm hle (not_lt.mp fun hx => hlt (h.le_rank hnext hx))
    have hm : m.toRat ≤ lo.toRat := toRat_le_toRat.mpr (by omega)
    have hstep : lo.toRat < hi.toRat := toRat_lt_toRat.mpr (by omega)
    have hclose := h.closest hi
    have hdist : |x - m.toRat| = x - m.toRat := abs_of_nonneg (by linarith)
    have hdist' : |x - hi.toRat| = hi.toRat - x := by
      rw [abs_of_nonpos (by linarith), neg_sub]
    rw [hdist, hdist'] at hclose
    have hlow : lo.rank ≤ m.rank := toRat_le_toRat.mp (by linarith)
    have hmEven := h.even hi (fun he => by rw [he] at hlt; omega) (by linarith)
    omega

theorem Nearest.rank_le_iff (heven : lo.rank % 2 = 0) :
    m.rank ≤ lo.rank ↔ 2 * x ≤ lo.toRat + hi.toRat := by
  constructor
  · intro hle
    by_contra hlt
    have := h.le_rank hnext (not_le.mp hlt)
    omega
  · intro hle
    by_contra hlt
    have heq : 2 * x = lo.toRat + hi.toRat :=
      le_antisymm hle (not_lt.mp fun hx => hlt (h.rank_le hnext hx))
    have hm : hi.toRat ≤ m.toRat := toRat_le_toRat.mpr (by omega)
    have hstep : lo.toRat < hi.toRat := toRat_lt_toRat.mpr (by omega)
    have hclose := h.closest lo
    have hdist : |x - m.toRat| = m.toRat - x := by
      rw [abs_of_nonpos (by linarith), neg_sub]
    have hdist' : |x - lo.toRat| = x - lo.toRat := abs_of_nonneg (by linarith)
    rw [hdist, hdist'] at hclose
    have hhigh : m.rank ≤ hi.rank := toRat_le_toRat.mp (by linarith)
    have hmEven := h.even lo (fun he => by rw [he] at hlt; omega) (by linarith)
    omega

end Ends

def largest : Magnitude := ofRank (infinityRank - 1)

def smallest : Magnitude := ofRank 1

/-- Half a step above the largest finite magnitude. -/
def overflowBound : ℚ := 2 ^ 1024 - 2 ^ 970

/-- Half of the smallest positive magnitude. -/
def underflowBound : ℚ := 1 / 2 ^ 1075

/-- Powers of two are compared by their exponents, since they are too large to be computed. -/
theorem two_pow_mul {a b c d : Nat} (h : a + b = c + d) : (2 : ℚ) ^ a * 2 ^ b = 2 ^ c * 2 ^ d := by
  rw [← pow_add, h, pow_add]

theorem toRat_infinity : infinity.toRat = 2 ^ 1024 := by
  have h := toRat_steps (k := binadeSize) (s := 2046) (by omega) (Or.inr le_rfl) (by decide)
  have hend : ofRank (binadeSize + 2046 * binadeSize) = infinity := by decide
  rw [hend, binadeSize, unitsPerOne] at h
  rw [h, div_eq_iff (by positivity)]
  simp only [Nat.cast_mul, Nat.cast_pow, Nat.cast_ofNat]
  exact @two_pow_mul 52 2046 1024 1074 rfl

theorem overflowBound_lt_infinity : overflowBound < infinity.toRat := by
  rw [toRat_infinity, overflowBound]
  exact sub_lt_self _ (pow_pos two_pos 970)

theorem toRat_largest : largest.toRat = 2 ^ 1024 - 2 ^ 971 := by
  have h := toRat_steps (k := 2 * binadeSize - 1) (s := 2045) (by omega) (Or.inr (by decide))
    (by decide)
  have hend : ofRank (2 * binadeSize - 1 + 2045 * binadeSize) = largest := by decide
  have hsteps : ((2 * 2 ^ 52 - 1 : Nat) : ℚ) = 2 ^ 53 - 2 ^ 0 := by norm_num
  rw [hend, binadeSize, unitsPerOne] at h
  rw [h, div_eq_iff (by positivity)]
  simp only [Nat.cast_mul, Nat.cast_pow, Nat.cast_ofNat, hsteps, sub_mul]
  rw [@two_pow_mul 53 2045 1024 1074 rfl, @two_pow_mul 0 2045 971 1074 rfl]

theorem largest_add_infinity : largest.toRat + infinity.toRat = 2 * overflowBound := by
  have hstep : (2 : ℚ) ^ 971 = 2 * 2 ^ 970 := pow_succ' 2 970
  rw [toRat_largest, toRat_infinity, overflowBound, hstep]
  generalize (2 : ℚ) ^ 1024 = a
  generalize (2 : ℚ) ^ 970 = b
  ring

theorem cast_powerBound : (powerBound : ℚ) = overflowBound := by
  have hle (a b : Nat) (h : a ≤ b) : 2 ^ a ≤ 2 ^ b := Nat.pow_le_pow_right Nat.two_pos h
  rw [powerBound, Nat.cast_sub (hle 970 1024 (by decide)), overflowBound]
  simp only [Nat.cast_pow, Nat.cast_ofNat]

theorem toRat_zero : zero.toRat = 0 := by
  have hzero : zero.units = 0 := by decide
  rw [toRat, hzero, Nat.cast_zero, zero_div]

theorem toRat_smallest : smallest.toRat = 2 * underflowBound := by
  have hone : smallest.units = 1 := by decide
  have hstep : (2 : ℚ) ^ 1075 = 2 * 2 ^ 1074 := pow_succ' 2 1074
  rw [toRat, hone, cast_unitsPerOne, underflowBound, hstep, Nat.cast_one]
  generalize (2 : ℚ) ^ 1074 = a
  ring

variable {x : ℚ} {m : Magnitude}

theorem Nearest.eq_infinity_iff (h : Nearest x m) : m = infinity ↔ overflowBound ≤ x := by
  have hnext : infinity.rank = largest.rank + 1 := by decide
  have hle := h.le_rank_iff hnext (by decide)
  rw [largest_add_infinity] at hle
  constructor
  · rintro rfl
    linarith [hle.mp le_rfl]
  · intro hx
    exact ext_rank (Nat.le_antisymm (rank_le_infinity m) (hle.mpr (by linarith)))

theorem Nearest.eq_zero_iff (h : Nearest x m) : m = zero ↔ x ≤ underflowBound := by
  have hnext : smallest.rank = zero.rank + 1 := by decide
  have hle := h.rank_le_iff hnext (by decide)
  rw [toRat_zero, zero_add, toRat_smallest] at hle
  constructor
  · rintro rfl
    linarith [hle.mp le_rfl]
  · intro hx
    exact ext_rank (Nat.le_zero.mp (hle.mpr (by linarith)))

end MeshMarkup.Magnitude
