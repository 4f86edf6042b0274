import MeshMarkup.Parser.Literal

namespace MeshMarkup

/-- Splits a power whose exponent is too large to be computed with. -/
theorem pow_split {a b c : Nat} (h : c = a + b) (n : Nat) : n ^ c = n ^ a * n ^ b := by
  rw [h, Nat.pow_add]

theorem ten_pow (n : Nat) : 10 ^ n = 5 ^ n * 2 ^ n := by
  rw [← Nat.mul_pow]

namespace Magnitude

theorem roundHalfEven_mul {k : Nat} (hk : 0 < k) (n d : Nat) :
    roundHalfEven (k * n) (k * d) = roundHalfEven n d := by
  have htwice : 2 * (k * (n % d)) = k * (2 * (n % d)) := Nat.mul_left_comm 2 k _
  simp only [roundHalfEven, Nat.mul_div_mul_left n d hk, Nat.mul_mod_mul_left, htwice,
    Nat.mul_lt_mul_left hk]

theorem roundHalfEven_one (n : Nat) : roundHalfEven n 1 = n := by
  simp [roundHalfEven, Nat.mod_one]

theorem le_roundHalfEven (n d : Nat) : n / d ≤ roundHalfEven n d := by
  simp only [roundHalfEven]
  split
  · omega
  · split <;> omega

theorem ofQuotient_mul {k : Nat} (hk : 0 < k) (n d : Nat) :
    ofQuotient (k * n) (k * d) = ofQuotient n d := by
  simp only [ofQuotient, Nat.mul_div_mul_left n d hk, Nat.mul_assoc k d, roundHalfEven_mul hk]

theorem ofQuotient_congr {n d n' d' : Nat} (hd : 0 < d) (hd' : 0 < d') (h : n * d' = n' * d) :
    ofQuotient n d = ofQuotient n' d' := by
  calc ofQuotient n d = ofQuotient (d' * n) (d' * d) := (ofQuotient_mul hd' n d).symm
    _ = ofQuotient (d * n') (d * d') := by
      rw [Nat.mul_comm d' n, h, Nat.mul_comm n' d, Nat.mul_comm d' d]
    _ = ofQuotient n' d' := ofQuotient_mul hd n' d'

theorem ofRank_rank (m : Magnitude) : ofRank m.rank = m := by
  simp only [ofRank, Nat.min_eq_left m.rank_le]

theorem ofRank_of_le {r : Nat} (h : infinityRank ≤ r) : ofRank r = infinity := by
  simp only [ofRank, infinity, Nat.min_eq_right h, Nat.min_self]

theorem ofQuotient_of_lt {n d : Nat} (h : 2 * n < d) : ofQuotient n d = zero := by
  have hq : n / d = 0 := Nat.div_eq_of_lt (by omega)
  have hr : n % d = n := Nat.mod_eq_of_lt (by omega)
  simp [ofQuotient, roundHalfEven, hq, hr, h, Nat.log2_zero, zero]

theorem ofQuotient_of_ge {n d : Nat} (h : 2 ^ 2098 ≤ n / d) : ofQuotient n d = infinity := by
  refine ofRank_of_le ?_
  have hne : n / d ≠ 0 := fun h0 => by
    rw [h0] at h
    exact absurd h (Nat.not_le_of_lt (Nat.two_pow_pos 2098))
  have hlog : 2098 ≤ (n / d).log2 := (Nat.le_log2 hne).mpr h
  obtain ⟨s, hs⟩ : ∃ s, (n / d).log2 = s + 52 := ⟨(n / d).log2 - 52, by omega⟩
  have hpow : 2 ^ 52 * 2 ^ s ≤ n / d := by
    rw [← Nat.pow_add, Nat.add_comm 52 s, ← hs]
    exact Nat.log2_self_le hne
  have hround : 2 ^ 52 ≤ roundHalfEven n (d * 2 ^ s) := by
    refine Nat.le_trans ?_ (le_roundHalfEven n (d * 2 ^ s))
    rw [← Nat.div_div_eq_div_mul]
    exact (Nat.le_div_iff_mul_le (Nat.two_pow_pos s)).mpr hpow
  have hshift : 2046 * binadeSize ≤ s * binadeSize := Nat.mul_le_mul_right _ (by omega)
  rw [hs, Nat.add_sub_cancel]
  simp only [infinityRank, binadeSize] at hshift ⊢
  omega

theorem ofUnits_of_lt {u : Nat} (h : u < binadeSize) : ofUnits u = ofRank u := by
  have hlog : u.log2 - 52 = 0 := by
    by_cases h0 : u = 0
    · simp [h0, Nat.log2_zero]
    · have := (Nat.log2_lt h0).mpr h
      omega
  simp [ofUnits, ofQuotient, hlog, roundHalfEven_one]

theorem ofUnits_normal {f s : Nat} (hf : f < binadeSize) :
    ofUnits ((binadeSize + f) * 2 ^ s) = ofRank (binadeSize + f + s * binadeSize) := by
  have hpos : 0 < 2 ^ s := Nat.two_pow_pos s
  have hlow : 2 ^ (s + 52) ≤ (binadeSize + f) * 2 ^ s := by
    rw [Nat.add_comm s 52, Nat.pow_add]
    exact Nat.mul_le_mul_right _ (Nat.le_add_right _ _)
  have hhigh : (binadeSize + f) * 2 ^ s < 2 ^ (s + 52 + 1) := by
    rw [show s + 52 + 1 = 53 + s by omega, Nat.pow_add]
    refine Nat.mul_lt_mul_of_pos_right ?_ hpos
    simp only [binadeSize] at hf ⊢
    omega
  have hne : (binadeSize + f) * 2 ^ s ≠ 0 := by
    have := Nat.two_pow_pos (s + 52)
    omega
  have hlog := (Nat.log2_eq_iff hne).mpr ⟨hlow, hhigh⟩
  have hround : roundHalfEven ((binadeSize + f) * 2 ^ s) (2 ^ s) = binadeSize + f := by
    have h := roundHalfEven_mul hpos (binadeSize + f) 1
    rwa [roundHalfEven_one, Nat.mul_one, Nat.mul_comm] at h
  simp only [ofUnits, ofQuotient, Nat.div_one, Nat.one_mul, hlog, Nat.add_sub_cancel, hround]

theorem ofUnits_units (m : Magnitude) : ofUnits m.units = m := by
  have hrank := Nat.div_add_mod m.rank binadeSize
  have hf : m.rank % binadeSize < binadeSize := Nat.mod_lt _ (Nat.two_pow_pos 52)
  rw [units]
  by_cases h0 : m.rank / binadeSize = 0
  · rw [h0, Nat.mul_zero, Nat.zero_add] at hrank
    simp only [h0, if_true]
    rw [ofUnits_of_lt hf, hrank, ofRank_rank]
  · obtain ⟨e, he⟩ := Nat.exists_eq_succ_of_ne_zero h0
    simp only [h0, if_false]
    rw [ofUnits_normal hf, he, Nat.succ_sub_one]
    rw [he, Nat.succ_eq_add_one, Nat.mul_add, Nat.mul_one, Nat.mul_comm] at hrank
    rw [show binadeSize + m.rank % binadeSize + e * binadeSize = m.rank by omega, ofRank_rank]

theorem units_lt (m : Magnitude) : m.units < 2 ^ 2099 := by
  have hf : m.rank % binadeSize < binadeSize := Nat.mod_lt _ (Nat.two_pow_pos 52)
  have he : m.rank / binadeSize ≤ 2047 := by
    have := m.rank_le
    rw [infinityRank] at this
    exact Nat.div_le_of_le_mul (by rwa [Nat.mul_comm] at this)
  rw [units]
  split
  · exact Nat.lt_of_lt_of_le hf (Nat.pow_le_pow_right (by decide) (by decide))
  · have hpow : 2 ^ (m.rank / binadeSize - 1) ≤ 2 ^ 2046 :=
      Nat.pow_le_pow_right (by decide) (by omega)
    have hsum : binadeSize + m.rank % binadeSize < 2 ^ 53 := by
      simp only [binadeSize] at hf ⊢
      omega
    calc (binadeSize + m.rank % binadeSize) * 2 ^ (m.rank / binadeSize - 1)
        ≤ (binadeSize + m.rank % binadeSize) * 2 ^ 2046 := Nat.mul_le_mul_left _ hpow
      _ < 2 ^ 53 * 2 ^ 2046 := Nat.mul_lt_mul_of_pos_right hsum (Nat.two_pow_pos 2046)
      _ = 2 ^ 2099 := (@pow_split 53 2046 2099 rfl 2).symm

end Magnitude

/-- Whole numbers from this bound on are no binary64 numbers. -/
def powerBound : Nat := 2 ^ 1024 - 2 ^ 970

namespace Decimal

open Magnitude

def numerator (d : Decimal) : Nat := d.significand * 10 ^ d.power.toNat * unitsPerOne

def denominator (d : Decimal) : Nat := 10 ^ (-d.power).toNat

theorem two_pow_le_ten_pow {p : Nat} (hp : 308 < p) : 2 ^ 1024 ≤ 10 ^ p := by
  have hstep (k : Nat) : 2 ^ (93 * k) ≤ 10 ^ (28 * k) := by
    rw [Nat.pow_mul, Nat.pow_mul]
    exact Nat.pow_le_pow_left (by decide) k
  calc 2 ^ 1024 = 2 ^ (93 * 11) * 2 ^ 1 := @pow_split (93 * 11) 1 1024 rfl 2
    _ ≤ 10 ^ (28 * 11) * 10 ^ 1 := Nat.mul_le_mul (hstep 11) (by decide)
    _ = 10 ^ (28 * 11 + 1) := (@pow_split (28 * 11) 1 (28 * 11 + 1) rfl 10).symm
    _ ≤ 10 ^ p := Nat.pow_le_pow_right (by decide) (by omega)

theorem denominator_pos (d : Decimal) : 0 < d.denominator := Nat.pow_pos (by decide)

theorem overflow_of_large_power {s p : Nat} (hs : s ≠ 0) (hp : 308 < p) :
    2 ^ 2098 ≤ s * 10 ^ p * unitsPerOne := by
  calc 2 ^ 2098 = 1 * 2 ^ 1024 * unitsPerOne := by
        rw [Nat.one_mul, unitsPerOne]
        exact @pow_split 1024 1074 2098 rfl 2
    _ ≤ s * 10 ^ p * unitsPerOne :=
      Nat.mul_le_mul_right _ (Nat.mul_le_mul (Nat.pos_of_ne_zero hs) (two_pow_le_ten_pow hp))

theorem underflow_of_small_power {s p : Nat} (hp : s.log2 + 1076 ≤ 3 * p) :
    2 * (s * unitsPerOne) < 10 ^ p := by
  have hs : s < 2 ^ (s.log2 + 1) := Nat.lt_log2_self
  calc 2 * (s * unitsPerOne) < 2 * (2 ^ (s.log2 + 1) * unitsPerOne) :=
        Nat.mul_lt_mul_of_pos_left
          (Nat.mul_lt_mul_of_pos_right hs (Nat.two_pow_pos 1074)) (by decide)
    _ = 2 ^ (s.log2 + 1076) := by
      rw [unitsPerOne, ← Nat.pow_add, Nat.mul_comm, ← Nat.pow_succ]
    _ ≤ 2 ^ (3 * p) := Nat.pow_le_pow_right (by decide) hp
    _ = 8 ^ p := by rw [Nat.pow_mul]
    _ ≤ 10 ^ p := Nat.pow_le_pow_left (by decide) _

theorem denominator_ofNat (s p : Nat) : denominator ⟨s, .ofNat p⟩ = 1 := by cases p <;> rfl

theorem numerator_negSucc (s p : Nat) : numerator ⟨s, .negSucc p⟩ = s * unitsPerOne :=
  congrArg (· * unitsPerOne) (Nat.mul_one s)

theorem magnitude_eq (d : Decimal) : d.magnitude = ofQuotient d.numerator d.denominator := by
  obtain ⟨s, power⟩ := d
  cases power with
  | ofNat p =>
      have hnum : numerator ⟨s, .ofNat p⟩ = s * 10 ^ p * unitsPerOne := rfl
      rw [hnum, denominator_ofNat, magnitude, ofScaled]
      split
      · next h0 => subst h0; simp [ofQuotient_of_lt]
      · next h0 =>
          split
          · next hp =>
              refine (ofQuotient_of_ge ?_).symm
              rw [Nat.div_one]
              exact overflow_of_large_power h0 hp
          · rfl
  | negSucc p =>
      have hden : denominator ⟨s, .negSucc p⟩ = 10 ^ (p + 1) := rfl
      rw [numerator_negSucc, hden, magnitude, ofScaled]
      split
      · next hp => exact (ofQuotient_of_lt (underflow_of_small_power hp)).symm
      · rfl

/-- Zeros at the end of a significand can be counted in the power of ten instead. -/
theorem magnitude_shift (s k : Nat) (p : Int) :
    magnitude ⟨s * 10 ^ k, p⟩ = magnitude ⟨s, p + k⟩ := by
  rw [magnitude_eq, magnitude_eq]
  refine ofQuotient_congr (denominator_pos _) (denominator_pos _) ?_
  simp only [numerator, denominator]
  have hpow : 10 ^ k * 10 ^ p.toNat * 10 ^ (-(p + k)).toNat =
      10 ^ (p + k).toNat * 10 ^ (-p).toNat := by
    rw [← Nat.pow_add, ← Nat.pow_add, ← Nat.pow_add]
    congr 1
    omega
  calc s * 10 ^ k * 10 ^ p.toNat * unitsPerOne * 10 ^ (-(p + k)).toNat
      = s * (10 ^ k * 10 ^ p.toNat * 10 ^ (-(p + k)).toNat) * unitsPerOne := by
        simp only [Nat.mul_assoc, Nat.mul_left_comm, Nat.mul_comm]
    _ = s * 10 ^ (p + k).toNat * unitsPerOne * 10 ^ (-p).toNat := by
        rw [hpow]
        simp only [Nat.mul_assoc, Nat.mul_left_comm, Nat.mul_comm]

theorem magnitude_dropZeros (fuel : Nat) (d : Decimal) :
    (dropZeros fuel d).magnitude = d.magnitude := by
  induction fuel generalizing d with
  | zero => rfl
  | succ fuel ih =>
      rw [dropZeros]
      split
      · next h =>
          rw [ih]
          have hten : d.significand / 10 * 10 ^ 1 = d.significand := by omega
          have hs := magnitude_shift (d.significand / 10) 1 d.power
          rw [hten] at hs
          exact hs.symm
      · rfl

theorem magnitude_exact (m : Magnitude) : (exact m).magnitude = m := by
  rw [magnitude_eq]
  have hn : (exact m).numerator = 10 ^ 1074 * m.units := by
    simp only [numerator, exact, unitsPerOne, ten_pow 1074]
    rw [show ((-1074 : Int)).toNat = 0 from rfl, Nat.pow_zero, Nat.mul_one, Nat.mul_assoc,
      Nat.mul_comm]
  have hd : (exact m).denominator = 10 ^ 1074 * 1 := (Nat.mul_one _).symm
  rw [hn, hd, ofQuotient_mul (Nat.pow_pos (by decide))]
  exact ofUnits_units m

theorem magnitude_whole {m : Magnitude} (h : m.isWhole = true) :
    magnitude ⟨m.floor, 0⟩ = m := by
  simp only [isWhole, Bool.and_eq_true, decide_eq_true_eq] at h
  have hu : m.floor * unitsPerOne = m.units := by
    rw [floor]
    exact Nat.div_mul_cancel (Nat.dvd_of_mod_eq_zero h.2)
  rw [magnitude_eq]
  have hn : numerator ⟨m.floor, 0⟩ = m.units := by
    rw [numerator]
    simp only [Int.toNat_zero, Nat.pow_zero, Nat.mul_one, hu]
  rw [hn]
  exact ofUnits_units m

theorem magnitude_neighbour? {m : Magnitude} {power : Int} {d : Decimal}
    (h : neighbour? m power = some d) : d.magnitude = m ∧ d.power = power := by
  simp only [neighbour?] at h
  split at h
  · next hb ha =>
      split at h <;> simp only [Option.some.injEq] at h <;> subst h
      · exact ⟨of_decide_eq_true hb, rfl⟩
      · exact ⟨of_decide_eq_true ha, rfl⟩
  · next hb _ =>
      simp only [Option.some.injEq] at h
      subst h
      exact ⟨of_decide_eq_true hb, rfl⟩
  · next _ ha =>
      simp only [Option.some.injEq] at h
      subst h
      exact ⟨of_decide_eq_true ha, rfl⟩
  · simp at h

theorem power_dropZeros (fuel : Nat) (d : Decimal) :
    d.power ≤ (dropZeros fuel d).power ∧ (dropZeros fuel d).power ≤ d.power + fuel := by
  induction fuel generalizing d with
  | zero => simp [dropZeros]
  | succ fuel ih =>
      rw [dropZeros]
      split
      · have := ih ⟨d.significand / 10, d.power + 1⟩
        simp only at this
        omega
      · omega

/-- Whatever the leading power is taken to be, the decimal found reads back. -/
theorem magnitude_shortestFrom (m : Magnitude) (leading : Int) (tries digits : Nat) :
    (shortestFrom m leading tries digits).magnitude = m := by
  induction tries generalizing digits with
  | zero => exact magnitude_exact m
  | succ tries ih =>
      rw [shortestFrom]
      split
      · next d hd => rw [magnitude_dropZeros, (magnitude_neighbour? hd).1]
      · exact ih (digits + 1)

theorem magnitude_shortest (m : Magnitude) : (shortest m).magnitude = m :=
  magnitude_shortestFrom m _ _ _

theorem power_shortestFrom (m : Magnitude) (leading : Int) (tries digits : Nat) :
    min (-1074) (leading + 2 - (digits + tries)) ≤ (shortestFrom m leading tries digits).power ∧
      (shortestFrom m leading tries digits).power ≤ max (-1074) (leading + 18 - digits) := by
  induction tries generalizing digits with
  | zero => simp only [shortestFrom, exact]; omega
  | succ tries ih =>
      rw [shortestFrom]
      split
      · next d hd =>
          have hp := (magnitude_neighbour? hd).2
          have := power_dropZeros 17 d
          omega
      · have := ih (digits + 1)
        omega

theorem leadingPower_bounds (m : Magnitude) :
    -324 ≤ leadingPower m ∧ leadingPower m ≤ 309 := by
  have hlog : m.units.log2 ≤ 2098 := by
    by_cases h0 : m.units = 0
    · simp [h0, Nat.log2_zero]
    · have := (Nat.log2_lt h0).mpr m.units_lt
      omega
  simp only [leadingPower]
  split <;> omega

theorem significand_neighbour? {m : Magnitude} {power : Int} {d : Decimal}
    (h : neighbour? m power = some d) : d.significand ≤ m.units * 10 ^ power.natAbs + 1 := by
  obtain ⟨n, hn⟩ : ∃ n, n = (fractionAt m power).1 / (fractionAt m power).2 := ⟨_, rfl⟩
  have hle : n ≤ m.units * 10 ^ power.natAbs := by
    rw [hn]
    refine Nat.le_trans (Nat.div_le_self _ _) ?_
    cases power with
    | ofNat p => exact Nat.le_mul_of_pos_right _ (Nat.pow_pos (by decide))
    | negSucc p => exact Nat.le_of_eq rfl
  have hd : d.significand = n ∨ d.significand = n + 1 := by
    simp only [neighbour?, ← hn] at h
    split at h
    · split at h <;> simp only [Option.some.injEq] at h <;> subst h
      · exact Or.inl rfl
      · exact Or.inr rfl
    · exact Or.inl (Option.some.inj h ▸ rfl)
    · exact Or.inr (Option.some.inj h ▸ rfl)
    · cases h
  omega

theorem significand_dropZeros_le (fuel : Nat) (d : Decimal) :
    (dropZeros fuel d).significand ≤ d.significand := by
  induction fuel generalizing d with
  | zero => exact Nat.le_refl _
  | succ fuel ih =>
      rw [dropZeros]
      split
      · exact Nat.le_trans (ih _) (Nat.div_le_self _ _)
      · exact Nat.le_refl _

theorem significand_shortestFrom_le (m : Magnitude) {leading : Int} (hlow : -324 ≤ leading)
    (hhigh : leading ≤ 309) {tries digits : Nat} (h : digits + tries ≤ 18) :
    (shortestFrom m leading tries digits).significand ≤ m.units * 10 ^ 1074 + 1 := by
  have hmono {k : Nat} (hk : k ≤ 1074) : m.units * 10 ^ k ≤ m.units * 10 ^ 1074 :=
    Nat.mul_le_mul_left _ (Nat.pow_le_pow_right (by decide) hk)
  induction tries generalizing digits with
  | zero =>
      have hfive : 5 ^ 1074 ≤ 10 ^ 1074 := Nat.pow_le_pow_left (by decide) 1074
      exact Nat.le_succ_of_le (Nat.mul_le_mul_left _ hfive)
  | succ tries ih =>
      rw [shortestFrom]
      split
      · next d hd =>
          have hbound := hmono (k := (leading + 1 - digits).natAbs) (by omega)
          have hdrop := significand_dropZeros_le 17 d
          have hnear := significand_neighbour? hd
          generalize m.units * 10 ^ 1074 = bound at hbound ⊢
          omega
      · exact ih (by omega)

theorem significand_shortest_lt (m : Magnitude) : (shortest m).significand < 2 ^ 7000 := by
  obtain ⟨hlow, hhigh⟩ := leadingPower_bounds m
  have hle := significand_shortestFrom_le m hlow hhigh (show 1 + 17 ≤ 18 by decide)
  have hproduct : m.units * 10 ^ 1074 ≤ 2 ^ 2099 * 2 ^ 4296 := by
    have hten : 10 ^ 1074 ≤ (2 ^ 4) ^ 1074 := Nat.pow_le_pow_left (by decide) 1074
    rw [← Nat.pow_mul] at hten
    exact Nat.mul_le_mul (Nat.le_of_lt m.units_lt) hten
  rw [← Nat.pow_add] at hproduct
  have hpower : 2 ^ (2099 + 4296) * 4 ≤ 2 ^ 7000 := by
    rw [pow_split (show 7000 = 2099 + 4296 + 605 from rfl)]
    have hfour : 2 ^ 2 ≤ 2 ^ 605 := Nat.pow_le_pow_right (by decide) (by decide)
    exact Nat.mul_le_mul_left _ hfour
  have hpos := Nat.two_pow_pos (2099 + 4296)
  generalize m.units * 10 ^ 1074 = product at hle hproduct
  generalize 2 ^ (2099 + 4296) = bound at hproduct hpower hpos
  generalize 2 ^ 7000 = limit at hpower ⊢
  rw [shortest]
  omega

theorem lt_powerBound {n : Nat} (h : n ≤ 2 ^ 53) : n < powerBound := by
  have hsplit : 2 ^ 1024 = 2 ^ 54 * 2 ^ 970 := @pow_split 54 970 1024 rfl 2
  have hpos : 0 < 2 ^ 970 := Nat.two_pow_pos 970
  rw [powerBound, hsplit]
  omega

theorem power_shortest_le (m : Magnitude) : (shortest m).power ≤ 326 := by
  have hl := leadingPower_bounds m
  have hp := power_shortestFrom m (leadingPower m) 17 1
  rw [shortest]
  omega

theorem power_shortest_lt (m : Magnitude) : (shortest m).power.natAbs < powerBound := by
  have hl := leadingPower_bounds m
  have hp := power_shortestFrom m (leadingPower m) 17 1
  refine lt_powerBound ?_
  rw [shortest]
  omega

end Decimal

end MeshMarkup
