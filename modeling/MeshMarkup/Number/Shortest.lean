import MeshMarkup.Number.Binary64

namespace MeshMarkup

structure Decimal where
  significand : Nat
  power : Int
  deriving DecidableEq

namespace Decimal

def magnitude (d : Decimal) : Magnitude := .ofScaled d.significand d.power

def dropZeros : Nat → Decimal → Decimal
  | 0, d => d
  | fuel + 1, d =>
    if d.significand ≠ 0 ∧ d.significand % 10 = 0 then
      dropZeros fuel ⟨d.significand / 10, d.power + 1⟩
    else d

def fractionAt (m : Magnitude) : Int → Nat × Nat
  | .ofNat power => (m.units, Magnitude.unitsPerOne * 10 ^ power)
  | .negSucc power => (m.units * 10 ^ (power + 1), Magnitude.unitsPerOne)

/-- The power of ten of the leading digit of a positive finite magnitude, estimated from its
binary exponent and then corrected. -/
def leadingPower (m : Magnitude) : Int :=
  let estimate := ((m.units.log2 : Int) - 1074) * 30103 / 100000
  let (numerator, denominator) := fractionAt m (estimate + 1)
  if denominator ≤ numerator then estimate + 1 else estimate

/-- The better of the two neighbours of a magnitude on the grid of a power of ten, if one of
them reads back. -/
def neighbour? (m : Magnitude) (power : Int) : Option Decimal :=
  let (numerator, denominator) := fractionAt m power
  let below : Decimal := ⟨numerator / denominator, power⟩
  let above : Decimal := ⟨numerator / denominator + 1, power⟩
  match decide (below.magnitude = m), decide (above.magnitude = m) with
  | true, true =>
    if Magnitude.roundHalfEven numerator denominator = below.significand then some below
    else some above
  | true, false => some below
  | false, true => some above
  | false, false => none

def exact (m : Magnitude) : Decimal := ⟨m.units * 5 ^ 1074, -1074⟩

/-- The first neighbour that reads back on the grids of `digits`, `digits + 1`, … digits, of
which `tries` are tried. -/
def shortestFrom (m : Magnitude) (leading : Int) : Nat → Nat → Decimal
  | 0, _ => exact m
  | tries + 1, digits =>
    match neighbour? m (leading + 1 - digits) with
    | some d => dropZeros 17 d
    | none => shortestFrom m leading tries (digits + 1)

/-- The decimal with the fewest digits that reads back and, of those, the nearest one. Seventeen
digits always suffice. -/
def shortest (m : Magnitude) : Decimal := shortestFrom m (leadingPower m) 17 1

end Decimal

end MeshMarkup
