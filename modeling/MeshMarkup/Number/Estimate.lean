import MeshMarkup.Number.Shortest

namespace MeshMarkup

/-- The number nearest to the decimal logarithm of two. -/
def log10Two : Binary64 := .ofBits 0x3FD34413509F79FF

namespace Decimal

/-- The decimal places that the bits of the significand are worth, plus the power. A power that is
too large to be a number has no estimate. -/
def estimate? (d : Decimal) : Option Binary64 := do
  let bits ← Binary64.ofInt? (d.significand.log2 + 1)
  let power ← Binary64.ofInt? d.power
  return (bits.mul log10Two).add power

/-- Estimates beyond this bound, either way, settle the result. -/
def estimateBound : Int := 400

def expanded : Decimal → Magnitude
  | ⟨significand, .ofNat power⟩ => .ofNat (significand * 10 ^ power)
  | ⟨significand, .negSucc power⟩ =>
    .ofQuotient (significand * Magnitude.unitsPerOne) (10 ^ (power + 1))

def converted? (d : Decimal) : Option Magnitude :=
  if d.significand = 0 then some .zero
  else d.estimate?.map fun estimate =>
    if Binary64.compareInt estimateBound estimate = some .lt then .infinity
    else if Binary64.compareInt (-estimateBound) estimate = some .gt then .zero
    else d.expanded

end Decimal

end MeshMarkup
