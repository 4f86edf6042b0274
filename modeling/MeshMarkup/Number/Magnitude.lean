namespace MeshMarkup

-- Powers of natural numbers are the built-in ones, whatever else defines powers.
attribute [instance (high), default_instance high + 1] instPowNat

/-- Values in one binade, so also the rank of the smallest normal magnitude. -/
def binadeSize : Nat := 2 ^ 52

def infinityRank : Nat := 2047 * binadeSize

/-- A magnitude of the binary64 format by its rank: zero, the positive values in increasing order,
infinity. The smallest positive value is the unit, and a finite magnitude is a number of units. -/
structure Magnitude where
  rank : Nat
  rank_le : rank ≤ infinityRank
  deriving DecidableEq

namespace Magnitude

def unitsPerOne : Nat := 2 ^ 1074

def ofRank (rank : Nat) : Magnitude := ⟨min rank infinityRank, Nat.min_le_right _ _⟩

def zero : Magnitude := ofRank 0

def infinity : Magnitude := ofRank infinityRank

instance : Inhabited Magnitude := ⟨zero⟩

def isFinite (m : Magnitude) : Bool := m.rank < infinityRank

/-- The value in units. Infinity counts as the value that would follow the largest finite one. -/
def units (m : Magnitude) : Nat :=
  let exponent := m.rank / binadeSize
  let fraction := m.rank % binadeSize
  if exponent = 0 then fraction else (binadeSize + fraction) * 2 ^ (exponent - 1)

/-- The whole number nearest to a quotient; of two equally near ones the even one. -/
def roundHalfEven (numerator denominator : Nat) : Nat :=
  let quotient := numerator / denominator
  let twice := 2 * (numerator % denominator)
  if twice < denominator then quotient
  else if denominator < twice then quotient + 1
  else quotient + quotient % 2

/-- The magnitude nearest to a quotient of units; of two equally near ones the one of even
rank, and infinity from half a step above the largest finite magnitude on. -/
def ofQuotient (numerator denominator : Nat) : Magnitude :=
  let shift := (numerator / denominator).log2 - 52
  ofRank (roundHalfEven numerator (denominator * 2 ^ shift) + shift * binadeSize)

def ofUnits (units : Nat) : Magnitude := ofQuotient units 1

def ofNat (n : Nat) : Magnitude := ofUnits (n * unitsPerOne)

/-- A decimal significand times a power of ten, rounded once. Powers that decide the result on
their own are not expanded. -/
def ofScaled (significand : Nat) : Int → Magnitude
  | .ofNat power =>
    if significand = 0 then zero
    else if 308 < power then infinity
    else ofUnits (significand * 10 ^ power * unitsPerOne)
  | .negSucc power =>
    if significand.log2 + 1076 ≤ 3 * (power + 1) then zero
    else ofQuotient (significand * unitsPerOne) (10 ^ (power + 1))

def floor (m : Magnitude) : Nat := m.units / unitsPerOne

def isWhole (m : Magnitude) : Bool := m.isFinite && m.units % unitsPerOne = 0

end Magnitude

end MeshMarkup
