import MeshMarkup.Number.Magnitude

namespace MeshMarkup

inductive Binary64 where
  | nan
  | signed (negative : Bool) (magnitude : Magnitude)
  deriving DecidableEq

namespace Binary64

def zero : Binary64 := .signed false .zero

def infinity : Binary64 := .signed false .infinity

instance : Inhabited Binary64 := ⟨zero⟩

def isNaN : Binary64 → Bool
  | nan => true
  | signed _ _ => false

def neg : Binary64 → Binary64
  | nan => nan
  | signed negative m => signed (!negative) m

def signBit : Nat := 2 ^ 63

def ofBits (word : Nat) : Binary64 :=
  let rank := word % signBit
  if infinityRank < rank then nan else signed (signBit ≤ word) (.ofRank rank)

def bits? : Binary64 → Option Nat
  | nan => none
  | signed negative m => some ((if negative then signBit else 0) + m.rank)

/-- The position on the line of numbers, on which both zeros stand at 0. -/
def position? : Binary64 → Option Int
  | nan => none
  | signed true m => some (-m.rank)
  | signed false m => some m.rank

/-- Equality of numbers: the zeros are equal, and the undefined number equals nothing. -/
def sameNumber (x y : Binary64) : Bool :=
  match x.position?, y.position? with
  | some a, some b => a = b
  | _, _ => false

def le (x y : Binary64) : Bool :=
  match x.position?, y.position? with
  | some a, some b => a ≤ b
  | _, _ => false

def signedUnits (negative : Bool) (m : Magnitude) : Int :=
  if negative then -(m.units : Int) else m.units

def compareInt (n : Int) : Binary64 → Option Ordering
  | nan => none
  | signed negative m =>
    if m.isFinite then
      some (compare (n * Magnitude.unitsPerOne) (signedUnits negative m))
    else some (if negative then .gt else .lt)

def ofInt? (n : Int) : Option Binary64 :=
  let m := Magnitude.ofNat n.natAbs
  if m.isFinite then some (signed (n < 0) m) else none

def ofNat (n : Nat) : Binary64 := .signed false (.ofNat n)

def ofUnits (units : Int) : Binary64 := .signed (units < 0) (.ofUnits units.natAbs)

/-- A sum of zeros is negative only when both are. -/
def add : Binary64 → Binary64 → Binary64
  | signed s m, signed t n =>
    if m.isFinite && n.isFinite then
      let sum := signedUnits s m + signedUnits t n
      if sum = 0 then .signed (s && t) .zero else ofUnits sum
    else if m.isFinite then signed t n
    else if n.isFinite || s = t then signed s m
    else nan
  | _, _ => nan

def sub (x y : Binary64) : Binary64 := x.add y.neg

def mul : Binary64 → Binary64 → Binary64
  | signed s m, signed t n =>
    if m.isFinite && n.isFinite then
      signed (s ^^ t) (.ofQuotient (m.units * n.units) Magnitude.unitsPerOne)
    else if m = .zero || n = .zero then nan
    else signed (s ^^ t) .infinity
  | _, _ => nan

def div : Binary64 → Binary64 → Binary64
  | signed s m, signed t n =>
    if n = .zero then if m = .zero then nan else signed (s ^^ t) .infinity
    else if m.isFinite && n.isFinite then
      signed (s ^^ t) (.ofQuotient (m.units * Magnitude.unitsPerOne) n.units)
    else if m.isFinite then signed (s ^^ t) .zero
    else if n.isFinite then signed (s ^^ t) .infinity
    else nan
  | _, _ => nan

end Binary64

end MeshMarkup
