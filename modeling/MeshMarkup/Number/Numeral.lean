import MeshMarkup.Number.Shortest

namespace MeshMarkup.Numeral

def natDigits (n : Nat) : List Char := Nat.toDigits 10 n

def intDigits (n : Int) : List Char :=
  if n < 0 then '-' :: natDigits n.natAbs else natDigits n.natAbs

def placeValue (digits : List Char) : Nat := Nat.ofDigitChars 10 digits 0

def exponentDigits (plus : Bool) (power : Int) : List Char :=
  let digits := natDigits power.natAbs
  let padded := if digits.length < 2 then '0' :: digits else digits
  if power < 0 then '-' :: padded else if plus then '+' :: padded else padded

/-- Digits with the point after the first `whole` of them; a point at the edge gets a zero. -/
def positional (digits : List Char) (whole : Int) : List Char :=
  if whole ≤ 0 then ['0', '.'] ++ List.replicate whole.natAbs '0' ++ digits
  else if digits.length ≤ whole.natAbs then
    digits ++ List.replicate (whole.natAbs - digits.length) '0' ++ ['.', '0']
  else digits.take whole.natAbs ++ '.' :: digits.drop whole.natAbs

def scientific (plus : Bool) (digits : List Char) (leading : Int) : List Char :=
  let fraction := match digits.drop 1 with
    | [] => []
    | rest => '.' :: rest
  digits.take 1 ++ fraction ++ 'e' :: exponentDigits plus leading

def decimalText (plus : Bool) (d : Decimal) : List Char :=
  let digits := natDigits d.significand
  let leading := (digits.length : Int) - 1 + d.power
  if -4 ≤ leading ∧ leading < 16 then positional digits (leading + 1)
  else scientific plus digits leading

def magnitudeText (plus : Bool) (m : Magnitude) : List Char :=
  if m = .zero then ['0', '.', '0'] else decimalText plus (Decimal.shortest m)

def withSign (negative : Bool) (text : List Char) : List Char :=
  if negative then '-' :: text else text

structure SpecialNames where
  undefined : String
  infinity : String

def plainNames : SpecialNames := ⟨"nan", "inf"⟩

def dataNames : SpecialNames := ⟨"NaN", "Infinity"⟩

def dataText (names : SpecialNames) : Binary64 → List Char
  | .nan => names.undefined.toList
  | .signed negative m =>
    withSign negative (if m.isFinite then magnitudeText true m else names.infinity.toList)

/-- A number with one place after the point, a half going to the even neighbour. -/
def onePlace : Binary64 → List Char
  | .nan => plainNames.undefined.toList
  | .signed negative m =>
    withSign negative <|
      if m.isFinite then
        let tenths := Magnitude.roundHalfEven (m.units * 10) Magnitude.unitsPerOne
        natDigits (tenths / 10) ++ '.' :: natDigits (tenths % 10)
      else plainNames.infinity.toList

/-- Whole numbers below this bound are written without a point. -/
def wholeBound : Nat := 10 ^ 16

/-- A literal beyond every finite number, which reads back as infinity. -/
def infiniteLiteral : List Char := ['1', 'e', '4', '0', '0']

def documentText? : Binary64 → Option (List Char)
  | .nan => none
  | .signed negative m =>
    some <|
      if !m.isFinite then withSign negative infiniteLiteral
      else if m.isWhole && m.floor < wholeBound then
        withSign (negative && m ≠ .zero) (natDigits m.floor)
      else withSign negative (magnitudeText false m)

end MeshMarkup.Numeral
