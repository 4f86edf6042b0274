import MeshMarkup.Number.Estimate
import MeshMarkup.Parser.Lexical
import MeshMarkup.Parser.Literal

namespace MeshMarkup.Parser

/-- The value of digits given from the last one on, the first of them standing at a place. -/
def placeSumFrom (place : Nat) : List Nat → Nat
  | [] => 0
  | digit :: digits => digit * 10 ^ place + placeSumFrom (place + 1) digits

def placeSum (digits : List Nat) : Nat := placeSumFrom 0 digits.reverse

def digits : Parser (List Nat) := digit.many

def minus : Parser String := token "-"

/-- A run of digits, with a minus sign in front or, tried next, without one. -/
def integer : Parser Int :=
  .named "integer" (.integer 0) <|
    (minus.andThen digits |>.map fun parts => -(placeSum parts.2 : Int)).orElse
      (digits.map fun whole => (placeSum whole : Int))

/-- Digits with a fraction or, tried next, without one. All digits are in the significand. -/
def unsigned : Parser Decimal :=
  (digits.andThen ((token ".").andThen digits) |>.map fun (whole, _, fraction) =>
      (⟨placeSum (whole ++ fraction), -fraction.length⟩ : Decimal)).orElse
    (digits.map fun whole => ⟨placeSum whole, 0⟩)

def nearest (negative : Bool) (d : Decimal) : Except Fault Binary64 :=
  match d.converted? with
  | none => .error .oversizedPower
  | some m => .ok (.signed negative m)

def decimal : Parser Binary64 := .named "float" (.number .zero) (unsigned.convert (nearest false))

def withExponent : Parser Binary64 :=
  unsigned.andThen (token "e") |>.andThen integer |>.convert fun ((d, _), exponent) =>
    nearest false ⟨d.significand, exponent + d.power⟩

def negated (p : Parser Binary64) : Parser Binary64 :=
  minus.andThen p |>.map fun parts => parts.2.neg

/-- A decimal with an optional sign and exponent. The exponent is tried first, and each time the
sign. -/
def scientific : Parser Binary64 :=
  .named "scientific" (.number .zero) <|
    (negated withExponent).orElse withExponent |>.orElse (negated decimal) |>.orElse decimal

end MeshMarkup.Parser
