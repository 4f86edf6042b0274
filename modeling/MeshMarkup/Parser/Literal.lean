import MeshMarkup.Number.Numeral

namespace MeshMarkup

def digitRun (text : List Char) : List Char := text.takeWhile Char.isDigit

def splitMinus : List Char → Bool × List Char
  | '-' :: text => (true, text)
  | text => (false, text)

def signLength (negative : Bool) : Nat := if negative then 1 else 0

structure IntegerLiteral where
  negative : Bool
  digits : List Char

namespace IntegerLiteral

def length (l : IntegerLiteral) : Nat := signLength l.negative + l.digits.length

def value (l : IntegerLiteral) : Int :=
  if l.negative then -(Numeral.placeValue l.digits : Int) else Numeral.placeValue l.digits

def read? (text : List Char) : Option IntegerLiteral :=
  let (negative, body) := splitMinus text
  match digitRun body with
  | [] => none
  | digits => some ⟨negative, digits⟩

end IntegerLiteral

structure DecimalLiteral where
  whole : List Char
  fraction : List Char

namespace DecimalLiteral

def length (l : DecimalLiteral) : Nat :=
  if l.fraction.isEmpty then l.whole.length else l.whole.length + 1 + l.fraction.length

def value (l : DecimalLiteral) : Decimal :=
  ⟨Numeral.placeValue (l.whole ++ l.fraction), -l.fraction.length⟩

def readFraction : List Char → List Char
  | '.' :: text => digitRun text
  | _ => []

def read? (text : List Char) : Option DecimalLiteral :=
  match digitRun text with
  | [] => none
  | whole => some ⟨whole, readFraction (text.drop whole.length)⟩

end DecimalLiteral

structure ScientificLiteral where
  negative : Bool
  mantissa : DecimalLiteral
  exponent : Option IntegerLiteral

namespace ScientificLiteral

def exponentLength : Option IntegerLiteral → Nat
  | none => 0
  | some e => 1 + e.length

def length (l : ScientificLiteral) : Nat :=
  signLength l.negative + l.mantissa.length + exponentLength l.exponent

def exponentValue : Option IntegerLiteral → Int
  | none => 0
  | some e => e.value

def value (l : ScientificLiteral) : Decimal :=
  ⟨l.mantissa.value.significand, exponentValue l.exponent + l.mantissa.value.power⟩

def readExponent? : List Char → Option IntegerLiteral
  | 'e' :: text => IntegerLiteral.read? text
  | _ => none

def read? (text : List Char) : Option ScientificLiteral :=
  let (negative, body) := splitMinus text
  match DecimalLiteral.read? body with
  | none => none
  | some mantissa => some ⟨negative, mantissa, readExponent? (body.drop mantissa.length)⟩

end ScientificLiteral

end MeshMarkup
