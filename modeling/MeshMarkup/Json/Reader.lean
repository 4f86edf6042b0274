import MeshMarkup.Json.Writer
import MeshMarkup.Parser.Cursor

namespace MeshMarkup.Json

inductive Problem where
  | expectingValue
  | expectingPropertyName
  | expectingColon
  | expectingComma
  | unterminatedText
  | controlCharacter
  | badEscape
  | badUnicodeEscape
  | extraData
  | byteOrderMark
  deriving DecidableEq

inductive ReadError where
  | malformed (problem : Problem) (offset : Nat)
  | oversizedInteger (digits : Nat)
  | tooDeep
  deriving DecidableEq

def Problem.message : Problem → String
  | expectingValue => "Expecting value"
  | expectingPropertyName => "Expecting property name enclosed in double quotes"
  | expectingColon => "Expecting ':' delimiter"
  | expectingComma => "Expecting ',' delimiter"
  | unterminatedText => "Unterminated string starting at"
  | controlCharacter => "Invalid control character at"
  | badEscape => "Invalid \\escape"
  | badUnicodeEscape => "Invalid \\uXXXX escape"
  | extraData => "Extra data"
  | byteOrderMark => "Unexpected UTF-8 BOM (decode using utf-8-sig)"

def lineAndColumn (text : List Char) (offset : Nat) : Nat × Nat :=
  let before := text.take offset
  (before.count '\n' + 1, (before.reverse.takeWhile (· ≠ '\n')).length + 1)

def ReadError.oversizedIntegerMessage (digits : Nat) : String :=
  "Exceeds the limit (4300 digits) for integer string conversion: value has " ++
    toString digits ++ " digits; use sys.set_int_max_str_digits() to increase the limit"

def Problem.messageAt (problem : Problem) (text : String) (offset : Nat) : String :=
  let (line, column) := lineAndColumn text.toList offset
  problem.message ++ ": line " ++ toString line ++ " column " ++ toString column ++
    " (char " ++ toString offset ++ ")"

abbrev Reading (α : Type) := Except ReadError (α × Cursor)

def fail {α : Type} (problem : Problem) (c : Cursor) : Except ReadError α :=
  .error (.malformed problem c.offset)

def isSpace (c : Char) : Bool := c = ' ' || c = '\t' || c = '\n' || c = '\r'

def skipSpaces (c : Cursor) : Cursor := c.skip (c.rest.takeWhile isSpace).length

def hexValue? (c : Char) : Option Nat :=
  if c.isDigit then some (c.toNat - 48)
  else if 'a' ≤ c ∧ c ≤ 'f' then some (c.toNat - 87)
  else if 'A' ≤ c ∧ c ≤ 'F' then some (c.toNat - 55)
  else none

def unit? : List Char → Option Nat
  | a :: b :: c :: d :: _ => do
    let high := (← hexValue? a) * 16 + (← hexValue? b)
    return (high * 16 + (← hexValue? c)) * 16 + (← hexValue? d)
  | _ => none

def isHighUnit (n : Nat) : Bool := 0xD800 ≤ n && n < 0xDC00

def isLowUnit (n : Nat) : Bool := 0xDC00 ≤ n && n < 0xE000

def isUnitEscape : List Char → Bool
  | '\\' :: 'u' :: _ => true
  | _ => false

/-- The character of a single unit; half of a pair alone has none and is replaced. -/
def charOfUnit (n : Nat) : Char :=
  if isHighUnit n || isLowUnit n then '\uFFFD' else Char.ofNat n

def unitEscape (c : Cursor) : Reading Char :=
  let digits := c.rest.drop 2
  let after := digits.drop 4
  match unit? digits, after.isEmpty with
  | some high, false =>
    if isHighUnit high && !(after.drop 6).isEmpty && isUnitEscape after then
      match unit? (after.drop 2) with
      | none => fail .badUnicodeEscape (c.skip 7)
      | some low =>
        if isLowUnit low then
          .ok (Char.ofNat (0x10000 + (high - 0xD800) * 0x400 + (low - 0xDC00)), c.skip 12)
        else .ok (charOfUnit high, c.skip 6)
    else .ok (charOfUnit high, c.skip 6)
  | _, _ => fail .badUnicodeEscape (c.skip 1)

def escape (opening : Nat) (c : Cursor) : Reading Char :=
  match c.rest.drop 1 with
  | [] => .error (.malformed .unterminatedText opening)
  | 'u' :: _ => unitEscape c
  | '"' :: _ => .ok ('"', c.skip 2)
  | '\\' :: _ => .ok ('\\', c.skip 2)
  | '/' :: _ => .ok ('/', c.skip 2)
  | 'b' :: _ => .ok ('\x08', c.skip 2)
  | 'f' :: _ => .ok ('\x0c', c.skip 2)
  | 'n' :: _ => .ok ('\n', c.skip 2)
  | 'r' :: _ => .ok ('\r', c.skip 2)
  | 't' :: _ => .ok ('\t', c.skip 2)
  | _ => fail .badEscape c

def textFrom (opening : Nat) : List Char → Cursor → List Char → Reading String
  | fuel, c, read =>
    match c.rest, fuel with
    | [], _ => .error (.malformed .unterminatedText opening)
    | '"' :: _, _ => .ok (String.ofList read.reverse, c.next)
    | _, [] => .error (.malformed .unterminatedText opening)
    | ch :: _, _ :: fuel =>
      if ch = '\\' then
        match escape opening c with
        | .error e => .error e
        | .ok (meant, c) => textFrom opening fuel c (meant :: read)
      else if ch.toNat < 0x20 then fail .controlCharacter c
      else textFrom opening fuel c.next (ch :: read)

def readText (c : Cursor) : Reading String := textFrom c.offset c.rest c.next []

structure NumberText where
  negative : Bool
  whole : List Char
  fraction : List Char
  exponent : List Char
  negativeExponent : Bool
  length : Nat

def digitsOf (text : List Char) : List Char := text.takeWhile Char.isDigit

/-- A whole part does not go on after a leading zero. -/
def wholeDigits : List Char → List Char
  | '0' :: _ => ['0']
  | rest => digitsOf rest

def fractionDigits : List Char → List Char
  | '.' :: rest => digitsOf rest
  | _ => []

def exponentPart : List Char → Bool × List Char × Nat
  | 'e' :: '-' :: rest | 'E' :: '-' :: rest => (true, digitsOf rest, 2)
  | 'e' :: '+' :: rest | 'E' :: '+' :: rest => (false, digitsOf rest, 2)
  | 'e' :: rest | 'E' :: rest => (false, digitsOf rest, 1)
  | _ => (false, [], 0)

def splitSign : List Char → Bool × List Char
  | '-' :: rest => (true, rest)
  | rest => (false, rest)

def numberText? (text : List Char) : Option NumberText :=
  let (negative, body) := splitSign text
  let whole := wholeDigits body
  if whole.isEmpty then none
  else
    let afterWhole := body.drop whole.length
    let fraction := fractionDigits afterWhole
    let fractionLength := if fraction.isEmpty then 0 else fraction.length + 1
    let (negativeExponent, exponent, markLength) := exponentPart (afterWhole.drop fractionLength)
    let exponentLength := if exponent.isEmpty then 0 else exponent.length + markLength
    some ⟨negative, whole, fraction, exponent, negativeExponent,
      (if negative then 1 else 0) + whole.length + fractionLength + exponentLength⟩

def NumberText.exponentValue (t : NumberText) : Int :=
  if t.negativeExponent then -(Numeral.placeValue t.exponent : Int)
  else Numeral.placeValue t.exponent

def NumberText.value (t : NumberText) : Except ReadError Json :=
  if t.fraction.isEmpty && t.exponent.isEmpty then
    if integerDigitLimit < t.whole.length then .error (.oversizedInteger t.whole.length)
    else
      let n := Numeral.placeValue t.whole
      .ok (.integer (if t.negative then -(n : Int) else n))
  else
    .ok (.number (.signed t.negative
      (.ofScaled (Numeral.placeValue (t.whole ++ t.fraction))
        (t.exponentValue - t.fraction.length))))

def readNumber (c : Cursor) : Reading Json :=
  match numberText? c.rest with
  | none => fail .expectingValue c
  | some t =>
    match t.value with
    | .error e => .error e
    | .ok value => .ok (value, c.skip t.length)

def named : List (String × Json) :=
  [("null", .null), ("true", .bool true), ("false", .bool false), ("NaN", .number .nan),
   ("Infinity", .number .infinity), ("-Infinity", .number Binary64.infinity.neg)]

def readName? (c : Cursor) : Option (Json × Cursor) :=
  (named.find? fun name => c.startsWith name.1.toList).map fun name =>
    (name.2, c.skip name.1.length)

def itemsFrom (value : Cursor → Reading Json) : List Char → Cursor → List Json → Reading Json
  | fuel, c, items =>
    match value c with
    | .error e => .error e
    | .ok (item, c) =>
      let c := skipSpaces c
      match c.rest, fuel with
      | ']' :: _, _ => .ok (.array (item :: items).reverse, c.next)
      | ',' :: _, _ :: fuel => itemsFrom value fuel (skipSpaces c.next) (item :: items)
      | _, _ => fail .expectingComma c

def readKey (c : Cursor) : Reading String :=
  match c.rest with
  | '"' :: _ =>
    match readText c with
    | .error e => .error e
    | .ok (key, c) =>
      let c := skipSpaces c
      match c.rest with
      | ':' :: _ => .ok (key, skipSpaces c.next)
      | _ => fail .expectingColon c
  | _ => fail .expectingPropertyName c

/-- The members of an object from the first one on, up to the closing brace. Of several members
with one key the last value counts. -/
def membersFrom (value : Cursor → Reading Json) :
    List Char → Cursor → List (String × Json) → Reading Json
  | fuel, c, members =>
    match readKey c with
    | .error e => .error e
    | .ok (key, c) =>
      match value c with
      | .error e => .error e
      | .ok (item, c) =>
        let c := skipSpaces c
        let members := setMember key item members
        match c.rest, fuel with
        | '}' :: _, _ => .ok (.object members, c.next)
        | ',' :: _, _ :: fuel => membersFrom value fuel (skipSpaces c.next) members
        | _, _ => fail .expectingComma c

/-- A value at the cursor, with at most the given number of arrays and objects around another. -/
def readValue : Nat → Cursor → Reading Json
  | levels, c =>
    match c.rest, levels with
    | '"' :: _, _ => (readText c).map fun (content, c) => (.text content, c)
    | '[' :: _, 0 | '{' :: _, 0 => .error .tooDeep
    | '[' :: _, levels + 1 =>
      let c := skipSpaces c.next
      match c.rest with
      | ']' :: _ => .ok (.array [], c.next)
      | _ => itemsFrom (readValue levels) c.rest c []
    | '{' :: _, levels + 1 =>
      let c := skipSpaces c.next
      match c.rest with
      | '}' :: _ => .ok (.object [], c.next)
      | _ => membersFrom (readValue levels) c.rest c []
    | _, _ =>
      match readName? c with
      | some found => .ok found
      | none => readNumber c

/-- Besides the standard texts, the names NaN, Infinity and -Infinity are read as numbers. -/
def read (levels : Nat) (text : String) : Except ReadError Json :=
  let c := Cursor.start text.toList
  match c.rest with
  | '\uFEFF' :: _ => fail .byteOrderMark c
  | _ =>
    match readValue levels (skipSpaces c) with
    | .error e => .error e
    | .ok (value, c) =>
      let c := skipSpaces c
      if c.atEnd then .ok value else fail .extraData c

end MeshMarkup.Json
