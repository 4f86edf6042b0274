import MeshMarkup.Text.Quoted

namespace MeshMarkup.Text

inductive Encoding where
  | utf8
  | utf8Signed
  | ascii
  | latin1
  deriving DecidableEq

namespace Encoding

def names : List (String × Encoding) :=
  [("utf_8", .utf8), ("utf_8_sig", .utf8Signed), ("ascii", .ascii), ("latin_1", .latin1)]

def aliases : List (String × Encoding) :=
  (["u8", "utf", "utf8", "utf8_ucs2", "utf8_ucs4", "cp65001"].map (·, utf8)) ++
  (["646", "ansi_x3.4_1968", "ansi_x3_4_1968", "ansi_x3.4_1986", "cp367", "csascii", "ibm367",
    "iso646_us", "iso_646.irv_1991", "iso_ir_6", "us", "us_ascii"].map (·, ascii)) ++
  (["8859", "cp819", "csisolatin1", "ibm819", "iso8859", "iso8859_1", "iso_8859_1",
    "iso_8859_1_1987", "iso_ir_100", "l1", "latin", "latin1"].map (·, latin1))

def isNameChar (c : Char) : Bool := c.isAlphanum || c = '.'

/-- The words of a name in lower case, joined by low lines; `gap` tells whether a word ended
before. -/
def joinWords (gap : Bool) : List Char → List Char
  | [] => []
  | c :: rest =>
    if isNameChar c then
      if gap then '_' :: c.toLower :: joinWords false rest else c.toLower :: joinWords false rest
    else joinWords true rest

/-- A name as it is looked up: case does not matter, nor what stands between its words. -/
def plainName (name : String) : String :=
  String.ofList (joinWords false (name.toList.dropWhile (!isNameChar ·)))

def withoutDots (name : String) : String := name.map fun c => if c = '.' then '_' else c

/-- The encoding of a name. A dot in another name may stand for a low line. -/
def ofName? (name : String) : Option Encoding :=
  let plain := plainName name
  (names ++ aliases).lookup plain <|> aliases.lookup (withoutDots plain)

end Encoding

inductive EncodingError where
  | unknown (name : String)
  | nullInName
  deriving DecidableEq

def EncodingError.message : EncodingError → String
  | unknown name => "unknown encoding: " ++ name
  | nullInName => "embedded null character"

def Encoding.ofName (name : String) : Except EncodingError Encoding :=
  if name.toList.contains '\x00' then .error .nullInName
  else match ofName? name with
    | some encoding => .ok encoding
    | none => .error (.unknown name)

inductive DecodeProblem where
  | invalidStart
  | invalidContinuation
  | unexpectedEnd
  | notAscii
  deriving DecidableEq

def DecodeProblem.message : DecodeProblem → String
  | invalidStart => "invalid start byte"
  | invalidContinuation => "invalid continuation byte"
  | unexpectedEnd => "unexpected end of data"
  | notAscii => "ordinal not in range(128)"

structure DecodeError where
  problem : DecodeProblem
  start : Nat
  length : Nat
  first : UInt8
  deriving DecidableEq

namespace DecodeError

def codecName (e : DecodeError) : String := if e.problem = .notAscii then "ascii" else "utf-8"

def message (e : DecodeError) : String :=
  let place :=
    if e.length ≤ 1 then
      "byte 0x" ++ String.ofList (hexDigits 2 e.first.toNat) ++ " in position " ++ toString e.start
    else
      "bytes in position " ++ toString e.start ++ "-" ++ toString (e.start + e.length - 1)
  "'" ++ e.codecName ++ "' codec can't decode " ++ place ++ ": " ++ e.problem.message

end DecodeError

/-- What the first byte of a character says: the number of bytes after it, the range of the
next one, and the leading bits of the code point. -/
structure Lead where
  more : Nat
  low : Nat
  high : Nat
  bits : Nat

def lead? (b : Nat) : Option Lead :=
  if b < 0x80 then some ⟨0, 0x80, 0xBF, b⟩
  else if b < 0xC2 then none
  else if b < 0xE0 then some ⟨1, 0x80, 0xBF, b - 0xC0⟩
  else if b = 0xE0 then some ⟨2, 0xA0, 0xBF, 0⟩
  else if b = 0xED then some ⟨2, 0x80, 0x9F, 0xD⟩
  else if b < 0xF0 then some ⟨2, 0x80, 0xBF, b - 0xE0⟩
  else if b = 0xF0 then some ⟨3, 0x90, 0xBF, 0⟩
  else if b < 0xF4 then some ⟨3, 0x80, 0xBF, b - 0xF0⟩
  else if b = 0xF4 then some ⟨3, 0x80, 0x8F, 4⟩
  else none

/-- The code point of a character of which `taken` bytes are read, or what is wrong with it and
the number of its bytes that are right. -/
def codePoint (more low high bits taken : Nat) (bytes : List UInt8) :
    Except (DecodeProblem × Nat) Nat :=
  match more, bytes with
  | 0, _ => .ok bits
  | _ + 1, [] => .error (.unexpectedEnd, taken)
  | more + 1, b :: bytes =>
    if low ≤ b.toNat ∧ b.toNat ≤ high then
      codePoint more 0x80 0xBF (bits * 64 + b.toNat % 64) (taken + 1) bytes
    else .error (.invalidContinuation, taken)

def decodeUtf8From (position : Nat) (read : List Char) : List UInt8 → Except DecodeError (List Char)
  | [] => .ok read.reverse
  | b :: bytes =>
    match lead? b.toNat with
    | none => .error ⟨.invalidStart, position, 1, b⟩
    | some lead =>
      match codePoint lead.more lead.low lead.high lead.bits 1 bytes with
      | .error (problem, length) => .error ⟨problem, position, length, b⟩
      | .ok code =>
        decodeUtf8From (position + 1 + lead.more) (Char.ofNat code :: read) (bytes.drop lead.more)
termination_by bytes => bytes.length
decreasing_by simp only [List.length_drop, List.length_cons]; omega

def decodeUtf8 (bytes : List UInt8) : Except DecodeError (List Char) := decodeUtf8From 0 [] bytes

def signature : List UInt8 := [0xEF, 0xBB, 0xBF]

/-- A signature at the start is dropped, also an incomplete one that is all there is. -/
def decodeSigned (bytes : List UInt8) : Except DecodeError (List Char) :=
  if bytes.length < 3 && bytes.isPrefixOf signature then .ok []
  else if signature.isPrefixOf bytes then decodeUtf8 (bytes.drop 3)
  else decodeUtf8 bytes

def decodeAsciiFrom (position : Nat) : List UInt8 → Except DecodeError (List Char)
  | [] => .ok []
  | b :: bytes =>
    if b < 0x80 then (decodeAsciiFrom (position + 1) bytes).map (Char.ofNat b.toNat :: ·)
    else .error ⟨.notAscii, position, 1, b⟩

def decode (encoding : Encoding) (bytes : List UInt8) : Except DecodeError (List Char) :=
  match encoding with
  | .utf8 => decodeUtf8 bytes
  | .utf8Signed => decodeSigned bytes
  | .ascii => decodeAsciiFrom 0 bytes
  | .latin1 => .ok (bytes.map fun b => Char.ofNat b.toNat)

/-- A carriage return, alone or before a line feed, is one line break. -/
def normalizeLines : List Char → List Char
  | [] => []
  | '\r' :: '\n' :: text => '\n' :: normalizeLines text
  | '\r' :: text => '\n' :: normalizeLines text
  | c :: text => c :: normalizeLines text

end MeshMarkup.Text
