import MeshMarkup.Text.Printable

namespace MeshMarkup.Text

def hexDigit (n : Nat) : Char :=
  if n < 10 then Char.ofNat (48 + n) else Char.ofNat (87 + n)

def hexDigits : Nat → Nat → List Char
  | 0, _ => []
  | width + 1, n => hexDigits width (n / 16) ++ [hexDigit (n % 16)]

def escapeUnprintable (c : Char) : List Char :=
  if c = '\n' then ['\\', 'n']
  else if c = '\r' then ['\\', 'r']
  else if c = '\t' then ['\\', 't']
  else if c.toNat < 0x100 then '\\' :: 'x' :: hexDigits 2 c.toNat
  else if c.toNat < 0x10000 then '\\' :: 'u' :: hexDigits 4 c.toNat
  else '\\' :: 'U' :: hexDigits 8 c.toNat

def quoteChar (text : List Char) : Char :=
  if text.contains '\'' && !text.contains '"' then '"' else '\''

def quoteElement (quote c : Char) : List Char :=
  if c = quote || c = '\\' then ['\\', c]
  else if isPrintable c then [c]
  else escapeUnprintable c

def quoted (text : List Char) : List Char :=
  let quote := quoteChar text
  quote :: text.flatMap (quoteElement quote) ++ [quote]

end MeshMarkup.Text

/-- A text between single quotes, or double ones when it holds a single quote and no double one. -/
def MeshMarkup.quote (text : String) : String :=
  String.ofList (Text.quoted text.toList)
