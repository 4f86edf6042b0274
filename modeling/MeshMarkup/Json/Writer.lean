import MeshMarkup.Json.Value
import MeshMarkup.Number.Numeral
import MeshMarkup.Text.Blank
import MeshMarkup.Text.Quoted

namespace MeshMarkup.Json

inductive Layout where
  | oneLine
  | indented (width : Nat)
  deriving DecidableEq

namespace Layout

def lineBreak (layout : Layout) (level : Nat) : List Char :=
  match layout with
  | oneLine => []
  | indented width => '\n' :: List.replicate (width * level) ' '

def ofIndent (memory : Nat) : Option Int → Except Text.BlanksError Layout
  | none => .ok oneLine
  | some n => (Text.blankCount memory n).map indented

def itemSeparator (layout : Layout) (level : Nat) : List Char :=
  match layout with
  | oneLine => [',', ' ']
  | indented _ => ',' :: layout.lineBreak level

end Layout

def escapeUnit (n : Nat) : List Char := '\\' :: 'u' :: Text.hexDigits 4 n

/-- A character inside a quoted text. Beyond the basic plane it is written as two units. -/
def escapeChar (c : Char) : List Char :=
  if c = '"' then ['\\', '"']
  else if c = '\\' then ['\\', '\\']
  else if c = '\n' then ['\\', 'n']
  else if c = '\r' then ['\\', 'r']
  else if c = '\t' then ['\\', 't']
  else if c = '\x08' then ['\\', 'b']
  else if c = '\x0c' then ['\\', 'f']
  else if 0x20 ≤ c.toNat ∧ c.toNat < 0x7F then [c]
  else if c.toNat < 0x10000 then escapeUnit c.toNat
  else
    let code := c.toNat - 0x10000
    escapeUnit (0xD800 + code / 0x400) ++ escapeUnit (0xDC00 + code % 0x400)

def writeText (content : String) : List Char := '"' :: content.toList.flatMap escapeChar ++ ['"']

mutual

def write (layout : Layout) (level : Nat) : Json → List Char → List Char
  | null, after => 'n' :: 'u' :: 'l' :: 'l' :: after
  | bool true, after => 't' :: 'r' :: 'u' :: 'e' :: after
  | bool false, after => 'f' :: 'a' :: 'l' :: 's' :: 'e' :: after
  | integer n, after => Numeral.intDigits n ++ after
  | number x, after => Numeral.dataText Numeral.dataNames x ++ after
  | text content, after => writeText content ++ after
  | array [], after | tuple [], after => '[' :: ']' :: after
  | array (item :: items), after | tuple (item :: items), after =>
    '[' :: layout.lineBreak (level + 1) ++ write layout (level + 1) item
      (writeItems layout (level + 1) items (layout.lineBreak level ++ ']' :: after))
  | object [], after => '{' :: '}' :: after
  | object ((key, value) :: members), after =>
    '{' :: layout.lineBreak (level + 1) ++ writeText key ++ ':' :: ' ' ::
      write layout (level + 1) value
        (writeMembers layout (level + 1) members (layout.lineBreak level ++ '}' :: after))

def writeItems (layout : Layout) (level : Nat) : List Json → List Char → List Char
  | [], after => after
  | item :: items, after =>
    layout.itemSeparator level ++ write layout level item (writeItems layout level items after)

def writeMembers (layout : Layout) (level : Nat) :
    List (String × Json) → List Char → List Char
  | [], after => after
  | (key, value) :: members, after =>
    layout.itemSeparator level ++ writeText key ++ ':' :: ' ' ::
      write layout level value (writeMembers layout level members after)

end

def render (layout : Layout) (value : Json) : String := String.ofList (write layout 0 value [])

def integerDigitLimit : Nat := 4300

mutual

def hasOversizedInteger : Json → Bool
  | integer n => 10 ^ integerDigitLimit ≤ n.natAbs
  | array items | tuple items => anyOversized items
  | object members => anyMemberOversized members
  | _ => false

def anyOversized : List Json → Bool
  | [] => false
  | item :: items => hasOversizedInteger item || anyOversized items

def anyMemberOversized : List (String × Json) → Bool
  | [] => false
  | (_, value) :: members => hasOversizedInteger value || anyMemberOversized members

end

def render? (layout : Layout) (value : Json) : Option String :=
  if value.hasOversizedInteger then none else some (render layout value)

def oversizedMessage : String :=
  "Exceeds the limit (4300 digits) for integer string conversion; " ++
    "use sys.set_int_max_str_digits() to increase the limit"

inductive WriteError where
  | indent (cause : Text.BlanksError)
  | oversizedInteger
  deriving DecidableEq

def WriteError.message : WriteError → String
  | indent cause => cause.message
  | oversizedInteger => oversizedMessage

/-- The text of a value with an indent, which is made before the value is looked at. -/
def toText (memory : Nat) (indent : Option Int) (value : Json) : Except WriteError String :=
  match Layout.ofIndent memory indent with
  | .error cause => .error (.indent cause)
  | .ok layout =>
    match value.render? layout with
    | none => .error .oversizedInteger
    | some written => .ok written

end MeshMarkup.Json
