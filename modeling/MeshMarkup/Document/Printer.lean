import MeshMarkup.Document.Node
import MeshMarkup.Number.Numeral

namespace MeshMarkup

inductive PrintError where
  | undefinedNumber
  | oversizedInteger
  deriving DecidableEq

namespace PrintError

def message : PrintError → String
  | undefinedNumber => "Cannot serialize non-finite number: " ++ Numeral.plainNames.undefined
  | oversizedInteger =>
    "Exceeds the limit (4300 digits) for integer string conversion; " ++
      "use sys.set_int_max_str_digits() to increase the limit"

end PrintError

namespace Printer

def prologue : String := "<?xml version=\"1.0\" encoding=\"utf-8\"?>"

def integerDigitLimit : Nat := 4300

def integerText (n : Int) : Except PrintError (List Char) :=
  if 10 ^ integerDigitLimit ≤ n.natAbs then .error .oversizedInteger else .ok (Numeral.intDigits n)

def valueText : AttributeValue → Except PrintError (List Char)
  | .text content => .ok content.toList
  | .integer n => integerText n

def attributeText (a : Attribute) : Except PrintError (List Char) := do
  return a.name.toList ++ ['=', '"'] ++ (← valueText a.value) ++ ['"']

def openingText (name : String) : List Attribute → Except PrintError (List Char)
  | [] => .ok name.toList
  | attributes => do
    let texts ← attributes.mapM attributeText
    return name.toList ++ texts.flatMap (' ' :: ·)

def numberText (x : Binary64) : Except PrintError (List Char) :=
  match Numeral.documentText? x with
  | some text => .ok text
  | none => .error .undefinedNumber

def numbersText (values : List Binary64) : Except PrintError (List Char) := do
  return [' '].intercalate (← values.mapM numberText)

mutual

def lines (indent : List Char) (depth : Nat) : Node → Except PrintError (List (List Char))
  | .empty => .ok [(List.replicate depth indent).flatten]
  | .text content => .ok [(List.replicate depth indent).flatten ++ content.toList]
  | .numbers values => do
    return [(List.replicate depth indent).flatten ++ (← numbersText values)]
  | .header child => do
    let pad := (List.replicate depth indent).flatten
    return (pad ++ prologue.toList) :: (← lines indent depth child)
  | .closed name attributes => do
    let opening ← openingText name attributes
    return [(List.replicate depth indent).flatten ++ '<' :: opening ++ ['/', '>']]
  | .element name attributes children => do
    let pad := (List.replicate depth indent).flatten
    let opening := pad ++ '<' :: (← openingText name attributes) ++ ['>']
    let closing := '<' :: '/' :: name.toList ++ ['>']
    if !children.isEmpty && children.all Node.isMarkup then
      return opening :: (← linesAll indent (depth + 1) children) ++ [pad ++ closing]
    else
      return [opening ++ (← inlineAll children) ++ closing]

def linesAll (indent : List Char) (depth : Nat) : List Node → Except PrintError (List (List Char))
  | [] => .ok []
  | node :: nodes => do
    let first ← lines indent depth node
    return first ++ (← linesAll indent depth nodes)

def inlineAll : List Node → Except PrintError (List Char)
  | [] => .ok []
  | node :: nodes => do
    let first ← lines [] 0 node
    return first.flatten ++ (← inlineAll nodes)

end

def print (indent : List Char) (tree : Node) : Except PrintError (List Char) := do
  return ['\n'].intercalate (← lines indent 0 tree)

end Printer

def Node.render (tree : Node) (indent : String) : Except PrintError String := do
  return String.ofList (← Printer.print indent.toList tree)

end MeshMarkup
