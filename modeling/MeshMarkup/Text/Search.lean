namespace MeshMarkup.Text

def startsWith (literal text : List Char) : Bool := literal.isPrefixOf text

def findFrom (literal : List Char) (start : Nat) : List Char → Option Nat
  | [] => if literal.isEmpty then some start else none
  | c :: text =>
    if startsWith literal (c :: text) then some start else findFrom literal (start + 1) text

def find? (literal text : List Char) : Option Nat := findFrom literal 0 text

/-- The nearest offset at which one of the literals occurs. They are searched for one by one. -/
def findAny? (literals : List (List Char)) (text : List Char) : Option Nat :=
  literals.foldl (fun nearest literal => nearest.merge min (find? literal text)) none

def contains (literal text : List Char) : Bool := (find? literal text).isSome

end MeshMarkup.Text
