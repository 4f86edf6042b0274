import MeshMarkup.Document.Node
import MeshMarkup.Number.Numeral

namespace MeshMarkup

inductive Value where
  | nothing
  | text (content : String)
  | integer (n : Int)
  | number (x : Binary64)
  | list (items : List Value)
  | tuple (items : List Value)
  | node (tree : Node)
  | attr (a : Attribute)

namespace Value

instance : Inhabited Value := ⟨nothing⟩

def pair (a b : Value) : Value := .tuple [a, b]

mutual

/-- Equality of values; whole numbers and binary64 numbers are compared as numbers. -/
def same : Value → Value → Bool
  | nothing, nothing => true
  | text a, text b => a = b
  | integer a, integer b => a = b
  | number a, number b => a.sameNumber b
  | integer a, number b => b.compareInt a = some .eq
  | number a, integer b => a.compareInt b = some .eq
  | list a, list b => sameAll a b
  | tuple a, tuple b => sameAll a b
  | node a, node b => a.same b
  | attr a, attr b => a = b
  | _, _ => false

def sameAll : List Value → List Value → Bool
  | [], [] => true
  | a :: as, b :: bs => same a b && sameAll as bs
  | _, _ => false

end

end Value

end MeshMarkup
