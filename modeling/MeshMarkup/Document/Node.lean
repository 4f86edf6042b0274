import MeshMarkup.Number.Binary64

namespace MeshMarkup

inductive AttributeValue where
  | text (content : String)
  | integer (value : Int)
  deriving DecidableEq

structure Attribute where
  name : String
  value : AttributeValue
  deriving DecidableEq

/-- Document trees. A header stands for a prologue and the document under it; an element holds
elements, or one run of numbers, one text, or nothing. -/
inductive Node where
  | empty
  | header (child : Node)
  | text (content : String)
  | numbers (values : List Binary64)
  | element (name : String) (attributes : List Attribute) (children : List Node)
  | closed (name : String) (attributes : List Attribute)

namespace Node

instance : Inhabited Node := ⟨empty⟩

def isMarkup : Node → Bool
  | header _ | element .. | closed .. => true
  | _ => false

def isElement : Node → Bool
  | element .. | closed .. => true
  | _ => false

def attributes : Node → List Attribute
  | element _ attributes _ | closed _ attributes => attributes
  | _ => []

def parts : Node → List Node
  | header child => [child]
  | element _ _ children => children
  | _ => []

def sameNumbers : List Binary64 → List Binary64 → Bool
  | [], [] => true
  | x :: xs, y :: ys => x.sameNumber y && sameNumbers xs ys
  | _, _ => false

mutual

/-- Equality of trees, in which numbers are compared as numbers: the zeros are equal and the
undefined number equals nothing. -/
def same : Node → Node → Bool
  | empty, empty => true
  | header a, header b => same a b
  | text a, text b => a = b
  | numbers a, numbers b => sameNumbers a b
  | element n as cs, element m bs ds => n = m && as = bs && sameAll cs ds
  | closed n as, closed m bs => n = m && as = bs
  | _, _ => false

def sameAll : List Node → List Node → Bool
  | [], [] => true
  | a :: as, b :: bs => same a b && sameAll as bs
  | _, _ => false

end

end Node

end MeshMarkup
