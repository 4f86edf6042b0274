import MeshMarkup.Number.Binary64

namespace MeshMarkup

/-- Data values. Members keep their order; tuples occur among given settings only, and are written
as arrays. -/
inductive Json where
  | null
  | bool (flag : Bool)
  | integer (n : Int)
  | number (x : Binary64)
  | text (content : String)
  | array (items : List Json)
  | tuple (items : List Json)
  | object (members : List (String × Json))

namespace Json

instance : Inhabited Json := ⟨null⟩

/-- Sets a member: in its place where the key is present, else at the end. -/
def setMember (key : String) (value : Json) : List (String × Json) → List (String × Json)
  | [] => [(key, value)]
  | (k, v) :: members =>
    if k = key then (key, value) :: members else (k, v) :: setMember key value members

def member? (key : String) (members : List (String × Json)) : Option Json :=
  (members.find? (·.1 = key)).map (·.2)

/-- Whether a value counts as true: nothing, zero and whatever is empty do not. -/
def truthy : Json → Bool
  | null => false
  | bool flag => flag
  | integer n => n ≠ 0
  | number x => !x.sameNumber .zero
  | text content => !content.isEmpty
  | array items | tuple items => !items.isEmpty
  | object members => !members.isEmpty

def kindName : Json → String
  | null => "NoneType"
  | bool _ => "bool"
  | integer _ => "int"
  | number _ => "float"
  | text _ => "str"
  | array _ => "list"
  | tuple _ => "tuple"
  | object _ => "dict"

/-- The numeric value of a number or flag, a flag counting as one or zero. -/
inductive Numeric where
  | whole (n : Int)
  | binary (x : Binary64)

def numeric? : Json → Option Numeric
  | bool flag => some (.whole (if flag then 1 else 0))
  | integer n => some (.whole n)
  | number x => some (.binary x)
  | _ => none

namespace Numeric

def same : Numeric → Numeric → Bool
  | whole a, whole b => a = b
  | binary a, binary b => a.sameNumber b || (a.isNaN && b.isNaN)
  | whole a, binary b | binary b, whole a => b.compareInt a = some .eq

def atMost (n : Int) : Numeric → Bool
  | whole a => a ≤ n
  | binary x => match x.compareInt n with
    | some order => order ≠ .lt
    | none => false

def below (n : Int) : Numeric → Bool
  | whole a => a < n
  | binary x => x.compareInt n = some .gt

end Numeric

mutual

/-- Equality of values: numbers and flags are compared as numbers, members by key. Every value
equals itself, the undefined number too. -/
def same : Json → Json → Bool
  | null, null => true
  | text a, text b => a = b
  | array a, array b | tuple a, tuple b => sameItems a b
  | object a, object b => a.length = b.length && sameMembers a b
  | a, b => match a.numeric?, b.numeric? with
    | some x, some y => x.same y
    | _, _ => false

def sameItems : List Json → List Json → Bool
  | [], [] => true
  | a :: as, b :: bs => same a b && sameItems as bs
  | _, _ => false

def sameMembers : List (String × Json) → List (String × Json) → Bool
  | [], _ => true
  | (key, value) :: members, others =>
    (match member? key others with
      | some other => same value other
      | none => false) && sameMembers members others

end

end Json

end MeshMarkup
