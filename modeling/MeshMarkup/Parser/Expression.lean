import MeshMarkup.Parser.Number

namespace MeshMarkup

inductive Transform where
  | upper
  | sum
  | size
  | negate
  | timesTen
  | first
  | second
  | swap
  | join
  | concat
  | wrap
  | constant (value : Value)

inductive Check where
  | even
  | nonempty
  | withoutSlash
  | positive
  | equals (value : Value)

namespace Transform

def sumOf : List Value → Int
  | [] => 0
  | .integer n :: rest => n + sumOf rest
  | _ :: rest => sumOf rest

def joined : List Value → String
  | [] => ""
  | .text s :: rest => s ++ joined rest
  | _ :: rest => joined rest

def apply : Transform → Value → Value
  | upper, .text s => .text (s.map Char.toUpper)
  | sum, .list items => .integer (sumOf items)
  | size, .text s => .integer s.length
  | size, .list items => .integer items.length
  | negate, .integer n => .integer (-n)
  | negate, .number x => .number x.neg
  | timesTen, .integer n => .integer (n * 10)
  | timesTen, .number x => .number (x.mul (.ofNat 10))
  | first, .tuple (a :: _) => a
  | second, .tuple (_ :: b :: _) => b
  | swap, .tuple [a, b] => .tuple [b, a]
  | join, .list items => .text (joined items)
  | concat, .tuple [.text a, .text b] => .text (a ++ b)
  | wrap, v => .list [v]
  | constant v, _ => v
  | _, v => v

end Transform

namespace Check

def holds : Check → Value → Bool
  | even, .integer n => n % 2 = 0
  | nonempty, .text s => !s.isEmpty
  | nonempty, .list items => !items.isEmpty
  | withoutSlash, .text s => s.toList.all (· ≠ '/')
  | positive, .integer n => 0 < n
  | positive, .number x => !x.le .zero && !x.isNaN
  | equals v, w => w.same v
  | _, _ => false

end Check

inductive Expr where
  | token (literal : String)
  | lookahead (literal : String)
  | upTo (literal : String)
  | upToAny (literals : List String)
  | blanks
  | digit
  | integer
  | decimal
  | scientific
  | andThen (a b : Expr)
  | orElse (a b : Expr)
  | many (a : Expr)
  | delimited (a delimiter : Expr)
  | optional (a : Expr)
  | optionalWith (a : Expr) (absent : Value)
  | filter (a : Expr) (check : Check)
  | map (a : Expr) (f : Transform)
  | mapWith (a : Expr) (f : Transform) (absent : Value)
  | rule (name label : String)

namespace Expr

instance : Inhabited Expr := ⟨blanks⟩

def lift {α : Type} (f : α → Value) (p : Parser α) : Parser Value :=
  ⟨p.label, p.absent, fun c => (p.run c).map f⟩

/-- The parser of an expression, parsers being entered at most so many times within one another.
A rule is looked up when it runs, and a rule that is not there matches nothing. -/
def parserWithin (rules : List (String × Expr)) : Nat → Expr → Parser Value
  | 0, _ => .faulty "nested" .tooDeep
  | levels + 1, e =>
    let within := parserWithin rules levels
    match e with
    | token literal => lift .text (.token literal)
    | lookahead literal => lift (fun _ => .nothing) (.lookahead literal)
    | upTo literal => lift .text (.upTo literal)
    | upToAny literals => lift .text (.upToAny literals)
    | blanks => lift (fun _ => .nothing) .blanks
    | digit => lift (fun n : Nat => .integer n) .digit
    | integer => lift .integer .integer
    | decimal => lift .number .decimal
    | scientific => lift .number .scientific
    | andThen a b => lift (fun pair => .pair pair.1 pair.2) ((within a).andThen (within b))
    | orElse a b => (within a).orElse (within b)
    | many a => lift .list (within a).many
    | delimited a delimiter => lift .list ((within a).delimited (within delimiter))
    | optional a =>
      let p := within a
      p.optional p.absent
    | optionalWith a absent => (within a).optionalWith absent absent
    | filter a check => (within a).filter check.holds
    | map a f => (within a).map f.apply
    | mapWith a f absent => ((within a).map f.apply).withAbsent absent
    | rule name label =>
      .deferred label fun _ =>
        match rules.find? (·.1 = name) with
        | some found => within found.2
        | none => ⟨.named name, .nothing, fun _ => .noMatch⟩

end Expr

end MeshMarkup
