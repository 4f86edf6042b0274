import MeshMarkup.Parser.Cursor
import MeshMarkup.Parser.Value

namespace MeshMarkup

inductive Fault where
  | oversizedPower
  | tooDeep
  deriving DecidableEq

def Fault.oversizedPowerMessage : String := "int too large to convert to float"

inductive Outcome (α : Type) where
  | fault (cause : Fault)
  | noMatch
  | matched (rest : Cursor) (value : α)

namespace Outcome

variable {α β : Type}

def map (f : α → β) : Outcome α → Outcome β
  | fault cause => fault cause
  | noMatch => noMatch
  | matched rest value => matched rest (f value)

def bind : Outcome α → (Cursor → α → Outcome β) → Outcome β
  | fault cause, _ => fault cause
  | noMatch, _ => noMatch
  | matched rest value, next => next rest value

def orElse : Outcome α → (Unit → Outcome α) → Outcome α
  | noMatch, next => next ()
  | outcome, _ => outcome

end Outcome

inductive Label where
  | named (name : String)
  | literal (name : String) (text : String)
  | one (name : String) (a : Label)
  | two (name : String) (a b : Label)

def Label.render : Label → String
  | named name => name
  | literal name text => name ++ "(" ++ quote text ++ ")"
  | one name a => name ++ "(" ++ a.render ++ ")"
  | two name a b => name ++ "(" ++ a.render ++ ", " ++ b.render ++ ")"

/-- A parser, its name, and the value that stands in for it where it is optional. -/
structure Parser (α : Type) where
  label : Label
  absent : Value
  run : Cursor → Outcome α

namespace Parser

variable {α β δ : Type}

def describe (p : Parser α) : String := "Parser(" ++ p.label.render ++ ")"

def map (f : α → β) (p : Parser α) : Parser β where
  label := .one "map" p.label
  absent := p.absent
  run c := (p.run c).map f

def convert (f : α → Except Fault β) (p : Parser α) : Parser β where
  label := .one "map" p.label
  absent := p.absent
  run c := (p.run c).bind fun rest a =>
    match f a with
    | .ok b => .matched rest b
    | .error cause => .fault cause

def withAbsent (absent : Value) (p : Parser α) : Parser α := { p with absent := absent }

def named (name : String) (absent : Value) (p : Parser α) : Parser α where
  label := .named name
  absent := absent
  run := p.run

def andThen (p : Parser α) (q : Parser β) : Parser (α × β) where
  label := .two "and" p.label q.label
  absent := .pair p.absent q.absent
  run c := (p.run c).bind fun rest a => (q.run rest).map fun b => (a, b)

def orElse (p q : Parser α) : Parser α where
  label := .two "or" p.label q.label
  absent := p.absent
  run c := (p.run c).orElse fun _ => q.run c

/-- The further rounds of a repetition. A round that consumes nothing is the last one, and its
value is dropped. Each other round uses up a character of `fuel`. -/
def manyFrom (p : Parser α) : List Char → Cursor → List α → Outcome (List α)
  | fuel, c, values =>
    match p.run c with
    | .fault cause => .fault cause
    | .noMatch => .matched c values.reverse
    | .matched rest value =>
      if rest.offset = c.offset then .matched c values.reverse
      else match fuel with
        | [] => .matched c values.reverse
        | _ :: fuel => manyFrom p fuel rest (value :: values)

def many (p : Parser α) : Parser (List α) where
  label := .one "many" p.label
  absent := .list []
  run c := (p.run c).bind fun rest value => manyFrom p rest.rest rest [value]

/-- The further rounds of a delimited repetition. A delimiter after the last value is consumed.
A round that consumes nothing is the last one, and its value is kept. -/
def delimitedFrom (p : Parser α) (delimiter : Parser δ) :
    List Char → Cursor → List α → Outcome (List α)
  | fuel, c, values =>
    match delimiter.run c with
    | .fault cause => .fault cause
    | .noMatch => .matched c values.reverse
    | .matched after _ =>
      match p.run after with
      | .fault cause => .fault cause
      | .noMatch => .matched after values.reverse
      | .matched rest value =>
        if rest.offset = c.offset then .matched rest (value :: values).reverse
        else match fuel with
          | [] => .matched rest (value :: values).reverse
          | _ :: fuel => delimitedFrom p delimiter fuel rest (value :: values)

def delimited (p : Parser α) (delimiter : Parser δ) : Parser (List α) where
  label := .two "many_delim" p.label delimiter.label
  absent := .list []
  run c := (p.run c).bind fun rest value => delimitedFrom p delimiter rest.rest rest [value]

def optionalWith (p : Parser α) (absent : Value) (value : α) : Parser α where
  label := .one "maybe" p.label
  absent := absent
  run c := (p.run c).orElse fun _ => .matched c value

def optional (p : Parser α) (value : α) : Parser α := p.optionalWith p.absent value

def filter (test : α → Bool) (p : Parser α) : Parser α where
  label := .one "filter" p.label
  absent := p.absent
  run c := (p.run c).bind fun rest value => if test value then .matched rest value else .noMatch

/-- A parser that is built when it runs, so that rules may refer to one another. -/
def deferred (name : String) (p : Unit → Parser α) : Parser α where
  label := .named name
  absent := .nothing
  run c := (p ()).run c

def faulty (name : String) (cause : Fault) : Parser α :=
  ⟨.named name, .nothing, fun _ => .fault cause⟩

end Parser

end MeshMarkup
