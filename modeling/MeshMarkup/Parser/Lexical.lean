import MeshMarkup.Parser.Basic

namespace MeshMarkup.Parser

def token (literal : String) : Parser String where
  label := .literal "token" literal
  absent := .text ""
  run c :=
    if c.startsWith literal.toList then .matched (c.skip literal.toList.length) literal
    else .noMatch

def lookahead (literal : String) : Parser Unit where
  label := .literal "lookahead" literal
  absent := .nothing
  run c := if c.startsWith literal.toList then .matched c () else .noMatch

def capture (place : Option Nat) (c : Cursor) : Outcome String :=
  match place with
  | none => .matched c ""
  | some count => .matched (c.skip count) (String.ofList (c.rest.take count))

def upTo (literal : String) : Parser String where
  label := .literal "until" literal
  absent := .text ""
  run c := capture (c.find? literal.toList) c

def upToAny (literals : List String) : Parser String where
  label := .literal "until_any" (String.join literals)
  absent := .text ""
  run c := capture (c.findAny? (literals.map String.toList)) c

def blanks : Parser Unit where
  label := .named "whitespace"
  absent := .nothing
  run c :=
    match c.peek? with
    | some ch => if Text.isBlank ch then .matched c.skipBlanks () else .noMatch
    | none => .noMatch

def digitValue (ch : Char) : Nat := ch.toNat - '0'.toNat

def digit : Parser Nat where
  label := .named "digit"
  absent := .integer 0
  run c :=
    match c.peek? with
    | some ch => if ch.isDigit then .matched c.next (digitValue ch) else .noMatch
    | none => .noMatch

end MeshMarkup.Parser
