import MeshMarkup.Text.Blank
import MeshMarkup.Text.Search
import MeshMarkup.Text.Quoted

namespace MeshMarkup

/-- A place in a text. The text that remains there is kept beside it, and is all that a parser may
depend on. -/
structure Cursor where
  text : List Char
  offset : Nat
  rest : List Char
  rest_eq : rest = text.drop offset
  offset_le : offset ≤ text.length

namespace Cursor

def start (text : List Char) : Cursor := ⟨text, 0, text, by simp, by simp⟩

instance : Inhabited Cursor := ⟨start []⟩

def outOfRange : String := "Cursor offset out of range"

def at? (text : List Char) (offset : Int) : Option Cursor :=
  if h : 0 ≤ offset ∧ offset.toNat ≤ text.length then
    some ⟨text, offset.toNat, text.drop offset.toNat, rfl, h.2⟩
  else none

def next (c : Cursor) : Cursor :=
  match h : c.rest with
  | [] => c
  | _ :: rest =>
    have hdrop : c.text.drop c.offset = _ :: rest := c.rest_eq ▸ h
    ⟨c.text, c.offset + 1, rest, by rw [← List.drop_drop, hdrop]; rfl, by
      have := congrArg List.length hdrop
      simp only [List.length_drop, List.length_cons] at this
      omega⟩

def skip : Nat → Cursor → Cursor
  | 0, c => c
  | n + 1, c => skip n c.next

def advance? (c : Cursor) (count : Int) : Option Cursor :=
  if count = 0 then some c else at? c.text (c.offset + count)

def skipBlanks (c : Cursor) : Cursor := c.skip (c.rest.takeWhile Text.isBlank).length

def atEnd (c : Cursor) : Bool := c.rest.isEmpty

def peek? (c : Cursor) : Option Char := c.rest.head?

def remaining (c : Cursor) : String := String.ofList c.rest

def startsWith (c : Cursor) (literal : List Char) : Bool := Text.startsWith literal c.rest

def find? (c : Cursor) (literal : List Char) : Option Nat := Text.find? literal c.rest

def findAny? (c : Cursor) (literals : List (List Char)) : Option Nat :=
  Text.findAny? literals c.rest

/-- The characters between the cursor and the offset `count` away from it. An end before the
start of the text is counted from the end of the text; nothing lies before an earlier end. -/
def slice (c : Cursor) (count : Int) : String :=
  let limit : Int := c.offset + count
  let limit := if limit < 0 then limit + c.text.length else limit
  String.ofList (c.rest.take (limit - c.offset).toNat)

def previewLength : Nat := 20

def describe (c : Cursor) : String :=
  "Cursor(offset=" ++ toString c.offset ++ ", remaining=" ++
    quote (String.ofList (c.rest.take previewLength)) ++ ")"

theorem text_next (c : Cursor) : c.next.text = c.text := by
  simp only [next]; split <;> rfl

theorem rest_next (c : Cursor) : c.next.rest = c.rest.drop 1 := by
  simp only [next]; split <;> simp_all

theorem text_skip (n : Nat) (c : Cursor) : (c.skip n).text = c.text := by
  induction n generalizing c with
  | zero => rfl
  | succ n ih => rw [skip, ih, text_next]

theorem rest_skip (n : Nat) (c : Cursor) : (c.skip n).rest = c.rest.drop n := by
  induction n generalizing c with
  | zero => rfl
  | succ n ih => rw [skip, ih, rest_next, List.drop_drop, Nat.add_comm]

theorem offset_next (c : Cursor) : c.next.offset = c.offset + min 1 c.rest.length := by
  simp only [next]
  split
  · simp_all
  · simp_all

theorem offset_skip (n : Nat) (c : Cursor) :
    (c.skip n).offset = c.offset + min n c.rest.length := by
  induction n generalizing c with
  | zero => simp [skip]
  | succ n ih => rw [skip, ih, offset_next, rest_next, List.length_drop]; omega

end Cursor

end MeshMarkup
