namespace MeshMarkup.Text

/-- The characters of bidirectional class B, S or WS and the space separators, as closed ranges. -/
def blankRanges : List (Nat × Nat) :=
  [(0x9, 0xD), (0x1C, 0x20), (0x85, 0x85), (0xA0, 0xA0), (0x1680, 0x1680), (0x2000, 0x200A),
   (0x2028, 0x2029), (0x202F, 0x202F), (0x205F, 0x205F), (0x3000, 0x3000)]

def isBlank (c : Char) : Bool :=
  blankRanges.any (fun r => r.1 ≤ c.toNat && c.toNat ≤ r.2)

inductive BlanksError where
  | noLength
  | outOfMemory
  deriving DecidableEq

def BlanksError.message : BlanksError → String
  | noLength => "cannot fit 'int' into an index-sized integer"
  | outOfMemory => ""

/-- Lengths of texts are signed 64-bit words. -/
def lengthBound : Nat := 2 ^ 63

/-- The length of a text of `n` blanks, where no text is longer than `memory`. A negative number
counts as zero. -/
def blankCount (memory : Nat) (n : Int) : Except BlanksError Nat :=
  if n < -lengthBound ∨ lengthBound ≤ n then .error .noLength
  else if memory < n.toNat then .error .outOfMemory
  else .ok n.toNat

end MeshMarkup.Text
