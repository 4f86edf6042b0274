namespace MeshMarkup

structure Path where
  root : String
  segments : List String
  deriving DecidableEq

namespace Path

def splitSlashes (text : List Char) : List (List Char) :=
  text.foldr (fun c parts =>
    match parts with
    | [] => [[c]]
    | part :: rest => if c = '/' then [] :: part :: rest else (c :: part) :: rest) [[]]

/-- Exactly two slashes at the start are kept, any other number of them counts as one. -/
def rootOf : List Char → String
  | '/' :: '/' :: '/' :: _ => "/"
  | '/' :: '/' :: _ => "//"
  | '/' :: _ => "/"
  | _ => ""

def ofText (text : String) : Path :=
  let parts := (splitSlashes text.toList).filter fun part => part ≠ [] && part ≠ ['.']
  ⟨rootOf text.toList, parts.map String.ofList⟩

def toText (p : Path) : String :=
  if p.root = "" && p.segments.isEmpty then "."
  else p.root ++ "/".intercalate p.segments

instance : ToString Path := ⟨toText⟩

/-- The bytes of the longest name that a file or a directory can have. -/
def longestName : Nat := 255

def hasLongName (p : Path) : Bool := p.segments.any (longestName < ·.utf8ByteSize)

/-- Paths of so many bytes are not looked up at all. -/
def sizeBound : Nat := 4096

def isOversized (p : Path) : Bool := sizeBound ≤ p.toText.utf8ByteSize

def hasNull (p : Path) : Bool := p.toText.toList.contains '\x00'

end Path

end MeshMarkup
