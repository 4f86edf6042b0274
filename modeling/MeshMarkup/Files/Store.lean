import MeshMarkup.Files.View

namespace MeshMarkup

structure FileStore where
  files : List (List String × List UInt8)
  directories : List (List String)

namespace FileStore

/-- A directory is there when it was made or when something lies below it. -/
def isDirectory (s : FileStore) (place : List String) : Bool :=
  place.isEmpty || s.directories.any (place.isPrefixOf ·) ||
    s.files.any fun f => place.isPrefixOf f.1 && place.length < f.1.length

def fileAt? (s : FileStore) (place : List String) : Option (List UInt8) :=
  (s.files.find? (·.1 = place)).map (·.2)

/-- Where a walk stands: below the working directory, or so many directories above it. -/
inductive Position where
  | inside (place : List String)
  | above (levels : Nat)

def walk (s : FileStore) : Position → List String → Found × Position
  | here, [] => (.directory, here)
  | .above levels, ".." :: rest => walk s (.above (levels + 1)) rest
  | .above levels, segment :: rest =>
    (if Path.longestName < segment.utf8ByteSize then .overlong
      else if rest.isEmpty then .absent
      else .unreachable, .above levels)
  | .inside place, ".." :: rest =>
    walk s (if place.isEmpty then .above 1 else .inside place.dropLast) rest
  | .inside place, segment :: rest =>
    let next := place ++ [segment]
    if Path.longestName < segment.utf8ByteSize then (.overlong, .inside next)
    else if s.isDirectory next then walk s (.inside next) rest
    else
      match s.fileAt? next, rest with
      | some bytes, [] => (.file bytes, .inside next)
      | some _, _ => (.blocked, .inside next)
      | none, [] => (.absent, .inside next)
      | none, _ => (.unreachable, .inside next)

def lookUp (s : FileStore) (p : Path) : Found × Position :=
  s.walk (if p.root.isEmpty then .inside [] else .above 0) p.segments

def view (s : FileStore) : FileView := fun p => (s.lookUp p).1

def place? (s : FileStore) (p : Path) : Option (List String) :=
  match (s.lookUp p).2 with
  | .inside place => some place
  | .above _ => none

end FileStore

end MeshMarkup
