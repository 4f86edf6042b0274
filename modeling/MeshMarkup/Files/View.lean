import MeshMarkup.Files.Path
import MeshMarkup.Text.Encoding

namespace MeshMarkup

inductive Found where
  | file (bytes : List UInt8)
  | directory
  /-- Nothing, but the directory that it would be in is there. -/
  | absent
  /-- Nothing, and no directory that it would be in. -/
  | unreachable
  | blocked
  | overlong
  deriving DecidableEq

abbrev FileView := Path → Found

inductive FileError where
  | notFound (path : String)
  | notADirectory (path : String)
  | isADirectory (path : String)
  | nameTooLong (path : String)
  | nullInPath
  deriving DecidableEq

namespace FileError

def message : FileError → String
  | notFound path => "[Errno 2] No such file or directory: " ++ quote path
  | notADirectory path => "[Errno 20] Not a directory: " ++ quote path
  | isADirectory path => "[Errno 21] Is a directory: " ++ quote path
  | nameTooLong path => "[Errno 36] File name too long: " ++ quote path
  | nullInPath => "embedded null byte"

/-- Whether the operating system refused the path. A path that cannot even be passed on to it is
an error of another kind. -/
def isFromSystem : FileError → Bool
  | nullInPath => false
  | _ => true

end FileError

inductive ReadTextError where
  | file (cause : FileError)
  | decoding (cause : Text.DecodeError)
  deriving DecidableEq

def ReadTextError.message : ReadTextError → String
  | file cause => cause.message
  | decoding cause => cause.message

namespace FileView

def find (view : FileView) (p : Path) : Except FileError Found :=
  if p.hasNull then .error .nullInPath
  else if p.isOversized then .error (.nameTooLong p.toText)
  else
    match view p with
    | .overlong => .error (.nameTooLong p.toText)
    | found => .ok found

def read (view : FileView) (p : Path) : Except FileError (List UInt8) := do
  match ← view.find p with
  | .file bytes => return bytes
  | .directory => throw (.isADirectory p.toText)
  | .blocked => throw (.notADirectory p.toText)
  | _ => throw (.notFound p.toText)

def readText (view : FileView) (p : Path) (encoding : Text.Encoding) :
    Except ReadTextError String :=
  match view.read p with
  | .error e => .error (.file e)
  | .ok bytes =>
    match Text.decode encoding bytes with
    | .error e => .error (.decoding e)
    | .ok text => .ok (String.ofList (Text.normalizeLines text))

def writeProblem? (view : FileView) (p : Path) : Option FileError :=
  match view.find p with
  | .error e => some e
  | .ok found =>
    match found with
    | .directory => some (.isADirectory p.toText)
    | .blocked => some (.notADirectory p.toText)
    | .unreachable => some (.notFound p.toText)
    | _ => none

end FileView

end MeshMarkup
