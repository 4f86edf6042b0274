import MeshMarkup.CommandLine.Run

namespace MeshMarkup.Main

open CommandLine

def pathTexts (arg : String) : List String :=
  let text := arg.toList
  [arg, String.ofList ((text.dropWhile (· ≠ '=')).drop 1), String.ofList (text.drop 2)]

def parent (p : Path) : Path := { p with segments := p.segments.dropLast }

def isDirectory (p : Path) : IO Bool := do
  try
    discard <| IO.FS.readBinFile p.toText
    return false
  catch
    | .noFileOrDirectory .. => return false
    | .permissionDenied .. => return false
    | _ => return true

def look (p : Path) : IO Found := do
  try
    return .file (← IO.FS.readBinFile p.toText).toList
  catch
    | .noFileOrDirectory .. =>
      if ← isDirectory (parent p) then return .absent else return .unreachable
    | _ =>
      if p.hasLongName then return .overlong
      else if ← isDirectory p then return .directory
      else return .absent

def snapshot (args : List String) : IO FileView := do
  let paths := (args.flatMap pathTexts).map Path.ofText |>.eraseDups
  let seen ← paths.mapM fun p => do return (p, ← look p)
  return fun p => ((seen.find? (·.1 = p)).map (·.2)).getD .absent

/-- The clock stands still during a run, and ids are counted from a random one on. -/
def machine (milliseconds seed : Nat) : Machine where
  reading _ := (Binary64.ofNat milliseconds).div (.ofNat 1000)
  newId n := String.ofList (Text.hexDigits 12 (seed + n))
  documentNesting := 400
  dataNesting := 5000
  memory := 2 ^ 36

def crashText : Crash → String
  | .settings e => e.message
  | .decoding e => e.message
  | .badPath e => e.message
  | .parsing .oversizedPower => Fault.oversizedPowerMessage
  | .parsing .tooDeep => Load.tooDeepMessage
  | .indenting e => e.message

def finish (o : RunOutcome) : IO UInt32 := do
  (← IO.getStdout).putStr o.out
  (← IO.getStderr).putStr o.err
  match o.written with
  | some (path, text) => IO.FS.writeFile path.toText text
  | none => pure ()
  match o.ending with
  | .exit code => return code.toUInt32
  | .crash cause =>
    (← IO.getStderr).putStrLn (crashText cause)
    return 1

end MeshMarkup.Main

def main (args : List String) : IO UInt32 := do
  let now ← IO.monoMsNow
  let seed ← IO.rand 0 (16 ^ 12)
  let files ← MeshMarkup.Main.snapshot args
  let machine := MeshMarkup.Main.machine now seed
  MeshMarkup.Main.finish (MeshMarkup.CommandLine.run ⟨machine, files, toString now, false⟩ args)
