import MeshMarkup.CommandLine.Arguments
import MeshMarkup.CommandLine.Usage
import MeshMarkup.Files.Path
import MeshMarkup.Settings.Basic

namespace MeshMarkup.CommandLine

inductive OutputFormat where
  | json
  | text
  deriving DecidableEq

inductive Command where
  | parse (paths : List Path) (format : OutputFormat)
  | extract (path : Path) (format : OutputFormat) (full : Bool) (output : Option Path)
  | tree (path : Path) (indent : Option Int)

structure Invocation where
  verbose : Bool
  quiet : Bool
  config : Option Path
  preset : Option Settings
  strict : Bool
  command : Command

structure Reply where
  exit : Nat
  out : String
  err : String

def invalidChoice (choices : List String) (value : String) : Option String :=
  if choices.contains value then none
  else some ("invalid choice: " ++ quote value ++ " (choose from " ++
    ", ".intercalate (choices.map quote) ++ ")")

def invalidInt (value : String) : Option String :=
  match Text.typedInt? value with
  | some _ => none
  | none => some ("invalid int value: " ++ quote value)

def anyValue : String → Option String := fun _ => none

def presetNames : List String := Settings.presets.map (·.1)

def formatNames : List String := ["json", "text"]

def helpOption : OptionSpec := ⟨.help, ["-h", "--help"], false, anyValue⟩

def commonOptions : List OptionSpec :=
  [helpOption,
   ⟨.config, ["--config", "-c"], true, anyValue⟩,
   ⟨.preset, ["--preset"], true, invalidChoice presetNames⟩,
   ⟨.strict, ["--strict"], false, anyValue⟩]

def formatOption : OptionSpec := ⟨.format, ["--format", "-f"], true, invalidChoice formatNames⟩

inductive CommandName where
  | parse
  | extract
  | tree
  deriving DecidableEq

namespace CommandName

def all : List CommandName := [parse, extract, tree]

def name : CommandName → String
  | parse => "parse"
  | extract => "extract"
  | tree => "tree"

def ofName? (name : String) : Option CommandName := all.find? (·.name = name)

def spec : CommandName → Spec
  | parse => ⟨commonOptions ++ [formatOption], ⟨"paths", .oneOrMore, true, anyValue⟩⟩
  | extract =>
    ⟨commonOptions ++
      [formatOption, ⟨.full, ["--full"], false, anyValue⟩,
       ⟨.output, ["--output", "-o"], true, anyValue⟩],
     ⟨"path", .one, true, anyValue⟩⟩
  | tree =>
    ⟨commonOptions ++ [⟨.indent, ["--indent"], true, invalidInt⟩],
     ⟨"path", .one, true, anyValue⟩⟩

def usage : CommandName → List String
  | parse => parseUsage
  | extract => extractUsage
  | tree => treeUsage

def details : CommandName → List String
  | parse => parseDetails
  | extract => extractDetails
  | tree => treeDetails

end CommandName

def topSpec : Spec :=
  ⟨[helpOption, ⟨.version, ["--version"], false, anyValue⟩,
    ⟨.verbose, ["--verbose", "-v"], false, anyValue⟩,
    ⟨.quiet, ["--quiet", "-q"], false, anyValue⟩],
   ⟨"command", .rest, false, invalidChoice (CommandName.all.map CommandName.name)⟩⟩

def helpReply (exit : Nat) (usage details : List String) : Reply :=
  ⟨exit, textOfLines (usage ++ details), ""⟩

def errorReply (usage : List String) (program message : String) : Reply :=
  ⟨2, "", textOfLines (usage ++ [program ++ ": error: " ++ message])⟩

def stopReply (usage details : List String) (program : String) : Stop → Reply
  | .help => helpReply 0 usage details
  | .version => ⟨0, programVersion ++ "\n", ""⟩
  | .failure message => errorReply usage program message

/-- The format of a name; every name but that of data means text. -/
def formatNamed (name : Option String) : OutputFormat :=
  if name = some "json" then .json else .text

def formatOf (r : Reading) (absent : OutputFormat) : OutputFormat :=
  ((r.last? .format).map formatNamed).getD absent

def defaultIndent : Int := 2

def indentOf (r : Reading) : Option Int :=
  match r.last? .indent with
  | some given => given.bind Text.typedInt?
  | none => some defaultIndent

def commandOf (name : CommandName) (r : Reading) : Command :=
  let paths := (r.words.getD []).map Path.ofText
  let path := paths.headD (Path.ofText "")
  match name with
  | .parse => .parse paths (formatOf r .text)
  | .extract =>
    .extract path (formatOf r .json) (r.has .full) ((r.value? .output).map Path.ofText)
  | .tree => .tree path (indentOf r)

def readCommand (name : CommandName) (args : List String) : Except Reply Reading :=
  (name.spec.read args).mapError
    (stopReply name.usage name.details (programName ++ " " ++ name.name))

/-- What the arguments ask for, or the reply to them. Arguments that neither the program nor the
command knows are reported by the program. -/
def understand (args : List String) : Except Reply Invocation := do
  let top ← (topSpec.read args).mapError (stopReply topUsage topDetails programName)
  let unrecognized (extras : List String) : Except Reply Unit :=
    if extras.isEmpty then .ok ()
    else .error (errorReply topUsage programName
      ("unrecognized arguments: " ++ " ".intercalate extras))
  match top.words with
  | none | some [] => do
    unrecognized top.extras
    throw (helpReply 1 topUsage topDetails)
  | some (word :: rest) =>
    match CommandName.ofName? word with
    | none => throw (helpReply 1 topUsage topDetails)
    | some name => do
      let r ← readCommand name rest
      unrecognized (top.extras ++ r.extras)
      return {
        verbose := top.has .verbose
        quiet := top.has .quiet
        config := (r.value? .config).map Path.ofText
        preset := (r.value? .preset).bind Settings.preset?
        strict := r.has .strict
        command := commandOf name r }

end MeshMarkup.CommandLine
