import MeshMarkup.CommandLine.Report
import MeshMarkup.Document.Printer
import MeshMarkup.Loading.Session
import MeshMarkup.Settings.Override

namespace MeshMarkup.CommandLine

inductive IndentError where
  | noWidth
  | noBlanks (cause : Text.BlanksError)
  deriving DecidableEq

namespace IndentError

def message : IndentError → String
  | noWidth => "'<' not supported between instances of 'list' and 'int'"
  | noBlanks cause => cause.message

end IndentError

inductive Crash where
  | settings (cause : SettingsError)
  | decoding (cause : Text.DecodeError)
  | badPath (cause : FileError)
  | parsing (cause : Fault)
  | indenting (cause : IndentError)
  deriving DecidableEq

inductive Ending where
  | exit (code : Nat)
  | crash (cause : Crash)
  deriving DecidableEq

structure RunOutcome where
  ending : Ending
  out : String
  err : String
  written : Option (Path × String)

namespace RunOutcome

def ofReply (r : Reply) : RunOutcome := ⟨.exit r.exit, r.out, r.err, none⟩

def silent (ending : Ending) : RunOutcome := ⟨ending, "", "", none⟩

def complain (line : String) : RunOutcome := ⟨.exit 1, "", line ++ "\n", none⟩

def after (err : String) (o : RunOutcome) : RunOutcome := { o with err := err ++ o.err }

end RunOutcome

structure Surroundings where
  machine : Machine
  files : FileView
  stamp : String
  /-- Whether every command is interrupted as soon as it starts. -/
  interrupted : Bool

inductive SettingsFailure where
  | reported (message : String)
  | crash (cause : Crash)

def settingsFailure (e : SettingsError) : SettingsFailure :=
  if e.isReported then .reported e.message else .crash (.settings e)

def settingsFromFile (nestingLimit : Nat) (files : FileView) (path : Path) :
    Except SettingsFailure Settings :=
  match files.readText path .utf8 with
  | .ok text => (Settings.ofText nestingLimit text).mapError settingsFailure
  | .error (.decoding e) => .error (.crash (.decoding e))
  | .error (.file e) =>
    if e.isFromSystem then
      .error (.reported ("Could not read config file " ++ path.toText ++ ": " ++ e.message))
    else .error (.crash (.badPath e))

def chosenSettings (around : Surroundings) (i : Invocation) : Except SettingsFailure Settings := do
  let base ← match i.config with
    | some path => settingsFromFile around.machine.dataNesting around.files path
    | none => pure (i.preset.getD .usual)
  if i.strict then
    (base.override [("grammar__strict_close_tags", .bool true)]).mapError settingsFailure
  else return base

def logThreshold (i : Invocation) (s : Settings) : Nat :=
  if i.verbose then Severity.debug.rank
  else if i.quiet then Severity.error.rank
  else s.shared.loggingLevel.rank

def logText (stamp : String) (threshold : Nat) (log : List LogRecord) : String :=
  String.join ((log.filter fun r => threshold ≤ r.severity.rank).map (LogRecord.render stamp))

def startRecord : LogRecord :=
  (Logger.make (packageName ++ ".cli.main") none (some "cli")).record .debug "Running command" []
    false

def parseReport (files : FileView) (grammar : Grammar) (path : Path) :
    Except Crash ParseReport :=
  match files.readText path .utf8 with
  | .error (.file .nullInPath) => .error (.badPath .nullInPath)
  | .error e => .ok ⟨path.toText, .failed e.message⟩
  | .ok text =>
    match grammar.parse text with
    | .error cause => .error (.parsing cause)
    | .ok none => .ok ⟨path.toText, .failed Load.unparsedMessage⟩
    | .ok (some tree) => .ok ⟨path.toText, .parsed tree.elementCount tree.depth⟩

def runParse (around : Surroundings) (s : Settings) (paths : List Path) (format : OutputFormat) :
    RunOutcome :=
  match paths.mapM (parseReport around.files (s.documentGrammar around.machine)) with
  | .error cause => .silent (.crash cause)
  | .ok reports =>
    ⟨.exit (if reports.all ParseReport.succeeded then 0 else 1),
      formatReports reports format ++ "\n", "", none⟩

def writeResult (files : FileView) (path : Path) (text : String) (quiet : Bool) (exit : Nat) :
    RunOutcome :=
  match files.writeProblem? path with
  | none =>
    ⟨.exit exit, "", if quiet then "" else "Results written to " ++ path.toText ++ "\n",
      some (path, text)⟩
  | some e =>
    if e.isFromSystem then .complain ("Error writing output: " ++ e.message)
    else .silent (.crash (.badPath e))

def runExtract (around : Surroundings) (i : Invocation) (s : Settings) (path : Path)
    (format : OutputFormat) (full : Bool) (output : Option Path) : RunOutcome :=
  let shown (log : List LogRecord) (outcome : RunOutcome) : RunOutcome :=
    outcome.after (logText around.stamp (logThreshold i s) log)
  match (Session.fresh.loadFile ⟨s, none, around.machine⟩ around.files path .utf8).1 with
  | .aborted log cause => shown log (.silent (.crash (.badPath cause)))
  | .finished load =>
    let text := formatLoad load.result full format ++ "\n"
    let exit := if load.result.success then 0 else 1
    shown load.log (match output with
      | none => ⟨.exit exit, text, "", none⟩
      | some target => writeResult around.files target text i.quiet exit)

/-- The indentation of one level of a tree with so many levels; with a single level none of it
would be seen. -/
def indentText (memory levels width : Nat) : Except Text.BlanksError String :=
  (Text.blankCount memory width).map fun count =>
    String.ofList (List.replicate (if levels ≤ 1 then 0 else count) ' ')

def printTree (path : Path) (tree : Node) (indent : String) : RunOutcome :=
  match tree.render indent with
  | .error e => .complain ("Could not print " ++ path.toText ++ ": " ++ e.message)
  | .ok text => ⟨.exit 0, text ++ "\n", "", none⟩

def treeOutcome (around : Surroundings) (s : Settings) (path : Path) (indent : Nat) : RunOutcome :=
  match around.files.readText path .utf8 with
  | .error (.file .nullInPath) => .silent (.crash (.badPath .nullInPath))
  | .error e => .complain ("Could not read " ++ path.toText ++ ": " ++ e.message)
  | .ok text =>
    match (s.documentGrammar around.machine).parse text with
    | .error cause => .silent (.crash (.parsing cause))
    | .ok none => .complain ("Could not parse " ++ path.toText)
    | .ok (some tree) =>
      match indentText around.machine.memory tree.depth indent with
      | .error cause => .silent (.crash (.indenting (.noBlanks cause)))
      | .ok indent => printTree path tree indent

def runTree (around : Surroundings) (s : Settings) (path : Path) : Option Int → RunOutcome
  | none => .silent (.crash (.indenting .noWidth))
  | some (.negSucc _) => .complain "--indent must be >= 0"
  | some (.ofNat indent) => treeOutcome around s path indent

def interruptedOutcome : RunOutcome := ⟨.exit 130, "", "\nOperation interrupted by user\n", none⟩

def runCommand (around : Surroundings) (i : Invocation) (s : Settings) : RunOutcome :=
  if around.interrupted then interruptedOutcome
  else match i.command with
    | .parse paths format => runParse around s paths format
    | .extract path format full output => runExtract around i s path format full output
    | .tree path indent => runTree around s path indent

def runInvocation (around : Surroundings) (i : Invocation) : RunOutcome :=
  match chosenSettings around i with
  | .error (.reported message) => .complain ("Configuration error: " ++ message)
  | .error (.crash cause) => .silent (.crash cause)
  | .ok s =>
    (runCommand around i s).after (logText around.stamp (logThreshold i s) [startRecord])

def run (around : Surroundings) (args : List String) : RunOutcome :=
  match understand args with
  | .error reply => .ofReply reply
  | .ok i => runInvocation around i

end MeshMarkup.CommandLine
