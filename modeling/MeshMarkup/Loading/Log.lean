import MeshMarkup.Json.Value
import MeshMarkup.Settings.Severity
import MeshMarkup.Text.Quoted
import MeshMarkup.Text.Search

namespace MeshMarkup

structure LogRecord where
  severity : Severity
  logger : String
  component : Json
  correlationId : Json
  message : String
  extra : List (String × Json)
  /-- Whether an error in progress is attached. -/
  attached : Bool

namespace LogRecord

def ownFields : List String :=
  ["name", "msg", "args", "levelname", "levelno", "pathname", "filename", "module", "exc_info",
   "exc_text", "stack_info", "lineno", "funcName", "created", "msecs", "relativeCreated",
   "thread", "threadName", "processName", "process", "message", "asctime"]

/-- The name under which a record keeps how its message is made. -/
def messageMaker : String := "getMessage"

def line (stamp severity component message : String) : String :=
  stamp ++ " " ++ severity ++ " [" ++ component ++ "] " ++ message ++ "\n"

def componentText (r : LogRecord) : String :=
  match r.component with
  | .text name => name
  | _ => r.logger

def render (stamp : String) (r : LogRecord) : String :=
  line stamp r.severity.name r.componentText r.message

end LogRecord

inductive LogError where
  | overwrites (field : String)
  | notCallable (kind : String)
  deriving DecidableEq

def LogError.message : LogError → String
  | overwrites field => quote ("Attempt to overwrite " ++ quote field ++ " in LogRecord")
  | notCallable kind => "'" ++ kind ++ "' object is not callable"

def packageName : String := "collada_lite"

structure Logger where
  name : String
  correlationId : Option String
  component : String

def optionalText : Option String → Json
  | some text => .text text
  | none => .null

namespace Logger

def lastSegment (name : String) : String :=
  String.ofList (name.toList.reverse.takeWhile (· ≠ '.')).reverse

def make (name : String) (correlationId : Option String) (component : Option String) : Logger :=
  match component with
  | none | some "" => ⟨name, correlationId, lastSegment name⟩
  | some component => ⟨name, correlationId, component⟩

def bind (l : Logger) (component : String) : Logger := make l.name l.correlationId (some component)

def record (l : Logger) (severity : Severity) (message : String) (extra : List (String × Json))
    (attached : Bool) : LogRecord where
  severity := severity
  logger := l.name
  component := (Json.member? "component" extra).getD (.text l.component)
  correlationId := (Json.member? "correlation_id" extra).getD (optionalText l.correlationId)
  message := message
  extra := extra.filter fun field => field.1 ≠ "component" && field.1 ≠ "correlation_id"
  attached := attached

def inPackage (l : Logger) : Bool :=
  l.name = packageName || Text.startsWith (packageName.toList ++ ['.']) l.name.toList

def usualThreshold : Nat := Severity.warning.rank

/-- What the package's handler gets of a record whose severity is not below the package's
threshold. Other loggers have the usual threshold, and their records do not reach the handler. -/
def emit (l : Logger) (threshold : Nat) (severity : Severity) (message : String)
    (extra : List (String × Json)) (attached : Bool) : Except LogError (Option LogRecord) :=
  if severity.rank < (if l.inPackage then threshold else usualThreshold) then .ok none
  else match extra.find? fun field => LogRecord.ownFields.contains field.1 with
    | some field => .error (.overwrites field.1)
    | none =>
      if !l.inPackage then .ok none
      else match Json.member? LogRecord.messageMaker extra with
        | some value => .error (.notCallable value.kindName)
        | none => .ok (some (l.record severity message extra attached))

def stageMessage (stage : String) : String := stage ++ " finished"

def emitTimed (l : Logger) (threshold : Nat) (stage : String) (fields : List (String × Json))
    (elapsed : Binary64) : Except LogError (Option LogRecord) :=
  l.emit threshold .debug (stageMessage stage)
    (Json.setMember "elapsed_ms" (.number elapsed) fields) false

end Logger

def otherThresholds : List (String × Nat) :=
  [("WARN", Severity.warning.rank), ("FATAL", Severity.critical.rank),
   ("NOTSET", Logger.usualThreshold)]

def threshold? (name : String) : Option Nat :=
  match Severity.ofName? name with
  | some severity => some severity.rank
  | none => (otherThresholds.find? (·.1 = name)).map (·.2)

def unknownThreshold (name : String) : String := "Unknown level: " ++ quote name

end MeshMarkup
