import MeshMarkup.Files.View
import MeshMarkup.Loading.Stages

namespace MeshMarkup

structure Statistics where
  loads : Nat
  successes : Nat
  failures : Nat
  totalTime : Binary64
  characters : Int

namespace Statistics

def zero : Statistics := ⟨0, 0, 0, .zero, 0⟩

def add (s : Statistics) (r : LoadResult) : Statistics where
  loads := s.loads + 1
  successes := s.successes + if r.success then 1 else 0
  failures := s.failures + if r.success then 0 else 1
  totalTime := s.totalTime.add r.metrics.totalTime
  characters := s.characters + r.metrics.characters

def averageTime (s : Statistics) : Binary64 :=
  if s.loads = 0 then .zero else s.totalTime.div (.ofNat s.loads)

def toJson (s : Statistics) : Json :=
  .object
    [("loads", .integer s.loads), ("successful_loads", .integer s.successes),
     ("failed_loads", .integer s.failures), ("total_time_ms", .number s.totalTime),
     ("characters_processed", .integer s.characters), ("average_time_ms", .number s.averageTime)]

end Statistics

structure Loader where
  settings : Settings
  correlationId : Option String
  machine : Machine

structure Session where
  issued : Nat
  readings : Nat
  statistics : Statistics

inductive FileLoad (ε : Type) where
  | finished (load : Load)
  /-- The load ended before it had a result; an id was drawn and records were written. -/
  | aborted (log : List LogRecord) (cause : ε)

def FileLoad.mapCause {ε δ : Type} (f : ε → δ) : FileLoad ε → FileLoad δ
  | finished load => .finished load
  | aborted log cause => .aborted log (f cause)

namespace Session

def fresh : Session := ⟨0, 0, .zero⟩

def resetStatistics (s : Session) : Session := { s with statistics := .zero }

def drawId (s : Session) (loader : Loader) : Option String × Session :=
  match loader.correlationId with
  | some id => (some id, s)
  | none =>
    if loader.settings.shared.trackCorrelation.truthy then
      (some (loader.machine.newId s.issued), { s with issued := s.issued + 1 })
    else (none, s)

def count (s : Session) (load : Load) : Load × Session :=
  (load, { s with readings := load.readings, statistics := s.statistics.add load.result })

def loadText (s : Session) (loader : Loader) (text : String) (source : Option String) :
    Load × Session :=
  let (id, s) := s.drawId loader
  s.count (Load.ofText loader.machine loader.settings (.fresh source id s.readings) text)

inductive NoText where
  | reported (message : String)
  | ended (cause : FileError)

def missingMessage (path : Path) : String := "File not found: " ++ path.toText

/-- Whether a path leads to a file. A path with a null character leads to nothing. -/
def locate (files : FileView) (path : Path) : Except NoText Unit :=
  match files.find path with
  | .error .nullInPath => .error (.reported (missingMessage path))
  | .error cause => .error (.ended cause)
  | .ok (.file _) => .ok ()
  | .ok .directory => .error (.reported ("Path is not a file: " ++ path.toText))
  | .ok _ => .error (.reported (missingMessage path))

def fileText (files : FileView) (path : Path) (encoding : Text.Encoding) :
    Except NoText String := do
  locate files path
  (files.readText path encoding).mapError fun e =>
    .reported ("Could not read " ++ path.toText ++ ": " ++ e.message)

def fileStarted (path : Path) (id : Option String) (readings : Nat) : Load :=
  (Load.fresh (some path.toText) id readings).noteAs "load_file" .info "Loading model file"
    [("file_path", .text path.toText)] false

def unread (load : Load) (message : String) : Load :=
  (load.noteAs "load_file" .error message [] false).report .critical message "file_reader" .null

def finish {ε : Type} (s : Session) (load : Load) : FileLoad ε × Session :=
  let (load, s) := s.count load
  (.finished load, s)

def loadFile (s : Session) (loader : Loader) (files : FileView) (path : Path)
    (encoding : Text.Encoding) : FileLoad FileError × Session :=
  let (id, s) := s.drawId loader
  let load := fileStarted path id s.readings
  match fileText files path encoding with
  | .ok text => s.finish (Load.ofText loader.machine loader.settings load text)
  | .error (.reported message) => s.finish (unread load message)
  | .error (.ended cause) => (.aborted load.log cause, s)

inductive AbortCause where
  | file (cause : FileError)
  | encoding (cause : Text.EncodingError)

/-- Loads a file whose encoding is given by name. A name that is none matters only when there is a
file. -/
def loadEncoded (s : Session) (loader : Loader) (files : FileView) (path : Path)
    (encoding : String) : FileLoad AbortCause × Session :=
  match Text.Encoding.ofName encoding, locate files path with
  | .error cause, .ok () =>
    let (id, s) := s.drawId loader
    (.aborted (fileStarted path id s.readings).log (.encoding cause), s)
  | known, _ =>
    let (outcome, s) := s.loadFile loader files path (known.toOption.getD .utf8)
    (outcome.mapCause .file, s)

def unsupportedInput (kind : String) : String := "Unsupported input type: " ++ kind

end Session

end MeshMarkup
