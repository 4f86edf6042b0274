import MeshMarkup.Document.Grammar
import MeshMarkup.Document.Traversal
import MeshMarkup.Loading.Result
import MeshMarkup.Machine
import MeshMarkup.Mesh.Extraction
import MeshMarkup.Mesh.Packing
import MeshMarkup.Settings.Basic

namespace MeshMarkup

def Settings.documentGrammar (s : Settings) (m : Machine) : Grammar :=
  ⟨s.grammar.strictCloseTags, s.grammar.allowTrailingContent, m.documentNesting⟩

inductive Breakdown where
  | oversizedPower
  | unusableKey (kind : String)
  deriving DecidableEq

namespace Breakdown

def message : Breakdown → String
  | oversizedPower => Fault.oversizedPowerMessage
  | unusableKey kind => "'in <string>' requires string as left operand, not " ++ kind

def kindName : Breakdown → String
  | oversizedPower => "OverflowError"
  | unusableKey _ => "TypeError"

end Breakdown

structure Load where
  result : LoadResult
  log : List LogRecord
  breakdown : Option Breakdown
  readings : Nat

namespace Load

def loaderName : String := packageName ++ ".api.loader"

def logger (load : Load) (component : String) : Logger :=
  ⟨loaderName, load.result.correlationId, component⟩

def noteAs (load : Load) (component : String) (severity : Severity) (message : String)
    (extra : List (String × Json)) (attached : Bool) : Load :=
  { load with
    log := load.log ++ [(load.logger component).record severity message extra attached] }

def note (load : Load) (severity : Severity) (message : String) (extra : List (String × Json)) :
    Load :=
  load.noteAs "load" severity message extra false

def report (load : Load) (severity : Severity) (message component : String) (details : Json) :
    Load :=
  { load with result := load.result.report severity message component details }

def setMetrics (load : Load) (change : Metrics → Metrics) : Load :=
  { load with result := { load.result with metrics := change load.result.metrics } }

def fresh (source correlationId : Option String) (readings : Nat) : Load :=
  ⟨.fresh source correlationId, [], none, readings⟩

def timed (load : Load) : Load := { load with readings := load.readings + 2 }

def previewLength : Nat := 80

def preview (text : List Char) : String :=
  if (text.drop previewLength).isEmpty then String.ofList text
  else String.ofList (text.take previewLength) ++ "..."

def started (load : Load) (text : String) : Load :=
  let length : Int := text.length
  (load.setMetrics fun m => { m with characters := length }).note .info "Starting model load"
    [("content_length", .integer length), ("preview", .text (preview text.toList))]

def exceeds (text : String) (limit : Json) : Bool :=
  match limit.numeric? with
  | some n => n.below text.utf8ByteSize
  | none => false

def limitText : Json → String
  | .bool true => "True"
  | .bool false => "False"
  | .integer n => String.ofList (Numeral.intDigits n)
  | .number x => String.ofList (Numeral.dataText Numeral.plainNames x)
  | _ => ""

def rejected (load : Load) (limit : Json) : Load :=
  (load.report .critical ("Input exceeds " ++ limitText limit ++ " bytes") "input"
    (.object [("limit", limit)])).note .warning "Input rejected by size limit" [("limit", limit)]

def tooDeepMessage : String := "Document nesting exceeds the interpreter recursion limit"

def unparsedMessage : String := "Document could not be parsed"

def parseTimed (load : Load) (time : Binary64) : Load :=
  load.timed.setMetrics fun m => { m with parseTime := time }

def unparsed (load : Load) (time : Binary64) (message : String) : Load :=
  ((load.report .critical message "grammar" .null).parseTimed time).note .warning "Parse failed"
    [("parse_time_ms", .number time)]

def withDocument (load : Load) (time : Binary64) (document : Node) : Load :=
  let elements : Int := document.elementCount
  let depth : Int := document.depth
  let timed := (load.parseTimed time).setMetrics fun m =>
    { m with elements := elements, depth := depth }
  { timed with result := { timed.result with document := some document } }.note .debug
    "Parse completed"
    [("element_count", .integer elements), ("max_depth", .integer depth),
     ("parse_time_ms", .number time)]

/-- Parsing. It is not timed where it breaks down. -/
def parse (load : Load) (time : Binary64) (grammar : Grammar) (text : String) : Load :=
  match grammar.parse text with
  | .error .oversizedPower =>
    { load with breakdown := some .oversizedPower, readings := load.readings + 1 }
  | .error .tooDeep => load.unparsed time tooDeepMessage
  | .ok none => load.unparsed time unparsedMessage
  | .ok (some document) => load.withDocument time document

inductive NoModel where
  | missing (array : MissingArray)
  | unusableKey (kind : String)

/-- A key as the text to look for. A key that is no text cannot be compared with an id. -/
def keyText (document : Node) : Json → Except NoModel String
  | .text key => .ok key
  | key => if document.hasKeyedSource then .error (.unusableKey key.kindName) else .ok ""

def requirements (s : ExtractionSettings) : Requirements :=
  ⟨s.requireCoordinates.truthy, !s.identityWhenNoTransform.truthy⟩

def modelOf (s : ExtractionSettings) (document : Node) : Except NoModel Model :=
  document.modelBy .missing (keyText document s.positionKey) (keyText document s.normalKey)
    (keyText document s.coordinatesKey) (requirements s)

def extractionTimed (load : Load) (time : Binary64) : Load :=
  load.timed.setMetrics fun m => { m with extractionTime := time }

def withoutArray (load : Load) (time : Binary64) (array : MissingArray) : Load :=
  ((load.report .error array.message "extraction"
    (.object [("missing", .text array.name)])).note .warning "Extraction failed"
    [("missing", .text array.name)]).extractionTimed time

def lengthOf {α : Type} (items : List α) : Json := .integer items.length

def reportGaps (load : Load) (model : Model) : Load :=
  let load :=
    if model.coordinates.isEmpty then
      load.report .warning "No texture coordinates; continuing without them" "extraction" .null
    else load
  if model.hasTransform then load
  else load.report .info "No transform matrix; using identity" "extraction" .null

def withModel (load : Load) (time : Binary64) (model : Model) : Load :=
  let reported := (load.extractionTimed time).reportGaps model
  { reported with result := { reported.result with model := some model } }.note .debug
    "Extraction completed"
    [("positions", lengthOf model.positions), ("normals", lengthOf model.normals),
     ("tex_coords", lengthOf model.coordinates), ("indices", lengthOf model.indices)]

def extract (load : Load) (time : Binary64) (s : ExtractionSettings) : Load :=
  match load.result.document with
  | none => load
  | some document =>
    match modelOf s document with
    | .ok model => load.withModel time model
    | .error (.missing array) => load.withoutArray time array
    | .error (.unusableKey kind) =>
      { load.extractionTimed time with breakdown := some (.unusableKey kind) }

def packed (load : Load) (time : Binary64) (vertexCount : Nat) : Load :=
  load.timed.note .debug (Logger.stageMessage "Packing")
    [("vertex_count", .integer vertexCount), ("elapsed_ms", .number time)]

def badIndexMessage : String := "Index stream references data outside the source arrays"

def finishPacking (load : Load) (time : Binary64) (model : Model) (count : Option Nat) : Load :=
  let load := load.packed time (count.getD 0)
  match count with
  | some count => load.setMetrics fun m => { m with vertices := (count : Int) }
  | none =>
    load.report .error badIndexMessage "packing" (.object [("indices", lengthOf model.indices)])

def packModel (load : Load) (time : Binary64) (s : PackingSettings) (model : Model) : Load :=
  if s.deduplicateVertices.truthy then
    let indexed := model.indexed?
    { load with result := { load.result with indexed := indexed } }.finishPacking time model
      (indexed.map fun (buffer : IndexedVertices) => buffer.vertices.length)
  else
    let vertices := model.vertices?
    { load with result := { load.result with vertices := vertices } }.finishPacking time model
      (vertices.map List.length)

def pack (load : Load) (time : Binary64) (s : PackingSettings) : Load :=
  match load.result.model with
  | none => load
  | some model => if s.packOnLoad.truthy then load.packModel time s model else load

def recovered (load : Load) : Load :=
  match load.breakdown with
  | none => load
  | some cause =>
    (load.noteAs "load" .error "Model load failed" [("error", .text cause.message)] true).report
      .critical ("Model load failed: " ++ cause.message) "loader"
      (.object [("exception", .text cause.kindName)])

def completed (load : Load) : Load :=
  load.note .info "Model load completed"
    [("success", .bool load.result.success),
     ("total_time_ms", .number load.result.metrics.totalTime),
     ("diagnostics_count", lengthOf load.result.diagnostics)]

/-- The stages after parsing, each timed from the next reading of the clock to the one after it. -/
def afterParsing (m : Machine) (s : Settings) (load : Load) : Load :=
  let load := load.extract (m.elapsed load.readings) s.extraction
  load.pack (m.elapsed load.readings) s.packing

def ofText (m : Machine) (s : Settings) (load : Load) (text : String) : Load :=
  let load := load.started text
  let limit := s.shared.maxInputBytes
  if exceeds text limit then load.rejected limit
  else
    let load := load.parse (m.elapsed load.readings) (s.documentGrammar m) text
    (load.afterParsing m s).recovered.completed

end Load

end MeshMarkup
