import MeshMarkup.Document.Node
import MeshMarkup.Loading.Diagnostic
import MeshMarkup.Loading.Metrics
import MeshMarkup.Mesh.Model

namespace MeshMarkup

structure LoadResult where
  document : Option Node
  model : Option Model
  vertices : Option (List Vertex)
  indexed : Option IndexedVertices
  diagnostics : List Diagnostic
  metrics : Metrics
  source : Option String
  correlationId : Option String

namespace LoadResult

def fresh (source correlationId : Option String) : LoadResult :=
  ⟨none, none, none, none, [], .zero, source, correlationId⟩

def hasErrors (r : LoadResult) : Bool := r.diagnostics.any (·.severity.isFailure)

def parsed (r : LoadResult) : Bool := r.document.isSome

def success (r : LoadResult) : Bool := r.model.isSome && !r.hasErrors

def report (r : LoadResult) (severity : Severity) (message component : String) (details : Json) :
    LoadResult :=
  { r with
    diagnostics := r.diagnostics ++ [⟨severity, message, component, details, r.correlationId⟩] }

def reportChecked (r : LoadResult) (severity : Severity) (message component : String)
    (details : Json) : Except DiagnosticError LoadResult := do
  let d ← Diagnostic.checked ⟨severity, message, component, details, r.correlationId⟩
  return { r with diagnostics := r.diagnostics ++ [d] }

def bySeverity (r : LoadResult) (severity : Severity) : List Diagnostic :=
  r.diagnostics.filter (·.severity = severity)

def reason (r : LoadResult) : String :=
  match r.diagnostics.find? (·.severity.isFailure) with
  | some d => d.message
  | none => "No model was produced"

def place (r : LoadResult) : String :=
  match r.source with
  | none | some "" => ""
  | some source => " (" ++ source ++ ")"

def failure? (r : LoadResult) : Option String :=
  if r.success then none
  else some ("Failed to load model" ++ r.place ++ ": " ++ r.reason)

def sizeOf {α : Type} (r : LoadResult) (array : Model → List α) : Json :=
  .integer (match r.model with
    | some model => (array model).length
    | none => 0)

def hasTransform (r : LoadResult) : Bool :=
  match r.model with
  | some model => model.hasTransform
  | none => false

def summaryMembers (r : LoadResult) : List (String × Json) :=
  [("source", optionalText r.source), ("success", .bool r.success), ("parsed", .bool r.parsed),
   ("positions", r.sizeOf fun m => m.positions), ("normals", r.sizeOf fun m => m.normals),
   ("tex_coords", r.sizeOf fun m => m.coordinates), ("indices", r.sizeOf fun m => m.indices),
   ("has_transform", .bool r.hasTransform), ("vertex_count", .integer r.metrics.vertices),
   ("metrics", r.metrics.toJson),
   ("diagnostics", .array (r.diagnostics.map Diagnostic.toJson))]

def summary (r : LoadResult) : Json := .object r.summaryMembers

end LoadResult

end MeshMarkup
