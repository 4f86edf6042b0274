import MeshMarkup.CommandLine.Command
import MeshMarkup.Json.Writer
import MeshMarkup.Loading.Result

namespace MeshMarkup.CommandLine

inductive ParseOutcome where
  | parsed (elements depth : Int)
  | failed (error : String)
  deriving DecidableEq

structure ParseReport where
  file : String
  outcome : ParseOutcome
  deriving DecidableEq

namespace ParseReport

def succeeded (r : ParseReport) : Bool :=
  match r.outcome with
  | .parsed .. => true
  | .failed _ => false

def toJson (r : ParseReport) : Json :=
  .object <|
    match r.outcome with
    | .parsed elements depth =>
      [("file", .text r.file), ("parsed", .bool true), ("element_count", .integer elements),
       ("max_depth", .integer depth)]
    | .failed error =>
      [("file", .text r.file), ("parsed", .bool false), ("error", .text error)]

def line (r : ParseReport) : String :=
  match r.outcome with
  | .parsed elements depth =>
    "ok   " ++ r.file ++ "  elements=" ++ toString elements ++ " depth=" ++ toString depth
  | .failed error => "FAIL " ++ r.file ++ "  " ++ error

end ParseReport

def dataLayout : Json.Layout := .indented 2

def separator : String := String.ofList (List.replicate 60 '-')

def reportsText (reports : List ParseReport) : String :=
  if reports.isEmpty then "No files to report."
  else
    "\n".intercalate
      (("Parsed " ++ toString (reports.countP ParseReport.succeeded) ++ " of " ++
        toString reports.length ++ " files") :: separator :: reports.map ParseReport.line)

def formatReports (reports : List ParseReport) : OutputFormat → String
  | .json => (Json.array (reports.map ParseReport.toJson)).render dataLayout
  | .text => reportsText reports

def numbersJson (xs : List Binary64) : Json := .array (xs.map Json.number)

def indicesJson (ns : List Nat) : Json := .array (ns.map fun n : Nat => Json.integer n)

def verticesJson (vs : List Vertex) : Json := .array (vs.map fun v => numbersJson v.toList)

def modelMembers (m : Model) : List (String × Json) :=
  [("positions_data", .array (m.positions.map fun p => numbersJson p.toList)),
   ("normals_data", .array (m.normals.map fun n => numbersJson n.toList)),
   ("tex_coords_data", .array (m.coordinates.map fun t => numbersJson t.toList)),
   ("indices_data", indicesJson m.indices),
   ("transform", .array (m.transform.toLists.map numbersJson))]

def bufferMembers (r : LoadResult) : List (String × Json) :=
  match r.indexed, r.vertices with
  | some buffer, _ =>
    [("vertices", verticesJson buffer.vertices), ("vertex_indices", indicesJson buffer.indices)]
  | none, some vertices => [("vertices", verticesJson vertices)]
  | none, none => []

def fullData (r : LoadResult) : Json :=
  match r.model with
  | none => r.summary
  | some model => .object (r.summaryMembers ++ modelMembers model ++ bufferMembers r)

def loadData (r : LoadResult) (full : Bool) : Json := if full then fullData r else r.summary

def countText {α : Type} (r : LoadResult) (array : Model → List α) : String :=
  toString (match r.model with
    | some model => (array model).length
    | none => 0)

def loadText (r : LoadResult) : String :=
  let status := if r.success then "ok" else "FAIL"
  let transform := if r.hasTransform then "document" else "identity"
  "\n".intercalate
    ([status ++ " " ++ r.source.getD "None",
      "   positions=" ++ countText r (fun m => m.positions) ++
        " normals=" ++ countText r (fun m => m.normals) ++
        " tex_coords=" ++ countText r (fun m => m.coordinates) ++
        " indices=" ++ countText r (fun m => m.indices) ++
        " vertices=" ++ toString r.metrics.vertices,
      "   transform=" ++ transform ++ " time=" ++
        String.ofList (Numeral.onePlace r.metrics.totalTime) ++ "ms"] ++
      r.diagnostics.map fun d => "   " ++ d.severity.name ++ ": " ++ d.message)

def formatLoad (r : LoadResult) (full : Bool) : OutputFormat → String
  | .json => (loadData r full).render dataLayout
  | .text => loadText r

end MeshMarkup.CommandLine
