import MeshMarkup.Document.Query
import MeshMarkup.Mesh.Model

namespace MeshMarkup

/-- The leading groups of three; a shorter group at the end is dropped. -/
def triples : List Binary64 → List Triple
  | x :: y :: z :: rest => ⟨x, y, z⟩ :: triples rest
  | _ => []

def coordinatePairs : List Binary64 → List Coordinates
  | u :: v :: rest => ⟨u, v⟩ :: coordinatePairs rest
  | _ => []

/-- A number as an index: the fraction is dropped, numbers outside the range go to its nearer
end, and the undefined number gives zero. -/
def toIndex : Binary64 → Nat
  | .nan => 0
  | .signed true _ => 0
  | .signed false m => if m.isFinite then min m.floor maxIndex else maxIndex

/-- Sixteen numbers as a matrix, each four of them giving a column. -/
def toMatrix? (values : List Binary64) : Option Matrix :=
  if h : values.length = 16 then
    some ⟨fun column row => values[4 * row.val + column.val]⟩
  else none

structure SourceKeys where
  position : String
  normal : String
  coordinates : String

def SourceKeys.standard : SourceKeys := ⟨"position", "normal", "map"⟩

def geometryPath : List String := ["library_geometries", "geometry", "mesh"]

def indexPath : List String := ["triangles", "p"]

def transformPath : List String := ["library_visual_scenes", "visual_scene", "node", "matrix"]

namespace Node

def underPrologue? : Node → Option Node
  | header child => some (header child)
  | _ => none

def mesh? (document : Node) : Option Node := document.underPrologue?.bind (path? geometryPath)

def hasKeyedSource (document : Node) : Bool :=
  match document.mesh? with
  | some mesh => (mesh.lastChild? fun _ attributes => (leadingId? attributes).isSome).isSome
  | none => false

def sourceNumbers? (document : Node) (key : String) : Option (List Binary64) := do
  let source ← (← document.mesh?).source? key
  (← source.childNamed? "float_array").leadingNumbers?

def positions? (document : Node) (key : String) : Option (List Triple) :=
  (document.sourceNumbers? key).map triples

def normals? (document : Node) (key : String) : Option (List Triple) :=
  (document.sourceNumbers? key).map triples

def coordinates? (document : Node) (key : String) : Option (List Coordinates) :=
  (document.sourceNumbers? key).map coordinatePairs

def indices? (document : Node) : Option (List Nat) := do
  let numbers ← (← (← document.mesh?).path? indexPath).leadingNumbers?
  return numbers.map toIndex

def transform? (document : Node) : Option Matrix := do
  toMatrix? (← (← (← document.underPrologue?).path? transformPath).leadingNumbers?)

end Node

inductive MissingArray where
  | positions
  | normals
  | coordinates
  | indices
  | transform
  deriving DecidableEq

namespace MissingArray

def name : MissingArray → String
  | positions => "positions"
  | normals => "normals"
  | coordinates => "tex_coords"
  | indices => "indices"
  | transform => "transform"

def message : MissingArray → String
  | positions => "Mesh positions not found"
  | normals => "Mesh normals not found"
  | coordinates => "Texture coordinates not found"
  | indices => "Triangle indices not found"
  | transform => "Transform matrix not found"

end MissingArray

def present {α ε : Type} (failure : ε) : Option α → Except ε α
  | some found => .ok found
  | none => .error failure

structure Requirements where
  coordinates : Bool
  transform : Bool

def Requirements.standard : Requirements := ⟨true, false⟩

/-- The model of a document, or the first failure: arrays are looked for in a fixed order, and a
key may itself be a failure, which counts only when its array is looked for. -/
def Node.modelBy {ε : Type} (document : Node) (missing : MissingArray → ε)
    (position normal coordinates : Except ε String) (required : Requirements) :
    Except ε Model := do
  let positions ← present (missing .positions) (document.positions? (← position))
  let normals ← present (missing .normals) (document.normals? (← normal))
  let found := document.coordinates? (← coordinates)
  let pairs ← if required.coordinates then present (missing .coordinates) found
    else pure (found.getD [])
  let indices ← present (missing .indices) document.indices?
  if required.transform && document.transform?.isNone then throw (missing .transform)
  return ⟨⟨positions, normals, pairs⟩, indices, document.transform?⟩

def Node.model (document : Node) (keys : SourceKeys) (required : Requirements) :
    Except MissingArray Model :=
  document.modelBy id (.ok keys.position) (.ok keys.normal) (.ok keys.coordinates) required

end MeshMarkup
