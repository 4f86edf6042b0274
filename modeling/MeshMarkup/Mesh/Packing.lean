import MeshMarkup.Mesh.Model
import Std.Data.HashMap

namespace MeshMarkup

abbrev Corner := Int × Int × Int

namespace MeshArrays

/-- The complete groups of three indices. -/
def corners : List Int → List Corner
  | a :: b :: c :: rest => (a, b, c) :: corners rest
  | _ => []

def entry? {α : Type} (entries : Array α) (index : Int) : Option α :=
  if index < 0 then none else entries[index.toNat]?

structure Table where
  positions : Array Triple
  normals : Array Triple
  coordinates : Array Coordinates

def table (m : MeshArrays) : Table :=
  ⟨m.positions.toArray, m.normals.toArray, m.coordinates.toArray⟩

def Table.vertex? (t : Table) (corner : Corner) : Option Vertex := do
  return ⟨← entry? t.positions corner.1, ← entry? t.normals corner.2.1,
    ← entry? t.coordinates corner.2.2⟩

def vertices? (m : MeshArrays) (indices : List Int) : Option (List Vertex) :=
  (corners indices).mapM m.table.vertex?

/-- A buffer under construction: the slots of the corners seen so far, and the vertices and
indices written so far, the latest first. -/
structure Packed where
  slots : Std.HashMap Corner Nat
  count : Nat
  vertices : List Vertex
  indices : List Nat

def Packed.empty : Packed := ⟨∅, 0, [], []⟩

def Packed.add? (t : Table) (packed : Packed) (corner : Corner) : Option Packed :=
  match packed.slots[corner]? with
  | some slot => some { packed with indices := slot :: packed.indices }
  | none =>
    match t.vertex? corner with
    | none => none
    | some vertex =>
      if maxIndex < packed.count then none
      else some ⟨packed.slots.insert corner packed.count, packed.count + 1,
        vertex :: packed.vertices, packed.count :: packed.indices⟩

/-- Vertices without repetition, in the order of their first use, when they fit sixteen bits. -/
def indexed? (m : MeshArrays) (indices : List Int) : Option IndexedVertices := do
  let packed ← (corners indices).foldlM (Packed.add? m.table) Packed.empty
  return ⟨packed.vertices.reverse, packed.indices.reverse⟩

end MeshArrays

namespace Model

def indexStream (m : Model) : List Int := m.indices.map Int.ofNat

def vertices? (m : Model) : Option (List Vertex) := m.toMeshArrays.vertices? m.indexStream

def indexed? (m : Model) : Option IndexedVertices := m.toMeshArrays.indexed? m.indexStream

end Model

end MeshMarkup
