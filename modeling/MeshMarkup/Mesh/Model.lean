import MeshMarkup.Number.Binary64

namespace MeshMarkup

def maxIndex : Nat := 0xFFFF

structure Triple where
  x : Binary64
  y : Binary64
  z : Binary64
  deriving DecidableEq

structure Coordinates where
  u : Binary64
  v : Binary64
  deriving DecidableEq

def Triple.toList (t : Triple) : List Binary64 := [t.x, t.y, t.z]

def Coordinates.toList (t : Coordinates) : List Binary64 := [t.u, t.v]

structure Vertex where
  position : Triple
  normal : Triple
  coordinates : Coordinates
  deriving DecidableEq

def Vertex.toList (v : Vertex) : List Binary64 :=
  v.position.toList ++ v.normal.toList ++ v.coordinates.toList

structure Matrix where
  rows : Fin 4 → Fin 4 → Binary64

namespace Matrix

def toLists (m : Matrix) : List (List Binary64) :=
  (List.finRange 4).map fun i => (List.finRange 4).map (m.rows i)

def identity : Matrix := ⟨fun i j => if i = j then .ofNat 1 else .zero⟩

end Matrix

structure IndexedVertices where
  vertices : List Vertex
  indices : List Nat
  deriving DecidableEq

structure MeshArrays where
  positions : List Triple
  normals : List Triple
  coordinates : List Coordinates

structure Model extends MeshArrays where
  indices : List Nat
  ownTransform : Option Matrix

namespace Model

def empty : Model := ⟨⟨[], [], []⟩, [], none⟩

def hasTransform (m : Model) : Bool := m.ownTransform.isSome

def transform (m : Model) : Matrix := m.ownTransform.getD .identity

/-- A triangle takes nine indices: three for each of its corners. -/
def triangleCount (m : Model) : Nat := m.indices.length / 9

end Model

end MeshMarkup
