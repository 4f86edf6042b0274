import MeshMarkup.Document.Node

namespace MeshMarkup.Node

mutual

def size : Node → Nat
  | header child => child.size + 1
  | element _ _ children => sizeAll children + 1
  | _ => 1

def sizeAll : List Node → Nat
  | [] => 0
  | node :: nodes => node.size + sizeAll nodes

end

theorem sizeAll_append (a b : List Node) : sizeAll (a ++ b) = sizeAll a + sizeAll b := by
  induction a with
  | nil => simp [sizeAll]
  | cons node a ih => simp [sizeAll, ih, Nat.add_assoc]

theorem sizeAll_parts (node : Node) : sizeAll node.parts + 1 = node.size := by
  cases node <;> simp [parts, sizeAll, size]

/-- Visits the pending nodes, each before the nodes below it and those before the next. -/
def walk : List Node → List Node
  | [] => []
  | node :: pending => node :: walk (node.parts ++ pending)
termination_by pending => sizeAll pending
decreasing_by
  simp only [sizeAll_append, sizeAll, ← sizeAll_parts]
  omega

def nodes (tree : Node) : List Node := walk [tree]

def elementCount (tree : Node) : Nat := tree.nodes.countP isElement

mutual

/-- The number of elements on the longest way down; a prologue is no level. -/
def depth : Node → Nat
  | header child => child.depth
  | element _ _ children => depthAll children + 1
  | closed .. => 1
  | _ => 0

def depthAll : List Node → Nat
  | [] => 0
  | node :: nodes => max node.depth (depthAll nodes)

end

end MeshMarkup.Node
