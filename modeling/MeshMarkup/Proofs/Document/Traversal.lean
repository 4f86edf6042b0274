import MeshMarkup.Document.Traversal

namespace MeshMarkup.Node

theorem size_lt {part node : Node} (h : part ∈ node.parts) : part.size < node.size := by
  have hle (nodes : List Node) (hmem : part ∈ nodes) : part.size ≤ sizeAll nodes := by
    induction nodes with
    | nil => exact absurd hmem List.not_mem_nil
    | cons other nodes ih =>
        rw [sizeAll]
        obtain rfl | hmem := List.mem_cons.mp hmem
        · exact Nat.le_add_right _ _
        · exact Nat.le_trans (ih hmem) (Nat.le_add_left _ _)
  exact sizeAll_parts node ▸ Nat.lt_succ_of_le (hle _ h)

/-- What follows for a node from its parts holds of every node. -/
theorem induction_parts {P : Node → Prop} (h : ∀ node, (∀ part ∈ node.parts, P part) → P node)
    (node : Node) : P node := by
  induction hn : node.size using Nat.strongRecOn generalizing node with
  | ind n ih =>
      subst hn
      exact h node fun part hpart => ih _ (size_lt hpart) part rfl

mutual

def preorder : Node → List Node
  | header child => header child :: child.preorder
  | element name attributes children => element name attributes children :: preorderAll children
  | node => [node]

def preorderAll : List Node → List Node
  | [] => []
  | node :: nodes => node.preorder ++ preorderAll nodes

end

theorem preorder_eq (node : Node) : node.preorder = node :: preorderAll node.parts := by
  cases node <;> simp [preorder, preorderAll, parts]

theorem preorderAll_append (a b : List Node) :
    preorderAll (a ++ b) = preorderAll a ++ preorderAll b := by
  induction a with
  | nil => rfl
  | cons node a ih => simp only [List.cons_append, preorderAll, ih, List.append_assoc]

/-- One round of a walk: with the parts of its node in front of the others, what is pending goes
on in the same order. -/
theorem preorderAll_round (node : Node) (pending : List Node) :
    preorderAll (node :: pending) = node :: preorderAll (node.parts ++ pending) := by
  rw [preorderAll, preorder_eq, preorderAll_append, List.cons_append]

theorem walk_eq (pending : List Node) : walk pending = preorderAll pending := by
  fun_induction walk pending with
  | case1 => rfl
  | case2 node pending ih => rw [ih, preorderAll_round]

/-- Runs of a stack with its top at the end: the top is taken off and visited, and its parts are
put on, the last of them first. -/
inductive StackRun : List Node → List Node → Prop
  | done : StackRun [] []
  | visit {node : Node} {below visited : List Node}
      (h : StackRun (below ++ node.parts.reverse) visited) :
      StackRun (below ++ [node]) (node :: visited)

theorem stackRun_walk (pending : List Node) : StackRun pending.reverse (walk pending) := by
  fun_induction walk pending with
  | case1 => exact .done
  | case2 node pending ih =>
      rw [List.reverse_append] at ih
      rw [List.reverse_cons]
      exact .visit ih

/-- What a stack visits is what a walk visits that holds the stack the other way round. -/
theorem stackRun_iff {stack visited : List Node} :
    StackRun stack visited ↔ visited = walk stack.reverse := by
  constructor
  · intro h
    induction h with
    | done => rw [List.reverse_nil, walk]
    | visit h ih =>
        rw [List.reverse_append, List.reverse_singleton, List.singleton_append, walk, ih,
          List.reverse_append, List.reverse_reverse]
  · rintro rfl
    simpa using stackRun_walk stack.reverse

theorem nodes_eq_preorder (tree : Node) : tree.nodes = tree.preorder := by
  rw [nodes, walk_eq, preorderAll, preorderAll, List.append_nil]

/-- The node at a place, which is a path from part to part, each given by its number among the
parts of the node before it. -/
def at? : Node → List Nat → Option Node
  | node, [] => some node
  | node, i :: path => node.parts[i]?.bind (at? · path)

mutual

def places : Node → List (List Nat)
  | header child => [] :: child.places.map (0 :: ·)
  | element _ _ children => [] :: placesFrom 0 children
  | _ => [[]]

def placesFrom (i : Nat) : List Node → List (List Nat)
  | [] => []
  | node :: nodes => node.places.map (i :: ·) ++ placesFrom (i + 1) nodes

end

theorem places_eq (node : Node) : node.places = [] :: placesFrom 0 node.parts := by
  cases node <;> simp [places, placesFrom, parts]

theorem mem_placesFrom {path : List Nat} {k : Nat} {nodes : List Node} :
    path ∈ placesFrom k nodes ↔
      ∃ i node rest, nodes[i]? = some node ∧ rest ∈ node.places ∧ path = (k + i) :: rest := by
  induction nodes generalizing k with
  | nil => simp [placesFrom]
  | cons node nodes ih =>
      rw [placesFrom, List.mem_append, List.mem_map, ih]
      constructor
      · rintro (⟨rest, hrest, rfl⟩ | ⟨i, other, rest, hi, hrest, rfl⟩)
        · exact ⟨0, node, rest, rfl, hrest, rfl⟩
        · exact ⟨i + 1, other, rest, hi, hrest, by rw [Nat.add_right_comm, Nat.add_assoc]⟩
      · rintro ⟨_ | i, other, rest, hi, hrest, rfl⟩
        · obtain rfl := Option.some.inj hi
          exact Or.inl ⟨rest, hrest, rfl⟩
        · exact Or.inr ⟨i, other, rest, hi, hrest, by rw [Nat.add_right_comm, Nat.add_assoc]⟩

theorem mem_places {path : List Nat} {node : Node} :
    path ∈ node.places ↔ (node.at? path).isSome = true := by
  rw [places_eq, List.mem_cons, mem_placesFrom]
  induction path generalizing node with
  | nil => simp [at?]
  | cons i path ih =>
      simp only [reduceCtorEq, false_or, List.cons.injEq, Nat.zero_add, at?]
      constructor
      · rintro ⟨_, part, _, hpart, hrest, rfl, rfl⟩
        rw [places_eq, List.mem_cons, mem_placesFrom, ih] at hrest
        rwa [hpart]
      · intro h
        cases hpart : node.parts[i]? with
        | none => simp [hpart] at h
        | some part =>
            rw [hpart] at h
            refine ⟨i, part, path, hpart, ?_, rfl, rfl⟩
            rw [places_eq, List.mem_cons, mem_placesFrom, ih]
            exact h

theorem placesFrom_increasing {k : Nat} {nodes : List Node}
    (h : ∀ part ∈ nodes, part.places.Pairwise (· < ·)) : (placesFrom k nodes).Pairwise (· < ·) := by
  induction nodes generalizing k with
  | nil => exact .nil
  | cons part nodes ih =>
      obtain ⟨hpart, hnodes⟩ := List.forall_mem_cons.mp h
      rw [placesFrom, List.pairwise_append, List.pairwise_map]
      refine ⟨hpart.imp fun hlt => List.cons_lt_cons_iff.mpr (Or.inr ⟨rfl, hlt⟩), ih hnodes,
        fun path hpath other hother => ?_⟩
      obtain ⟨rest, -, rfl⟩ := List.mem_map.mp hpath
      obtain ⟨i, _, _, -, -, rfl⟩ := mem_placesFrom.mp hother
      exact List.cons_lt_cons_iff.mpr (Or.inl (by omega))

theorem places_increasing (node : Node) : node.places.Pairwise (· < ·) := by
  induction node using induction_parts with
  | h node ih =>
      rw [places_eq, List.pairwise_cons]
      refine ⟨fun path hpath => ?_, placesFrom_increasing ih⟩
      obtain ⟨i, _, rest, -, -, rfl⟩ := mem_placesFrom.mp hpath
      exact List.nil_lt_cons _ _

theorem map_at?_placesFrom {node : Node} {k : Nat} {nodes : List Node}
    (h : ∀ part ∈ node.parts, part.places.map part.at? = part.preorder.map some)
    (hnodes : node.parts.drop k = nodes) :
    (placesFrom k nodes).map node.at? = (preorderAll nodes).map some := by
  induction nodes generalizing k with
  | nil => rfl
  | cons part nodes ih =>
      have hpart : node.parts[k]? = some part := by
        rw [← List.head?_drop, hnodes, List.head?_cons]
      have hdrop : node.parts.drop (k + 1) = nodes := by
        rw [← List.drop_drop, hnodes, List.drop_one, List.tail_cons]
      have hbelow : (node.at? ∘ (k :: ·)) = part.at? := by
        funext path
        simp only [Function.comp_apply, at?, hpart, Option.bind_some]
      rw [placesFrom, preorderAll, List.map_append, List.map_append, List.map_map, hbelow,
        h part (List.mem_of_getElem? hpart), ih hdrop]

theorem map_at?_places (node : Node) : node.places.map node.at? = node.preorder.map some := by
  induction node using induction_parts with
  | h node ih =>
      rw [places_eq, preorder_eq, List.map_cons, List.map_cons,
        map_at?_placesFrom ih List.drop_zero, at?]

theorem mem_preorder {tree node : Node} :
    node ∈ tree.preorder ↔ ∃ path, tree.at? path = some node := by
  have hmem : some node ∈ tree.places.map tree.at? ↔ node ∈ tree.preorder := by
    simp [map_at?_places]
  rw [← hmem, List.mem_map]
  constructor
  · rintro ⟨path, -, hpath⟩
    exact ⟨path, hpath⟩
  · rintro ⟨path, hpath⟩
    exact ⟨path, mem_places.mpr (by rw [hpath]; rfl), hpath⟩

mutual

def elements : Node → Nat
  | header child => child.elements
  | element _ _ children => elementsAll children + 1
  | closed .. => 1
  | _ => 0

def elementsAll : List Node → Nat
  | [] => 0
  | node :: nodes => node.elements + elementsAll nodes

end

theorem elements_eq (node : Node) :
    node.elements = elementsAll node.parts + if node.isElement then 1 else 0 := by
  cases node <;> simp [elements, elementsAll, parts, isElement]

theorem depth_eq (node : Node) :
    node.depth = depthAll node.parts + if node.isElement then 1 else 0 := by
  cases node <;> simp [depth, depthAll, parts, isElement]

theorem countP_preorderAll {nodes : List Node}
    (h : ∀ part ∈ nodes, part.preorder.countP isElement = part.elements) :
    (preorderAll nodes).countP isElement = elementsAll nodes := by
  induction nodes with
  | nil => rfl
  | cons part nodes ih =>
      obtain ⟨hpart, hnodes⟩ := List.forall_mem_cons.mp h
      rw [preorderAll, elementsAll, List.countP_append, hpart, ih hnodes]

theorem countP_preorder (node : Node) : node.preorder.countP isElement = node.elements := by
  induction node using induction_parts with
  | h node ih => rw [preorder_eq, elements_eq, List.countP_cons, countP_preorderAll ih]

theorem elements_eq_zero {tree : Node} :
    tree.elements = 0 ↔ ∀ path node, tree.at? path = some node → node.isElement = false := by
  rw [← countP_preorder, List.countP_eq_zero]
  constructor
  · intro h path node hpath
    simpa using h node (mem_preorder.mpr ⟨path, hpath⟩)
  · intro h node hnode
    obtain ⟨path, hpath⟩ := mem_preorder.mp hnode
    simp [h path node hpath]

theorem depthAll_elementsAll {nodes : List Node}
    (h : ∀ part ∈ nodes, part.depth ≤ part.elements ∧ (part.depth = 0 → part.elements = 0)) :
    depthAll nodes ≤ elementsAll nodes ∧ (depthAll nodes = 0 → elementsAll nodes = 0) := by
  induction nodes with
  | nil => exact ⟨Nat.le_refl 0, fun hzero => hzero⟩
  | cons part nodes ih =>
      obtain ⟨hpart, hnodes⟩ := List.forall_mem_cons.mp h
      have hrest := ih hnodes
      rw [depthAll, elementsAll]
      omega

theorem depth_elements (node : Node) :
    node.depth ≤ node.elements ∧ (node.depth = 0 → node.elements = 0) := by
  induction node using induction_parts with
  | h node ih =>
      have hparts := depthAll_elementsAll ih
      rw [depth_eq, elements_eq]
      omega

/-- A walk is the recursive order of a tree, and so is what a stack visits until it is empty. It
comes to every place in the tree, to each once, from one to the lexicographically next. The count of
its elements is the recursive one; the depth is at most that count, and zero just when there is no
element at any place. -/
theorem nodes_traversal (tree : Node) :
    tree.nodes = tree.preorder ∧ (∀ visited, StackRun [tree] visited ↔ visited = tree.preorder) ∧
    (∃ places : List (List Nat), places.Pairwise (· < ·) ∧
      (∀ path, path ∈ places ↔ (tree.at? path).isSome = true) ∧
      places.map tree.at? = tree.nodes.map some) ∧
    tree.elementCount = tree.elements ∧
    tree.depth ≤ tree.elementCount ∧
    (tree.depth = 0 ↔ ∀ path node, tree.at? path = some node → node.isElement = false) := by
  have hcount : tree.elementCount = tree.elements := by
    rw [elementCount, nodes_eq_preorder, countP_preorder]
  obtain ⟨hle, hzero⟩ := tree.depth_elements
  refine ⟨tree.nodes_eq_preorder, fun _ => ?_,
    ⟨tree.places, tree.places_increasing, fun _ => mem_places, ?_⟩, hcount, hcount ▸ hle, ?_⟩
  · rw [stackRun_iff, List.reverse_singleton, ← nodes_eq_preorder, nodes]
  · rw [map_at?_places, nodes_eq_preorder]
  · rw [← elements_eq_zero]
    exact ⟨hzero, fun h => Nat.le_zero.mp (h ▸ hle)⟩

end MeshMarkup.Node
