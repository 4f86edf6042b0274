import MeshMarkup.Proofs.Document.Query
import MeshMarkup.Proofs.Document.Soundness
import MeshMarkup.Proofs.Document.Traversal

namespace MeshMarkup

open Text

namespace Node

mutual

def weight : Node → Nat
  | header child => child.weight
  | numbers values => values.length
  | element _ _ children => weightAll children + 1
  | closed .. => 1
  | _ => 0

def weightAll : List Node → Nat
  | [] => 0
  | node :: nodes => node.weight + weightAll nodes

end

theorem weightAll_eq (nodes : List Node) : weightAll nodes = (nodes.map weight).sum := by
  induction nodes with
  | nil => rfl
  | cons node nodes ih => rw [weightAll, ih, List.map_cons, List.sum_cons]

theorem weight_le_weightAll {part : Node} {nodes : List Node} (h : part ∈ nodes) :
    part.weight ≤ weightAll nodes := by
  induction nodes with
  | nil => exact absurd h List.not_mem_nil
  | cons node nodes ih =>
      rw [weightAll]
      rcases List.mem_cons.mp h with rfl | h
      · exact Nat.le_add_right _ _
      · exact Nat.le_trans (ih h) (Nat.le_add_left _ _)

theorem weightAll_parts_le (node : Node) : weightAll node.parts ≤ node.weight := by
  cases node <;> simp [parts, weight, weightAll]

theorem weight_part_le {part node : Node} (h : part ∈ node.parts) : part.weight ≤ node.weight :=
  Nat.le_trans (weight_le_weightAll h) (weightAll_parts_le node)

theorem elementsAll_le {nodes : List Node} (h : ∀ part ∈ nodes, part.elements ≤ part.weight) :
    elementsAll nodes ≤ weightAll nodes := by
  induction nodes with
  | nil => exact Nat.le_refl 0
  | cons part nodes ih =>
      obtain ⟨hpart, hnodes⟩ := List.forall_mem_cons.mp h
      exact Nat.add_le_add hpart (ih hnodes)

theorem elements_le_weight (node : Node) : node.elements ≤ node.weight := by
  induction node using induction_parts with
  | h node ih =>
      have hparts := elementsAll_le ih
      cases node <;> simp_all [elements, weight, parts, elementsAll, weightAll]

theorem elementCount_le_weight (node : Node) : node.elementCount ≤ node.weight := by
  rw [elementCount, nodes_eq_preorder, countP_preorder]
  exact node.elements_le_weight

theorem depth_le_weight (node : Node) : node.depth ≤ node.weight :=
  Nat.le_trans node.depth_elements.1 node.elements_le_weight

theorem LastChild.weight_le {wanted : String → List Attribute → Prop} {parent child : Node}
    (h : LastChild wanted parent child) : child.weight ≤ parent.weight := by
  obtain ⟨name, attributes, before, after, rfl, -⟩ := h
  exact weight_part_le (by simp [parts])

theorem Descends.weight_le {names : List String} {tree found : Node}
    (h : Descends names tree found) : found.weight ≤ tree.weight := by
  induction h with
  | here => exact Nat.le_refl _
  | down hchild hrest ih => exact Nat.le_trans ih hchild.weight_le

theorem Holds.length_le {values : List Binary64} {node : Node} (h : Holds values node) :
    values.length ≤ node.weight := by
  obtain ⟨name, attributes, rest, rfl⟩ := h
  have hpart : numbers values ∈ (element name attributes (numbers values :: rest)).parts := by
    simp [parts]
  exact weight_part_le hpart

end Node

section Rows

variable {α : Type} {R : α → List Char → Prop} {gap : List Char → Prop} {size : α → Nat}
  {as : List α} {t : List Char}

theorem Following.sum_le (h : Following R gap as t)
    (hsize : ∀ a ∈ as, ∀ s, R a s → size a ≤ s.length) : (as.map size).sum ≤ t.length := by
  induction h with
  | done hw => exact Nat.zero_le _
  | next hw ha ht ih =>
      have hhead := hsize _ List.mem_cons_self _ ha
      have htail := ih fun a hm => hsize a (List.mem_cons_of_mem _ hm)
      simp only [List.map_cons, List.sum_cons, List.length_append]
      omega

theorem Spaced.sum_le (h : Spaced R gap as t)
    (hsize : ∀ a ∈ as, ∀ s, R a s → size a ≤ s.length) : (as.map size).sum ≤ t.length := by
  cases h with
  | mk ha ht =>
      have hhead := hsize _ List.mem_cons_self _ ha
      have htail := ht.sum_le fun a hm => hsize a (List.mem_cons_of_mem _ hm)
      simp only [List.map_cons, List.sum_cons, List.length_append]
      omega

end Rows

theorem LeafText.weight_le {leaf : Node} {s : List Char} (h : LeafText leaf s) :
    leaf.weight ≤ s.length := by
  cases h with
  | @numbers xs s hs =>
      have hone : ∀ x ∈ xs, ∀ s, NumberText x s → 1 ≤ s.length :=
        fun x _ s hx => List.length_pos_iff.mpr (Grammar.numberText_solid hx).1
      have hsum := hs.sum_le hone
      simpa [Node.weight] using hsum
  | text => exact Nat.zero_le _
  | empty => exact Nat.zero_le _

theorem Content.weight_le {nested : Node → List Char → Prop} {cs : List Node} {s : List Char}
    (h : Content nested cs s) (hnested : ∀ c ∈ cs, ∀ s, nested c s → c.weight ≤ s.length) :
    Node.weightAll cs ≤ s.length := by
  rw [Node.weightAll_eq]
  cases h with
  | nodes hs => exact hs.sum_le hnested
  | leaf hs => simpa using hs.weight_le

theorem Rendering.weight_le {strict : Bool} {t : Node} {s : List Char} (h : Rendering strict t s) :
    t.weight ≤ s.length := by
  induction t using Node.induction_parts generalizing s with
  | h t ih =>
      cases h with
      | @header prologue w child s hp hw hc =>
          have hchild := ih child (by simp [Node.parts]) hc
          simp only [Node.weight, List.length_cons, List.length_append]
          omega
      | closed ha => simp [Node.weight]
      | @element name closing as s w cs t ha hw hc hk hstrict hplain =>
          have hcontent := hc.weight_le fun c hm s hs => ih c hm hs
          simp only [Node.weight, List.length_cons, List.length_append]
          omega

/-- The tree of a text holds no more than the text is long. -/
theorem Grammar.weight_le_length {g : Grammar} {text : String} {t : Node}
    (h : g.parse text = .ok (some t)) : t.weight ≤ text.length := by
  obtain ⟨rest, hread, -⟩ := parse_eq_some.mp h
  obtain ⟨s, hs, hyields⟩ := documentWithin_sound g.strictCloseTags (g.nestingLimit + 1) hread
  calc t.weight ≤ s.length := hyields.rendering.weight_le
    _ ≤ (s ++ rest).length := by rw [List.length_append]; exact Nat.le_add_right _ _
    _ = text.length := by rw [← hs, String.length_toList]

end MeshMarkup
