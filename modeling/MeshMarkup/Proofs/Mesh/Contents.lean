import MeshMarkup.Proofs.Document.Weight
import MeshMarkup.Proofs.Mesh.Extraction
import MeshMarkup.Proofs.Mesh.Packing

namespace MeshMarkup

def Model.numbers (m : Model) : List Binary64 :=
  m.positions.flatMap Triple.toList ++ m.normals.flatMap Triple.toList ++
    m.coordinates.flatMap Coordinates.toList ++ m.transform.toLists.flatten

structure Model.Within (m : Model) (bound : Nat) : Prop where
  positions : m.positions.length ≤ bound
  normals : m.normals.length ≤ bound
  coordinates : m.coordinates.length ≤ bound
  indices : m.indices.length ≤ bound
  index : ∀ index ∈ m.indices, index ≤ maxIndex

theorem toIndex_le (x : Binary64) : toIndex x ≤ maxIndex := by
  rw [toIndex.eq_def]
  split
  · exact Nat.zero_le _
  · exact Nat.zero_le _
  · split
    · exact Nat.min_le_right _ _
    · exact Nat.le_refl _

namespace Node

variable {document : Node} {keys : SourceKeys}

theorem MeshOf.weight_le {mesh : Node} (h : MeshOf document mesh) :
    mesh.weight ≤ document.weight := by
  obtain ⟨child, rfl, hmesh⟩ := h
  exact hmesh.weight_le

theorem Has.length_le {array : MissingArray} {values : List Binary64}
    (h : document.Has keys array values) : values.length ≤ document.weight := by
  cases array with
  | positions | normals | coordinates =>
      obtain ⟨mesh, source, node, hmesh, hsource, hnode, hvalues⟩ := h
      calc values.length ≤ node.weight := hvalues.length_le
        _ ≤ source.weight := hnode.weight_le
        _ ≤ mesh.weight := hsource.weight_le
        _ ≤ document.weight := hmesh.weight_le
  | indices =>
      obtain ⟨mesh, node, hmesh, hnode, hvalues⟩ := h
      calc values.length ≤ node.weight := hvalues.length_le
        _ ≤ mesh.weight := hnode.weight_le
        _ ≤ document.weight := hmesh.weight_le
  | transform =>
      obtain ⟨child, node, rfl, hnode, hvalues, -⟩ := h
      exact Nat.le_trans hvalues.length_le hnode.weight_le

theorem length_numbers?_le (array : MissingArray) :
    ((document.numbers? keys array).getD []).length ≤ document.weight := by
  cases h : document.numbers? keys array with
  | none => exact Nat.zero_le _
  | some values => exact (numbers?_eq_some.mp h).length_le

theorem model_within {required : Requirements} {m : Model}
    (h : document.model keys required = .ok m) : m.Within document.weight := by
  have hassembled : m = document.assembled keys := by
    rw [model_eq] at h
    split at h
    · nomatch h
    · exact (Except.ok.inj h).symm
  subst hassembled
  have hlength (array : MissingArray) :
      ((document.numbers? keys array).getD []).length ≤ document.weight := length_numbers?_le array
  refine ⟨?_, ?_, ?_, ?_, fun index hindex => ?_⟩
  · exact (grouped_triples _).length ▸ Nat.le_trans (Nat.div_le_self _ _) (hlength .positions)
  · exact (grouped_triples _).length ▸ Nat.le_trans (Nat.div_le_self _ _) (hlength .normals)
  · exact (grouped_coordinatePairs _).length ▸
      Nat.le_trans (Nat.div_le_self _ _) (hlength .coordinates)
  · rw [assembled, List.length_map]
    exact hlength .indices
  · obtain ⟨x, -, rfl⟩ := List.mem_map.mp hindex
    exact toIndex_le x

end Node

namespace MeshArrays

theorem Names.mem {α : Type} {entries : List α} {index : Int} {a : α} (h : Names entries index a) :
    a ∈ entries :=
  List.mem_of_getElem? h.2

theorem Packed.run_vertices {t : Table} {corners : List Corner} {packed next : Packed}
    (hrun : corners.foldlM (Packed.add? t) packed = some next) :
    ∀ v ∈ next.vertices, v ∈ packed.vertices ∨ ∃ corner, t.vertex? corner = some v := by
  induction corners generalizing packed with
  | nil =>
      obtain rfl := Option.some.inj hrun
      exact fun v hv => Or.inl hv
  | cons corner corners ih =>
      rw [List.foldlM_cons, Option.bind_eq_bind, Option.bind_eq_some_iff] at hrun
      obtain ⟨mid, hadd, hrun⟩ := hrun
      intro v hv
      rcases ih hrun v hv with hmid | hcorner
      · rcases Packed.add?_eq_some.mp hadd with ⟨slot, -, rfl⟩ | ⟨-, w, hw, -, rfl⟩
        · exact Or.inl hmid
        · rcases List.mem_cons.mp hmid with rfl | hold
          · exact Or.inr ⟨corner, hw⟩
          · exact Or.inl hold
      · exact Or.inr hcorner

end MeshArrays

namespace Model

variable {m : Model}

theorem mem_numbers_of_resolves {corner : Corner} {v : Vertex}
    (h : m.toMeshArrays.Resolves corner v) : ∀ x ∈ v.toList, x ∈ m.numbers := by
  intro x hx
  simp only [Vertex.toList, List.mem_append] at hx
  simp only [numbers, List.mem_append, List.mem_flatMap]
  rcases hx with (hx | hx) | hx
  · exact Or.inl (Or.inl (Or.inl ⟨_, h.position.mem, hx⟩))
  · exact Or.inl (Or.inl (Or.inr ⟨_, h.normal.mem, hx⟩))
  · exact Or.inl (Or.inr ⟨_, h.coordinates.mem, hx⟩)

theorem vertices?_contents {vs : List Vertex} (h : m.vertices? = some vs) :
    vs.length ≤ m.indices.length ∧ ∀ v ∈ vs, ∀ x ∈ v.toList, x ∈ m.numbers := by
  obtain ⟨hlength, hresolved⟩ := MeshArrays.vertices?_eq_some_iff.mp h
  refine ⟨?_, fun v hv => ?_⟩
  · rw [hlength, indexStream, List.length_map]
    exact Nat.div_le_self _ _
  · obtain ⟨k, hk⟩ := List.mem_iff_getElem?.mp hv
    obtain ⟨corner, -, hcorner⟩ := hresolved k v hk
    exact mem_numbers_of_resolves hcorner

theorem indexed?_contents {iv : IndexedVertices} (h : m.indexed? = some iv) :
    iv.vertices.length ≤ maxIndex + 1 ∧ (∀ index ∈ iv.indices, index ≤ maxIndex) ∧
      ∀ v ∈ iv.vertices, ∀ x ∈ v.toList, x ∈ m.numbers := by
  rw [indexed?, MeshArrays.indexed?, Option.bind_eq_bind, Option.bind_eq_some_iff] at h
  obtain ⟨packed, hrun, hiv⟩ := h
  obtain rfl := Option.some.inj hiv
  have hholds := (MeshArrays.Packed.holds_empty m.toMeshArrays.table).run hrun
  refine ⟨?_, fun index hindex => ?_, fun v hv => ?_⟩
  · rw [List.length_reverse, hholds.count]
    exact hholds.fits
  · have hlt := hholds.bounded index (List.mem_reverse.mp hindex)
    have hfits := hholds.fits
    omega
  · rcases MeshArrays.Packed.run_vertices hrun v (List.mem_reverse.mp hv) with hv | ⟨corner, hcorner⟩
    · exact absurd hv List.not_mem_nil
    · exact mem_numbers_of_resolves (MeshArrays.vertex?_eq_some.mp hcorner)

end Model

end MeshMarkup
