import MeshMarkup.Proofs.Document.Completeness
import MeshMarkup.Proofs.Document.Written
import MeshMarkup.Proofs.Mesh.Extraction

namespace MeshMarkup

/-- Numbers that are written just as they are. -/
structure Writable (values : List Binary64) : Prop where
  ne : values ≠ []
  defined : .nan ∉ values
  unsigned : values.map Binary64.unsignedZero = values

theorem writable_of_natural {values : List Binary64} (hne : values ≠ [])
    (h : ∀ x ∈ values, ∃ n, x = .ofNat n) : Writable values where
  ne := hne
  defined := fun hnan => by
    obtain ⟨n, hn⟩ := h _ hnan
    cases hn
  unsigned := by
    refine (List.map_congr_left fun x hx => ?_).trans (List.map_id values)
    obtain ⟨n, rfl⟩ := h x hx
    rfl

structure MeshRows where
  positions : List Binary64
  normals : List Binary64
  coordinates : List Binary64
  indices : List Binary64

namespace MeshRows

structure Writable (r : MeshRows) : Prop where
  positions : MeshMarkup.Writable r.positions
  normals : MeshMarkup.Writable r.normals
  coordinates : MeshMarkup.Writable r.coordinates
  indices : MeshMarkup.Writable r.indices

def source (id : String) (values : List Binary64) : Node :=
  .element "source" [⟨"id", .text id⟩] [.element "float_array" [] [.numbers values]]

def mesh (r : MeshRows) : Node :=
  .element "mesh" []
    [source "position" r.positions, source "normal" r.normals, source "map" r.coordinates,
     .element "triangles" [] [.element "p" [] [.numbers r.indices]]]

def document (r : MeshRows) : Node :=
  .header (.element "COLLADA" []
    [.element "library_geometries" [] [.element "geometry" [] [r.mesh]]])

def model (r : MeshRows) : Model :=
  ⟨⟨triples r.positions, triples r.normals, coordinatePairs r.coordinates⟩,
    r.indices.map toIndex, none⟩

variable {r : MeshRows}

theorem model_document (r : MeshRows) :
    r.document.model .standard .standard = .ok r.model := rfl

theorem document_unsigned (h : r.Writable) : r.document.unsigned = r.document := by
  simp [document, mesh, source, Node.unsigned, Node.unsignedAll, h.positions.unsigned,
    h.normals.unsigned, h.coordinates.unsigned, h.indices.unsigned]

theorem wellFormed_numbers {name : String} (hname : Node.PlainName name) {values : List Binary64}
    (h : MeshMarkup.Writable values) : Node.WellFormed (.element name [] [.numbers values]) :=
  .leaf hname (by simp) (.numbers h.ne h.defined)

theorem wellFormed_source {id : String} (hid : AttributeValue.Shaped (.text id))
    {values : List Binary64} (h : MeshMarkup.Writable values) : (source id values).WellFormed := by
  have harray : Node.WellFormed (.element "float_array" [] [.numbers values]) :=
    wellFormed_numbers (by decide) h
  refine .branch (by decide) ?_ (by simp) (List.forall_mem_singleton.mpr harray)
  have hsolid : Text.Solid "id".toList := by decide
  intro a ha
  rw [List.mem_singleton.mp ha]
  exact ⟨by simp, hsolid, hid⟩

theorem document_wellFormed (h : r.Writable) : r.document.WellFormed := by
  have hid (id : String) (hquote : '"' ∉ id.toList) (hnone : IntegerLiteral.read? id.toList = none) :
      AttributeValue.Shaped (.text id) := by
    refine ⟨hquote, fun l hl htext => ?_⟩
    have hend : NoDigit [] := by simp [NoDigit]
    have hread := IntegerLiteral.read?_text hl hend
    rw [List.append_nil, htext, hnone] at hread
    cases hread
  have hpositions : (source "position" r.positions).WellFormed :=
    wellFormed_source (hid _ (by decide) (by decide)) h.positions
  have hnormals : (source "normal" r.normals).WellFormed :=
    wellFormed_source (hid _ (by decide) (by decide)) h.normals
  have hcoordinates : (source "map" r.coordinates).WellFormed :=
    wellFormed_source (hid _ (by decide) (by decide)) h.coordinates
  have hindices : Node.WellFormed (.element "p" [] [.numbers r.indices]) :=
    wellFormed_numbers (by decide) h.indices
  have hbranch (name : String) (hname : Node.PlainName name) {children : List Node}
      (hne : children ≠ []) (hchildren : ∀ c ∈ children, c.WellFormed) :
      Node.WellFormed (.element name [] children) := .branch hname (by simp) hne hchildren
  have hmesh : r.mesh.WellFormed := by
    refine hbranch "mesh" (by decide) (by simp) ?_
    simp only [List.forall_mem_cons, hpositions, hnormals, hcoordinates, true_and]
    exact ⟨hbranch "triangles" (by decide) (by simp) (List.forall_mem_singleton.mpr hindices),
      by simp⟩
  refine .header (hbranch "COLLADA" (by decide) (by simp) ?_)
  rw [List.forall_mem_singleton]
  refine hbranch "library_geometries" (by decide) (by simp) ?_
  rw [List.forall_mem_singleton]
  exact hbranch "geometry" (by decide) (by simp) (List.forall_mem_singleton.mpr hmesh)

/-- The written document of a mesh is read as that document. -/
theorem parse_document (h : r.Writable) {g : Grammar} (hg : 7 ≤ g.nestingLimit) :
    g.parse (String.ofList (r.document.written [] 0)) = .ok (some r.document) := by
  have hrendering :=
    Node.written_rendering (document_wellFormed h) g.strictCloseTags Text.blank_nil 0
  rw [document_unsigned h] at hrendering
  refine Grammar.parse_eq_some.mpr ⟨[], ?_, Or.inr Text.blank_nil⟩
  have hnesting : r.document.nesting ≤ 7 := by
    simp [document, mesh, source, Node.nesting, Node.nestingAll]
  have hread := Grammar.documentWithin_complete (document_wellFormed h)
    (Nat.le_trans hnesting hg) hrendering []
  rwa [List.append_nil, ← String.toList_ofList (l := r.document.written [] 0)] at hread

end MeshRows

end MeshMarkup
