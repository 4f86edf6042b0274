import Mathlib.Algebra.Order.Floor.Semifield
import MeshMarkup.Mesh.Extraction
import MeshMarkup.Proofs.Document.Query
import MeshMarkup.Proofs.Number.Estimate

namespace MeshMarkup

/-- Consecutive groups of numbers, as many of them as a row of numbers has. -/
structure Grouped {α : Type} (size : Nat) (parts : α → List Binary64) (values : List Binary64)
    (groups : List α) : Prop where
  length : groups.length = values.length / size
  leads : groups.flatMap parts <+: values

section Grouped

variable {α : Type} {size : Nat} {parts : α → List Binary64} {values : List Binary64}

theorem flatMap_parts_inj (hsize : ∀ a, (parts a).length = size)
    (hinj : Function.Injective parts) {groups others : List α}
    (hlen : groups.length = others.length) (h : groups.flatMap parts = others.flatMap parts) :
    groups = others := by
  induction groups generalizing others with
  | nil => exact (List.length_eq_zero_iff.mp hlen.symm).symm
  | cons a groups ih =>
      cases others with
      | nil => nomatch hlen
      | cons b others =>
          rw [List.flatMap_cons, List.flatMap_cons] at h
          obtain ⟨hfirst, hrest⟩ := List.append_inj h ((hsize a).trans (hsize b).symm)
          rw [hinj hfirst, ih (Nat.succ.inj hlen) hrest]

theorem Grouped.eq_iff {groups others : List α} (ho : Grouped size parts values others)
    (hsize : ∀ a, (parts a).length = size) (hinj : Function.Injective parts) :
    Grouped size parts values groups ↔ groups = others := by
  constructor
  · intro h
    have hlen : groups.length = others.length := h.length.trans ho.length.symm
    have hsame : (groups.flatMap parts).length = (others.flatMap parts).length := by
      simp [List.length_flatMap, hsize, hlen]
    refine flatMap_parts_inj hsize hinj hlen ?_
    exact (List.prefix_of_prefix_length_le h.leads ho.leads hsame.le).eq_of_length hsame
  · rintro rfl
    exact ho

end Grouped

theorem Triple.toList_injective : Function.Injective Triple.toList := by
  rintro ⟨x, y, z⟩ ⟨x', y', z'⟩ h
  simpa [Triple.toList] using h

theorem Coordinates.toList_injective : Function.Injective Coordinates.toList := by
  rintro ⟨u, v⟩ ⟨u', v'⟩ h
  simpa [Coordinates.toList] using h

theorem grouped_triples (values : List Binary64) :
    Grouped 3 Triple.toList values (triples values) := by
  fun_induction triples values with
  | case1 x y z rest ih =>
      refine ⟨?_, ?_⟩
      · simp only [List.length_cons, ih.length]
        omega
      · simpa [Triple.toList] using ih.leads
  | case2 values h =>
      have hshort : values.length < 3 := by
        match values with
        | [] | [_] | [_, _] => simp
        | x :: y :: z :: rest => exact (h x y z rest rfl).elim
      exact ⟨(Nat.div_eq_of_lt hshort).symm, List.nil_prefix⟩

theorem grouped_coordinatePairs (values : List Binary64) :
    Grouped 2 Coordinates.toList values (coordinatePairs values) := by
  fun_induction coordinatePairs values with
  | case1 u v rest ih =>
      refine ⟨?_, ?_⟩
      · simp only [List.length_cons, ih.length]
        omega
      · simpa [Coordinates.toList] using ih.leads
  | case2 values h =>
      have hshort : values.length < 2 := by
        match values with
        | [] | [_] => simp
        | u :: v :: rest => exact (h u v rest rfl).elim
      exact ⟨(Nat.div_eq_of_lt hshort).symm, List.nil_prefix⟩

theorem grouped_triples_iff {values : List Binary64} {groups : List Triple} :
    Grouped 3 Triple.toList values groups ↔ groups = triples values :=
  (grouped_triples values).eq_iff (fun _ => rfl) Triple.toList_injective

theorem grouped_coordinatePairs_iff {values : List Binary64} {groups : List Coordinates} :
    Grouped 2 Coordinates.toList values groups ↔ groups = coordinatePairs values :=
  (grouped_coordinatePairs values).eq_iff (fun _ => rfl) Coordinates.toList_injective

/-- An index is the whole part of a number kept in the range of sixteen bits. -/
theorem toIndex_eq (x : Binary64) : toIndex x = ⌊min x.toRat maxIndex⌋₊ := by
  cases x with
  | nan => simp [toIndex, Binary64.toRat]
  | signed negative m =>
      cases negative with
      | true =>
          have hle : min (-m.toRat) maxIndex ≤ 0 :=
            min_le_of_left_le (neg_nonpos.mpr m.toRat_nonneg)
          simp [toIndex, Binary64.toRat, Nat.floor_of_nonpos hle]
      | false =>
          have hvalue : (Binary64.signed false m).toRat = m.toRat := rfl
          rw [hvalue, toIndex]
          by_cases hfinite : m.isFinite = true
          · have hfloor : ⌊m.toRat⌋₊ = m.floor := Nat.floor_div_eq_div m.units Magnitude.unitsPerOne
            rw [if_pos hfinite, Nat.floor_mono.map_min, hfloor, Nat.floor_natCast]
          · have hinfinity : m = .infinity := Classical.not_not.mp fun hne =>
              hfinite (Magnitude.isFinite_iff.mpr hne)
            have hmax : (maxIndex : ℚ) ≤ Magnitude.infinity.toRat := by
              have hsixteen : (maxIndex : ℚ) ≤ 2 ^ 16 := by norm_num [maxIndex]
              rw [Magnitude.toRat_infinity]
              exact hsixteen.trans (pow_le_pow_right₀ one_le_two (by decide))
            rw [if_neg hfinite, hinfinity, min_eq_right hmax, Nat.floor_natCast]

theorem toIndex_ofNat {n : Nat} (h : n ≤ maxIndex) : toIndex (.ofNat n) = n := by
  have hvalue : (Binary64.ofNat n).toRat = n :=
    (Magnitude.nearest_ofNat n).eq_of_whole (Nat.le_trans h (by decide)) rfl
  have hle : (n : ℚ) ≤ maxIndex := Nat.cast_le.mpr h
  rw [toIndex_eq, hvalue, min_eq_left hle, Nat.floor_natCast]

theorem toMatrix?_eq_some {values : List Binary64} {m : Matrix} : toMatrix? values = some m ↔
    values.length = 16 ∧
      ∀ column row : Fin 4, values[4 * row.val + column.val]? = some (m.rows column row) := by
  rw [toMatrix?]
  split
  · next h =>
      have hlt (column row : Fin 4) : 4 * row.val + column.val < values.length := by omega
      simp only [Option.some.injEq, h, true_and]
      constructor
      · rintro rfl column row
        exact List.getElem?_eq_getElem (hlt column row)
      · intro hrows
        obtain ⟨rows⟩ := m
        congr 1
        funext column row
        have hvalue := hrows column row
        rw [List.getElem?_eq_getElem (hlt column row), Option.some.injEq] at hvalue
        exact hvalue
  · next h => simp [h]

theorem exists_matrix {values : List Binary64} (h : values.length = 16) :
    ∃ matrix, toMatrix? values = some matrix :=
  ⟨_, dif_pos h⟩

theorem toMatrix?_eq_none {values : List Binary64} (h : values.length ≠ 16) :
    toMatrix? values = none :=
  dif_neg h

namespace Node

/-- The mesh of a document, which lies under a prologue. -/
def MeshOf (document mesh : Node) : Prop :=
  ∃ child, document = header child ∧
    Descends ["library_geometries", "geometry", "mesh"] child mesh

/-- The numbers in the source of a mesh whose id contains a key. -/
def SourceArray (document : Node) (key : String) (values : List Binary64) : Prop :=
  ∃ mesh source array, MeshOf document mesh ∧ LastChild (LeadingId key) mesh source ∧
    LastChild (Named "float_array") source array ∧ Holds values array

def IndexArray (document : Node) (values : List Binary64) : Prop :=
  ∃ mesh array, MeshOf document mesh ∧ Descends ["triangles", "p"] mesh array ∧
    Holds values array

/-- The numbers of the transform; any other count of numbers than sixteen is no transform. -/
def TransformArray (document : Node) (values : List Binary64) : Prop :=
  ∃ child array, document = header child ∧
    Descends ["library_visual_scenes", "visual_scene", "node", "matrix"] child array ∧
    Holds values array ∧ values.length = 16

theorem underPrologue?_eq_some {document tree : Node} :
    document.underPrologue? = some tree ↔ tree = document ∧ ∃ child, document = header child := by
  cases document <;> simp [underPrologue?, eq_comm]

theorem mesh?_eq_some {document mesh : Node} : document.mesh? = some mesh ↔ MeshOf document mesh := by
  simp only [mesh?, Option.bind_eq_some_iff, underPrologue?_eq_some, geometryPath, path?_eq_some]
  constructor
  · rintro ⟨_, ⟨rfl, child, rfl⟩, h⟩
    exact ⟨child, rfl, h⟩
  · rintro ⟨child, rfl, h⟩
    exact ⟨_, ⟨rfl, child, rfl⟩, h⟩

theorem MeshOf.body {document mesh : Node} (h : MeshOf document mesh) : mesh.body = mesh := by
  obtain ⟨child, -, hmesh⟩ := h
  exact (hmesh.isOpen hmesh.start_isOpen).body_eq

theorem sourceNumbers?_eq_some {document : Node} {key : String} {values : List Binary64} :
    document.sourceNumbers? key = some values ↔ SourceArray document key values := by
  simp only [sourceNumbers?, bind, Option.bind_eq_some_iff, mesh?_eq_some, source?_eq_some,
    childNamed?_eq_some, leadingNumbers?_eq_some, SourceArray, exists_and_left]

def Has (document : Node) (keys : SourceKeys) : MissingArray → List Binary64 → Prop
  | .positions => SourceArray document keys.position
  | .normals => SourceArray document keys.normal
  | .coordinates => SourceArray document keys.coordinates
  | .indices => IndexArray document
  | .transform => TransformArray document

def numbers? (document : Node) (keys : SourceKeys) : MissingArray → Option (List Binary64)
  | .positions => document.sourceNumbers? keys.position
  | .normals => document.sourceNumbers? keys.normal
  | .coordinates => document.sourceNumbers? keys.coordinates
  | .indices => document.mesh?.bind fun mesh => (mesh.path? indexPath).bind leadingNumbers?
  | .transform => (document.underPrologue?.bind fun tree =>
      (tree.path? transformPath).bind leadingNumbers?).filter (·.length = 16)

theorem numbers?_eq_some {document : Node} {keys : SourceKeys} {array : MissingArray}
    {values : List Binary64} :
    document.numbers? keys array = some values ↔ document.Has keys array values := by
  cases array with
  | positions | normals | coordinates => exact sourceNumbers?_eq_some
  | indices =>
      simp only [numbers?, indexPath, Option.bind_eq_some_iff, mesh?_eq_some, path?_eq_some,
        leadingNumbers?_eq_some, Has, IndexArray]
      constructor
      · rintro ⟨mesh, hmesh, array, harray, hvalues⟩
        rw [hmesh.body] at harray
        exact ⟨mesh, array, hmesh, harray, hvalues⟩
      · rintro ⟨mesh, array, hmesh, harray, hvalues⟩
        refine ⟨mesh, hmesh, array, ?_, hvalues⟩
        rw [hmesh.body]
        exact harray
  | transform =>
      simp only [numbers?, transformPath, Option.filter_eq_some_iff, Option.bind_eq_some_iff,
        underPrologue?_eq_some, path?_eq_some, leadingNumbers?_eq_some, decide_eq_true_eq, Has,
        TransformArray]
      constructor
      · rintro ⟨⟨_, ⟨rfl, child, rfl⟩, array, harray, hvalues⟩, hlength⟩
        exact ⟨child, array, rfl, harray, hvalues, hlength⟩
      · rintro ⟨child, array, rfl, harray, hvalues, hlength⟩
        exact ⟨⟨_, ⟨rfl, child, rfl⟩, array, harray, hvalues⟩, hlength⟩

theorem numbers?_eq_none {document : Node} {keys : SourceKeys} {array : MissingArray} :
    document.numbers? keys array = none ↔ ∀ values, ¬ document.Has keys array values := by
  simp only [Option.eq_none_iff_forall_ne_some, ne_eq, numbers?_eq_some]

theorem indices?_eq (document : Node) (keys : SourceKeys) :
    document.indices? = (document.numbers? keys .indices).map (·.map toIndex) := by
  simp only [indices?, numbers?, bind, pure, Option.map_eq_bind, Option.bind_assoc]
  rfl

theorem transform?_eq (document : Node) (keys : SourceKeys) :
    document.transform? = (document.numbers? keys .transform).bind toMatrix? := by
  have hfilter (found : Option (List Binary64)) :
      found.bind toMatrix? = (found.filter (·.length = 16)).bind toMatrix? := by
    cases found with
    | none => rfl
    | some values =>
        by_cases hlength : values.length = 16
        · simp [Option.filter, hlength]
        · simp [Option.filter, hlength, toMatrix?_eq_none hlength]
  simp only [transform?, numbers?, bind, ← hfilter, Option.bind_assoc]

theorem length_transform {document : Node} {keys : SourceKeys} {values : List Binary64}
    (h : document.Has keys .transform values) : values.length = 16 := by
  obtain ⟨child, array, -, -, -, hlength⟩ := h
  exact hlength

theorem isNone_matrix (document : Node) (keys : SourceKeys) :
    ((document.numbers? keys .transform).bind toMatrix?).isNone =
      (document.numbers? keys .transform).isNone := by
  cases h : document.numbers? keys .transform with
  | none => rfl
  | some values =>
      obtain ⟨matrix, hmatrix⟩ := exists_matrix (length_transform (numbers?_eq_some.mp h))
      rw [Option.bind_some, hmatrix]
      rfl

end Node

def MissingArray.order : List MissingArray :=
  [positions, normals, coordinates, indices, transform]

/-- Whether a document without an array has no model. -/
def Requirements.asks (required : Requirements) : MissingArray → Bool
  | .coordinates => required.coordinates
  | .transform => required.transform
  | _ => true

namespace Node

def lacks (document : Node) (keys : SourceKeys) (required : Requirements) (array : MissingArray) :
    Bool :=
  required.asks array && (document.numbers? keys array).isNone

/-- The model made of the arrays that are there. -/
def assembled (document : Node) (keys : SourceKeys) : Model where
  positions := triples ((document.numbers? keys .positions).getD [])
  normals := triples ((document.numbers? keys .normals).getD [])
  coordinates := coordinatePairs ((document.numbers? keys .coordinates).getD [])
  indices := ((document.numbers? keys .indices).getD []).map toIndex
  ownTransform := (document.numbers? keys .transform).bind toMatrix?

theorem model_eq (document : Node) (keys : SourceKeys) (required : Requirements) :
    document.model keys required =
      match MissingArray.order.find? (document.lacks keys required) with
      | some array => .error array
      | none => .ok (document.assembled keys) := by
  have hpositions : document.positions? keys.position =
      (document.numbers? keys .positions).map triples := rfl
  have hnormals : document.normals? keys.normal =
      (document.numbers? keys .normals).map triples := rfl
  have hcoordinates : document.coordinates? keys.coordinates =
      (document.numbers? keys .coordinates).map coordinatePairs := rfl
  simp only [model, modelBy, bind, Except.bind, hpositions, hnormals, hcoordinates,
    document.indices?_eq keys, document.transform?_eq keys, document.isNone_matrix keys,
    MissingArray.order, List.find?_cons, lacks, Requirements.asks, assembled, Bool.true_and]
  cases document.numbers? keys .positions with
  | none => rfl
  | some positions =>
      cases document.numbers? keys .normals with
      | none => rfl
      | some normals =>
          cases required.coordinates <;> cases document.numbers? keys .coordinates <;>
            cases document.numbers? keys .indices <;>
            cases required.transform <;> cases document.numbers? keys .transform <;> rfl

theorem lacks_iff {document : Node} {keys : SourceKeys} {required : Requirements}
    {array : MissingArray} : document.lacks keys required array = true ↔
      required.asks array = true ∧ ∀ values, ¬ document.Has keys array values := by
  rw [lacks, Bool.and_eq_true, Option.isNone_iff_eq_none, numbers?_eq_none]

theorem not_lacks_iff {document : Node} {keys : SourceKeys} {required : Requirements}
    {array : MissingArray} : document.lacks keys required array = false ↔
      (required.asks array = true → ∃ values, document.Has keys array values) := by
  rw [← Bool.not_eq_true, lacks_iff]
  push Not
  rfl

/-- The first of the arrays, in their order, that is asked for and not there. -/
def FirstMissing (document : Node) (keys : SourceKeys) (required : Requirements)
    (array : MissingArray) : Prop :=
  ∃ before after, MissingArray.order = before ++ array :: after ∧
    required.asks array = true ∧ (∀ values, ¬ document.Has keys array values) ∧
    ∀ earlier ∈ before, required.asks earlier = true →
      ∃ values, document.Has keys earlier values

theorem find?_lacks_eq_some {document : Node} {keys : SourceKeys} {required : Requirements}
    {array : MissingArray} :
    MissingArray.order.find? (document.lacks keys required) = some array ↔
      FirstMissing document keys required array := by
  rw [List.find?_eq_some_iff_append, lacks_iff]
  simp only [Bool.not_eq_true', not_lacks_iff]
  constructor
  · rintro ⟨⟨hasks, hmissing⟩, before, after, horder, hearlier⟩
    exact ⟨before, after, horder, hasks, hmissing, hearlier⟩
  · rintro ⟨before, after, horder, hasks, hmissing, hearlier⟩
    exact ⟨⟨hasks, hmissing⟩, before, after, horder, hearlier⟩

theorem find?_lacks_eq_none {document : Node} {keys : SourceKeys} {required : Requirements} :
    MissingArray.order.find? (document.lacks keys required) = none ↔
      ∀ array, required.asks array = true → ∃ values, document.Has keys array values := by
  have hall (array : MissingArray) : array ∈ MissingArray.order := by cases array <;> decide
  simp only [List.find?_eq_none, Bool.not_eq_true, not_lacks_iff, hall, forall_const]

/-- A model that holds the arrays of a document, whole groups of numbers where they are grouped. -/
structure Describes (document : Node) (keys : SourceKeys) (required : Requirements)
    (m : Model) : Prop where
  complete : ∀ array, required.asks array = true → ∃ values, document.Has keys array values
  positions : ∃ values, document.Has keys .positions values ∧
    Grouped 3 Triple.toList values m.positions
  normals : ∃ values, document.Has keys .normals values ∧
    Grouped 3 Triple.toList values m.normals
  coordinates : (∃ values, document.Has keys .coordinates values ∧
      Grouped 2 Coordinates.toList values m.coordinates) ∨
    (∀ values, ¬ document.Has keys .coordinates values) ∧ m.coordinates = []
  indices : ∃ values, document.Has keys .indices values ∧
    m.indices = values.map fun x => ⌊min x.toRat (maxIndex : ℚ)⌋₊
  transform : (∃ values, document.Has keys .transform values ∧ m.hasTransform = true ∧
      ∀ column row : Fin 4,
        values[4 * row.val + column.val]? = some (m.transform.rows column row)) ∨
    (∀ values, ¬ document.Has keys .transform values) ∧ m.hasTransform = false ∧
      m.transform = .identity

section

variable {document : Node} {keys : SourceKeys} {values : List Binary64}

theorem assembled_positions (h : document.Has keys .positions values) :
    (document.assembled keys).positions = triples values := by
  rw [assembled, numbers?_eq_some.mpr h]
  rfl

theorem assembled_normals (h : document.Has keys .normals values) :
    (document.assembled keys).normals = triples values := by
  rw [assembled, numbers?_eq_some.mpr h]
  rfl

theorem assembled_coordinates (h : document.Has keys .coordinates values) :
    (document.assembled keys).coordinates = coordinatePairs values := by
  rw [assembled, numbers?_eq_some.mpr h]
  rfl

theorem assembled_coordinates_missing (h : ∀ values, ¬ document.Has keys .coordinates values) :
    (document.assembled keys).coordinates = [] := by
  rw [assembled, numbers?_eq_none.mpr h]
  rfl

theorem assembled_indices (h : document.Has keys .indices values) :
    (document.assembled keys).indices = values.map fun x => ⌊min x.toRat (maxIndex : ℚ)⌋₊ := by
  rw [assembled, numbers?_eq_some.mpr h]
  exact List.map_congr_left fun x _ => toIndex_eq x

theorem assembled_matrix (h : document.Has keys .transform values) :
    (document.assembled keys).ownTransform = toMatrix? values := by
  rw [assembled, numbers?_eq_some.mpr h]
  rfl

theorem assembled_matrix_missing (h : ∀ values, ¬ document.Has keys .transform values) :
    (document.assembled keys).ownTransform = none := by
  rw [assembled, numbers?_eq_none.mpr h]
  rfl

theorem Describes.eq_assembled {required : Requirements} {m : Model}
    (h : Describes document keys required m) : m = document.assembled keys := by
  have hpositions : m.positions = (document.assembled keys).positions := by
    obtain ⟨values, hvalues, hgroups⟩ := h.positions
    rw [assembled_positions hvalues, grouped_triples_iff.mp hgroups]
  have hnormals : m.normals = (document.assembled keys).normals := by
    obtain ⟨values, hvalues, hgroups⟩ := h.normals
    rw [assembled_normals hvalues, grouped_triples_iff.mp hgroups]
  have hcoordinates : m.coordinates = (document.assembled keys).coordinates := by
    obtain ⟨values, hvalues, hgroups⟩ | ⟨hmissing, hempty⟩ := h.coordinates
    · rw [assembled_coordinates hvalues, grouped_coordinatePairs_iff.mp hgroups]
    · rw [assembled_coordinates_missing hmissing, hempty]
  have hindices : m.indices = (document.assembled keys).indices := by
    obtain ⟨values, hvalues, hindices⟩ := h.indices
    rw [assembled_indices hvalues, hindices]
  have hmatrix : m.ownTransform = (document.assembled keys).ownTransform := by
    obtain ⟨values, hvalues, hown, hrows⟩ | ⟨hmissing, hown, -⟩ := h.transform
    · obtain ⟨matrix, hmatrix⟩ := Option.isSome_iff_exists.mp hown
      rw [Model.transform, hmatrix] at hrows
      rw [assembled_matrix hvalues, hmatrix]
      exact (toMatrix?_eq_some.mpr ⟨length_transform hvalues, hrows⟩).symm
    · rw [assembled_matrix_missing hmissing]
      exact Option.not_isSome_iff_eq_none.mp (Bool.not_eq_true _ ▸ hown)
  obtain ⟨⟨positions, normals, coordinates⟩, indices, matrix⟩ := m
  simp only at hpositions hnormals hcoordinates hindices hmatrix
  rw [hpositions, hnormals, hcoordinates, hindices, hmatrix]

theorem describes_assembled {required : Requirements}
    (hcomplete : ∀ array, required.asks array = true → ∃ values, document.Has keys array values) :
    Describes document keys required (document.assembled keys) where
  complete := hcomplete
  positions := by
    obtain ⟨values, hvalues⟩ := hcomplete .positions rfl
    exact ⟨values, hvalues, grouped_triples_iff.mpr (assembled_positions hvalues)⟩
  normals := by
    obtain ⟨values, hvalues⟩ := hcomplete .normals rfl
    exact ⟨values, hvalues, grouped_triples_iff.mpr (assembled_normals hvalues)⟩
  coordinates := by
    by_cases h : ∃ values, document.Has keys .coordinates values
    · obtain ⟨values, hvalues⟩ := h
      exact .inl ⟨values, hvalues, grouped_coordinatePairs_iff.mpr (assembled_coordinates hvalues)⟩
    · rw [not_exists] at h
      exact .inr ⟨h, assembled_coordinates_missing h⟩
  indices := by
    obtain ⟨values, hvalues⟩ := hcomplete .indices rfl
    exact ⟨values, hvalues, assembled_indices hvalues⟩
  transform := by
    by_cases h : ∃ values, document.Has keys .transform values
    · obtain ⟨values, hvalues⟩ := h
      obtain ⟨matrix, hmatrix⟩ := exists_matrix (length_transform hvalues)
      rw [Model.hasTransform, Model.transform, assembled_matrix hvalues, hmatrix]
      exact .inl ⟨values, hvalues, rfl, (toMatrix?_eq_some.mp hmatrix).2⟩
    · rw [not_exists] at h
      rw [Model.hasTransform, Model.transform, assembled_matrix_missing h]
      exact .inr ⟨h, rfl, rfl⟩

end

theorem model_eq_ok {document : Node} {keys : SourceKeys} {required : Requirements} {m : Model} :
    document.model keys required = .ok m ↔ Describes document keys required m := by
  rw [model_eq]
  constructor
  · intro h
    split at h
    · nomatch h
    · next hnone =>
        rw [← Except.ok.inj h]
        exact describes_assembled (find?_lacks_eq_none.mp hnone)
  · intro h
    rw [find?_lacks_eq_none.mpr h.complete, h.eq_assembled]

theorem model_eq_error {document : Node} {keys : SourceKeys} {required : Requirements}
    {array : MissingArray} : document.model keys required = .error array ↔
      FirstMissing document keys required array := by
  rw [model_eq, ← find?_lacks_eq_some]
  split
  · next other hother => rw [hother, Except.error.injEq, Option.some.injEq]
  · next hnone => simp [hnone]

/-- A document has a model just when it has every array that is asked for, and the model is made
of the arrays; else the first one that is not there is named. -/
theorem model_extracted (document : Node) (keys : SourceKeys) (required : Requirements) :
    (∀ m, document.model keys required = .ok m ↔ Describes document keys required m) ∧
      (∀ array, document.model keys required = .error array ↔
        FirstMissing document keys required array) ∧
      ((∃ array, document.model keys required = .error array) ↔
        ∃ array, required.asks array = true ∧ ∀ values, ¬ document.Has keys array values) := by
  refine ⟨fun _ => model_eq_ok, fun _ => model_eq_error, ?_⟩
  constructor
  · rintro ⟨array, h⟩
    obtain ⟨-, -, -, hasks, hmissing, -⟩ := model_eq_error.mp h
    exact ⟨array, hasks, hmissing⟩
  · rintro ⟨array, hasks, hmissing⟩
    cases h : document.model keys required with
    | error first => exact ⟨first, rfl⟩
    | ok m =>
        obtain ⟨values, hvalues⟩ := (model_eq_ok.mp h).complete array hasks
        exact (hmissing values hvalues).elim

example : MissingArray.order.map MissingArray.name =
    ["positions", "normals", "tex_coords", "indices", "transform"] := rfl

end Node

end MeshMarkup
