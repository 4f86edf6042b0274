import MeshMarkup.Mesh.Packing
import Mathlib.Data.Set.Card

namespace MeshMarkup

namespace MeshArrays

variable {α β : Type}

def CornerAt (indices : List Int) (k : Nat) (corner : Corner) : Prop :=
  indices[3 * k]? = some corner.1 ∧ indices[3 * k + 1]? = some corner.2.1 ∧
    indices[3 * k + 2]? = some corner.2.2

def cornerSet (indices : List Int) : Set Corner := {corner | ∃ k, CornerAt indices k corner}

theorem length_lt_of_no_corner {indices : List Int}
    (h : ∀ a b c rest, indices = a :: b :: c :: rest → False) : indices.length < 3 := by
  match indices with
  | [] | [_] | [_, _] => simp
  | a :: b :: c :: rest => exact (h a b c rest rfl).elim

theorem length_corners (indices : List Int) :
    (corners indices).length = indices.length / 3 := by
  fun_induction corners indices with
  | case1 a b c rest ih => simp only [List.length_cons, ih]; omega
  | case2 indices h =>
      have hlen := length_lt_of_no_corner h
      rw [List.length_nil]
      omega

theorem cornerAt_succ {a b c : Int} {rest : List Int} {k : Nat} {corner : Corner} :
    CornerAt (a :: b :: c :: rest) (k + 1) corner ↔ CornerAt rest k corner := by
  simp [CornerAt, Nat.mul_succ]

theorem getElem?_corners {indices : List Int} {k : Nat} {corner : Corner} :
    (corners indices)[k]? = some corner ↔ CornerAt indices k corner := by
  fun_induction corners indices generalizing k with
  | case1 a b c rest ih =>
      cases k with
      | zero => simp [CornerAt, Prod.ext_iff]
      | succ k => rw [List.getElem?_cons_succ, ih, cornerAt_succ]
  | case2 indices h =>
      have hlen := length_lt_of_no_corner h
      simp only [List.getElem?_nil, reduceCtorEq, false_iff]
      rintro ⟨-, -, hc⟩
      obtain ⟨hk, -⟩ := List.getElem?_eq_some_iff.mp hc
      omega

theorem mem_corners {indices : List Int} {corner : Corner} :
    corner ∈ corners indices ↔ ∃ k, CornerAt indices k corner := by
  simp only [List.mem_iff_getElem?, getElem?_corners]

theorem corners_flatMap (values : List α) (corner : α → Corner) :
    corners (values.flatMap fun a => [(corner a).1, (corner a).2.1, (corner a).2.2]) =
      values.map corner := by
  induction values with
  | nil => rfl
  | cons a values ih => simpa [corners] using ih

theorem ncard_cornerSet (indices : List Int) :
    (cornerSet indices).ncard = (corners indices).toFinset.card := by
  rw [← Set.ncard_coe_finset]
  congr 1
  ext corner
  simp [cornerSet, mem_corners]

/-- An index that names an entry of an array. -/
def Names (entries : List α) (index : Int) (a : α) : Prop :=
  0 ≤ index ∧ entries[index.toNat]? = some a

/-- An index that names no entry of an array. -/
def Dangles (entries : List α) (index : Int) : Prop := index < 0 ∨ entries.length ≤ index

structure Resolves (m : MeshArrays) (corner : Corner) (v : Vertex) : Prop where
  position : Names m.positions corner.1 v.position
  normal : Names m.normals corner.2.1 v.normal
  coordinates : Names m.coordinates corner.2.2 v.coordinates

def Unresolved (m : MeshArrays) (corner : Corner) : Prop :=
  Dangles m.positions corner.1 ∨ Dangles m.normals corner.2.1 ∨ Dangles m.coordinates corner.2.2

theorem entry?_eq_some {entries : List α} {index : Int} {a : α} :
    entry? entries.toArray index = some a ↔ Names entries index a := by
  by_cases h : index < 0
  · simp [Names, entry?, h]
  · simp [Names, entry?, h, Int.not_lt.mp h]

theorem entry?_eq_none {entries : List α} {index : Int} :
    entry? entries.toArray index = none ↔ Dangles entries index := by
  by_cases h : index < 0
  · simp [Dangles, entry?, h]
  · simp only [Dangles, entry?, h, if_false, false_or, List.getElem?_toArray,
      List.getElem?_eq_none_iff]
    omega

theorem vertex?_eq_some {m : MeshArrays} {corner : Corner} {v : Vertex} :
    m.table.vertex? corner = some v ↔ m.Resolves corner v := by
  simp only [Table.vertex?, table, Option.bind_eq_bind, Option.bind_eq_some_iff, Option.pure_def,
    entry?_eq_some, Option.some.injEq]
  constructor
  · rintro ⟨p, hp, n, hn, c, hc, rfl⟩
    exact ⟨hp, hn, hc⟩
  · rintro ⟨hp, hn, hc⟩
    exact ⟨_, hp, _, hn, _, hc, rfl⟩

theorem vertex?_eq_none {m : MeshArrays} {corner : Corner} :
    m.table.vertex? corner = none ↔ m.Unresolved corner := by
  simp only [Unresolved, ← entry?_eq_none, Table.vertex?, table]
  cases entry? m.positions.toArray corner.1 <;> cases entry? m.normals.toArray corner.2.1 <;>
    cases entry? m.coordinates.toArray corner.2.2 <;> simp

theorem mapM_eq_some {f : α → Option β} {as : List α} {bs : List β} :
    as.mapM f = some bs ↔ as.map f = bs.map some := by
  induction as generalizing bs with
  | nil => cases bs <;> simp
  | cons a as ih =>
      rw [List.mapM_cons]
      simp only [Option.bind_eq_bind, Option.bind_eq_some_iff, Option.pure_def, Option.some.injEq]
      constructor
      · rintro ⟨b, hb, cs, hcs, rfl⟩
        rw [List.map_cons, hb, ih.mp hcs, List.map_cons]
      · intro h
        cases bs with
        | nil => exact absurd h (by simp)
        | cons b bs =>
            obtain ⟨hb, hbs⟩ := List.cons.inj h
            exact ⟨b, hb, bs, ih.mpr hbs, rfl⟩

theorem mapM_eq_none {f : α → Option β} {as : List α} :
    as.mapM f = none ↔ ∃ a ∈ as, f a = none := by
  induction as with
  | nil => simp
  | cons a as ih =>
      rw [List.mapM_cons, List.exists_mem_cons_iff, ← ih]
      cases f a with
      | none => simp
      | some b => cases as.mapM f <;> simp

theorem vertices?_eq_none {m : MeshArrays} {indices : List Int} : m.vertices? indices = none ↔
    ∃ k corner, CornerAt indices k corner ∧ m.Unresolved corner := by
  rw [vertices?, mapM_eq_none]
  simp only [mem_corners, vertex?_eq_none]
  constructor
  · rintro ⟨corner, ⟨k, hk⟩, h⟩
    exact ⟨k, corner, hk, h⟩
  · rintro ⟨k, corner, hk, h⟩
    exact ⟨corner, ⟨k, hk⟩, h⟩

theorem vertices?_eq_some {m : MeshArrays} {indices : List Int} {vs : List Vertex} :
    m.vertices? indices = some vs ↔ (corners indices).map m.table.vertex? = vs.map some :=
  mapM_eq_some

theorem vertices?_eq_some_iff {m : MeshArrays} {indices : List Int} {vs : List Vertex} :
    m.vertices? indices = some vs ↔ vs.length = indices.length / 3 ∧
      ∀ k v, vs[k]? = some v → ∃ corner, CornerAt indices k corner ∧ m.Resolves corner v := by
  rw [vertices?_eq_some, ← length_corners]
  constructor
  · intro h
    have hlen := congrArg List.length h
    rw [List.length_map, List.length_map] at hlen
    refine ⟨hlen.symm, fun k v hv => ?_⟩
    have hk := congrArg (·[k]?) h
    simp only [List.getElem?_map, hv, Option.map_some, Option.map_eq_some_iff] at hk
    obtain ⟨corner, hcorner, hvertex⟩ := hk
    exact ⟨corner, getElem?_corners.mp hcorner, vertex?_eq_some.mp hvertex⟩
  · rintro ⟨hlen, h⟩
    apply List.ext_getElem?
    intro k
    rw [List.getElem?_map, List.getElem?_map]
    cases hv : vs[k]? with
    | none =>
        have hk : (corners indices)[k]? = none := by
          rw [List.getElem?_eq_none_iff] at hv ⊢
          omega
        rw [hk]
        rfl
    | some v =>
        obtain ⟨corner, hcorner, hresolves⟩ := h k v hv
        rw [getElem?_corners.mpr hcorner, Option.map_some, vertex?_eq_some.mpr hresolves,
          Option.map_some]

namespace Packed

variable {t : Table} {packed next : Packed} {corner : Corner}

/-- A corner has a slot, or it is new and becomes a vertex as long as there is room. -/
theorem add?_eq_some : packed.add? t corner = some next ↔
    (∃ slot, packed.slots[corner]? = some slot ∧
      next = { packed with indices := slot :: packed.indices }) ∨
    packed.slots[corner]? = none ∧ ∃ v, t.vertex? corner = some v ∧ packed.count ≤ maxIndex ∧
      next = ⟨packed.slots.insert corner packed.count, packed.count + 1, v :: packed.vertices,
        packed.count :: packed.indices⟩ := by
  rw [add?]
  cases packed.slots[corner]? with
  | some slot => simp [eq_comm]
  | none =>
      cases t.vertex? corner with
      | none => simp
      | some v => simp [eq_comm]

theorem add?_eq_none : packed.add? t corner = none ↔
    packed.slots[corner]? = none ∧ (t.vertex? corner = none ∨ maxIndex < packed.count) := by
  rw [add?]
  cases packed.slots[corner]? with
  | some slot => simp
  | none =>
      cases t.vertex? corner with
      | none => simp
      | some v => simp

/-- What a buffer holds after some corners: a slot for each of them that holds its vertex, no
other vertices, and indices that spell out the vertices of the corners in order. -/
structure Holds (t : Table) (seen : List Corner) (packed : Packed) : Prop where
  count : packed.vertices.length = packed.count
  distinct : packed.count = seen.toFinset.card
  fits : packed.count ≤ maxIndex + 1
  fresh : ∀ corner, packed.slots[corner]? = none ↔ corner ∉ seen
  slot : ∀ corner slot, packed.slots[corner]? = some slot →
    ∃ v, t.vertex? corner = some v ∧ packed.vertices.reverse[slot]? = some v
  bounded : ∀ index ∈ packed.indices, index < packed.count
  spells : packed.indices.reverse.map (packed.vertices.reverse[·]?) = seen.map t.vertex?

theorem holds_empty (t : Table) : Holds t [] empty where
  count := rfl
  distinct := rfl
  fits := Nat.zero_le _
  fresh corner := by simp [empty]
  slot corner slot h := by simp [empty] at h
  bounded index h := by simp [empty] at h
  spells := rfl

theorem card_append_of_mem {seen : List Corner} (h : corner ∈ seen) :
    (seen ++ [corner]).toFinset.card = seen.toFinset.card := by
  congr 1
  ext c
  simp only [List.mem_toFinset, List.mem_append, List.mem_singleton]
  constructor
  · rintro (hc | rfl)
    · exact hc
    · exact h
  · exact Or.inl

theorem card_append_of_notMem {seen : List Corner} (h : corner ∉ seen) :
    (seen ++ [corner]).toFinset.card = seen.toFinset.card + 1 := by
  rw [← Finset.card_insert_of_notMem (mt List.mem_toFinset.mp h)]
  congr 1
  ext c
  simp

section Step

variable {seen : List Corner} (h : Holds t seen packed)
include h

theorem Holds.vertex_of_mem (hc : corner ∈ seen) : t.vertex? corner ≠ none := by
  cases hs : packed.slots[corner]? with
  | none => exact absurd hc ((h.fresh corner).mp hs)
  | some slot =>
      obtain ⟨v, hv, -⟩ := h.slot corner slot hs
      simp [hv]

theorem Holds.slot_lt {slot : Nat} (hs : packed.slots[corner]? = some slot) :
    slot < packed.count := by
  obtain ⟨v, -, hslot⟩ := h.slot corner slot hs
  have hlen := (List.getElem?_eq_some_iff.mp hslot).1
  rwa [List.length_reverse, h.count] at hlen

theorem Holds.add_seen {slot : Nat} (hs : packed.slots[corner]? = some slot) :
    Holds t (seen ++ [corner]) { packed with indices := slot :: packed.indices } := by
  obtain ⟨v, hv, hslot⟩ := h.slot corner slot hs
  have hmem : corner ∈ seen := by
    refine Decidable.byContradiction fun hn => ?_
    rw [(h.fresh corner).mpr hn] at hs
    exact absurd hs (by simp)
  have hlt := h.slot_lt hs
  refine ⟨h.count, ?_, h.fits, fun c => ?_, h.slot, ?_, ?_⟩
  · rw [card_append_of_mem hmem]
    exact h.distinct
  · rw [h.fresh c, List.mem_append, List.mem_singleton]
    constructor
    · rintro hc (hc' | rfl)
      · exact hc hc'
      · exact hc hmem
    · exact fun hc hc' => hc (Or.inl hc')
  · intro index hi
    obtain rfl | hi := List.mem_cons.mp hi
    · exact hlt
    · exact h.bounded index hi
  · simp only [List.reverse_cons, List.map_append, List.map_cons, List.map_nil, h.spells, hslot, hv]

theorem Holds.add_new (hnew : packed.slots[corner]? = none) {v : Vertex}
    (hv : t.vertex? corner = some v) (hroom : packed.count ≤ maxIndex) :
    Holds t (seen ++ [corner]) ⟨packed.slots.insert corner packed.count, packed.count + 1,
      v :: packed.vertices, packed.count :: packed.indices⟩ := by
  have hkeep {n : Nat} (hn : n < packed.count) :
      (v :: packed.vertices).reverse[n]? = packed.vertices.reverse[n]? := by
    rw [List.reverse_cons, List.getElem?_append_left (by rwa [List.length_reverse, h.count])]
  have hlast : (v :: packed.vertices).reverse[packed.count]? = some v := by
    rw [List.reverse_cons, ← h.count, ← List.length_reverse, List.getElem?_concat_length]
  refine ⟨?_, ?_, Nat.succ_le_succ hroom, fun c => ?_, fun c slot hs => ?_, ?_, ?_⟩
  · rw [List.length_cons, h.count]
  · rw [card_append_of_notMem ((h.fresh corner).mp hnew), ← h.distinct]
  · rw [Std.HashMap.getElem?_insert]
    by_cases hc : corner = c
    · simp [hc]
    · simp [hc, h.fresh c, Ne.symm hc]
  · rw [Std.HashMap.getElem?_insert] at hs
    by_cases hc : corner = c
    · subst hc
      simp only [beq_self_eq_true, if_true, Option.some.injEq] at hs
      exact ⟨v, hv, hs ▸ hlast⟩
    · simp only [beq_iff_eq, hc, if_false] at hs
      obtain ⟨w, hw, hslot⟩ := h.slot c slot hs
      exact ⟨w, hw, (hkeep (h.slot_lt hs)).trans hslot⟩
  · intro index hi
    obtain rfl | hi := List.mem_cons.mp hi
    · exact Nat.lt_succ_self _
    · exact Nat.lt_succ_of_lt (h.bounded index hi)
  · have hold := List.map_congr_left fun index hi =>
      hkeep (h.bounded index (List.mem_reverse.mp hi))
    rw [List.reverse_cons (a := packed.count), List.map_append, hold, h.spells]
    simp only [List.map_cons, List.map_nil, List.map_append, hlast, hv]

theorem Holds.add (hadd : packed.add? t corner = some next) :
    Holds t (seen ++ [corner]) next := by
  obtain ⟨slot, hs, rfl⟩ | ⟨hnew, v, hv, hroom, rfl⟩ := add?_eq_some.mp hadd
  · exact h.add_seen hs
  · exact h.add_new hnew hv hroom

theorem Holds.add?_eq_none : packed.add? t corner = none ↔
    t.vertex? corner = none ∨ maxIndex + 1 < (seen ++ [corner]).toFinset.card := by
  rw [Packed.add?_eq_none, h.fresh]
  by_cases hc : corner ∈ seen
  · have hv := h.vertex_of_mem hc
    have hfits := h.fits
    rw [card_append_of_mem hc, ← h.distinct]
    simp [hc, hv, Nat.not_lt.mpr hfits]
  · rw [card_append_of_notMem hc, ← h.distinct]
    simp [hc]

end Step

theorem Holds.run {seen : List Corner} (h : Holds t seen packed) {rest : List Corner}
    (hrun : rest.foldlM (add? t) packed = some next) : Holds t (seen ++ rest) next := by
  induction rest generalizing seen packed with
  | nil =>
      obtain rfl := Option.some.inj hrun
      rwa [List.append_nil]
  | cons corner rest ih =>
      rw [List.foldlM_cons, Option.bind_eq_bind, Option.bind_eq_some_iff] at hrun
      obtain ⟨mid, hadd, hrun⟩ := hrun
      rw [← List.singleton_append, ← List.append_assoc]
      exact ih (h.add hadd) hrun

/-- Corners that come again or come after a failure make no difference: a run fails exactly when
one of its corners has no vertex, or all corners together are too many. -/
theorem Holds.run_eq_none {seen : List Corner} (h : Holds t seen packed) (rest : List Corner) :
    rest.foldlM (add? t) packed = none ↔ (∃ corner ∈ rest, t.vertex? corner = none) ∨
      maxIndex + 1 < (seen ++ rest).toFinset.card := by
  induction rest generalizing seen packed with
  | nil =>
      have hfits := h.fits
      rw [List.append_nil, ← h.distinct]
      simp [Nat.not_lt.mpr hfits]
  | cons corner rest ih =>
      rw [List.foldlM_cons, List.exists_mem_cons_iff, ← List.singleton_append, ← List.append_assoc]
      cases hadd : packed.add? t corner with
      | none =>
          refine iff_of_true rfl ?_
          obtain hv | hcard := h.add?_eq_none.mp hadd
          · exact Or.inl (Or.inl hv)
          · have hsub : (seen ++ [corner]).toFinset ⊆ (seen ++ [corner] ++ rest).toFinset := by
              intro c hc
              exact List.mem_toFinset.mpr (List.mem_append_left _ (List.mem_toFinset.mp hc))
            exact Or.inr (Nat.lt_of_lt_of_le hcard (Finset.card_le_card hsub))
      | some mid =>
          have hv : t.vertex? corner ≠ none := fun hv => by
            rw [h.add?_eq_none.mpr (Or.inl hv)] at hadd
            exact absurd hadd (by simp)
          rw [Option.bind_eq_bind, Option.bind_some, ih (h.add hadd)]
          simp [hv]

end Packed

section Indexed

variable {m : MeshArrays} {indices : List Int}

theorem indexed?_eq_none : m.indexed? indices = none ↔
    m.vertices? indices = none ∨ 2 ^ 16 < (cornerSet indices).ncard := by
  have hrun := (Packed.holds_empty m.table).run_eq_none (corners indices)
  rw [List.nil_append] at hrun
  rw [vertices?, mapM_eq_none, ncard_cornerSet, ← show maxIndex + 1 = 2 ^ 16 from rfl, ← hrun,
    indexed?]
  cases (corners indices).foldlM (Packed.add? m.table) Packed.empty <;> simp

theorem indexed?_eq_some {iv : IndexedVertices} (h : m.indexed? indices = some iv) :
    iv.vertices.length = (cornerSet indices).ncard ∧
      iv.indices.map (iv.vertices[·]?) = (corners indices).map m.table.vertex? := by
  rw [indexed?, Option.bind_eq_bind, Option.bind_eq_some_iff] at h
  obtain ⟨packed, hrun, hiv⟩ := h
  obtain rfl := Option.some.inj hiv
  have hholds := (Packed.holds_empty m.table).run hrun
  rw [List.nil_append] at hholds
  refine ⟨?_, hholds.spells⟩
  rw [List.length_reverse, hholds.count, hholds.distinct, ncard_cornerSet]

end Indexed

/-- The plain buffer resolves the corners in order and fails when one of them cannot be resolved.
The buffer without repetition fails when the plain one does or when there are more distinct corners
than sixteen bits can number; otherwise it has one vertex for each distinct corner, and its indices
spell out the plain buffer. -/
theorem indexed_spells_vertices (m : MeshArrays) (indices : List Int) :
    (m.vertices? indices = none ↔ ∃ k corner, CornerAt indices k corner ∧ m.Unresolved corner) ∧
    (∀ vs, m.vertices? indices = some vs ↔ vs.length = indices.length / 3 ∧
      ∀ k v, vs[k]? = some v → ∃ corner, CornerAt indices k corner ∧ m.Resolves corner v) ∧
    (m.indexed? indices = none ↔
      m.vertices? indices = none ∨ 2 ^ 16 < (cornerSet indices).ncard) ∧
    ∀ iv, m.indexed? indices = some iv → iv.vertices.length = (cornerSet indices).ncard ∧
      ∃ vs, m.vertices? indices = some vs ∧ iv.indices.map (iv.vertices[·]?) = vs.map some := by
  refine ⟨vertices?_eq_none, fun _ => vertices?_eq_some_iff, indexed?_eq_none, fun iv h => ?_⟩
  obtain ⟨hlen, hspells⟩ := indexed?_eq_some h
  cases hvs : m.vertices? indices with
  | none =>
      rw [indexed?_eq_none.mpr (Or.inl hvs)] at h
      exact absurd h (by simp)
  | some vs => exact ⟨hlen, vs, rfl, hspells.trans (vertices?_eq_some.mp hvs)⟩

end MeshArrays

end MeshMarkup
