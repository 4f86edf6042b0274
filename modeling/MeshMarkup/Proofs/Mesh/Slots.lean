import MeshMarkup.Proofs.Mesh.Packing

namespace MeshMarkup.MeshArrays

/-- The slot to be numbered next: one more than the largest one before, and 0 at the start. -/
def nextSlot (used : List Nat) : Nat := (used.max?.map (· + 1)).getD 0

/-- No index skips a slot that has not been used before it. -/
def NumberedByUse (indices : List Nat) : Prop :=
  ∀ k slot, indices[k]? = some slot → slot ≤ nextSlot (indices.take k)

theorem nextSlot_of_all {used : List Nat} {n : Nat} (h : ∀ slot, slot ∈ used ↔ slot < n) :
    nextSlot used = n := by
  rw [nextSlot]
  cases hm : used.max? with
  | none =>
      obtain rfl := List.max?_eq_none_iff.mp hm
      have hn : ¬ 0 < n := fun hn => List.not_mem_nil ((h 0).mpr hn)
      simp only [Option.map_none, Option.getD_none]
      omega
  | some m =>
      obtain ⟨hmem, hle⟩ := List.max?_eq_some_iff.mp hm
      have hlt : m < n := (h m).mp hmem
      have hlast : n - 1 ≤ m := hle (n - 1) ((h (n - 1)).mpr (by omega))
      simp only [Option.map_some, Option.getD_some]
      omega

theorem numberedByUse_concat {indices : List Nat} {slot : Nat} (h : NumberedByUse indices)
    (hslot : slot ≤ nextSlot indices) : NumberedByUse (indices ++ [slot]) := by
  intro k s hs
  obtain hk | hk := Nat.lt_or_ge k indices.length
  · rw [List.getElem?_append_left hk] at hs
    rw [List.take_append_of_le_length (Nat.le_of_lt hk)]
    exact h k s hs
  · obtain ⟨hlast, rfl⟩ : k = indices.length ∧ slot = s := by
      rw [List.getElem?_append_right hk, List.getElem?_singleton] at hs
      split at hs
      · exact ⟨by omega, Option.some.inj hs⟩
      · simp at hs
    rwa [hlast, List.take_left]

namespace Packed

variable {t : Table} {packed next : Packed} {corner : Corner}

/-- The slots are a numbering of the corners seen: no two corners share one, every one below the
count is in use, and the indices are the slots of the corners in order. -/
structure Numbers (seen : List Corner) (packed : Packed) : Prop where
  indices : packed.indices.reverse.map some = seen.map (packed.slots[·]?)
  injective : ∀ (a b : Corner) (slot : Nat), packed.slots[a]? = some slot →
    packed.slots[b]? = some slot → a = b
  used : ∀ slot, slot ∈ packed.indices ↔ slot < packed.count
  order : NumberedByUse packed.indices.reverse

theorem numbers_empty : Numbers [] empty where
  indices := rfl
  injective a b slot h := by simp [empty] at h
  used slot := by simp [empty]
  order k slot h := by simp [empty] at h

section Step

variable {seen : List Corner} (h : Numbers seen packed)
include h

theorem Numbers.next_eq : nextSlot packed.indices.reverse = packed.count :=
  nextSlot_of_all fun slot => List.mem_reverse.trans (h.used slot)

theorem Numbers.order_cons {slot : Nat} (hslot : slot ≤ packed.count) :
    NumberedByUse (slot :: packed.indices).reverse := by
  rw [List.reverse_cons]
  exact numberedByUse_concat h.order (h.next_eq ▸ hslot)

theorem Numbers.add_seen (hh : Holds t seen packed) {slot : Nat}
    (hs : packed.slots[corner]? = some slot) :
    Numbers (seen ++ [corner]) { packed with indices := slot :: packed.indices } := by
  have hlt := hh.slot_lt hs
  refine ⟨?_, h.injective, fun s => ?_, h.order_cons (Nat.le_of_lt hlt)⟩
  · simp only [List.reverse_cons, List.map_append, List.map_cons, List.map_nil, h.indices, hs]
  · rw [List.mem_cons, h.used s]
    constructor
    · rintro (rfl | hs)
      · exact hlt
      · exact hs
    · exact Or.inr

theorem Numbers.add_new (hh : Holds t seen packed) (hnew : packed.slots[corner]? = none)
    (v : Vertex) :
    Numbers (seen ++ [corner]) ⟨packed.slots.insert corner packed.count, packed.count + 1,
      v :: packed.vertices, packed.count :: packed.indices⟩ := by
  have hcorner : corner ∉ seen := (hh.fresh corner).mp hnew
  have hkeep : seen.map ((packed.slots.insert corner packed.count)[·]?) =
      seen.map (packed.slots[·]?) := by
    refine List.map_congr_left fun c hc => ?_
    rw [Std.HashMap.getElem?_insert, if_neg]
    simp only [beq_iff_eq]
    rintro rfl
    exact hcorner hc
  have hslot {c : Corner} {slot : Nat}
      (hs : (packed.slots.insert corner packed.count)[c]? = some slot) :
      corner = c ∧ slot = packed.count ∨ packed.slots[c]? = some slot ∧ slot < packed.count := by
    rw [Std.HashMap.getElem?_insert] at hs
    split at hs
    · next hc => exact Or.inl ⟨eq_of_beq hc, (Option.some.inj hs).symm⟩
    · exact Or.inr ⟨hs, hh.slot_lt hs⟩
  refine ⟨?_, fun a b slot ha hb => ?_, fun s => ?_, h.order_cons (Nat.le_refl _)⟩
  · simp only [List.reverse_cons, List.map_append, List.map_cons, List.map_nil, h.indices, hkeep,
      Std.HashMap.getElem?_insert_self]
  · obtain ⟨rfl, ha⟩ | ⟨ha, hlt⟩ := hslot ha
    · obtain ⟨rfl, -⟩ | ⟨-, hlt⟩ := hslot hb
      · rfl
      · omega
    · obtain ⟨-, hb⟩ | ⟨hb, -⟩ := hslot hb
      · omega
      · exact h.injective a b slot ha hb
  · change s ∈ packed.count :: packed.indices ↔ s < packed.count + 1
    rw [List.mem_cons, h.used s]
    omega

theorem Numbers.add (hh : Holds t seen packed) (hadd : packed.add? t corner = some next) :
    Numbers (seen ++ [corner]) next := by
  obtain ⟨slot, hs, rfl⟩ | ⟨hnew, v, -, -, rfl⟩ := add?_eq_some.mp hadd
  · exact h.add_seen hh hs
  · exact h.add_new hh hnew v

end Step

theorem Numbers.run {seen : List Corner} (h : Numbers seen packed) (hh : Holds t seen packed)
    {rest : List Corner} (hrun : rest.foldlM (add? t) packed = some next) :
    Numbers (seen ++ rest) next := by
  induction rest generalizing seen packed with
  | nil =>
      obtain rfl := Option.some.inj hrun
      rwa [List.append_nil]
  | cons corner rest ih =>
      rw [List.foldlM_cons, Option.bind_eq_bind, Option.bind_eq_some_iff] at hrun
      obtain ⟨mid, hadd, hrun⟩ := hrun
      rw [← List.singleton_append, ← List.append_assoc]
      exact ih (h.add hh hadd) (hh.add hadd) hrun

end Packed

/-- A buffer without repetition, as it follows from the index stream: there is an index for each
corner, equal ones for equal corners only; the slots are numbered by first use, and all are used. -/
structure Canonical (indices : List Int) (iv : IndexedVertices) : Prop where
  length : iv.indices.length = indices.length / 3
  distinct : iv.vertices.length = (cornerSet indices).ncard
  fits : iv.vertices.length ≤ 2 ^ 16
  bounded : ∀ slot ∈ iv.indices, slot < iv.vertices.length
  used : ∀ slot < iv.vertices.length, slot ∈ iv.indices
  order : NumberedByUse iv.indices
  separates : ∀ j k a b, CornerAt indices j a → CornerAt indices k b →
    (iv.indices[j]? = iv.indices[k]? ↔ a = b)

section Separation

variable {packed : Packed} {seen : List Corner} (h : packed.Numbers seen)
  {j k : Nat} {a b : Corner}
include h

theorem Packed.Numbers.getElem?_indices (hk : seen[k]? = some a) :
    ∃ slot, packed.indices.reverse[k]? = some slot ∧ packed.slots[a]? = some slot := by
  have hentry := congrArg (·[k]?) h.indices
  simp only [List.getElem?_map, hk, Option.map_some] at hentry
  cases hi : packed.indices.reverse[k]? with
  | none => simp [hi] at hentry
  | some slot =>
      simp only [hi, Option.map_some, Option.some.injEq] at hentry
      exact ⟨slot, rfl, hentry.symm⟩

theorem Packed.Numbers.separates (hj : seen[j]? = some a) (hk : seen[k]? = some b) :
    packed.indices.reverse[j]? = packed.indices.reverse[k]? ↔ a = b := by
  obtain ⟨slot, hsj, ha⟩ := h.getElem?_indices hj
  obtain ⟨other, hsk, hb⟩ := h.getElem?_indices hk
  rw [hsj, hsk, Option.some.injEq]
  constructor
  · rintro rfl
    exact h.injective a b slot ha hb
  · rintro rfl
    exact Option.some.inj (ha.symm.trans hb)

end Separation

/-- Whenever there is a buffer without repetition, it is the canonical one of the index stream. -/
theorem indexed_canonical {m : MeshArrays} {indices : List Int} {iv : IndexedVertices}
    (h : m.indexed? indices = some iv) : Canonical indices iv := by
  have hcount := (indexed?_eq_some h).1
  rw [indexed?, Option.bind_eq_bind, Option.bind_eq_some_iff] at h
  obtain ⟨packed, hrun, hiv⟩ := h
  obtain rfl := Option.some.inj hiv
  have hempty := Packed.holds_empty m.table
  have hholds := hempty.run hrun
  have hnumbers := Packed.numbers_empty.run hempty hrun
  rw [List.nil_append] at hholds hnumbers
  have hlength : packed.vertices.reverse.length = packed.count := by
    rw [List.length_reverse, hholds.count]
  refine ⟨?_, hcount, ?_, fun slot hs => ?_, fun slot hs => ?_, hnumbers.order,
    fun j k a b ha hb => ?_⟩
  · have hlen := congrArg List.length hnumbers.indices
    rwa [List.length_map, List.length_map, length_corners] at hlen
  · rw [hlength]
    exact hholds.fits
  · rw [hlength]
    exact hholds.bounded slot (List.mem_reverse.mp hs)
  · rw [hlength] at hs
    exact List.mem_reverse.mpr ((hnumbers.used slot).mpr hs)
  · exact hnumbers.separates (getElem?_corners.mpr ha) (getElem?_corners.mpr hb)

theorem indexed_canonical_shared :
    let origin : Triple := ⟨.zero, .zero, .zero⟩
    let far : Triple := ⟨.infinity, .zero, .zero⟩
    let flat : Coordinates := ⟨.zero, .zero⟩
    let indices : List Int := [1, 0, 0, 0, 0, 0, 1, 0, 0, 1, 0]
    let iv : IndexedVertices := ⟨[⟨far, origin, flat⟩, ⟨origin, origin, flat⟩], [0, 1, 0]⟩
    indexed? ⟨[origin, far], [origin], [flat]⟩ indices = some iv ∧ Canonical indices iv := by
  intro origin far flat indices iv
  have h : indexed? ⟨[origin, far], [origin], [flat]⟩ indices = some iv := by
    simp [indexed?, corners, Packed.add?, Packed.empty, Table.vertex?, table, entry?, maxIndex,
      Std.HashMap.getElem_insert, indices, iv]
  exact ⟨h, indexed_canonical h⟩

end MeshMarkup.MeshArrays
