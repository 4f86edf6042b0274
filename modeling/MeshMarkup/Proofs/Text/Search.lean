import Mathlib.Order.Bounds.Basic
import MeshMarkup.Text.Search

namespace MeshMarkup.Text

/-- One of the literals stands in a text at an offset. The empty literal stands everywhere. -/
def StandsAt (literals : List (List Char)) (text : List Char) (offset : Nat) : Prop :=
  offset ≤ text.length ∧ ∃ l ∈ literals, l <+: text.drop offset

variable {l : List Char} {ls : List (List Char)} {text : List Char}

theorem standsAt_zero : StandsAt ls text 0 ↔ ∃ l ∈ ls, l <+: text := by
  simp [StandsAt]

theorem standsAt_succ {c : Char} {n : Nat} :
    StandsAt ls (c :: text) (n + 1) ↔ StandsAt ls text n := by
  simp [StandsAt]

theorem standsAt_cons {n : Nat} :
    StandsAt (l :: ls) text n ↔ StandsAt [l] text n ∨ StandsAt ls text n := by
  simp [StandsAt, and_or_left]

theorem setOf_standsAt_cons : {n | StandsAt (l :: ls) text n} =
    {n | StandsAt [l] text n} ∪ {n | StandsAt ls text n} :=
  Set.ext fun _ => standsAt_cons

theorem findFrom_eq (l : List Char) (start : Nat) (text : List Char) :
    findFrom l start text = (find? l text).map (start + ·) := by
  induction text generalizing start with
  | nil => simp only [find?, findFrom]; split <;> simp
  | cons c text ih =>
      simp only [find?, findFrom]
      split
      · simp
      · rw [ih, ih 1]
        cases find? l text <;> simp [Nat.add_assoc]

theorem StandsAt.isLeast_zero (h : StandsAt ls text 0) : IsLeast {n | StandsAt ls text n} 0 :=
  ⟨h, fun n _ => Nat.zero_le n⟩

theorem isLeast_standsAt_cons {c : Char} {n : Nat} (hfront : ¬ StandsAt ls (c :: text) 0)
    (h : IsLeast {n | StandsAt ls text n} n) : IsLeast {n | StandsAt ls (c :: text) n} (n + 1) := by
  refine ⟨standsAt_succ.mpr h.1, fun m hm => ?_⟩
  cases m with
  | zero => exact absurd hm hfront
  | succ m => exact Nat.succ_le_succ (h.2 (standsAt_succ.mp hm))

theorem standsAt_front : startsWith l text = true ↔ StandsAt [l] text 0 := by
  rw [standsAt_zero, startsWith, List.isPrefixOf_iff_prefix]
  simp

theorem isLeast_of_find? {n : Nat} (h : find? l text = some n) :
    IsLeast {n | StandsAt [l] text n} n := by
  induction text generalizing n with
  | nil =>
      rw [find?, findFrom] at h
      split at h
      · next hempty =>
          obtain rfl := Option.some.inj h
          exact (standsAt_front.mp (by simp [startsWith, List.isEmpty_iff.mp hempty])).isLeast_zero
      · cases h
  | cons c text ih =>
      rw [find?, findFrom] at h
      split at h
      · next hfront =>
          obtain rfl := Option.some.inj h
          exact (standsAt_front.mp hfront).isLeast_zero
      · next hfront =>
          rw [findFrom_eq, Option.map_eq_some_iff] at h
          obtain ⟨m, hm, rfl⟩ := h
          rw [Nat.zero_add, Nat.add_comm]
          exact isLeast_standsAt_cons (fun hstands => hfront (standsAt_front.mpr hstands)) (ih hm)

theorem not_standsAt_of_find? (h : find? l text = none) (n : Nat) : ¬ StandsAt [l] text n := by
  induction text generalizing n with
  | nil =>
      rw [find?, findFrom] at h
      split at h
      · cases h
      · next hempty =>
          rintro ⟨-, k, hk, hprefix⟩
          obtain rfl := List.mem_singleton.mp hk
          rw [List.drop_nil, List.prefix_nil] at hprefix
          exact hempty (List.isEmpty_iff.mpr hprefix)
  | cons c text ih =>
      rw [find?, findFrom] at h
      split at h
      · cases h
      · next hfront =>
          rw [findFrom_eq, Option.map_eq_none_iff] at h
          cases n with
          | zero => exact fun hstands => hfront (standsAt_front.mpr hstands)
          | succ n => exact fun hstands => ih h n (standsAt_succ.mp hstands)

theorem foldl_find?_eq (ls : List (List Char)) (text : List Char) (nearest : Option Nat) :
    ls.foldl (fun nearest l => nearest.merge min (find? l text)) nearest =
      nearest.merge min (findAny? ls text) := by
  induction ls generalizing nearest with
  | nil => rw [List.foldl_nil, findAny?, List.foldl_nil, Option.merge_none_right]
  | cons l ls ih =>
      have hall : findAny? (l :: ls) text = (find? l text).merge min (findAny? ls text) := by
        rw [findAny?, List.foldl_cons, ih, Option.merge_none_left]
      rw [List.foldl_cons, ih, hall]
      exact Std.Associative.assoc nearest (find? l text) (findAny? ls text)

theorem findAny?_nil (text : List Char) : findAny? [] text = none := rfl

theorem findAny?_cons (l : List Char) :
    findAny? (l :: ls) text = (find? l text).merge min (findAny? ls text) := by
  rw [findAny?, List.foldl_cons, foldl_find?_eq, Option.merge_none_left]

theorem findAny?_singleton (l text : List Char) : findAny? [l] text = find? l text := by
  rw [findAny?_cons, findAny?_nil, Option.merge_none_right]

theorem not_standsAt_of_findAny? (h : findAny? ls text = none) (n : Nat) :
    ¬ StandsAt ls text n := by
  induction ls with
  | nil => simp [StandsAt]
  | cons l ls ih =>
      rw [findAny?_cons, Option.merge_eq_none_iff] at h
      rw [standsAt_cons, not_or]
      exact ⟨not_standsAt_of_find? h.1 n, ih h.2⟩

/-- The loop keeps the least of the places seen so far. -/
theorem isLeast_of_findAny? {n : Nat} (h : findAny? ls text = some n) :
    IsLeast {n | StandsAt ls text n} n := by
  induction ls generalizing n with
  | nil => cases h
  | cons l ls ih =>
      rw [findAny?_cons] at h
      rw [setOf_standsAt_cons]
      cases hl : find? l text with
      | none =>
          have hempty : {n | StandsAt [l] text n} = ∅ :=
            Set.eq_empty_iff_forall_notMem.mpr (not_standsAt_of_find? hl)
          rw [hl, Option.merge_none_left] at h
          rw [hempty, Set.empty_union]
          exact ih h
      | some m =>
          have hm := isLeast_of_find? hl
          cases hls : findAny? ls text with
          | none =>
              have hempty : {n | StandsAt ls text n} = ∅ :=
                Set.eq_empty_iff_forall_notMem.mpr (not_standsAt_of_findAny? hls)
              rw [hl, hls, Option.merge_none_right] at h
              obtain rfl := Option.some.inj h
              rw [hempty, Set.union_empty]
              exact hm
          | some k =>
              rw [hl, hls, Option.merge_some_some] at h
              obtain rfl := Option.some.inj h
              exact hm.union (ih hls)

theorem findAny?_eq_some {n : Nat} :
    findAny? ls text = some n ↔ IsLeast {n | StandsAt ls text n} n := by
  refine ⟨isLeast_of_findAny?, fun h => ?_⟩
  obtain ⟨m, hm⟩ := Option.ne_none_iff_exists'.mp fun hnone => not_standsAt_of_findAny? hnone n h.1
  rw [hm, (isLeast_of_findAny? hm).unique h]

theorem findAny?_eq_none : findAny? ls text = none ↔ ∀ n, ¬ StandsAt ls text n := by
  refine ⟨not_standsAt_of_findAny?, fun h => ?_⟩
  exact Option.eq_none_iff_forall_ne_some.mpr fun n hn => h n (isLeast_of_findAny? hn).1

theorem findAny?_le {n : Nat} (h : findAny? ls text = some n) : n ≤ text.length :=
  (findAny?_eq_some.mp h).1.1

theorem find?_le {n : Nat} (h : find? l text = some n) : n ≤ text.length :=
  (isLeast_of_find? h).1.1

theorem findAny?_congr {others : List (List Char)} (h : ∀ l, l ∈ others ↔ l ∈ ls) :
    findAny? others text = findAny? ls text := by
  have hstands : StandsAt others text = StandsAt ls text := by
    funext n
    simp only [StandsAt, h]
  ext n
  rw [findAny?_eq_some, findAny?_eq_some, hstands]

theorem exists_standsAt : (∃ n, StandsAt [l] text n) ↔ l <:+: text := by
  constructor
  · rintro ⟨n, -, k, hk, hprefix⟩
    obtain rfl := List.mem_singleton.mp hk
    exact hprefix.isInfix.trans (List.drop_suffix n text).isInfix
  · rintro ⟨before, after, rfl⟩
    refine ⟨before.length, by simp, l, List.mem_singleton_self l, ?_⟩
    rw [List.append_assoc, List.drop_left]
    exact List.prefix_append l after

theorem contains_iff : contains l text = true ↔ l <:+: text := by
  rw [contains, ← exists_standsAt]
  cases h : find? l text with
  | none => simpa using not_standsAt_of_find? h
  | some n => exact iff_of_true rfl ⟨n, (isLeast_of_find? h).1⟩

end MeshMarkup.Text
