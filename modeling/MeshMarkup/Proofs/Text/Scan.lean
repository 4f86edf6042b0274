import MeshMarkup.Proofs.Text.Search
import MeshMarkup.Text.Blank

namespace MeshMarkup.Text

/-- Text of white space only, which may be empty. -/
def Blank (w : List Char) : Prop := ∀ c ∈ w, isBlank c = true

/-- Text that does not start with white space. -/
def Solid (text : List Char) : Prop := ∀ c ∈ text.head?, isBlank c = false

theorem blank_nil : Blank [] := fun _ h => absurd h List.not_mem_nil

theorem blank_cons {c : Char} {w : List Char} : Blank (c :: w) ↔ isBlank c = true ∧ Blank w := by
  simp [Blank]

instance (w : List Char) : Decidable (Blank w) :=
  decidable_of_decidable_of_iff (List.all_eq_true (p := isBlank))

theorem solid_cons {c : Char} {text : List Char} : Solid (c :: text) ↔ isBlank c = false := by
  simp [Solid]

instance : (text : List Char) → Decidable (Solid text)
  | [] => isTrue (by simp [Solid])
  | _ :: _ => decidable_of_decidable_of_iff solid_cons.symm

theorem solid_angle (text : List Char) : Solid ('<' :: text) := solid_cons.mpr (by decide)

theorem Solid.append {text rest : List Char} (h : Solid text) (hne : text ≠ []) :
    Solid (text ++ rest) := by
  cases text with
  | nil => exact absurd rfl hne
  | cons c text => exact solid_cons.mpr (solid_cons.mp h)

theorem Solid.of_append {text rest : List Char} (h : Solid (text ++ rest)) : Solid text := by
  cases text with
  | nil => simp [Solid]
  | cons c text => exact solid_cons.mpr (solid_cons.mp h)

theorem dropWhile_solid {text : List Char} (h : Solid text) : text.dropWhile isBlank = text := by
  cases text with
  | nil => rfl
  | cons c text => simp [solid_cons.mp h]

theorem dropWhile_blank_append {w rest : List Char} (hw : Blank w) (hr : Solid rest) :
    (w ++ rest).dropWhile isBlank = rest := by
  rw [List.dropWhile_append_of_pos hw, dropWhile_solid hr]

theorem solid_dropWhile (text : List Char) : Solid (text.dropWhile isBlank) := by
  intro c hc
  have h := List.head?_dropWhile_not isBlank text
  rw [Option.mem_def.mp hc] at h
  simpa using h

theorem blank_takeWhile (text : List Char) : Blank (text.takeWhile isBlank) := by
  have h := List.all_takeWhile (p := isBlank) (l := text)
  rwa [List.all_eq_true] at h

def literals (cs : List Char) : List (List Char) := cs.map fun c => [c]

theorem standsAt_literals {cs text : List Char} {n : Nat} :
    StandsAt (literals cs) text n ↔ ∃ c ∈ cs, text[n]? = some c := by
  simp only [StandsAt, literals, List.mem_map, exists_exists_and_eq_and]
  constructor
  · rintro ⟨-, c, hc, u, hu⟩
    refine ⟨c, hc, ?_⟩
    have hhead := congrArg List.head? hu
    rw [List.head?_drop] at hhead
    exact hhead.symm
  · rintro ⟨c, hc, hn⟩
    obtain ⟨hlt, rfl⟩ := List.getElem?_eq_some_iff.mp hn
    refine ⟨Nat.le_of_lt hlt, _, hc, text.drop (n + 1), ?_⟩
    rw [List.drop_eq_getElem_cons hlt, List.singleton_append]

theorem findAny?_absent {cs text : List Char} (h : ∀ c ∈ text, c ∉ cs) :
    findAny? (literals cs) text = none := by
  refine findAny?_eq_none.mpr fun n hn => ?_
  obtain ⟨c, hc, hget⟩ := standsAt_literals.mp hn
  exact h c (List.mem_of_getElem? hget) hc

theorem findAny?_first {cs w : List Char} {c : Char} {rest : List Char}
    (hw : ∀ d ∈ w, d ∉ cs) (hc : c ∈ cs) :
    findAny? (literals cs) (w ++ c :: rest) = some w.length := by
  refine findAny?_eq_some.mpr ⟨standsAt_literals.mpr ⟨c, hc, by simp⟩, fun n hn => ?_⟩
  obtain ⟨d, hd, hget⟩ := standsAt_literals.mp hn
  by_contra hlt
  rw [List.getElem?_append_left (Nat.lt_of_not_le hlt)] at hget
  exact hw d (List.mem_of_getElem? hget) hd

theorem absent_or_first (cs text : List Char) :
    (∀ c ∈ text, c ∉ cs) ∨
      ∃ w c rest, text = w ++ c :: rest ∧ (∀ d ∈ w, d ∉ cs) ∧ c ∈ cs := by
  cases h : text.find? (fun c => decide (c ∈ cs)) with
  | none => exact Or.inl (by simpa using h)
  | some c =>
      obtain ⟨hc, w, rest, rfl, hw⟩ := List.find?_eq_some_iff_append.mp h
      exact Or.inr ⟨w, c, rest, rfl, by simpa using hw, by simpa using hc⟩

/-- There is a text of so many blanks, where no text is longer than `memory`. -/
def HasBlanks (memory : Nat) (n : Int) : Prop :=
  -lengthBound ≤ n ∧ n < lengthBound ∧ n.toNat ≤ memory

theorem blankCount_eq_ok {memory count : Nat} {n : Int} :
    blankCount memory n = .ok count ↔ HasBlanks memory n ∧ n.toNat = count := by
  rw [blankCount, HasBlanks]
  split
  · next hout =>
      simp only [reduceCtorEq, false_iff, not_and]
      rintro ⟨hlow, hhigh, -⟩
      omega
  · split
    · simp only [reduceCtorEq, false_iff, not_and]
      rintro ⟨-, -, hfits⟩
      omega
    · simp only [Except.ok.injEq, iff_and_self]
      omega

end MeshMarkup.Text
