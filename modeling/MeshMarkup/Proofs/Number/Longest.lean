import Mathlib.Logic.ExistsUnique
import MeshMarkup.Proofs.Number.Literal

namespace MeshMarkup

/-- A reader of literals that reads each of their texts as a whole, and never stops before the end
of a literal that the text starts with. -/
structure ReadsGreedily {Literal : Type} (read? : List Char → Option Literal)
    (text : Literal → List Char) (WellFormed : Literal → Prop) : Prop where
  sound {t : List Char} {l : Literal} : read? t = some l → WellFormed l ∧ text l <+: t
  whole {l : Literal} : WellFormed l → read? (text l) = some l
  greedy {l : Literal} : WellFormed l → ∀ rest,
    ∃ r, read? (text l ++ rest) = some r ∧ (text l).length ≤ (text r).length

theorem ReadsGreedily.read?_eq_some {Literal : Type} {read? : List Char → Option Literal}
    {text : Literal → List Char} {WellFormed : Literal → Prop}
    (h : ReadsGreedily read? text WellFormed) {t : List Char} {l : Literal} :
    read? t = some l ↔ WellFormed l ∧ text l <+: t ∧
      ∀ r, WellFormed r → text r <+: t → (text r).length ≤ (text l).length := by
  have hlong {l r : Literal} (hl : read? t = some l) (hr : WellFormed r) (hstarts : text r <+: t) :
      (text r).length ≤ (text l).length := by
    obtain ⟨rest, rfl⟩ := hstarts
    obtain ⟨l', hl', hle⟩ := h.greedy hr rest
    rwa [Option.some.inj (hl.symm.trans hl')]
  constructor
  · intro hl
    obtain ⟨hwf, hstarts⟩ := h.sound hl
    exact ⟨hwf, hstarts, fun r hr => hlong hl hr⟩
  · rintro ⟨hwf, hstarts, hlongest⟩
    obtain ⟨r, hr⟩ : ∃ r, read? t = some r := by
      obtain ⟨rest, rfl⟩ := hstarts
      obtain ⟨r, hr, -⟩ := h.greedy hwf rest
      exact ⟨r, hr⟩
    obtain ⟨hrwf, hrstarts⟩ := h.sound hr
    have hlength : (text r).length = (text l).length :=
      Nat.le_antisymm (hlongest r hrwf hrstarts) (hlong hr hwf hstarts)
    have htext : text r = text l :=
      (List.prefix_of_prefix_length_le hrstarts hstarts (Nat.le_of_eq hlength)).eq_of_length hlength
    have hwhole := h.whole hrwf
    rw [htext, h.whole hwf] at hwhole
    rw [hr, hwhole]

theorem IntegerLiteral.exists_read? {l : IntegerLiteral} (h : l.WellFormed) (rest : List Char) :
    ∃ r, read? (l.text ++ rest) = some r ∧ l.length ≤ r.length := by
  have hbody := digitRun_append_of h.digits rest
  rw [text, withSign_append, read?, splitMinus_withSign (digits_append_ne_minus h.digits_ne h.digits _)]
  simp only [hbody]
  split
  · next hnil => exact absurd (List.append_eq_nil_iff.mp hnil).1 h.digits_ne
  · refine ⟨_, rfl, ?_⟩
    simp only [length, List.length_append]
    omega

namespace IntegerLiteral

theorem readsGreedily : ReadsGreedily read? text WellFormed where
  sound h := by
    obtain ⟨hl, rest, hrest, -⟩ := text_of_read? h
    exact ⟨hl, rest, hrest.symm⟩
  whole h := by simpa using read?_text h terminates_nil.noDigit
  greedy h rest := by
    simpa only [length_text] using exists_read? h rest

structure Longest (l : IntegerLiteral) (text : List Char) : Prop where
  wellFormed : l.WellFormed
  starts : l.text <+: text
  longest : ∀ r : IntegerLiteral, r.WellFormed → r.text <+: text →
    r.text.length ≤ l.text.length

theorem longest_iff {l : IntegerLiteral} {text : List Char} :
    Longest l text ↔ read? text = some l := by
  rw [readsGreedily.read?_eq_some]
  exact ⟨fun h => ⟨h.wellFormed, h.starts, h.longest⟩, fun ⟨h, hstarts, hlong⟩ => ⟨h, hstarts, hlong⟩⟩

end IntegerLiteral

theorem DecimalLiteral.exists_read? {l : DecimalLiteral} (h : l.WellFormed) (rest : List Char) :
    ∃ r, read? (l.text ++ rest) = some r ∧ l.length ≤ r.length := by
  rw [text, length]
  cases hf : l.fraction with
  | nil =>
      have hrun := digitRun_append_of h.whole rest
      simp only [List.isEmpty_nil, if_true, read?, hrun]
      split
      · next hnil => exact absurd (List.append_eq_nil_iff.mp hnil).1 h.whole_ne
      · refine ⟨_, rfl, ?_⟩
        rw [length]
        split <;> simp only [List.length_append] <;> omega
  | cons c fraction =>
      have hdigits : Digits (c :: fraction) := hf ▸ h.fraction
      have hfraction : readFraction ('.' :: (c :: fraction ++ rest)) =
          c :: fraction ++ digitRun rest := digitRun_append_of hdigits rest
      have hrun : digitRun (l.whole ++ '.' :: (c :: fraction ++ rest)) = l.whole :=
        digitRun_append h.whole (noDigit_cons.mpr (by decide))
      simp only [List.isEmpty_cons, Bool.false_eq_true, if_false, List.append_assoc, read?,
        List.cons_append] at hrun hfraction ⊢
      rw [hrun]
      split
      · exact absurd ‹_› h.whole_ne
      · refine ⟨_, rfl, ?_⟩
        rw [List.drop_left, hfraction, length]
        simp only [List.isEmpty_cons, Bool.false_eq_true, if_false, List.length_cons,
          List.length_append]
        omega

namespace ScientificLiteral

theorem exists_read? {l : ScientificLiteral} (h : l.WellFormed) (rest : List Char) :
    ∃ r, read? (l.text ++ rest) = some r ∧ l.length ≤ r.length := by
  rw [text, withSign_append, List.append_assoc, read?,
    splitMinus_withSign (mantissa_append_ne_minus h.mantissa _)]
  cases he : l.exponent with
  | none =>
      obtain ⟨m, hm, hle⟩ := DecimalLiteral.exists_read? h.mantissa rest
      refine ⟨_, by simp only [exponentText, List.nil_append, hm]; rfl, ?_⟩
      simp only [length, he, exponentLength]
      omega
  | some e =>
      have hm : DecimalLiteral.read? (l.mantissa.text ++ (exponentText (some e) ++ rest)) =
          some l.mantissa := DecimalLiteral.read?_text h.mantissa (by simp [exponentText])
      obtain ⟨r, hr, hle⟩ := IntegerLiteral.exists_read? (h.exponent e he) rest
      have hexp : readExponent? (exponentText (some e) ++ rest) = some r := hr
      simp only [hm, ← DecimalLiteral.length_text, List.drop_left, hexp]
      refine ⟨_, rfl, ?_⟩
      simp only [length, he, exponentLength]
      omega

structure Longest (l : ScientificLiteral) (text : List Char) : Prop where
  wellFormed : l.WellFormed
  starts : l.text <+: text
  longest : ∀ r : ScientificLiteral, r.WellFormed → r.text <+: text →
    r.text.length ≤ l.text.length

theorem readsGreedily : ReadsGreedily read? text WellFormed where
  sound h := by
    obtain ⟨hl, rest, hrest⟩ := text_of_read? h
    exact ⟨hl, rest, hrest.symm⟩
  whole h := by simpa using read?_text h terminates_nil
  greedy h rest := by
    simpa only [length_text] using exists_read? h rest

theorem longest_iff {l : ScientificLiteral} {text : List Char} :
    Longest l text ↔ read? text = some l := by
  rw [readsGreedily.read?_eq_some]
  exact ⟨fun h => ⟨h.wellFormed, h.starts, h.longest⟩, fun ⟨h, hstarts, hlong⟩ => ⟨h, hstarts, hlong⟩⟩

theorem longest_of_read? {l : ScientificLiteral} {text : List Char} (h : read? text = some l) :
    Longest l text :=
  longest_iff.mpr h

theorem longest_text {l : ScientificLiteral} (h : l.WellFormed) : l.Longest l.text :=
  longest_of_read? (readsGreedily.whole h)

end ScientificLiteral

def StartsNumber (text : List Char) : Prop :=
  ∃ negative c rest, c.isDigit = true ∧ text = Numeral.withSign negative (c :: rest)

theorem digitRun_ne_nil {text : List Char} :
    digitRun (splitMinus text).2 ≠ [] ↔ StartsNumber text := by
  constructor
  · intro hne
    obtain ⟨c, run, hc⟩ := List.exists_cons_of_ne_nil hne
    obtain ⟨rest, hsplit, -⟩ := digitRun_prefix (splitMinus text).2
    rw [hc] at hsplit
    refine ⟨(splitMinus text).1, c, run ++ rest, ?_, ?_⟩
    · exact digits_digitRun _ c (hc ▸ List.mem_cons_self)
    · rw [← List.cons_append, ← hsplit, withSign_splitMinus]
  · rintro ⟨negative, c, rest, hc, rfl⟩
    have hne : ∀ u, c :: rest ≠ '-' :: u := fun u he =>
      ne_of_isDigit hc (by decide) (List.cons.inj he).1
    rw [splitMinus_withSign hne]
    simp [digitRun, hc]

theorem IntegerLiteral.read?_eq_none {text : List Char} :
    read? text = none ↔ ¬ StartsNumber text := by
  rw [← digitRun_ne_nil, Decidable.not_not, read?]
  dsimp only
  cases digitRun (splitMinus text).2 <;> simp

theorem IntegerLiteral.existsUnique_longest {text : List Char} :
    (∃! l : IntegerLiteral, l.Longest text) ↔ StartsNumber text := by
  have hstarts : StartsNumber text ↔ read? text ≠ none := by
    rw [ne_eq, read?_eq_none, Classical.not_not]
  simp only [hstarts, longest_iff]
  cases read? text with
  | none => simp
  | some l => simp [ExistsUnique]

theorem ScientificLiteral.read?_eq_none {text : List Char} :
    read? text = none ↔ ¬ StartsNumber text := by
  rw [← digitRun_ne_nil, Decidable.not_not, read?]
  simp only [DecimalLiteral.read?]
  cases digitRun (splitMinus text).2 <;> simp

end MeshMarkup
