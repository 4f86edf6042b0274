import MeshMarkup.Proofs.Parser.Lexical

namespace MeshMarkup

def Digits (ds : List Char) : Prop := ∀ c ∈ ds, c.isDigit = true

instance (ds : List Char) : Decidable (Digits ds) :=
  List.decidableBAll (fun c : Char => c.isDigit = true) ds

def NoDigit (text : List Char) : Prop := ∀ c ∈ text.head?, c.isDigit = false

/-- Text that cannot continue a numeral. -/
def Terminates (text : List Char) : Prop :=
  ∀ c ∈ text.head?, c.isDigit = false ∧ c ≠ '.' ∧ c ≠ 'e'

theorem terminates_nil : Terminates [] := by simp [Terminates]

theorem Terminates.noDigit {text : List Char} (h : Terminates text) : NoDigit text :=
  fun c hc => (h c hc).1

theorem noDigit_cons {c : Char} {text : List Char} : NoDigit (c :: text) ↔ c.isDigit = false := by
  simp [NoDigit]

theorem ne_of_isDigit {c d : Char} (hc : c.isDigit = true) (hd : d.isDigit = false) : c ≠ d := by
  rintro rfl
  exact absurd hc (by simp [hd])

theorem placeValue_cons (c : Char) (ds : List Char) : Numeral.placeValue (c :: ds) =
    10 ^ ds.length * Parser.digitValue c + Numeral.placeValue ds := by
  rw [Numeral.placeValue, Nat.ofDigitChars_cons, Nat.ofDigitChars_eq_ofDigitChars_zero,
    Nat.mul_zero, Nat.zero_add, Parser.digitValue, Numeral.placeValue]

theorem isDigit_range {c : Char} (hc : c.isDigit = true) : 48 ≤ c.toNat ∧ c.toNat ≤ 57 := by
  simpa [Char.isDigit, UInt32.le_iff_toNat_le] using hc

theorem digitValue_le {c : Char} (hc : c.isDigit = true) : Parser.digitValue c ≤ 9 := by
  have hr := isDigit_range hc
  have hzero : '0'.toNat = 48 := rfl
  rw [Parser.digitValue]
  omega

theorem placeValue_lt {ds : List Char} (hd : Digits ds) :
    Numeral.placeValue ds < 10 ^ ds.length := by
  induction ds with
  | nil => decide
  | cons c ds ih =>
      have ih := ih fun d hd' => hd d (List.mem_cons_of_mem c hd')
      have hc := Nat.mul_le_mul_left (10 ^ ds.length) (digitValue_le (hd c List.mem_cons_self))
      rw [placeValue_cons, List.length_cons, Nat.pow_succ]
      omega

theorem digitRun_append_of {ds : List Char} (hd : Digits ds) (rest : List Char) :
    digitRun (ds ++ rest) = ds ++ digitRun rest := by
  rw [digitRun, List.takeWhile_append_of_pos hd, digitRun]

theorem digitRun_append {ds rest : List Char} (hd : Digits ds) (hr : NoDigit rest) :
    digitRun (ds ++ rest) = ds := by
  rw [digitRun_append_of hd]
  cases rest with
  | nil => simp [digitRun]
  | cons c rest => simp [digitRun, noDigit_cons.mp hr]

theorem digits_digitRun (text : List Char) : Digits (digitRun text) := by
  have h := List.all_takeWhile (p := Char.isDigit) (l := text)
  rwa [List.all_eq_true] at h

theorem digitRun_prefix (text : List Char) : ∃ rest, text = digitRun text ++ rest ∧ NoDigit rest := by
  refine ⟨text.dropWhile Char.isDigit, List.takeWhile_append_dropWhile.symm, ?_⟩
  intro c hc
  have h := List.head?_dropWhile_not Char.isDigit text
  rw [Option.mem_def.mp hc] at h
  simpa using h

theorem digitRun_append_stop {c : Char} (hc : c.isDigit = false) (w rest : List Char) :
    digitRun (w ++ c :: rest) = digitRun w := by
  obtain ⟨v, hv, hnv⟩ := digitRun_prefix w
  have hstop : NoDigit (v ++ c :: rest) := by
    cases v with
    | nil => exact noDigit_cons.mpr hc
    | cons d v => exact noDigit_cons.mpr (noDigit_cons.mp hnv)
  rw [hv, List.append_assoc, digitRun_append (digits_digitRun w) hstop, ← hv]

theorem splitMinus_cons {c : Char} (h : c ≠ '-') (rest : List Char) :
    splitMinus (c :: rest) = (false, c :: rest) := by
  unfold splitMinus
  split
  · next u hu => exact absurd (List.cons.inj hu).1 h
  · rfl

theorem splitMinus_withSign {negative : Bool} {body : List Char} (h : ∀ rest, body ≠ '-' :: rest) :
    splitMinus (Numeral.withSign negative body) = (negative, body) := by
  cases negative with
  | true => rfl
  | false =>
      cases body with
      | nil => rfl
      | cons c body =>
          exact splitMinus_cons (fun he => h body (he ▸ rfl)) body

theorem withSign_splitMinus (text : List Char) :
    Numeral.withSign (splitMinus text).1 (splitMinus text).2 = text := by
  unfold splitMinus
  split <;> rfl

theorem withSign_append (negative : Bool) (text rest : List Char) :
    Numeral.withSign negative text ++ rest = Numeral.withSign negative (text ++ rest) := by
  cases negative <;> rfl

theorem length_withSign (negative : Bool) (text : List Char) :
    (Numeral.withSign negative text).length = signLength negative + text.length := by
  cases negative <;> simp [Numeral.withSign, signLength, Nat.add_comm]

theorem digits_append_ne_minus {ds : List Char} (hne : ds ≠ []) (hd : Digits ds) (u rest) :
    ds ++ u ≠ '-' :: rest := by
  cases ds with
  | nil => exact absurd rfl hne
  | cons c ds =>
      have hc := ne_of_isDigit (hd c List.mem_cons_self) (d := '-') (by decide)
      simp [hc]

namespace IntegerLiteral

structure WellFormed (l : IntegerLiteral) : Prop where
  digits_ne : l.digits ≠ []
  digits : Digits l.digits

instance (l : IntegerLiteral) : Decidable l.WellFormed :=
  decidable_of_iff (l.digits ≠ [] ∧ Digits l.digits)
    ⟨fun ⟨hne, hd⟩ => ⟨hne, hd⟩, fun h => ⟨h.digits_ne, h.digits⟩⟩

def text (l : IntegerLiteral) : List Char := Numeral.withSign l.negative l.digits

theorem length_text (l : IntegerLiteral) : l.text.length = l.length := length_withSign _ _

theorem read?_text {l : IntegerLiteral} (h : l.WellFormed) {rest : List Char} (hr : NoDigit rest) :
    read? (l.text ++ rest) = some l := by
  rw [text, withSign_append, read?,
    splitMinus_withSign (digits_append_ne_minus h.digits_ne h.digits rest)]
  simp only [digitRun_append h.digits hr]
  split
  · exact absurd ‹_› h.digits_ne
  · rfl

theorem text_of_read? {text : List Char} {l : IntegerLiteral} (h : read? text = some l) :
    l.WellFormed ∧ ∃ rest, text = l.text ++ rest ∧ NoDigit rest := by
  obtain ⟨rest, hbody, hrest⟩ := digitRun_prefix (splitMinus text).2
  rw [read?] at h
  simp only at h
  split at h
  · simp at h
  · next hne =>
      simp only [Option.some.injEq] at h
      subst h
      refine ⟨⟨hne, digits_digitRun _⟩, rest, ?_, hrest⟩
      rw [IntegerLiteral.text, withSign_append, ← hbody, withSign_splitMinus]

theorem length_le_of_read? {text : List Char} {l : IntegerLiteral} (h : read? text = some l) :
    l.length ≤ text.length := by
  obtain ⟨-, rest, rfl, -⟩ := text_of_read? h
  rw [List.length_append, length_text]
  omega

end IntegerLiteral

namespace DecimalLiteral

structure WellFormed (l : DecimalLiteral) : Prop where
  whole_ne : l.whole ≠ []
  whole : Digits l.whole
  fraction : Digits l.fraction

instance (l : DecimalLiteral) : Decidable l.WellFormed :=
  decidable_of_iff (l.whole ≠ [] ∧ Digits l.whole ∧ Digits l.fraction)
    ⟨fun ⟨hne, hw, hf⟩ => ⟨hne, hw, hf⟩, fun h => ⟨h.whole_ne, h.whole, h.fraction⟩⟩

def text (l : DecimalLiteral) : List Char :=
  if l.fraction.isEmpty then l.whole else l.whole ++ '.' :: l.fraction

theorem length_text (l : DecimalLiteral) : l.text.length = l.length := by
  rw [text, length]
  split
  · rfl
  · simp only [List.length_append, List.length_cons]; omega

theorem readFraction_cons {c : Char} (h : c ≠ '.') (rest : List Char) :
    readFraction (c :: rest) = [] := by
  unfold readFraction
  split
  · next u hu => exact absurd (List.cons.inj hu).1 h
  · rfl

theorem read?_text {l : DecimalLiteral} (h : l.WellFormed) {rest : List Char}
    (hr : ∀ c ∈ rest.head?, c.isDigit = false ∧ c ≠ '.') : read? (l.text ++ rest) = some l := by
  have hrest : NoDigit rest := fun c hc => (hr c hc).1
  have hf : ∃ u, l.text ++ rest = l.whole ++ u ∧ NoDigit u ∧ readFraction u = l.fraction := by
    rw [text]
    split
    · next he =>
        rw [List.isEmpty_iff.mp he]
        refine ⟨rest, rfl, hrest, ?_⟩
        cases rest with
        | nil => rfl
        | cons c rest => exact readFraction_cons (hr c rfl).2 rest
    · refine ⟨'.' :: (l.fraction ++ rest), by simp, noDigit_cons.mpr (by decide), ?_⟩
      exact digitRun_append h.fraction hrest
  obtain ⟨u, hu, hnu, hfrac⟩ := hf
  rw [hu, read?, digitRun_append h.whole hnu]
  split
  · exact absurd ‹_› h.whole_ne
  · rw [List.drop_left, hfrac]

theorem readFraction_prefix (u : List Char) :
    Digits (readFraction u) ∧ (readFraction u = [] ∨ ∃ rest, u = '.' :: (readFraction u ++ rest)) := by
  unfold readFraction
  split
  · next v =>
      obtain ⟨rest, hv, -⟩ := digitRun_prefix v
      exact ⟨digits_digitRun v, Or.inr ⟨rest, by rw [← hv]⟩⟩
  · exact ⟨fun c hc => absurd hc List.not_mem_nil, Or.inl rfl⟩

theorem text_of_read? {text : List Char} {l : DecimalLiteral} (h : read? text = some l) :
    l.WellFormed ∧ ∃ rest, text = l.text ++ rest := by
  obtain ⟨u, hu, -⟩ := digitRun_prefix text
  have hdrop := congrArg (List.drop (digitRun text).length) hu
  rw [List.drop_left] at hdrop
  obtain ⟨hdigits, hfrac⟩ := readFraction_prefix u
  rw [read?] at h
  split at h
  · simp at h
  · next hne =>
      simp only [hdrop, Option.some.injEq] at h
      subst h
      refine ⟨⟨hne, digits_digitRun text, hdigits⟩, ?_⟩
      rw [DecimalLiteral.text]
      split
      · exact ⟨u, hu⟩
      · next he =>
          obtain hnil | ⟨rest, hrest⟩ := hfrac
          · exact absurd (List.isEmpty_iff.mpr hnil) he
          · exact ⟨rest, by simpa [← hrest] using hu⟩

theorem length_le_of_read? {text : List Char} {l : DecimalLiteral} (h : read? text = some l) :
    l.length ≤ text.length := by
  obtain ⟨-, rest, rfl⟩ := text_of_read? h
  rw [List.length_append, length_text]
  omega

end DecimalLiteral

namespace ScientificLiteral

structure WellFormed (l : ScientificLiteral) : Prop where
  mantissa : l.mantissa.WellFormed
  exponent : ∀ e ∈ l.exponent, e.WellFormed

instance (l : ScientificLiteral) : Decidable l.WellFormed :=
  decidable_of_iff (l.mantissa.WellFormed ∧ ∀ e ∈ l.exponent, e.WellFormed)
    ⟨fun ⟨hm, he⟩ => ⟨hm, he⟩, fun h => ⟨h.mantissa, h.exponent⟩⟩

def exponentText : Option IntegerLiteral → List Char
  | none => []
  | some e => 'e' :: e.text

def text (l : ScientificLiteral) : List Char :=
  Numeral.withSign l.negative (l.mantissa.text ++ exponentText l.exponent)

theorem length_exponentText (e : Option IntegerLiteral) :
    (exponentText e).length = exponentLength e := by
  cases e with
  | none => rfl
  | some e => simp only [exponentText, exponentLength, List.length_cons, IntegerLiteral.length_text]; omega

theorem length_text (l : ScientificLiteral) : l.text.length = l.length := by
  rw [text, length, length_withSign, List.length_append, DecimalLiteral.length_text,
    length_exponentText, Nat.add_assoc]

theorem mantissa_append_ne_minus {l : DecimalLiteral} (h : l.WellFormed) (u rest : List Char) :
    l.text ++ u ≠ '-' :: rest := by
  rw [DecimalLiteral.text]
  split
  · exact digits_append_ne_minus h.whole_ne h.whole u rest
  · rw [List.append_assoc]
    exact digits_append_ne_minus h.whole_ne h.whole _ rest

theorem readExponent?_cons {c : Char} (h : c ≠ 'e') (rest : List Char) :
    readExponent? (c :: rest) = none := by
  unfold readExponent?
  split
  · next u hu => exact absurd (List.cons.inj hu).1 h
  · rfl

theorem read?_text {l : ScientificLiteral} (h : l.WellFormed) {rest : List Char}
    (hr : Terminates rest) : read? (l.text ++ rest) = some l := by
  have hexp : (∀ c ∈ (exponentText l.exponent ++ rest).head?, c.isDigit = false ∧ c ≠ '.') ∧
      readExponent? (exponentText l.exponent ++ rest) = l.exponent := by
    cases he : l.exponent with
    | none =>
        refine ⟨fun c hc => ⟨(hr c hc).1, (hr c hc).2.1⟩, ?_⟩
        cases rest with
        | nil => rfl
        | cons c rest => exact readExponent?_cons (hr c rfl).2.2 rest
    | some e =>
        refine ⟨fun c hc => ?_, IntegerLiteral.read?_text (h.exponent e he) hr.noDigit⟩
        simp only [exponentText, List.cons_append, List.head?_cons, Option.mem_def,
          Option.some.injEq] at hc
        subst hc
        decide
  have hdrop : (l.mantissa.text ++ (exponentText l.exponent ++ rest)).drop l.mantissa.length =
      exponentText l.exponent ++ rest := by
    rw [← DecimalLiteral.length_text, List.drop_left]
  rw [text, withSign_append, List.append_assoc, read?,
    splitMinus_withSign (mantissa_append_ne_minus h.mantissa _)]
  simp only [DecimalLiteral.read?_text h.mantissa hexp.1, hdrop, hexp.2]

theorem readExponent?_prefix (u : List Char) : (∀ e ∈ readExponent? u, e.WellFormed) ∧
    ∃ rest, u = exponentText (readExponent? u) ++ rest := by
  unfold readExponent?
  split
  · next v =>
      cases hv : IntegerLiteral.read? v with
      | none => exact ⟨by simp, _, rfl⟩
      | some e =>
          obtain ⟨he, rest, rfl, -⟩ := IntegerLiteral.text_of_read? hv
          exact ⟨by simpa using he, rest, rfl⟩
  · exact ⟨by simp, u, rfl⟩

theorem text_of_read? {text : List Char} {l : ScientificLiteral} (h : read? text = some l) :
    l.WellFormed ∧ ∃ rest, text = l.text ++ rest := by
  rw [read?] at h
  simp only at h
  split at h
  · simp at h
  · next mantissa hm =>
      simp only [Option.some.injEq] at h
      subst h
      obtain ⟨hwf, u, hu⟩ := DecimalLiteral.text_of_read? hm
      obtain ⟨hexp, rest, hrest⟩ := readExponent?_prefix u
      have hdrop : (splitMinus text).2.drop mantissa.length = u := by
        rw [hu, ← DecimalLiteral.length_text, List.drop_left]
      rw [hdrop]
      refine ⟨⟨hwf, hexp⟩, rest, ?_⟩
      rw [ScientificLiteral.text, withSign_append, List.append_assoc, ← hrest, ← hu,
        withSign_splitMinus]

theorem length_le_of_read? {text : List Char} {l : ScientificLiteral} (h : read? text = some l) :
    l.length ≤ text.length := by
  obtain ⟨-, rest, rfl⟩ := text_of_read? h
  rw [List.length_append, length_text]
  omega

end ScientificLiteral

end MeshMarkup
