import MeshMarkup.Proofs.Number.Literal
import MeshMarkup.Proofs.Parser.Repetition

namespace MeshMarkup.Parser

theorem placeSumFrom_append (place : Nat) (ds : List Nat) (d : Nat) :
    placeSumFrom place (ds ++ [d]) = placeSumFrom place ds + d * 10 ^ (place + ds.length) := by
  induction ds generalizing place with
  | nil => simp [placeSumFrom]
  | cons e ds ih =>
      have hplace : place + 1 + ds.length = place + (ds.length + 1) := by omega
      rw [List.cons_append, placeSumFrom, ih, placeSumFrom, List.length_cons, hplace, Nat.add_assoc]

theorem placeSum_digitValues (ds : List Char) :
    placeSum (ds.map digitValue) = Numeral.placeValue ds := by
  induction ds with
  | nil => rfl
  | cons c ds ih =>
      have hsum : placeSum ((c :: ds).map digitValue) =
          placeSum (ds.map digitValue) + digitValue c * 10 ^ ds.length := by
        rw [placeSum, List.map_cons, List.reverse_cons, placeSumFrom_append, List.length_reverse,
          List.length_map, Nat.zero_add, placeSum]
      rw [hsum, placeValue_cons, ih, Nat.add_comm, Nat.mul_comm]

theorem digitRun_cons {c : Char} (hc : c.isDigit = true) (text : List Char) :
    digitRun (c :: text) = c :: digitRun text := by
  simp [digitRun, hc]

theorem digitRun_cons_of_not {c : Char} (hc : c.isDigit = false) (text : List Char) :
    digitRun (c :: text) = [] := by
  simp [digitRun, hc]

theorem turnsReading_digit {fuel text : List Char} {values : List Nat}
    (hf : text.length ≤ fuel.length) : turnsReading digit fuel text values =
      .matched (text.drop (digitRun text).length)
        (values.reverse ++ (digitRun text).map digitValue) := by
  induction fuel generalizing text values with
  | nil =>
      obtain rfl : text = [] := List.length_eq_zero_iff.mp (Nat.le_zero.mp hf)
      simp [turnsReading, turn, reads_digit.reading_eq, digitRun]
  | cons ch fuel ih =>
      rw [turnsReading, turn]
      cases text with
      | nil => simp [reads_digit.reading_eq, digitRun]
      | cons c text =>
          rw [reading_digit_cons]
          cases hc : c.isDigit with
          | false => simp [digitRun_cons_of_not hc]
          | true =>
              have hne : text ≠ c :: text := fun h => by simpa using congrArg List.length h
              have hlen : text.length ≤ fuel.length := by simpa using hf
              simp [hne, ih hlen, digitRun_cons hc]

instance : digits.Local := inferInstanceAs (Parser.many _).Local

theorem reading_digits (text : List Char) : digits.reading text =
    if digitRun text = [] then .noMatch
    else .matched (text.drop (digitRun text).length) ((digitRun text).map digitValue) := by
  rw [digits, (reads_many digit).reading_eq]
  dsimp only
  cases text with
  | nil => rw [reads_digit.reading_eq]; rfl
  | cons c text =>
      rw [reading_digit_cons]
      cases hc : c.isDigit with
      | false => simp [digitRun_cons_of_not hc]
      | true => simp [turnsReading_digit, digitRun_cons hc]

theorem digits_noMatch_minus (text : List Char) : digits.reading ('-' :: text) = .noMatch := by
  rw [reading_digits, digitRun_cons_of_not (by decide)]
  rfl

variable {α β : Type}

instance : minus.Local := inferInstanceAs (token _).Local

theorem minus_noMatch {c : Char} (hc : c ≠ '-') (text : List Char) :
    minus.reading (c :: text) = .noMatch :=
  token_noMatch_of_ne rfl hc

theorem reading_minus (p : Parser α) [p.Local] (text : List Char) :
    (minus.andThen p).reading text =
      if (splitMinus text).1 then (p.reading (splitMinus text).2).map fun a => ("-", a)
      else .noMatch := by
  rw [reading_andThen]
  cases text with
  | nil =>
      have hm : minus.reading [] = .noMatch := token_noMatch.mpr (by simp)
      rw [hm]
      rfl
  | cons c text =>
      by_cases hc : c = '-'
      · subst hc
        have hm : minus.reading ('-' :: text) = .matched text "-" := reading_token "-" text
        rw [hm]
        rfl
      · rw [minus_noMatch hc, splitMinus_cons hc]
        rfl

/-- An alternative with a minus sign in front of one without: the text tells which is taken. -/
theorem reading_signed {p : Parser α} [p.Local] (f : String × α → β) {q : Parser β} [q.Local]
    (hq : ∀ text, q.reading ('-' :: text) = .noMatch) (text : List Char) :
    (((minus.andThen p).map f).orElse q).reading text =
      if (splitMinus text).1 then (p.reading (splitMinus text).2).map fun a => f ("-", a)
      else q.reading (splitMinus text).2 := by
  rw [reading_orElse, reading_map, reading_minus]
  cases text with
  | nil => rfl
  | cons c text =>
      by_cases hc : c = '-'
      · subst hc
        rw [hq]
        cases h : p.reading text <;> simp [splitMinus, h]
      · rw [splitMinus_cons hc]
        rfl

theorem drop_signLength (text : List Char) (n : Nat) :
    text.drop (signLength (splitMinus text).1 + n) = (splitMinus text).2.drop n := by
  cases text with
  | nil => simp [splitMinus]
  | cons c text =>
      by_cases hc : c = '-'
      · subst hc
        rw [splitMinus, signLength, if_pos rfl, Nat.add_comm, List.drop_succ_cons]
      · rw [splitMinus_cons hc, signLength, if_neg Bool.false_ne_true, Nat.zero_add]

instance : integer.Local := inferInstanceAs (Parser.named _ _ _).Local

theorem reading_integer_eq (text : List Char) : integer.reading text =
    match IntegerLiteral.read? text with
    | none => .noMatch
    | some l => .matched (text.drop l.length) l.value := by
  have hq (text : List Char) : (digits.map fun whole => (placeSum whole : Int)).reading
      ('-' :: text) = .noMatch := by
    rw [reading_map, digits_noMatch_minus]
    rfl
  rw [integer, reading_named, reading_signed _ hq, IntegerLiteral.read?, reading_map, reading_digits]
  dsimp only
  cases hrun : digitRun (splitMinus text).2 with
  | nil => simp
  | cons c run =>
      have hne : c :: run ≠ [] := List.cons_ne_nil c run
      simp only [if_neg hne, Reading.map_matched, placeSum_digitValues, IntegerLiteral.length,
        drop_signLength, IntegerLiteral.value]
      cases (splitMinus text).1 <;> rfl

end MeshMarkup.Parser
