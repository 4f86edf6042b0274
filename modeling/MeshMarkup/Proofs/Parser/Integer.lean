import MeshMarkup.Proofs.Number.Longest
import MeshMarkup.Proofs.Number.Numeral

namespace MeshMarkup.Parser

variable {c : Cursor} {l : IntegerLiteral}

theorem integer_run_noMatch : integer.run c = .noMatch ↔ ¬ StartsNumber c.rest := by
  rw [reading_eq_noMatch_iff, reading_integer_eq, ← IntegerLiteral.read?_eq_none]
  cases IntegerLiteral.read? c.rest <;> simp

theorem integer_run_longest (h : l.Longest c.rest) :
    integer.run c = .matched (c.skip l.text.length) l.value := by
  have hread := IntegerLiteral.longest_iff.mp h
  have hle := IntegerLiteral.length_le_of_read? hread
  rw [run_eq_outcome, reading_integer_eq, hread]
  simp only [Reading.outcome_matched, Cursor.skip_sub_drop hle, IntegerLiteral.length_text]

theorem integer_run_intDigits {n : Int} {rest : List Char} (hrest : NoDigit rest)
    (hc : c.rest = Numeral.intDigits n ++ rest) :
    integer.run c = .matched (c.skip (Numeral.intDigits n).length) n := by
  obtain ⟨l, hl, htext, rfl⟩ := exists_intDigits_literal n
  rw [← htext] at hc ⊢
  have hread : IntegerLiteral.read? c.rest = some l := by
    rw [hc]
    exact IntegerLiteral.read?_text hl hrest
  exact integer_run_longest (IntegerLiteral.longest_iff.mpr hread)

/-- Integers are read exactly: there is a match just where a digit stands, after a minus sign or
without one, it takes the longest literal there, and the value is what the literal denotes. The
text of an integer is read back as that integer, whatever follows that is no digit. -/
theorem integer_exact (c : Cursor) :
    (integer.run c = .noMatch ↔ ¬ StartsNumber c.rest) ∧
    ((∃! l : IntegerLiteral, l.Longest c.rest) ↔ StartsNumber c.rest) ∧
    (∀ l : IntegerLiteral, l.Longest c.rest →
      integer.run c = .matched (c.skip l.text.length) l.value) ∧
    ∀ (n : Int) (rest : List Char), NoDigit rest → c.rest = Numeral.intDigits n ++ rest →
      integer.run c = .matched (c.skip (Numeral.intDigits n).length) n ∧
        (c.skip (Numeral.intDigits n).length).rest = rest := by
  refine ⟨integer_run_noMatch, IntegerLiteral.existsUnique_longest, fun l => integer_run_longest,
    fun n rest hrest hc => ⟨integer_run_intDigits hrest hc, ?_⟩⟩
  rw [Cursor.rest_skip, hc, List.drop_left]

theorem integer_exact_leading_zeros :
    integer.run (Cursor.skip 2 (.start "x=-0042.5".toList)) =
        .matched (Cursor.skip 5 (Cursor.skip 2 (.start "x=-0042.5".toList))) (-42) ∧
      integer.run (.start (Numeral.intDigits (-1200) ++ ['e'])) =
        .matched (Cursor.skip 5 (.start (Numeral.intDigits (-1200) ++ ['e']))) (-1200) := by
  have hlongest : IntegerLiteral.Longest ⟨true, "0042".toList⟩
      (Cursor.skip 2 (.start "x=-0042.5".toList)).rest := IntegerLiteral.longest_iff.mpr rfl
  have hwritten := (integer_exact (.start (Numeral.intDigits (-1200) ++ ['e']))).2.2.2 (-1200) ['e']
    (noDigit_cons.mpr (by decide)) rfl
  exact ⟨(integer_exact _).2.2.1 _ hlongest, hwritten.1⟩

end MeshMarkup.Parser
