import MeshMarkup.Proofs.Document.Numbers
import MeshMarkup.Proofs.Document.Written

namespace MeshMarkup

open Text MeshMarkup.Parser

theorem scientific_run_numberText {x : Binary64} (hx : x ≠ .nan) {c : Cursor} {rest : List Char}
    (hc : c.rest = Node.numberText x ++ rest) (hrest : Terminates rest) :
    scientific.run c = .matched (c.skip (Node.numberText x).length) x.unsignedZero := by
  obtain ⟨l, hl, hd, htext⟩ := Node.numberText_rendering hx
  have hread := reading_scientific hl hd hrest
  rw [htext, ← hc] at hread
  rw [run_eq_outcome, hread, Reading.outcome_matched, hc, List.length_append, Nat.add_sub_cancel]

theorem numbers_run_numberTexts {xs : List Binary64} (hne : xs ≠ []) (hnan : .nan ∉ xs)
    {c : Cursor} {rest : List Char}
    (hc : c.rest = [' '].intercalate (xs.map Node.numberText) ++ '<' :: rest) :
    Grammar.numbers.run c =
      .matched (c.skip ([' '].intercalate (xs.map Node.numberText)).length)
        (.numbers (xs.map Binary64.unsignedZero)) := by
  have hread := Grammar.reading_numbers (Node.numbers_rendering hne hnan) rest
  rw [← hc] at hread
  rw [run_eq_outcome, hread, Reading.outcome_matched, hc, List.length_append, Nat.add_sub_cancel]

/-- Every number but the undefined one has a text, which is read to its end as an equal number; and
the texts of a row of such numbers, with single spaces in between, are read up to the next tag as an
equal row. -/
theorem numberTexts_read_back :
    (∀ x : Binary64, x ≠ .nan → ∃ text y, Printer.numberText x = .ok text ∧
      x.sameNumber y = true ∧ ∀ (c : Cursor) (rest : List Char), c.rest = text ++ rest →
        Terminates rest → scientific.run c = .matched (c.skip text.length) y) ∧
    ∀ xs : List Binary64, xs ≠ [] → .nan ∉ xs → ∃ texts ys,
      xs.mapM Printer.numberText = .ok texts ∧ Node.sameNumbers xs ys = true ∧
        ∀ (c : Cursor) (rest : List Char), c.rest = [' '].intercalate texts ++ '<' :: rest →
          Grammar.numbers.run c =
            .matched (c.skip ([' '].intercalate texts).length) (.numbers ys) := by
  constructor
  · intro x hx
    refine ⟨Node.numberText x, x.unsignedZero, Node.printer_numberText hx,
      Binary64.sameNumber_unsignedZero hx, fun c rest hc hrest => ?_⟩
    exact scientific_run_numberText hx hc hrest
  · intro xs hne hnan
    refine ⟨xs.map Node.numberText, xs.map Binary64.unsignedZero, ?_,
      Node.sameNumbers_unsignedZero hnan, fun c rest hc => numbers_run_numberTexts hne hnan hc⟩
    exact mapM_ok fun x hx => Node.printer_numberText fun he => hnan (he ▸ hx)

theorem numberTexts_read_back_extremes :
    let least : Binary64 := .signed true (.ofRank 1)
    let xs : List Binary64 := [.signed true .zero, .infinity, least]
    (∃ y, least.sameNumber y = true ∧ scientific.run (.start "-5e-324".toList) =
      .matched (Cursor.skip 7 (.start "-5e-324".toList)) y) ∧
    ∃ ys, Node.sameNumbers xs ys = true ∧
      Grammar.numbers.run (.start "0 1e400 -5e-324</a>".toList) =
        .matched (Cursor.skip 15 (.start "0 1e400 -5e-324</a>".toList)) (.numbers ys) := by
  intro least xs
  have hleast : Printer.numberText least = .ok "-5e-324".toList := by decide +kernel
  have htexts : xs.mapM Printer.numberText =
      .ok ["0".toList, "1e400".toList, "-5e-324".toList] := by decide +kernel
  obtain ⟨text, y, htext, hsame, hread⟩ := numberTexts_read_back.1 least (by simp [least])
  obtain ⟨texts, ys, hrow, hequal, hrun⟩ := numberTexts_read_back.2 xs (by simp [xs])
    (by simp [xs, least, Binary64.infinity])
  obtain rfl := Except.ok.inj (hleast.symm.trans htext)
  obtain rfl := Except.ok.inj (htexts.symm.trans hrow)
  exact ⟨⟨y, hsame, hread _ [] rfl terminates_nil⟩, ys, hequal, hrun _ "/a>".toList rfl⟩

end MeshMarkup
