import MeshMarkup.Proofs.Document.Clear
import MeshMarkup.Proofs.Document.Misnaming

namespace MeshMarkup.Grammar

open Text MeshMarkup.Parser

/-- A well-formed tree whose integers can be written is written, and read back equal from the
written text, whatever follows that. -/
theorem render_reads_back (g : Grammar) {t : Node} (ht : t.WellFormed) (hf : t.IntegersFit)
    (hn : t.nesting ≤ g.nestingLimit) {indent : String} (hi : Blank indent.toList) (rest : String) :
    ∃ s, t.render indent = .ok s ∧ ∃ c u, g.document.run (.start (s ++ rest).toList) = .matched c u ∧
      c.rest = rest.toList ∧ t.same u = true := by
  have hshape : t.Shaped Node.OpenName Node.ClosedName :=
    ht.imp (fun _ h => h.open) fun _ h => h.closed
  refine ⟨_, (Node.render_eq_ok hshape).mpr ⟨hf, rfl⟩, ?_⟩
  have hclear := clear_of_wellFormed ht g.strictCloseTags indent.toList g.nestingLimit 0 rest.toList
  obtain ⟨u, hu, hsame⟩ := returns_of_clear hi hshape hn hclear
  have hstart : (Cursor.start (String.ofList (t.written indent.toList 0) ++ rest).toList).rest =
      t.written indent.toList 0 ++ rest.toList := by
    simp [Cursor.start]
  rw [← hstart] at hu
  obtain ⟨c, hc, hrest⟩ := matched_of_reading (p := g.document) hu
  exact ⟨c, u, hc, hrest, hsame⟩

theorem render_reads_back_nested :
    ∃ s, (Node.element "a" [⟨"n", .integer (-5)⟩] [.closed "b" []]).render "\t" = .ok s ∧
      ∃ c u, (⟨true, false, 9⟩ : Grammar).document.run (.start (s ++ "<z>").toList) = .matched c u ∧
        c.rest = "<z>".toList ∧
          (Node.element "a" [⟨"n", .integer (-5)⟩] [.closed "b" []]).same u = true := by
  have ht : Node.WellFormed (.element "a" [⟨"n", .integer (-5)⟩] [.closed "b" []]) := by
    refine .branch ⟨by decide, by simp, by decide⟩ ?_ (by simp) ?_
    · intro a ha
      rw [List.mem_singleton.mp ha]
      exact ⟨by simp, by decide, trivial⟩
    · intro c hc
      rw [List.mem_singleton.mp hc]
      exact .closed ⟨by decide, by simp, by decide⟩ (by simp)
  have hfits : Attribute.Fits ⟨"n", .integer (-5)⟩ := by
    rintro n ⟨⟩
    exact Nat.lt_of_lt_of_le (show 5 < 10 ^ 1 by decide)
      (Nat.pow_le_pow_right (by decide) (by decide : 1 ≤ Printer.integerDigitLimit))
  have hf : (Node.element "a" [⟨"n", .integer (-5)⟩] [.closed "b" []]).IntegersFit := by
    refine ⟨fun a ha => ?_, by simp [Node.IntegersFitAll, Node.IntegersFit]⟩
    rw [List.mem_singleton.mp ha]
    exact hfits
  exact render_reads_back ⟨true, false, 9⟩ ht hf (by decide) (by decide) "<z>"

variable {limit : Nat} {text : String} {t : Node}

theorem parse_lenient_eq_some :
    (lenient limit).parse text = .ok (some t) ↔ ∃ rest, (lenient limit).document.reading text.toList =
      .matched rest t := by
  rw [parse_eq_some]
  constructor
  · rintro ⟨rest, h, -⟩
    exact ⟨rest, h⟩
  · rintro ⟨rest, h⟩
    exact ⟨rest, h, Or.inl rfl⟩

theorem readsBackFrom_eq_true {s : String} : t.readsBackFrom limit s = .ok true ↔
    ∃ u, (lenient limit).parse s = .ok (some u) ∧ t.same u = true := by
  rw [Node.readsBackFrom]
  cases (lenient limit).parse s with
  | error cause => simp [bind, Except.bind]
  | ok result => cases result <;> simp [bind, Except.bind, pure, Except.pure]

theorem returns_iff_clear (h : (lenient limit).parse text = .ok (some t))
    {indent : String} (hi : Blank indent.toList) :
    (∃ s, t.render indent = .ok s ∧ t.readsBackFrom limit s = .ok true) ↔
      t.IntegersFit ∧ Clear false indent.toList limit 0 t [] := by
  obtain ⟨_, hread⟩ := parse_lenient_eq_some.mp h
  obtain ⟨_, -, hy⟩ := documentWithin_sound false (limit + 1) hread
  have hn := Nat.le_of_lt_succ hy.nesting
  have hparse (u : Node) :
      (lenient limit).parse (String.ofList (t.written indent.toList 0)) = .ok (some u) ↔
        ∃ rest, (documentWithin false (limit + 1)).reading
          (t.written indent.toList 0 ++ []) = .matched rest u := by
    rw [parse_lenient_eq_some, String.toList_ofList, List.append_nil]
    rfl
  constructor
  · rintro ⟨s, hs, hback⟩
    obtain ⟨hf, rfl⟩ := (Node.render_eq_ok hy.shaped).mp hs
    obtain ⟨u, hu, hsame⟩ := readsBackFrom_eq_true.mp hback
    obtain ⟨rest, hr⟩ := (hparse u).mp hu
    exact ⟨hf, clear_of_reading hi hy.shaped hn hr hsame⟩
  · rintro ⟨hf, hclear⟩
    obtain ⟨u, hu, hsame⟩ := returns_of_clear hi hy.shaped hn hclear
    refine ⟨_, (Node.render_eq_ok hy.shaped).mpr ⟨hf, rfl⟩, readsBackFrom_eq_true.mpr ?_⟩
    exact ⟨u, (hparse u).mpr ⟨[], hu⟩, hsame⟩

/-- Reading back the written form of a tree that the lenient grammar has yielded succeeds exactly
when the integers of the tree can be written and its written form is clear. Without misleading
names, that is so unless an element without a name has elements, or nothing, in it. -/
theorem readsBack_iff_clear (h : (lenient limit).parse text = .ok (some t))
    {indent : String} (hi : Blank indent.toList) :
    ((∃ s, t.render indent = .ok s ∧ t.readsBackFrom limit s = .ok true) ↔
      t.IntegersFit ∧ Clear false indent.toList limit 0 t []) ∧
    (¬ t.Misnamed →
      ((∃ s, t.render indent = .ok s ∧ t.readsBackFrom limit s = .ok true) ↔
        t.IntegersFit ∧ ¬ Unnamed t)) := by
  have hback := returns_iff_clear h hi
  refine ⟨hback, fun hnamed => ?_⟩
  obtain ⟨_, hread⟩ := parse_lenient_eq_some.mp h
  obtain ⟨_, -, hy⟩ := documentWithin_sound false (limit + 1) hread
  rw [hback, clear_iff_named (hy.shaped.clear hnamed)]

theorem readsBack_nameless : (lenient 9).parse "<></a>" = .ok (some (.element "" [] [.empty])) ∧
    ¬ ∃ s, (Node.element "" [] [.empty]).render "  " = .ok s ∧
      (Node.element "" [] [.empty]).readsBackFrom 9 s = .ok true := by
  have hparse : (lenient 9).parse "<></a>" = .ok (some (.element "" [] [.empty])) := rfl
  refine ⟨hparse, fun h => ?_⟩
  obtain ⟨-, -, hname, -⟩ := (readsBack_iff_clear hparse (by decide)).1.mp h
  exact absurd (hname rfl .empty List.mem_cons_self) (by decide)

end MeshMarkup.Grammar
