import MeshMarkup.Proofs.Document.Completeness
import MeshMarkup.Proofs.Document.Soundness

namespace MeshMarkup

open Text

namespace Node

/-- A tree with a misleading name: an element that begins like a prologue, or a self-closing
element whose name holds the end of an opening tag. -/
inductive Misnamed : Node → Prop
  | header {child} (h : Misnamed child) : Misnamed (.header child)
  | child {name as cs c} (hc : c ∈ cs) (h : Misnamed c) : Misnamed (.element name as cs)
  | element {name as cs} (h : name.toList.head? = some '?') : Misnamed (.element name as cs)
  | closed {name as} (h : name.toList.head? = some '?' ∨ '>' ∈ name.toList) :
      Misnamed (.closed name as)

theorem Shaped.clear {t : Node} (h : t.Shaped OpenName ClosedName) (hm : ¬ t.Misnamed) :
    t.Shaped ClearName ClearName := by
  induction h with
  | header _ ih => exact .header (ih fun hc => hm (.header hc))
  | @closed name as hn ha =>
      refine .closed ⟨?_, fun hq => hm (.closed (Or.inl hq))⟩ ha
      intro c hc hmem
      have hne : c ≠ '>' := fun he => hm (.closed (Or.inr (he ▸ hc)))
      exact hn c hc (by simpa [hne] using hmem)
  | branch hn ha hne _ ih =>
      exact .branch ⟨hn, fun hq => hm (.element hq)⟩ ha hne
        fun c hc => ih c hc fun h => hm (.child hc h)
  | leaf hn ha hleaf => exact .leaf ⟨hn, fun hq => hm (.element hq)⟩ ha hleaf

end Node

namespace Grammar

open MeshMarkup.Parser

/-- What a document yields is read from each of its renderings, whatever comes after that and
whether or not closing names are compared, if it has no misleading name. -/
theorem Yields.reading {strict strict' : Bool} {levels : Nat} {t : Node} {s s' : List Char}
    (h : Yields strict (levels + 1) t s) (ht : ¬ t.Misnamed) (hs : Rendering strict' t s')
    (u : List Char) : (documentWithin strict' (levels + 1)).reading (s' ++ u) = .matched u t :=
  documentWithin_rendering (h.shaped.clear ht) (Nat.le_of_lt_succ h.nesting) hs u

section Documents

variable {levels : Nat} {text rest : List Char} {t : Node} (ht : ¬ t.Misnamed)
include ht

theorem documentWithin_append {strict : Bool}
    (h : (documentWithin strict (levels + 1)).reading text = .matched rest t) (u : List Char) :
    (documentWithin strict (levels + 1)).reading (text ++ u) = .matched (rest ++ u) t := by
  obtain ⟨s, rfl, hy⟩ := documentWithin_sound strict (levels + 1) h
  rw [List.append_assoc]
  exact hy.reading ht hy.rendering (rest ++ u)

theorem documentWithin_strict_iff :
    (documentWithin true (levels + 1)).reading text = .matched rest t ↔
      (documentWithin false (levels + 1)).reading text = .matched rest t ∧
        ∃ s, text = s ++ rest ∧ Rendering true t s := by
  constructor
  · intro h
    obtain ⟨s, rfl, hy⟩ := documentWithin_sound true (levels + 1) h
    exact ⟨hy.reading ht (hy.rendering.lenient hy.shaped) rest, s, rfl, hy.rendering⟩
  · rintro ⟨h, s, rfl, hs⟩
    obtain ⟨_, -, hy⟩ := documentWithin_sound false (levels + 1) h
    exact hy.reading ht hs rest

end Documents

/-- A strict grammar yields a tree without misleading names exactly where a lenient one yields the
same tree, with the same text left over, from a text in which all closing names are right. -/
theorem strict_iff_lenient {strict lenient : Grammar} (hs : strict.strictCloseTags = true)
    (hl : lenient.strictCloseTags = false) (hn : strict.nestingLimit = lenient.nestingLimit)
    {c rest : Cursor} {t : Node} (ht : ¬ t.Misnamed) :
    strict.document.run c = .matched rest t ↔ lenient.document.run c = .matched rest t ∧
      ∃ s, c.rest = s ++ rest.rest ∧ Rendering true t s := by
  rw [run_eq_matched_iff, run_eq_matched_iff, document, document, hs, hl, hn,
    documentWithin_strict_iff ht, and_right_comm]

theorem strict_iff_lenient_closed :
    ¬ (Node.element "a" [] [.closed "b" []]).Misnamed ∧
      (⟨true, false, 9⟩ : Grammar).document.run (.start "<a ><b/>\n</a>!".toList) =
        .matched (Cursor.skip 13 (.start "<a ><b/>\n</a>!".toList))
          (.element "a" [] [.closed "b" []]) ∧
      (lenient 9).document.run (.start "<a ><b/>\n</a>!".toList) =
        .matched (Cursor.skip 13 (.start "<a ><b/>\n</a>!".toList))
          (.element "a" [] [.closed "b" []]) := by
  have hclear : ¬ (Node.element "a" [] [.closed "b" []]).Misnamed := by
    rintro (_ | ⟨hc, h⟩ | h | _)
    · obtain rfl := List.mem_singleton.mp hc
      cases h with
      | closed h => exact absurd h (by decide)
    · exact absurd h (by decide)
  have hrun : (⟨true, false, 9⟩ : Grammar).document.run (.start "<a ><b/>\n</a>!".toList) =
      .matched (Cursor.skip 13 (.start "<a ><b/>\n</a>!".toList))
        (.element "a" [] [.closed "b" []]) := rfl
  exact ⟨hclear, hrun,
    ((@strict_iff_lenient ⟨true, false, 9⟩ (lenient 9) rfl rfl rfl _ _ _ hclear).mp hrun).1⟩

/-- In a strict grammar an element with a wrong closing name can become a self-closing one: the
lenient grammar sees another document there, or none. -/
theorem strict_misnamed :
    (⟨true, true, 9⟩ : Grammar).parse "<a>b/></c>" = .ok (some (.closed "a>b" [])) ∧
      (lenient 9).parse "<a>b/></c>" = .ok (some (.element "a" [] [.text "b/>"])) ∧
      (⟨true, true, 9⟩ : Grammar).parse "<r x=\"1\"><a>b/></r>" =
        .ok (some (.element "r" [⟨"x", .integer 1⟩] [.closed "a>b" []])) ∧
      (lenient 9).parse "<r x=\"1\"><a>b/></r>" = .ok none :=
  ⟨rfl, rfl, rfl, rfl⟩

/-- A document that is cut off before its end is only read as a tree with a misleading name. -/
theorem truncated_misnamed (g : Grammar) {text cut : String} (hcut : cut.toList <+: text.toList)
    (hne : cut ≠ text) {rest : Cursor} {t u : Node}
    (ht : g.document.run (.start text.toList) = .matched rest t) (hrest : rest.atEnd = true)
    (hu : g.parse cut = .ok (some u)) : u.Misnamed := by
  refine Classical.byContradiction fun hclear => ?_
  obtain ⟨left, hread, -⟩ := parse_eq_some.mp hu
  obtain ⟨cutOff, hsplit⟩ := hcut
  have hwhole := documentWithin_append hclear hread cutOff
  have hall : g.document.reading (cut.toList ++ cutOff) = .matched [] t := by
    rw [hsplit, ← List.isEmpty_iff.mp hrest]
    exact (reading_of_matched ht).1
  -- The whole text is read like the part, so nothing was cut off.
  obtain ⟨hnil, -⟩ := Reading.matched.inj (hwhole.symm.trans hall)
  rw [(List.append_eq_nil_iff.mp hnil).2, List.append_nil] at hsplit
  exact hne (String.toList_inj.mp hsplit)

theorem truncated_misnamed_element :
    (lenient 9).parse "<a><b/></a>" = .ok (some (.element "a" [] [.closed "b" []])) ∧
      (lenient 9).parse "<a><b/>" = .ok (some (.closed "a><b" [])) ∧
      (Node.closed "a><b" []).Misnamed := by
  have hwhole : (lenient 9).document.run (.start "<a><b/></a>".toList) =
      .matched (Cursor.skip 11 (.start "<a><b/></a>".toList))
        (.element "a" [] [.closed "b" []]) := rfl
  have hcut : (lenient 9).parse "<a><b/>" = .ok (some (.closed "a><b" [])) := rfl
  exact ⟨rfl, hcut, truncated_misnamed (lenient 9) (by decide) (by decide) hwhole rfl hcut⟩

end Grammar

end MeshMarkup
