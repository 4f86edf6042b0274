import MeshMarkup.Proofs.Document.Elements

namespace MeshMarkup.Grammar

open Text MeshMarkup.Parser

/-- What a document within a number of levels yields for a text. -/
structure Yields (strict : Bool) (levels : Nat) (t : Node) (s : List Char) : Prop where
  rendering : Rendering strict t s
  shaped : t.Shaped Node.OpenName Node.ClosedName
  nesting : t.nesting < levels

/-- What is read takes from a text a rendering of its value. -/
def Sound (strict : Bool) (levels : Nat) (element : Parser Node) : Prop :=
  ∀ {text rest : List Char} {t : Node}, element.reading text = .matched rest t →
    ∃ s, text = s ++ rest ∧ Yields strict levels t s

variable {strict : Bool} {levels : Nat} {element : Parser Node} [element.Local]

theorem header_sound (he : Sound strict levels element) :
    Sound strict (levels + 1) (header element) := by
  intro text rest t h
  obtain ⟨prologue, w, u, child, rfl, hp, hw, -, hchild, rfl⟩ := header_matched h
  obtain ⟨s, rfl, hs⟩ := he hchild
  refine ⟨_, ?_, .header hp hw hs.rendering, .header hs.shaped, ?_⟩
  · simp
  · rw [Node.nesting]
    exact Nat.succ_lt_succ hs.nesting

theorem closedTag_sound : Sound strict (levels + 1) closedTag := by
  intro text rest t h
  obtain ⟨front, name, as, rfl, hopening, rfl⟩ := closedTag_matched.mp h
  obtain ⟨s, rfl, hname, hslash, hrun, ha⟩ := opening_matched scans_closedTagName (by decide) hopening
  refine ⟨'<' :: (name.toList ++ (s ++ ['/', '>'])), by simp, .closed hrun, .closed ?_ ha, ?_⟩
  · intro c hc hm
    exact hname c hc (by simpa [or_comm] using hm)
  · exact Nat.succ_pos levels

theorem content_sound (he : Sound strict levels element) {text rest : List Char} {cs : List Node}
    (hs : Solid text) (h : (content element).reading text = .matched rest cs) :
    ∃ s, text = s ++ rest ∧ Solid rest ∧ Content (Rendering strict) cs s ∧
      ((∀ c ∈ cs, c.isPlain = true) ∨ element.reading rest = .noMatch) ∧
      (cs ≠ [] ∧ (∀ c ∈ cs, c.Shaped Node.OpenName Node.ClosedName ∧ c.nesting < levels) ∨
        ∃ c, cs = [c] ∧ c.Leaf) := by
  obtain ⟨s, rfl, hrest, hparts⟩ := content_matched (R := Yields strict levels)
    (fun {text rest t} _ ht => by
      obtain ⟨s, rfl, hy⟩ := he ht
      exact ⟨s, rfl, hy.rendering.solid.1, hy⟩) hs h
  refine ⟨s, rfl, hrest, ?_⟩
  obtain ⟨hspaced, hstop⟩ | ⟨c, rfl, hleaf, htext, hstop⟩ := hparts
  · refine ⟨.nodes (hspaced.imp fun _ _ _ hy => hy.rendering), Or.inr hstop, Or.inl ⟨?_, ?_⟩⟩
    · exact hspaced.ne_nil
    · exact hspaced.forall fun _ _ hy => ⟨hy.shaped, hy.nesting⟩
  · refine ⟨.leaf htext, ?_, Or.inr ⟨c, rfl, hleaf⟩⟩
    obtain hplain | hstop := hstop
    · exact Or.inl (by simpa using hplain)
    · exact Or.inr hstop

theorem nesting_leaf {c : Node} (h : c.Leaf) : c.nesting = 0 := by
  cases h <;> rfl

/-- The parser for nested elements must itself refuse the end of the element, so a closing tag
without a name ends no list of elements. -/
theorem tag_sound (hpos : 0 < levels) (he : Sound strict levels element)
    (hclosing : ∀ u, element.reading ('<' :: '/' :: '>' :: u) ≠ .noMatch)
    {text rest : List Char} {t : Node} (h : TagMatch strict element text rest t) :
    ∃ s, text = s ++ rest ∧ Yields strict (levels + 1) t s := by
  obtain @⟨front, body, mid, after, _, name, as, cs, closing, hopening, hblanks, hcontent, hend, hk,
    hstrict⟩ := h
  obtain ⟨s, rfl, hname, hslash, hrun, ha⟩ := opening_matched scans_openTagName (by decide) hopening
  obtain ⟨w, rfl, hw, hsolid⟩ := optional_blanks_matched hblanks
  obtain ⟨c, rfl, hafter, hc, hplain, hshape⟩ := content_sound he hsolid hcontent
  have hend' := reading_optional_blanks blank_nil hafter
  rw [List.nil_append] at hend'
  simp only [optionalBlanks, hend', Reading.matched.injEq, and_true] at hend
  subst hend
  have hopen : Node.OpenName name := by
    intro d hd hm
    simp only [List.mem_cons, List.not_mem_nil, or_false] at hm
    obtain rfl | rfl | rfl := hm
    · exact hname _ hd (by decide)
    · exact hslash hd
    · exact hname _ hd (by decide)
  refine ⟨'<' :: (name.toList ++ (s ++ '>' :: (w ++ (c ++ '<' :: '/' :: (closing.toList ++ ['>']))))),
    by simp, .element hrun hw hc hk hstrict ?_, ?_, ?_⟩
  · rintro rfl
    exact hplain.resolve_right (hclosing rest)
  · obtain ⟨hne, hall⟩ | ⟨child, rfl, hleaf⟩ := hshape
    · exact .branch hopen ha hne fun c hc => (hall c hc).1
    · exact .leaf hopen ha hleaf
  · rw [Node.nesting]
    refine Nat.succ_lt_succ (Node.nestingAll_lt hpos ?_)
    obtain ⟨-, hall⟩ | ⟨child, rfl, hleaf⟩ := hshape
    · exact fun c hc => (hall c hc).2
    · simpa [nesting_leaf hleaf] using hpos

theorem reading_below_zero (text : List Char) :
    (below strict 0).reading text = .fault .tooDeep := by
  rw [reading_below, documentWithin, reading_faulty]

theorem tagMatch_below_zero {text rest : List Char} {t : Node} :
    ¬ TagMatch strict (below strict 0) text rest t := by
  rintro ⟨-, -, hcontent, -, -, -⟩
  obtain h | ⟨h, -⟩ := content_alternatives hcontent
  · obtain ⟨_, _, _, -, h, -⟩ := delimited_matched.mp h
    exact absurd ((reading_below_zero _).symm.trans h) (by simp)
  · exact absurd ((reading_below_zero _).symm.trans h) (by simp)

theorem documentWithin_sound (strict : Bool) (levels : Nat) :
    Sound strict levels (documentWithin strict levels) := by
  induction levels with
  | zero =>
      intro text rest t h
      simp [documentWithin, reading_faulty] at h
  | succ levels ih =>
      intro text rest t h
      rw [documentWithin_succ] at h
      have he : Sound strict levels (below strict levels) := fun {text rest t} h =>
        ih ((reading_below levels text).symm.trans h)
      obtain h | ⟨-, h | ⟨-, h⟩⟩ := documentOver_matched.mp h
      · exact header_sound he h
      · have h := tag_matched.mp h
        cases levels with
        | zero => exact absurd h tagMatch_below_zero
        | succ levels =>
            refine tag_sound (Nat.succ_pos levels) he (fun u => ?_) h
            rw [reading_below, documentWithin_succ, documentOver_nameless_closing]
            simp
      · exact closedTag_sound h

/-- Whatever a run from a cursor yields, it has consumed a rendering of that, and nothing else. -/
theorem document_sound (g : Grammar) {c rest : Cursor} {t : Node}
    (h : g.document.run c = .matched rest t) :
    ∃ s, c.rest = s ++ rest.rest ∧ rest.text = c.text ∧ rest.offset = c.offset + s.length ∧
      Rendering g.strictCloseTags t s := by
  obtain ⟨hreading, hrest⟩ := reading_of_matched h
  obtain ⟨s, hs, hy⟩ := documentWithin_sound g.strictCloseTags (g.nestingLimit + 1) hreading
  refine ⟨s, hs, ?_, ?_, hy.rendering⟩
  · rw [hrest, Cursor.text_skip]
  · rw [hrest, Cursor.offset_skip, hs, List.length_append, Nat.add_sub_cancel,
      Nat.min_eq_left (Nat.le_add_right _ _)]

theorem document_sound_element :
    (lenient 9).document.run (.start "<a b=\"01\"> <c/> </d>e".toList) =
        .matched (Cursor.skip 20 (.start "<a b=\"01\"> <c/> </d>e".toList))
          (.element "a" [⟨"b", .integer 1⟩] [.closed "c" []]) ∧
      ∃ s, "<a b=\"01\"> <c/> </d>e".toList = s ++ ['e'] ∧
        Rendering false (.element "a" [⟨"b", .integer 1⟩] [.closed "c" []]) s := by
  have hrun : (lenient 9).document.run (.start "<a b=\"01\"> <c/> </d>e".toList) =
      .matched (Cursor.skip 20 (.start "<a b=\"01\"> <c/> </d>e".toList))
        (.element "a" [⟨"b", .integer 1⟩] [.closed "c" []]) := rfl
  obtain ⟨s, hs, -, -, hr⟩ := document_sound (lenient 9) hrun
  exact ⟨hrun, s, hs, hr⟩

/-- Whatever a run from a cursor yields has the shape of a document: contents are elements or one
leaf, and names, attributes, texts and numbers hold nothing that would have ended them. -/
theorem document_shaped (g : Grammar) {c rest : Cursor} {t : Node}
    (h : g.document.run c = .matched rest t) : t.Shaped Node.OpenName Node.ClosedName := by
  obtain ⟨hreading, -⟩ := reading_of_matched h
  obtain ⟨s, -, hy⟩ := documentWithin_sound g.strictCloseTags (g.nestingLimit + 1) hreading
  exact hy.shaped

theorem document_shaped_text :
    (⟨true, false, 9⟩ : Grammar).document.run
        (.start "<?p?><a y=\"7-\"> <b>-e1</b><c>d/></a>".toList) =
        .matched (Cursor.skip 36 (.start "<?p?><a y=\"7-\"> <b>-e1</b><c>d/></a>".toList))
          (.header (.element "a" [⟨"y", .text "7-"⟩]
            [.element "b" [] [.text "-e1"], .closed "c>d" []])) ∧
      Node.Shaped Node.OpenName Node.ClosedName (.header (.element "a" [⟨"y", .text "7-"⟩]
        [.element "b" [] [.text "-e1"], .closed "c>d" []])) := by
  have hrun : (⟨true, false, 9⟩ : Grammar).document.run
      (.start "<?p?><a y=\"7-\"> <b>-e1</b><c>d/></a>".toList) =
        .matched (Cursor.skip 36 (.start "<?p?><a y=\"7-\"> <b>-e1</b><c>d/></a>".toList))
          (.header (.element "a" [⟨"y", .text "7-"⟩]
            [.element "b" [] [.text "-e1"], .closed "c>d" []])) := rfl
  exact ⟨hrun, document_shaped _ hrun⟩

end MeshMarkup.Grammar
