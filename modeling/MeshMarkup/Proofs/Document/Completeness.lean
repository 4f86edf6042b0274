import MeshMarkup.Proofs.Document.Elements

namespace MeshMarkup.Grammar

open Text MeshMarkup.Parser

variable {strict : Bool} {element : Parser Node} [element.Local]

theorem leafText_solid {c : Node} {s : List Char} (hc : c.Leaf) (hs : LeafText c s) (u : List Char) :
    Solid (s ++ '<' :: u) := by
  cases hs with
  | numbers hs => exact hs.solid (fun _ _ _ hx => numberText_solid hx) _
  | text =>
      cases hc with
      | text hne _ hsolid _ => exact hsolid.append fun h => hne (String.toList_eq_nil_iff.mp h)
  | empty => exact solid_angle u

theorem leafText_no_angle {c : Node} {s : List Char} (hc : c.Leaf) (hs : LeafText c s)
    (hplain : c.isPlain = true) (u : List Char) : ¬ ['<'] <+: s ++ u := by
  have hfront {d : Char} {v : List Char} (hd : d ≠ '<') : ¬ ['<'] <+: d :: v :=
    fun hp => hd (List.cons_prefix_cons.mp hp).1.symm
  cases hs with
  | numbers hs =>
      cases hs with
      | mk hx _ =>
          obtain ⟨d, v, rfl, hd⟩ := numberText_start hx
          refine hfront ?_
          rintro rfl
          exact absurd hd (by decide)
  | @text content =>
      cases hc with
      | text hne hopen _ _ =>
          cases hl : content.toList with
          | nil => exact absurd (String.toList_eq_nil_iff.mp hl) hne
          | cons d v =>
              refine hfront ?_
              rintro rfl
              exact hopen (hl ▸ List.mem_cons_self)
  | empty => exact absurd hplain (by simp [Node.isPlain])

theorem below_noMatch {levels : Nat} (hpos : 0 < levels) {text : List Char} (h : ¬ ['<'] <+: text) :
    (below strict levels).reading text = .noMatch := by
  cases levels with
  | zero => exact absurd hpos (Nat.lt_irrefl 0)
  | succ levels =>
      rw [reading_below, documentWithin_succ]
      exact documentOver_noMatch h

theorem below_noMatch_closing {levels : Nat} (hpos : 0 < levels) {closing : String}
    (hne : closing ≠ "") (hk : '>' ∉ closing.toList) (u : List Char) :
    (below strict levels).reading ('<' :: '/' :: (closing.toList ++ '>' :: u)) = .noMatch := by
  cases levels with
  | zero => exact absurd hpos (Nat.lt_irrefl 0)
  | succ levels =>
      rw [reading_below, documentWithin_succ]
      exact documentOver_noMatch_closing hne hk u

theorem reading_leaf {levels : Nat} (hpos : 0 < levels) {c : Node} {s : List Char} (hc : c.Leaf)
    (hs : LeafText c s) {closing : String} (hk : '>' ∉ closing.toList)
    (hplain : closing = "" → c.isPlain = true) (u : List Char) :
    (content (below strict levels)).reading (s ++ '<' :: '/' :: (closing.toList ++ '>' :: u)) =
      .matched ('<' :: '/' :: (closing.toList ++ '>' :: u)) [c] := by
  refine reading_content_leaf hc hs ?_
  by_cases hp : c.isPlain = true
  · exact below_noMatch hpos (leafText_no_angle hc hs hp _)
  · cases hs with
    | numbers _ => exact absurd rfl hp
    | text => exact absurd rfl hp
    | empty => exact below_noMatch_closing hpos (fun he => hp (hplain he)) hk u

theorem documentWithin_header {levels : Nat} {prologue w s rest : List Char} {child : Node}
    (hp : '?' ∉ prologue) (hw : Blank w) (hs : Solid s)
    (hc : (documentWithin strict levels).reading s = .matched rest child) :
    (documentWithin strict (levels + 1)).reading
      ('<' :: '?' :: (prologue ++ '?' :: '>' :: (w ++ s))) = .matched rest (.header child) := by
  rw [documentWithin_succ]
  refine documentOver_matched.mpr (Or.inl ?_)
  rw [reading_header hp hw hs, reading_below, hc]
  rfl

theorem documentWithin_element {levels : Nat} {name closing : String} (hn : Node.OpenName name)
    {as : List Attribute} {s : List Char} (hrun : AttributeRun as s) (ha : ∀ a ∈ as, a.Shaped)
    {w : List Char} (hw : Blank w) {t u : List Char} (hsolid : ∀ v, Solid (t ++ '<' :: v))
    {cs : List Node} (hk : '>' ∉ closing.toList) (hstrict : strict = true → closing = name)
    {text : List Char} (htext : text = '<' :: (name.toList ++ (s ++ '>' :: (w ++ (t ++ '<' :: '/' ::
      (closing.toList ++ '>' :: u))))))
    (hheader : (header (below strict levels)).reading text = .noMatch)
    (hcontent : (content (below strict levels)).reading
      (t ++ '<' :: '/' :: (closing.toList ++ '>' :: u)) =
        .matched ('<' :: '/' :: (closing.toList ++ '>' :: u)) cs) :
    (documentWithin strict (levels + 1)).reading text = .matched u (.element name as cs) := by
  rw [documentWithin_succ]
  refine documentOver_matched.mpr (Or.inr ⟨hheader, Or.inl (tag_matched.mpr ?_)⟩)
  rw [htext]
  exact .mk (reading_openTagName hn hrun ha _) (reading_optional_blanks hw (hsolid _)) hcontent
    (reading_optional_blanks blank_nil (solid_angle _)) hk hstrict

theorem documentWithin_closed {levels : Nat} {name : String} (hn : Node.ClosedName name)
    {as : List Attribute} {s : List Char} (hrun : AttributeRun as s) (ha : ∀ a ∈ as, a.Shaped)
    {text u : List Char} (htext : text = '<' :: (name.toList ++ (s ++ '/' :: '>' :: u)))
    (hheader : (header (below strict levels)).reading text = .noMatch)
    (htag : (tag strict (below strict levels)).reading text = .noMatch) :
    (documentWithin strict (levels + 1)).reading text = .matched u (.closed name as) := by
  rw [documentWithin_succ]
  refine documentOver_matched.mpr (Or.inr ⟨hheader, Or.inr ⟨htag, ?_⟩⟩)
  rw [htext]
  exact reading_closedTag hn hrun ha u

theorem complete_closed {levels : Nat} {name : String} (hn : Node.ClearName name)
    {as : List Attribute} (ha : ∀ a ∈ as, a.Shaped) {s : List Char} (hrun : AttributeRun as s)
    (u : List Char) :
    (documentWithin strict (levels + 1)).reading
      ('<' :: (name.toList ++ (s ++ ['/', '>'])) ++ u) = .matched u (.closed name as) := by
  refine documentWithin_closed hn.closed hrun ha (by simp) ?_ ?_
  · simpa using header_noMatch_of_name hn.start hrun (by decide) _
  · simpa using tag_noMatch_closed hn.open hrun ha u

theorem complete_element {levels : Nat} {name closing : String} (hn : Node.ClearName name)
    {as : List Attribute} (ha : ∀ a ∈ as, a.Shaped) {s : List Char} (hrun : AttributeRun as s)
    {w : List Char} (hw : Blank w) {t u : List Char} (hsolid : ∀ v, Solid (t ++ '<' :: v))
    {cs : List Node} (hk : '>' ∉ closing.toList) (hstrict : strict = true → closing = name)
    (hcontent : (content (below strict levels)).reading
      (t ++ '<' :: '/' :: (closing.toList ++ '>' :: u)) =
        .matched ('<' :: '/' :: (closing.toList ++ '>' :: u)) cs) :
    (documentWithin strict (levels + 1)).reading ('<' :: (name.toList ++ (s ++ '>' :: (w ++ (t ++
      '<' :: '/' :: (closing.toList ++ ['>']))))) ++ u) = .matched u (.element name as cs) := by
  refine documentWithin_element hn.open hrun ha hw hsolid hk hstrict (by simp) ?_ hcontent
  simpa using header_noMatch_of_name hn.start hrun (by decide) _

theorem reading_nodes {levels : Nat} {cs : List Node} {t : List Char}
    (hrow : Spaced (Rendering strict) Blank cs t)
    (ih : ∀ c ∈ cs, ∀ s, Rendering strict c s → ∀ u,
      (documentWithin strict (levels + 1)).reading (s ++ u) = .matched u c)
    {closing : String} (hne : closing ≠ "") (hk : '>' ∉ closing.toList) (u : List Char) :
    (content (below strict (levels + 1))).reading
      (t ++ '<' :: '/' :: (closing.toList ++ '>' :: u)) =
        .matched ('<' :: '/' :: (closing.toList ++ '>' :: u)) cs := by
  refine reading_content_nodes hrow (fun c hm s hr v => ?_) (fun _ _ _ hr => hr.solid)
    (solid_angle _) (below_noMatch_closing (Nat.succ_pos levels) hne hk u)
  rw [reading_below]
  exact ih c hm s hr v

theorem documentWithin_rendering {t : Node} (h : t.Shaped Node.ClearName Node.ClearName)
    {levels : Nat} (hlevels : t.nesting ≤ levels) {s : List Char} (hs : Rendering strict t s)
    (u : List Char) : (documentWithin strict (levels + 1)).reading (s ++ u) = .matched u t := by
  induction h generalizing levels s u with
  | header hc ih =>
      obtain ⟨m, rfl, hchild⟩ := Node.header_levels hlevels
      cases hs with
      | header hp hw hs =>
          have hsolid : Solid (_ ++ u) := hs.solid.2.append hs.solid.1
          have hread := documentWithin_header hp hw hsolid (ih hchild hs u)
          simpa using hread
  | closed hn ha =>
      cases hs with
      | closed hrun => exact complete_closed hn ha hrun u
  | @branch name as cs hn ha hne hcs ih =>
      obtain ⟨m, rfl, hchildren⟩ := Node.element_levels hlevels
      cases hs with
      | element hrun hw hc hk hstrict hplain =>
          cases hc with
          | nodes hrow =>
              -- A list of elements leaves no room for a closing tag without a name.
              obtain ⟨c, hc⟩ := List.exists_mem_of_ne_nil cs hne
              refine complete_element hn ha hrun hw (fun v => ?_) hk hstrict
                (reading_nodes hrow (fun c hm s hr v => ih c hm (hchildren c hm) hr v)
                  (fun he => ?_) hk u)
              · exact hrow.solid (fun _ _ _ hr => hr.solid) _
              · exact absurd (hplain he c hc) (by simp [(hcs c hc).not_isPlain])
          | leaf htext =>
              have hm := (hcs _ List.mem_cons_self).isMarkup
              exact absurd (htext.not_isMarkup.symm.trans hm) Bool.false_ne_true
  | leaf hn ha hc =>
      obtain ⟨m, rfl, hchildren⟩ := Node.element_levels hlevels
      cases hs with
      | element hrun hw hcontent hk hstrict hplain =>
          cases hcontent with
          | nodes hrow =>
              cases hrow with
              | mk hr _ =>
                  exact absurd (hc.not_isMarkup.symm.trans hr.isMarkup) Bool.false_ne_true
          | leaf htext =>
              exact complete_element hn ha hrun hw (leafText_solid hc htext) hk hstrict
                (reading_leaf (Nat.succ_pos m) hc htext hk
                  (fun he => hplain he _ List.mem_cons_self) u)

theorem documentWithin_complete {t : Node} (h : t.WellFormed) {levels : Nat}
    (hlevels : t.nesting ≤ levels) {s : List Char} (hs : Rendering strict t s) (u : List Char) :
    (documentWithin strict (levels + 1)).reading (s ++ u) = .matched u t :=
  documentWithin_rendering (h.imp (fun _ hn => hn.clear) fun _ hn => hn.clear) hlevels hs u

end MeshMarkup.Grammar
