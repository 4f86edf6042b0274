import MeshMarkup.Proofs.Document.Completeness
import MeshMarkup.Proofs.Document.Soundness
import MeshMarkup.Proofs.Document.Written

namespace MeshMarkup.Grammar

open Text MeshMarkup.Parser

/-- A tag, without its angle, begins like a prologue: with a question mark, and where there is
another one, the first of them ends like a prologue. -/
def Prologued (tag : List Char) : Prop :=
  ∃ w, tag = '?' :: w ∧ ∀ p c v, w = p ++ '?' :: c :: v → '?' ∉ p → c = '>'

mutual

/-- The written form of a tree, with a text after it, is clear: the productions that come before
the right one do not match where a name makes that possible. -/
def Clear (strict : Bool) (indent : List Char) (levels depth : Nat) : Node → List Char → Prop
  | .header child, u => Clear strict indent (levels - 1) depth child u
  | .closed name as, u =>
    let text := Node.written indent depth (.closed name as) ++ u
    (Prologued (name.toList ++ (Node.attributesText as ++ ['/'])) →
      (header (below strict levels)).reading text = .noMatch) ∧
      ('>' ∈ name.toList → (tag strict (below strict levels)).reading text = .noMatch)
  | .element name as children, u =>
    let text := Node.written indent depth (.element name as children) ++ u
    (Prologued (name.toList ++ (Node.attributesText as ++ ['>'])) →
      (header (below strict levels)).reading text = .noMatch) ∧
      (name = "" → ∀ c ∈ children, c.isPlain = true) ∧
      ClearAll strict indent (levels - 1) (depth + 1) children
        (Node.lead indent depth ++ '<' :: '/' :: (name.toList ++ '>' :: u))
  | _, _ => True

def ClearAll (strict : Bool) (indent : List Char) (levels depth : Nat) :
    List Node → List Char → Prop
  | [], _ => True
  | c :: cs, u => Clear strict indent levels depth c (Node.rows indent depth cs ++ u) ∧
      ClearAll strict indent levels depth cs u

end

/-- An element without a name has elements, or nothing, for its content. -/
inductive Unnamed : Node → Prop
  | header {child} (h : Unnamed child) : Unnamed (.header child)
  | child {name as cs c} (hc : c ∈ cs) (h : Unnamed c) : Unnamed (.element name as cs)
  | element {as cs c} (hc : c ∈ cs) (h : c.isPlain = false) : Unnamed (.element "" as cs)

theorem unnamed_header {child : Node} : Unnamed (.header child) ↔ Unnamed child := by
  refine ⟨fun h => ?_, .header⟩
  cases h with
  | header h => exact h

theorem unnamed_element {name : String} {as : List Attribute} {cs : List Node} :
    Unnamed (.element name as cs) ↔
      (name = "" ∧ ∃ c ∈ cs, c.isPlain = false) ∨ ∃ c ∈ cs, Unnamed c := by
  constructor
  · intro h
    cases h with
    | child hc h => exact Or.inr ⟨_, hc, h⟩
    | element hc h => exact Or.inl ⟨rfl, _, hc, h⟩
  · rintro (⟨rfl, c, hc, h⟩ | ⟨c, hc, h⟩)
    · exact .element hc h
    · exact .child hc h

theorem leaf_named {c : Node} (h : c.Leaf) : ¬ Unnamed c := by
  cases h <;> exact fun h => by cases h

theorem not_prologued {name : String} (hn : name.toList.head? ≠ some '?') {s : List Char}
    (hs : s.head? ≠ some '?') : ¬ Prologued (name.toList ++ s) := by
  rintro ⟨w, hw, -⟩
  have hhead : (name.toList ++ s).head? = some '?' := by rw [hw, List.head?_cons]
  cases hl : name.toList with
  | nil => exact hs (by rwa [hl, List.nil_append] at hhead)
  | cons c n =>
      rw [hl, List.head?_cons] at hn
      rw [hl, List.cons_append, List.head?_cons] at hhead
      exact hn hhead

theorem attributesText_head? {as : List Attribute} {c : Char} (hc : c ≠ '?') :
    (Node.attributesText as ++ [c]).head? ≠ some '?' := by
  cases as with
  | nil => exact fun h => hc (Option.some.inj h)
  | cons a as => exact fun h => absurd (Option.some.inj h) (by decide)

/-- A tree whose names are clear is written clearly, except for what stands in elements without a
name. -/
theorem clear_iff_named {t : Node} (h : t.Shaped Node.ClearName Node.ClearName) {strict : Bool}
    {indent : List Char} {levels depth : Nat} {u : List Char} :
    Clear strict indent levels depth t u ↔ ¬ Unnamed t := by
  induction h generalizing levels depth u with
  | header hc ih => rw [Clear, ih, unnamed_header]
  | @closed name as hn ha =>
      have hprologue : ¬ Prologued (name.toList ++ (Node.attributesText as ++ ['/'])) :=
        not_prologued hn.start (attributesText_head? (by decide))
      have hangle : '>' ∉ name.toList := fun hm => hn.chars '>' hm (by decide)
      rw [Clear]
      have hnamed : ¬ Unnamed (.closed name as) := fun h => by cases h
      exact iff_of_true ⟨fun hp => absurd hp hprologue, fun hm => absurd hm hangle⟩ hnamed
  | @branch name as cs hn ha hne hcs ih =>
      have hprologue : ¬ Prologued (name.toList ++ (Node.attributesText as ++ ['>'])) :=
        not_prologued hn.start (attributesText_head? (by decide))
      have hall {cs : List Node} (h : ∀ c ∈ cs, ∀ {levels depth : Nat} {u : List Char},
          Clear strict indent levels depth c u ↔ ¬ Unnamed c) {levels depth : Nat} {u : List Char} :
          ClearAll strict indent levels depth cs u ↔ ∀ c ∈ cs, ¬ Unnamed c := by
        induction cs generalizing u with
        | nil => simp [ClearAll]
        | cons c cs ihs =>
            rw [ClearAll, List.forall_mem_cons, h c List.mem_cons_self,
              ihs fun d hd => h d (List.mem_cons_of_mem c hd)]
      rw [Clear, hall ih, unnamed_element]
      simp [hprologue]
  | @leaf name as c hn ha hc =>
      have hprologue : ¬ Prologued (name.toList ++ (Node.attributesText as ++ ['>'])) :=
        not_prologued hn.start (attributesText_head? (by decide))
      have hleaf := leaf_named hc
      have hclear : ClearAll strict indent (levels - 1) (depth + 1) [c]
          (Node.lead indent depth ++ '<' :: '/' :: (name.toList ++ '>' :: u)) := by
        refine ⟨?_, trivial⟩
        cases hc <;> trivial
      rw [Clear, unnamed_element]
      simp [hprologue, hleaf, hclear]

theorem named_of_wellFormed {t : Node} (h : t.WellFormed) : ¬ Unnamed t := by
  induction h with
  | header _ ih => rwa [unnamed_header]
  | closed => exact fun h => by cases h
  | branch hn _ _ _ ih =>
      rw [unnamed_element]
      simpa [hn.ne] using ih
  | leaf hn _ hc =>
      rw [unnamed_element]
      simpa [hn.ne] using leaf_named hc

theorem clear_of_wellFormed {t : Node} (h : t.WellFormed) (strict : Bool) (indent : List Char)
    (levels depth : Nat) (u : List Char) : Clear strict indent levels depth t u :=
  (clear_iff_named (h.imp (fun _ hn => hn.clear) fun _ hn => hn.clear)).mpr (named_of_wellFormed h)

section Written

variable {strict : Bool} {indent : List Char} {levels depth : Nat}

/-- A written tree, with a text after it, is read to its end and as an equal tree. -/
def Returns (strict : Bool) (indent : List Char) (levels depth : Nat) (t : Node) (u : List Char) :
    Prop :=
  ∃ v, (documentWithin strict (levels + 1)).reading (t.written indent depth ++ u) = .matched u v ∧
    t.same v = true

theorem header_noMatch_of_clear {name : String} {as : List Attribute} {s : List Char}
    (h : AttributeRun as s) {c : Char} (hc : c ≠ '?') {text u : List Char}
    (htext : text = '<' :: (name.toList ++ (s ++ c :: u)))
    (hclear : Prologued (name.toList ++ (s ++ [c])) →
      (header (below strict levels)).reading text = .noMatch) :
    (header (below strict levels)).reading text = .noMatch := by
  by_cases hprologue : Prologued (name.toList ++ (s ++ [c]))
  · exact hclear hprologue
  · cases hl : name.toList with
    | nil =>
        rw [htext]
        exact header_noMatch_of_name (by simp [hl]) h hc u
    | cons d n =>
        by_cases hd : d = '?'
        · subst hd
          rw [hl] at hprologue
          obtain ⟨p, e, v, hsplit, hfree, hne⟩ : ∃ p e v, n ++ (s ++ [c]) = p ++ '?' :: e :: v ∧
              '?' ∉ p ∧ e ≠ '>' := by
            by_contra hnone
            refine hprologue ⟨n ++ (s ++ [c]), rfl, fun p e v hsplit hfree => ?_⟩
            exact Classical.byContradiction fun hne => hnone ⟨p, e, v, hsplit, hfree, hne⟩
          have hbody : n ++ (s ++ c :: u) = p ++ '?' :: e :: (v ++ u) := by
            calc n ++ (s ++ c :: u) = n ++ (s ++ [c]) ++ u := by simp
              _ = p ++ '?' :: e :: (v ++ u) := by rw [hsplit]; simp
          rw [htext, hl, List.cons_append, hbody]
          exact header_noMatch_of_question hfree hne
        · rw [htext]
          exact header_noMatch_of_name (by simp [hl, hd]) h hc u

theorem written_append_solid (indent : List Char) {t : Node} {opens closes : String → Prop}
    (h : t.Shaped opens closes) (depth : Nat) (u : List Char) :
    Solid (t.written indent depth ++ u) := by
  obtain ⟨v, hv⟩ := Node.written_start h indent depth
  rw [hv]
  exact solid_angle v

theorem returns_header (hi : Blank indent) {child : Node} {u : List Char}
    (hchild : child.Shaped Node.OpenName Node.ClosedName)
    (h : Returns strict indent levels depth child u) :
    Returns strict indent (levels + 1) depth (.header child) u := by
  obtain ⟨v, hv, hsame⟩ := h
  refine ⟨.header v, ?_, hsame⟩
  rw [Node.written, Node.prologue_eq]
  have hread := @documentWithin_header strict _ "xml version=\"1.0\" encoding=\"utf-8\"".toList
    _ _ _ _ (by decide) (Node.blank_lead hi depth) (written_append_solid indent hchild depth u) hv
  simpa using hread

theorem returns_closed {name : String} (hn : Node.ClosedName name) {as : List Attribute}
    (ha : ∀ a ∈ as, a.Shaped) {u : List Char}
    (hc : Clear strict indent levels depth (.closed name as) u) :
    Returns strict indent levels depth (.closed name as) u := by
  have hrun := Node.attributesText_rendering as
  have htext := Node.written_closed_append indent depth name as u
  refine ⟨.closed name as, documentWithin_closed hn hrun ha htext
    (header_noMatch_of_clear hrun (by decide) htext hc.1) ?_, by simp [Node.same]⟩
  by_cases hm : '>' ∈ name.toList
  · exact hc.2 hm
  · rw [htext]
    refine tag_noMatch_closed (fun c hcn hc => ?_) hrun ha u
    have hne : c ≠ '>' := fun he => hm (he ▸ hcn)
    exact hn c hcn (by simpa [hne] using hc)

theorem rounds_rows (hi : Blank indent) {cs : List Node}
    (hshape : ∀ c ∈ cs, c.Shaped Node.OpenName Node.ClosedName)
    (ih : ∀ c ∈ cs, ∀ u, Clear strict indent levels depth c u →
      Returns strict indent levels depth c u)
    {w rest : List Char} (hw : Blank w) (hrest : Solid rest)
    (hstop : (below strict (levels + 1)).reading rest = .noMatch)
    (hc : ClearAll strict indent levels depth cs (w ++ rest)) :
    ∃ vs, Rounds (below strict (levels + 1)) optionalBlanks
      (Node.rows indent depth cs ++ (w ++ rest)) vs rest ∧ Node.sameAll cs vs = true := by
  induction cs with
  | nil => exact ⟨[], .trailing (reading_optional_blanks hw hrest) hstop, rfl⟩
  | cons c cs ihs =>
      obtain ⟨v, hv, hsame⟩ := ih c List.mem_cons_self _ hc.1
      obtain ⟨vs, hvs, hsames⟩ := ihs (fun d hd => hshape d (List.mem_cons_of_mem c hd))
        (fun d hd => ih d (List.mem_cons_of_mem c hd)) hc.2
      refine ⟨v :: vs, ?_, by rw [Node.sameAll, hsame, hsames]; rfl⟩
      rw [Node.rows, List.append_assoc, List.append_assoc]
      refine .more (reading_optional_blanks (Node.blank_lead hi depth)
        (written_append_solid indent (hshape c List.mem_cons_self) depth _)) ?_ ?_ hvs
      · rw [reading_below]
        exact hv
      · intro he
        have hlen := congrArg List.length he
        simp only [List.length_append, Node.lead, List.length_cons] at hlen
        omega

/-- The elements of a list are read one after the other, and the closing tag is none of them. -/
theorem returns_branch (hi : Blank indent) {name : String} (hn : Node.OpenName name)
    {as : List Attribute} (ha : ∀ a ∈ as, a.Shaped) {c : Node} {cs : List Node}
    (hcs : ∀ d ∈ c :: cs, d.Shaped Node.OpenName Node.ClosedName)
    (ih : ∀ d ∈ c :: cs, ∀ u, Clear strict indent levels (depth + 1) d u →
      Returns strict indent levels (depth + 1) d u) {u : List Char}
    (hclear : Clear strict indent (levels + 1) depth (.element name as (c :: cs)) u) :
    Returns strict indent (levels + 1) depth (.element name as (c :: cs)) u := by
  obtain ⟨hheader, hname, hfirst, hrows⟩ := hclear
  have hc := hcs c List.mem_cons_self
  have hrun := Node.attributesText_rendering as
  have hk := hn.no_angle
  have hne : name ≠ "" := fun he =>
    absurd (hname he c List.mem_cons_self) (by simp [hc.not_isPlain])
  obtain ⟨v, hv, hsame⟩ := ih c List.mem_cons_self _ hfirst
  obtain ⟨vs, hvs, hsames⟩ := rounds_rows hi (fun d hd => hcs d (List.mem_cons_of_mem c hd))
    (fun d hd => ih d (List.mem_cons_of_mem c hd)) (Node.blank_lead hi depth)
    (solid_angle _) (below_noMatch_closing (Nat.succ_pos levels) hne hk u) hrows
  have hwritten := Node.written_branch_append indent depth name as hcs u
  refine ⟨.element name as (v :: vs), documentWithin_element hn hrun ha
    (Node.blank_lead hi (depth + 1)) (fun x => ?_) hk (fun _ => rfl) hwritten
    (header_noMatch_of_clear hrun (by decide) hwritten hheader) ?_, ?_⟩
  · rw [List.append_assoc]
    exact written_append_solid indent hc (depth + 1) _
  · refine orElse_matched.mpr (Or.inl (orElse_matched.mpr (Or.inl ?_)))
    refine delimited_matched.mpr ⟨_, v, vs, rfl, ?_, hvs⟩
    rw [reading_below, ← hv, List.append_assoc, List.append_assoc]
  · simp [Node.same, Node.sameAll, hsame, hsames]

theorem returns_leaf {name : String} (hn : Node.OpenName name) {as : List Attribute}
    (ha : ∀ a ∈ as, a.Shaped) {c : Node} (hleaf : c.Leaf) {u : List Char}
    (hc : Clear strict indent (levels + 1) depth (.element name as [c]) u) :
    Returns strict indent (levels + 1) depth (.element name as [c]) u := by
  have hrun := Node.attributesText_rendering as
  have hk := hn.no_angle
  have hwritten := Node.written_leaf_append indent depth name as hleaf u
  have htext := Node.leafText_unsigned hleaf
  refine ⟨.element name as [c.unsigned], documentWithin_element hn hrun ha blank_nil
    (leafText_solid hleaf.unsigned htext) hk (fun _ => rfl) hwritten
    (header_noMatch_of_clear hrun (by decide) hwritten hc.1)
    (reading_leaf (Nat.succ_pos levels) hleaf.unsigned htext hk (fun he => ?_) u), ?_⟩
  · rw [Node.unsigned_isPlain]
    exact hc.2.1 he c List.mem_cons_self
  · simp [Node.same, Node.sameAll, hleaf.same_unsigned]

theorem returns_of_clear (hi : Blank indent) {t : Node}
    (h : t.Shaped Node.OpenName Node.ClosedName) (hl : t.nesting ≤ levels) {u : List Char}
    (hc : Clear strict indent levels depth t u) : Returns strict indent levels depth t u := by
  induction h generalizing levels depth u with
  | header hchild ih =>
      obtain ⟨m, rfl, hm⟩ := Node.header_levels hl
      exact returns_header hi hchild (ih hm hc)
  | closed hn ha => exact returns_closed hn ha hc
  | @branch _ _ cs hn ha hne hcs ih =>
      obtain ⟨m, rfl, hm⟩ := Node.element_levels hl
      obtain ⟨c, cs, rfl⟩ := List.exists_cons_of_ne_nil hne
      exact returns_branch hi hn ha hcs (fun d hd u hclear => ih d hd (hm d hd) hclear) hc
  | leaf hn ha hleaf =>
      obtain ⟨m, rfl, hm⟩ := Node.element_levels hl
      exact returns_leaf hn ha hleaf hc

/-- A written tree that is read as an equal one, whatever follows, is clear and read to its end. -/
def ClearWhenRead (strict : Bool) (indent : List Char) (levels depth : Nat) (t : Node) : Prop :=
  ∀ {u rest : List Char} {v : Node},
    (documentWithin strict (levels + 1)).reading (t.written indent depth ++ u) = .matched rest v →
      t.same v = true → Clear strict indent levels depth t u ∧ rest = u

theorem same_header {child v : Node} (h : (Node.header child).same v = true) :
    ∃ d, v = .header d ∧ child.same d = true := by
  cases v <;> simp [Node.same] at h
  exact ⟨_, rfl, h⟩

theorem same_closed {name : String} {as : List Attribute} {v : Node}
    (h : (Node.closed name as).same v = true) : v = .closed name as := by
  cases v <;> simp [Node.same] at h
  rw [h.1, h.2]

theorem same_element {name : String} {as : List Attribute} {cs : List Node} {v : Node}
    (h : (Node.element name as cs).same v = true) :
    ∃ ds, v = .element name as ds ∧ Node.sameAll cs ds = true := by
  cases v <;> simp [Node.same] at h
  obtain ⟨⟨rfl, rfl⟩, h⟩ := h
  exact ⟨_, rfl, h⟩

theorem sameAll_nil {vs : List Node} (h : Node.sameAll [] vs = true) : vs = [] := by
  cases vs with
  | nil => rfl
  | cons v vs => simp [Node.sameAll] at h

theorem sameAll_cons {c : Node} {cs vs : List Node} (h : Node.sameAll (c :: cs) vs = true) :
    ∃ v vs', vs = v :: vs' ∧ c.same v = true ∧ Node.sameAll cs vs' = true := by
  cases vs with
  | nil => simp [Node.sameAll] at h
  | cons v vs =>
      simp only [Node.sameAll, Bool.and_eq_true] at h
      exact ⟨v, vs, rfl, h⟩

theorem same_isMarkup {t v : Node} (h : t.same v = true) : v.isMarkup = t.isMarkup := by
  cases t <;> cases v <;> simp [Node.same] at h <;> rfl

theorem header_of_reading {child v : Node} {text rest : List Char}
    (h : (documentWithin strict (levels + 1)).reading text = .matched rest v)
    (hs : (Node.header child).same v = true) :
    ∃ d, (header (below strict levels)).reading text = .matched rest (.header d) ∧
      child.same d = true := by
  obtain ⟨d, rfl, hd⟩ := same_header hs
  rw [documentWithin_succ] at h
  obtain h | ⟨-, h | ⟨-, h⟩⟩ := documentOver_matched.mp h
  · exact ⟨d, h, hd⟩
  · cases tag_matched.mp h
  · obtain ⟨_, _, _, -, -, h⟩ := closedTag_matched.mp h
    exact absurd h (by simp)

theorem closed_of_reading {name : String} {as : List Attribute} {v : Node} {text rest : List Char}
    (h : (documentWithin strict (levels + 1)).reading text = .matched rest v)
    (hs : (Node.closed name as).same v = true) :
    (header (below strict levels)).reading text = .noMatch ∧
      (tag strict (below strict levels)).reading text = .noMatch := by
  obtain rfl := same_closed hs
  rw [documentWithin_succ] at h
  obtain h | ⟨hheader, h | ⟨htag, -⟩⟩ := documentOver_matched.mp h
  · obtain ⟨_, _, _, _, -, -, -, -, -, h⟩ := header_matched h
    exact absurd h (by simp)
  · cases tag_matched.mp h
  · exact ⟨hheader, htag⟩

theorem content_of_reading {name : String} (hn : Node.OpenName name)
    {as : List Attribute} {s : List Char} (hrun : AttributeRun as s) (ha : ∀ a ∈ as, a.Shaped)
    {w t text rest : List Char} (hw : Blank w) (ht : Solid t) {cs : List Node} {v : Node}
    (htext : text = '<' :: (name.toList ++ (s ++ '>' :: (w ++ t))))
    (h : (documentWithin strict (levels + 1)).reading text = .matched rest v)
    (hs : (Node.element name as cs).same v = true) :
    (header (below strict levels)).reading text = .noMatch ∧
      ∃ after ds, (content (below strict levels)).reading t = .matched after ds ∧
        Node.sameAll cs ds = true := by
  obtain ⟨ds, rfl, hds⟩ := same_element hs
  rw [documentWithin_succ] at h
  obtain h | ⟨hheader, h | ⟨-, h⟩⟩ := documentOver_matched.mp h
  · obtain ⟨_, _, _, _, -, -, -, -, -, h⟩ := header_matched h
    exact absurd h (by simp)
  · refine ⟨hheader, ?_⟩
    have h := tag_matched.mp h
    rw [htext] at h
    cases h with
    | mk hopening hblanks hcontent hend hk hstrict =>
        have hread := reading_openTagName hn hrun ha (w ++ t)
        obtain ⟨hbody, -⟩ := Reading.matched.inj (hread.symm.trans hopening)
        obtain ⟨-, rfl⟩ := List.cons.inj hbody
        obtain ⟨rfl, -⟩ := Reading.matched.inj ((reading_optional_blanks hw ht).symm.trans hblanks)
        exact ⟨_, _, hcontent, hds⟩
  · obtain ⟨_, _, _, -, -, h⟩ := closedTag_matched.mp h
    exact absurd h (by simp)

theorem nodes_of_content {element : Parser Node} [element.Local] {text rest : List Char} {v : Node}
    {vs : List Node} (h : (content element).reading text = .matched rest (v :: vs))
    (hm : v.isMarkup = true) :
    (element.delimited optionalBlanks).reading text = .matched rest (v :: vs) := by
  obtain h | ⟨-, c, he, h⟩ := content_alternatives h
  · exact h
  · obtain ⟨rfl, -⟩ := List.cons.inj he
    obtain h | ⟨-, h⟩ := h
    · obtain ⟨parts, -, rfl⟩ := map_matched.mp h
      exact absurd hm (by simp [Node.isMarkup])
    · obtain ⟨rfl, -⟩ | ⟨_, _, rfl, -⟩ := text_matched h
      · exact absurd hm (by simp [Node.isMarkup])
      · exact absurd hm (by simp [Node.isMarkup])

theorem first_of_content {element : Parser Node} [element.Local] {text mid rest : List Char}
    {a : Node} {ds : List Node} (ha : element.reading text = .matched mid a)
    (h : (content element).reading text = .matched rest ds) : ∃ bs, ds = a :: bs := by
  obtain h | ⟨hn, -⟩ := content_alternatives h
  · obtain ⟨_, b, bs, rfl, hb, -⟩ := delimited_matched.mp h
    obtain ⟨-, rfl⟩ := Reading.matched.inj (ha.symm.trans hb)
    exact ⟨bs, rfl⟩
  · exact absurd (ha.symm.trans hn) (by simp)

theorem below_nameless_closing (levels : Nat) (u : List Char) :
    (below strict (levels + 1)).reading ('<' :: '/' :: '>' :: u) = .matched u (.closed "" []) := by
  rw [reading_below, documentWithin_succ]
  exact documentOver_nameless_closing u

theorem child_of_reading (hi : Blank indent) {child : Node}
    (hchild : child.Shaped Node.OpenName Node.ClosedName) {u rest : List Char} {v : Node}
    (hr : (documentWithin strict (levels + 2)).reading
      (Node.written indent depth (.header child) ++ u) = .matched rest v)
    (hs : (Node.header child).same v = true) :
    ∃ d, (documentWithin strict (levels + 1)).reading (child.written indent depth ++ u) =
      .matched rest d ∧ child.same d = true := by
  obtain ⟨d, hheader, hd⟩ := header_of_reading hr hs
  have hread := @reading_header (below strict (levels + 1)) _
    "xml version=\"1.0\" encoding=\"utf-8\"".toList _ _ (by decide)
    (Node.blank_lead hi depth) (written_append_solid indent hchild depth u)
  rw [Node.written, Node.prologue_eq] at hheader
  simp only [List.cons_append, List.append_assoc, List.nil_append] at hheader
  rw [hread] at hheader
  obtain ⟨a, ha, he⟩ := Reading.map_eq_matched.mp hheader
  obtain rfl := Node.header.inj he
  exact ⟨a, (reading_below _ _).symm.trans ha, hd⟩

theorem clearAll_of_rounds (hi : Blank indent) {cs : List Node}
    (hshape : ∀ c ∈ cs, c.Shaped Node.OpenName Node.ClosedName)
    (ih : ∀ c ∈ cs, ClearWhenRead strict indent levels depth c)
    {w rest after : List Char} (hw : Blank w) (hrest : Solid rest) {vs : List Node}
    (hr : Rounds (below strict (levels + 1)) optionalBlanks
      (Node.rows indent depth cs ++ (w ++ rest)) vs after) (hs : Node.sameAll cs vs = true) :
    ClearAll strict indent levels depth cs (w ++ rest) ∧
      (below strict (levels + 1)).reading rest = .noMatch := by
  induction cs generalizing vs with
  | nil =>
      obtain rfl := sameAll_nil hs
      have hblanks := reading_optional_blanks hw hrest
      cases hr with
      | stop hd => exact absurd (hblanks.symm.trans hd) (by simp)
      | trailing hd hp =>
          obtain ⟨rfl, -⟩ := Reading.matched.inj (hblanks.symm.trans hd)
          exact ⟨trivial, hp⟩
  | cons c cs ihs =>
      obtain ⟨v, vs, rfl, hv, hvs⟩ := sameAll_cons hs
      have hblanks := reading_optional_blanks (Node.blank_lead hi depth) (written_append_solid indent
        (hshape c List.mem_cons_self) depth (Node.rows indent depth cs ++ (w ++ rest)))
      rw [Node.rows, List.append_assoc, List.append_assoc] at hr
      have hfirst {mid : List Char} (hp : (below strict (levels + 1)).reading
          (c.written indent depth ++ (Node.rows indent depth cs ++ (w ++ rest))) = .matched mid v) :=
        ih c List.mem_cons_self ((reading_below _ _).symm.trans hp) hv
      cases hr with
      | still hd hp =>
          obtain ⟨rfl, -⟩ := Reading.matched.inj (hblanks.symm.trans hd)
          have hlen := congrArg List.length (hfirst hp).2
          simp only [List.length_append, Node.lead, List.length_cons] at hlen
          omega
      | more hd hp hne hr =>
          obtain ⟨rfl, -⟩ := Reading.matched.inj (hblanks.symm.trans hd)
          obtain ⟨hclear, rfl⟩ := hfirst hp
          obtain ⟨hclears, hstop⟩ := ihs (fun d hd => hshape d (List.mem_cons_of_mem c hd))
            (fun d hd => ih d (List.mem_cons_of_mem c hd)) hr hvs
          exact ⟨⟨hclear, hclears⟩, hstop⟩

theorem clear_branch (hi : Blank indent) {name : String} (hn : Node.OpenName name)
    {as : List Attribute} (ha : ∀ a ∈ as, a.Shaped) {c : Node} {cs : List Node}
    (hcs : ∀ d ∈ c :: cs, d.Shaped Node.OpenName Node.ClosedName)
    (ih : ∀ d ∈ c :: cs, ClearWhenRead strict indent levels (depth + 1) d) {u rest : List Char} {v : Node}
    (hr : (documentWithin strict (levels + 2)).reading
      (Node.written indent depth (.element name as (c :: cs)) ++ u) = .matched rest v)
    (hs : (Node.element name as (c :: cs)).same v = true) :
    Clear strict indent (levels + 1) depth (.element name as (c :: cs)) u := by
  have hc := hcs c List.mem_cons_self
  obtain ⟨hheader, after, ds, hcontent, hsame⟩ := content_of_reading hn
    (Node.attributesText_rendering as) ha (Node.blank_lead hi (depth + 1))
    (by rw [List.append_assoc]; exact written_append_solid indent hc (depth + 1) _)
    (Node.written_branch_append indent depth name as hcs u) hr hs
  rw [List.append_assoc, List.append_assoc] at hcontent
  obtain ⟨d, ds, rfl, hd, hds⟩ := sameAll_cons hsame
  have hm := (same_isMarkup hd).trans hc.isMarkup
  obtain ⟨mid, a, bs, he, hfirst, hrounds⟩ := delimited_matched.mp (nodes_of_content hcontent hm)
  obtain ⟨rfl, rfl⟩ := List.cons.inj he
  obtain ⟨hclear, rfl⟩ := ih c List.mem_cons_self ((reading_below _ _).symm.trans hfirst) hd
  obtain ⟨hclears, hstop⟩ := clearAll_of_rounds hi (fun d hd => hcs d (List.mem_cons_of_mem c hd))
    (fun d hd => ih d (List.mem_cons_of_mem c hd)) (Node.blank_lead hi depth)
    (solid_angle _) hrounds hds
  refine ⟨fun _ => hheader, ?_, hclear, hclears⟩
  rintro rfl
  exact absurd ((below_nameless_closing levels u).symm.trans hstop) (by simp)

theorem clear_leaf {name : String} (hn : Node.OpenName name) {as : List Attribute}
    (ha : ∀ a ∈ as, a.Shaped) {c : Node} (hleaf : c.Leaf) {u rest : List Char} {v : Node}
    (hr : (documentWithin strict (levels + 2)).reading
      (Node.written indent depth (.element name as [c]) ++ u) = .matched rest v)
    (hs : (Node.element name as [c]).same v = true) :
    Clear strict indent (levels + 1) depth (.element name as [c]) u := by
  have hsolid := leafText_solid hleaf.unsigned (Node.leafText_unsigned hleaf)
  obtain ⟨hheader, after, ds, hcontent, hsame⟩ := content_of_reading hn
    (Node.attributesText_rendering as) ha blank_nil (hsolid _)
    (Node.written_leaf_append indent depth name as hleaf u) hr hs
  refine ⟨fun _ => hheader, ?_, ?_, trivial⟩
  · rintro rfl c' hc'
    obtain rfl := List.mem_singleton.mp hc'
    cases hleaf with
    | text _ _ _ _ => rfl
    | numbers _ _ => rfl
    | empty =>
        obtain ⟨bs, rfl⟩ := first_of_content (below_nameless_closing levels u) hcontent
        simp [Node.sameAll, Node.same] at hsame
  · cases hleaf <;> trivial

theorem clear_of_reading (hi : Blank indent) {t : Node}
    (h : t.Shaped Node.OpenName Node.ClosedName) (hl : t.nesting ≤ levels) {u rest : List Char}
    {v : Node} (hr : (documentWithin strict (levels + 1)).reading (t.written indent depth ++ u) =
      .matched rest v) (hs : t.same v = true) : Clear strict indent levels depth t u := by
  induction h generalizing levels depth u rest v with
  | header hchild ih =>
      obtain ⟨m, rfl, hm⟩ := Node.header_levels hl
      obtain ⟨d, hd, hsame⟩ := child_of_reading hi hchild hr hs
      exact ih hm hd hsame
  | closed hn ha =>
      obtain ⟨hheader, htag⟩ := closed_of_reading hr hs
      exact ⟨fun _ => hheader, fun _ => htag⟩
  | @branch _ _ cs hn ha hne hcs ih =>
      obtain ⟨m, rfl, hm⟩ := Node.element_levels hl
      obtain ⟨c, cs, rfl⟩ := List.exists_cons_of_ne_nil hne
      refine clear_branch hi hn ha hcs (fun d hd u rest v hr hs => ?_) hr hs
      -- A child whose text is clear is read to its end.
      have hclear := ih d hd (hm d hd) hr hs
      obtain ⟨v', hv', -⟩ := returns_of_clear hi (hcs d hd) (hm d hd) hclear
      exact ⟨hclear, (Reading.matched.inj (hr.symm.trans hv')).1⟩
  | leaf hn ha hleaf =>
      obtain ⟨m, rfl, hm⟩ := Node.element_levels hl
      exact clear_leaf hn ha hleaf hr hs

end Written

end MeshMarkup.Grammar
