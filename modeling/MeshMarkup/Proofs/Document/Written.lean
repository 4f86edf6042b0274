import MeshMarkup.Document.Traversal
import MeshMarkup.Proofs.Document.Rendering
import MeshMarkup.Proofs.Except
import MeshMarkup.Proofs.Number.Numeral

namespace MeshMarkup

open Text

theorem intercalate_eq_flatMap {α : Type} (sep x : List α) (xs : List (List α)) :
    sep.intercalate (x :: xs) = x ++ xs.flatMap (sep ++ ·) := by
  induction xs generalizing x with
  | nil => simp
  | cons y ys ih => rw [List.intercalate_cons_cons, ih, List.flatMap_cons]; simp

namespace Node

def lead (indent : List Char) (depth : Nat) : List Char :=
  '\n' :: (List.replicate depth indent).flatten

def valueText : AttributeValue → List Char
  | .text content => content.toList
  | .integer n => Numeral.intDigits n

def attributeText (a : Attribute) : List Char :=
  a.name.toList ++ '=' :: '"' :: (valueText a.value ++ ['"'])

def attributesText (as : List Attribute) : List Char := as.flatMap fun a => ' ' :: attributeText a

def numberText (x : Binary64) : List Char := (Numeral.documentText? x).getD []

def leafText : Node → List Char
  | text content => content.toList
  | numbers values => [' '].intercalate (values.map numberText)
  | _ => []

mutual

def written (indent : List Char) (depth : Nat) : Node → List Char
  | header child => Printer.prologue.toList ++ (lead indent depth ++ child.written indent depth)
  | closed name as => '<' :: (name.toList ++ (attributesText as ++ ['/', '>']))
  | element name as children =>
    let inner :=
      if children.all isMarkup then rows indent (depth + 1) children ++ lead indent depth
      else children.flatMap leafText
    '<' :: (name.toList ++ (attributesText as ++ '>' :: (inner ++ '<' :: '/' :: (name.toList ++ ['>']))))
  | node => leafText node

def rows (indent : List Char) (depth : Nat) : List Node → List Char
  | [] => []
  | node :: nodes => lead indent depth ++ (node.written indent depth ++ rows indent depth nodes)

end

theorem blank_lead {indent : List Char} (hi : Blank indent) (depth : Nat) :
    Blank (lead indent depth) := by
  refine blank_cons.mpr ⟨by decide, ?_⟩
  intro c hc
  obtain ⟨w, hw, hcw⟩ := List.mem_flatten.mp hc
  exact hi c (List.eq_of_mem_replicate hw ▸ hcw)

theorem written_start {opens closes : String → Prop} {t : Node} (h : Shaped opens closes t)
    (indent : List Char) (depth : Nat) : ∃ u, t.written indent depth = '<' :: u := by
  cases h <;> exact ⟨_, rfl⟩

theorem written_branch {opens closes : String → Prop} (indent : List Char) (depth : Nat)
    (name : String) (as : List Attribute) {cs : List Node} (h : ∀ c ∈ cs, Shaped opens closes c) :
    written indent depth (.element name as cs) =
      '<' :: (name.toList ++ (attributesText as ++ '>' :: (rows indent (depth + 1) cs ++
        (lead indent depth ++ '<' :: '/' :: (name.toList ++ ['>']))))) := by
  have hall : cs.all isMarkup = true := List.all_eq_true.mpr fun c hc => (h c hc).isMarkup
  simp [written, hall]

theorem written_leaf (indent : List Char) (depth : Nat) (name : String) (as : List Attribute)
    {c : Node} (h : c.Leaf) : written indent depth (.element name as [c]) =
      '<' :: (name.toList ++ (attributesText as ++ '>' :: (c.leafText ++ '<' :: '/' ::
        (name.toList ++ ['>'])))) := by
  simp [written, h.not_isMarkup]

theorem written_closed_append (indent : List Char) (depth : Nat) (name : String)
    (as : List Attribute) (u : List Char) : written indent depth (.closed name as) ++ u =
      '<' :: (name.toList ++ (attributesText as ++ '/' :: '>' :: u)) := by
  simp [written]

theorem written_branch_append {opens closes : String → Prop} (indent : List Char) (depth : Nat)
    (name : String) (as : List Attribute) {c : Node} {cs : List Node}
    (h : ∀ d ∈ c :: cs, Shaped opens closes d) (u : List Char) :
    written indent depth (.element name as (c :: cs)) ++ u =
      '<' :: (name.toList ++ (attributesText as ++ '>' :: (lead indent (depth + 1) ++
        ((c.written indent (depth + 1) ++ (rows indent (depth + 1) cs ++ lead indent depth)) ++
          '<' :: '/' :: (name.toList ++ '>' :: u))))) := by
  rw [written_branch indent depth name as h]
  simp [rows]

theorem written_leaf_append (indent : List Char) (depth : Nat) (name : String)
    (as : List Attribute) {c : Node} (h : c.Leaf) (u : List Char) :
    written indent depth (.element name as [c]) ++ u =
      '<' :: (name.toList ++ (attributesText as ++ '>' :: ([] ++ (c.leafText ++ '<' :: '/' ::
        (name.toList ++ '>' :: u))))) := by
  rw [written_leaf indent depth name as h]
  simp

theorem attributeText_rendering (a : Attribute) : AttributeText a (attributeText a) := by
  obtain ⟨name, content | n⟩ := a
  · exact .text
  · obtain ⟨l, hl, htext, rfl⟩ := exists_intDigits_literal n
    rw [attributeText, valueText, ← htext]
    exact .integer hl

theorem attributesText_rendering (as : List Attribute) : AttributeRun as (attributesText as) := by
  have hfollowing (as : List Attribute) :
      Following AttributeText BlankGap as (attributesText as) := by
    induction as with
    | nil => exact .done blank_nil
    | cons a as ih =>
        exact .next (w := [' ']) ⟨by simp, by decide⟩ (attributeText_rendering a) ih
  cases as with
  | nil => exact .none
  | cons a as => exact .some (w := []) blank_nil (.mk (attributeText_rendering a) (hfollowing as))

theorem numberText_rendering {x : Binary64} (hx : x ≠ .nan) :
    NumberText x.unsignedZero (numberText x) := by
  cases ht : Numeral.documentText? x with
  | none => exact absurd (documentText?_eq_none.mp ht) hx
  | some text =>
      obtain ⟨l, hl, htext, hd⟩ := exists_document_literal ht
      exact ⟨l, hl, hd, by rw [htext, numberText, ht]; rfl⟩

theorem numbers_rendering {xs : List Binary64} (hne : xs ≠ []) (hnan : .nan ∉ xs) :
    Spaced NumberText BlankGap (xs.map Binary64.unsignedZero)
      ([' '].intercalate (xs.map numberText)) := by
  have hfollowing {xs : List Binary64} (h : ∀ x ∈ xs, x ≠ .nan) :
      Following NumberText BlankGap (xs.map Binary64.unsignedZero)
        ((xs.map numberText).flatMap ([' '] ++ ·)) := by
    induction xs with
    | nil => exact .done blank_nil
    | cons x xs ih =>
        have hx := numberText_rendering (h x List.mem_cons_self)
        have hxs := ih fun y hy => h y (List.mem_cons_of_mem x hy)
        have hgap : BlankGap [' '] := ⟨by simp, by decide⟩
        have hnext := Following.next (w := [' ']) hgap hx hxs
        simpa using hnext
  have hne_nan : ∀ x ∈ xs, x ≠ .nan := fun x hx he => hnan (he ▸ hx)
  cases xs with
  | nil => exact absurd rfl hne
  | cons x xs =>
      rw [List.map_cons, List.map_cons, intercalate_eq_flatMap]
      exact .mk (numberText_rendering (hne_nan x List.mem_cons_self))
        (hfollowing fun y hy => hne_nan y (List.mem_cons_of_mem x hy))

theorem sameNumbers_unsignedZero {xs : List Binary64} (hnan : .nan ∉ xs) :
    sameNumbers xs (xs.map Binary64.unsignedZero) = true := by
  induction xs with
  | nil => rfl
  | cons x xs ih =>
      have hx : x ≠ .nan := fun he => hnan (he ▸ List.mem_cons_self)
      rw [List.map_cons, sameNumbers, Binary64.sameNumber_unsignedZero hx,
        ih (List.not_mem_of_not_mem_cons hnan)]
      rfl

theorem prologue_eq : Printer.prologue.toList =
    '<' :: '?' :: ("xml version=\"1.0\" encoding=\"utf-8\"".toList ++ ['?', '>']) := rfl

mutual

/-- The same tree without negative zeros, which are written as zeros. -/
def unsigned : Node → Node
  | header child => header child.unsigned
  | element name as children => element name as (unsignedAll children)
  | numbers values => numbers (values.map Binary64.unsignedZero)
  | node => node

def unsignedAll : List Node → List Node
  | [] => []
  | node :: nodes => node.unsigned :: unsignedAll nodes

end

theorem leafText_unsigned {c : Node} (h : c.Leaf) : LeafText c.unsigned c.leafText := by
  cases h with
  | empty => exact .empty
  | text _ _ _ _ => exact .text
  | numbers hne hnan => exact .numbers (numbers_rendering hne hnan)

theorem Leaf.unsigned {c : Node} (h : c.Leaf) : c.unsigned.Leaf := by
  cases h with
  | empty => exact .empty
  | text hne hopen hs hn => exact .text hne hopen hs hn
  | @numbers values hne hnan =>
      refine .numbers (by simpa using hne) fun hm => ?_
      obtain ⟨x, hx, hxn⟩ := List.mem_map.mp hm
      cases x with
      | nan => exact hnan hx
      | signed negative m => exact absurd hxn (by simp [Binary64.unsignedZero])

theorem Leaf.same_unsigned {c : Node} (h : c.Leaf) : c.same c.unsigned = true := by
  cases h with
  | empty => rfl
  | text _ _ _ _ => simp [Node.unsigned, same]
  | numbers _ hnan => exact sameNumbers_unsignedZero hnan

theorem unsigned_isPlain (c : Node) : c.unsigned.isPlain = c.isPlain := by
  cases c <;> rfl

theorem rows_following {strict : Bool} {indent : List Char} (hi : Blank indent) {depth : Nat}
    {cs : List Node} (h : ∀ c ∈ cs, Rendering strict c.unsigned (c.written indent depth))
    {w : List Char} (hw : Blank w) :
    Following (Rendering strict) Blank (unsignedAll cs) (rows indent depth cs ++ w) := by
  induction cs with
  | nil => exact .done hw
  | cons c cs ih =>
      have hnext := Following.next (blank_lead hi depth) (h c List.mem_cons_self)
        (ih fun d hd => h d (List.mem_cons_of_mem c hd))
      simpa [rows, unsignedAll] using hnext

/-- The written form of a well-formed tree is a layout of it, up to the sign of zeros. -/
theorem written_rendering {t : Node} (h : t.WellFormed) (strict : Bool) {indent : List Char}
    (hi : Blank indent) (depth : Nat) : Rendering strict t.unsigned (t.written indent depth) := by
  induction h generalizing depth with
  | header _ ih =>
      have hprologue : '?' ∉ "xml version=\"1.0\" encoding=\"utf-8\"".toList := by decide
      have hheader := Rendering.header hprologue (blank_lead hi depth) (ih depth)
      rw [written, prologue_eq]
      simpa [unsigned] using hheader
  | closed _ _ => exact .closed (attributesText_rendering _)
  | @branch name as cs hn _ hne hcs ih =>
      cases cs with
      | nil => exact absurd rfl hne
      | cons c cs =>
          have hcontent : Content (Rendering strict) (unsignedAll (c :: cs)) _ :=
            .nodes (.mk (ih c List.mem_cons_self (depth + 1))
              (rows_following hi (fun d hd => ih d (List.mem_cons_of_mem c hd) (depth + 1))
                (blank_lead hi depth)))
          have helement := Rendering.element (attributesText_rendering as)
            (blank_lead hi (depth + 1)) hcontent hn.open.no_angle (fun _ => rfl)
            (fun he => absurd he hn.ne)
          have htext := written_branch_append indent depth name as hcs []
          rw [List.append_nil] at htext
          rw [htext]
          simpa [unsigned] using helement
  | @leaf name as c hn _ hc =>
      have hcontent : Content (Rendering strict) [c.unsigned] _ := .leaf (leafText_unsigned hc)
      have helement := Rendering.element (attributesText_rendering as) blank_nil hcontent
        hn.open.no_angle (fun _ => rfl) (fun he => absurd he hn.ne)
      rw [written_leaf indent depth name as hc]
      simpa [unsigned, unsignedAll] using helement

theorem printer_attributeText {a : Attribute} (h : a.Fits) :
    Printer.attributeText a = .ok (attributeText a) := by
  obtain ⟨name, content | n⟩ := a
  · simp [Printer.attributeText, Printer.valueText, attributeText, valueText, bind, Except.bind,
      pure, Except.pure]
  · have hn := Nat.not_le_of_lt (h n rfl)
    simp [Printer.attributeText, Printer.valueText, Printer.integerText, attributeText, valueText,
      hn, bind, Except.bind, pure, Except.pure]

theorem fits_of_attributeText {a : Attribute} {text : List Char}
    (h : Printer.attributeText a = .ok text) : a.Fits := by
  rintro n hn
  refine Nat.lt_of_not_le fun hlarge => ?_
  simp [Printer.attributeText, hn, Printer.valueText, Printer.integerText, hlarge, bind,
    Except.bind] at h

theorem openingText_eq {name : String} {as : List Attribute} (h : ∀ a ∈ as, a.Fits) :
    Printer.openingText name as = .ok (name.toList ++ attributesText as) := by
  cases as with
  | nil => simp [Printer.openingText, attributesText]
  | cons a as =>
      rw [Printer.openingText, mapM_ok fun b hb => printer_attributeText (h b hb)]
      · simp [attributesText, bind, Except.bind, pure, Except.pure, List.flatMap_map]
      · simp

theorem fits_of_openingText {name : String} {as : List Attribute} {text : List Char}
    (h : Printer.openingText name as = .ok text) : ∀ a ∈ as, a.Fits := by
  cases as with
  | nil => simp
  | cons a as =>
      rw [Printer.openingText] at h
      · obtain ⟨texts, hm, -⟩ := bind_eq_ok.mp h
        intro b hb
        obtain ⟨t, ht⟩ := ok_of_mapM hm b hb
        exact fits_of_attributeText ht
      · simp

theorem printer_numberText {x : Binary64} (hx : x ≠ .nan) :
    Printer.numberText x = .ok (numberText x) := by
  cases ht : Numeral.documentText? x with
  | none => exact absurd (documentText?_eq_none.mp ht) hx
  | some text => simp [Printer.numberText, numberText, ht]

theorem lines_leaf {c : Node} (h : c.Leaf) : Printer.lines [] 0 c = .ok [c.leafText] := by
  cases h with
  | empty => rfl
  | text _ _ _ _ => rfl
  | @numbers values _ hnan =>
      have hm : values.mapM Printer.numberText = .ok (values.map numberText) :=
        mapM_ok fun x hx => printer_numberText fun he => hnan (he ▸ hx)
      simp [Printer.lines, Printer.numbersText, hm, leafText, bind, Except.bind, pure, Except.pure]

def brokenLines (ls : List (List Char)) : List Char := ls.flatMap ('\n' :: ·)

theorem linesAll_eq {indent : List Char} {depth : Nat} {cs : List Node}
    (h : ∀ c ∈ cs, ∃ ls, Printer.lines indent depth c = .ok ls ∧
      brokenLines ls = lead indent depth ++ c.written indent depth) :
    ∃ ls, Printer.linesAll indent depth cs = .ok ls ∧ brokenLines ls = rows indent depth cs := by
  induction cs with
  | nil => exact ⟨[], rfl, rfl⟩
  | cons c cs ih =>
      obtain ⟨ls, hls, htext⟩ := h c List.mem_cons_self
      obtain ⟨ms, hms, hrows⟩ := ih fun d hd => h d (List.mem_cons_of_mem c hd)
      refine ⟨ls ++ ms, ?_, ?_⟩
      · rw [Printer.linesAll, hls, hms]
        rfl
      · rw [brokenLines, List.flatMap_append, ← brokenLines, ← brokenLines, htext, hrows, rows,
          List.append_assoc]

theorem lines_eq {opens closes : String → Prop} {t : Node} (h : Shaped opens closes t)
    (hf : t.IntegersFit) (indent : List Char) (depth : Nat) :
    ∃ ls, Printer.lines indent depth t = .ok ls ∧
      brokenLines ls = lead indent depth ++ t.written indent depth := by
  induction h generalizing depth with
  | header hc ih =>
      obtain ⟨ls, hls, htext⟩ := ih hf depth
      refine ⟨((List.replicate depth indent).flatten ++ Printer.prologue.toList) :: ls, ?_, ?_⟩
      · rw [Printer.lines, hls]
        rfl
      · rw [brokenLines, List.flatMap_cons, ← brokenLines, htext]
        simp [written, lead]
  | @closed name as hn ha =>
      refine ⟨[(List.replicate depth indent).flatten ++
        '<' :: (name.toList ++ attributesText as) ++ ['/', '>']], ?_, ?_⟩
      · rw [Printer.lines, openingText_eq hf]
        rfl
      · simp [brokenLines, written, lead]
  | @branch name as cs hn ha hne hcs ih =>
      obtain ⟨ls, hls, htext⟩ := linesAll_eq fun c hc =>
        ih c hc (integersFitAll_iff.mp hf.2 c hc) (depth + 1)
      have hall : cs.all isMarkup = true := List.all_eq_true.mpr fun c hc => (hcs c hc).isMarkup
      refine ⟨((List.replicate depth indent).flatten ++ '<' :: (name.toList ++ attributesText as) ++
        ['>']) :: ls ++ [(List.replicate depth indent).flatten ++ '<' :: '/' :: name.toList ++ ['>']],
        ?_, ?_⟩
      · rw [Printer.lines, openingText_eq hf.1, hls]
        simp [bind, Except.bind, pure, Except.pure, hall, hne]
      · rw [written_branch indent depth name as hcs, ← htext]
        simp [brokenLines, lead]
  | @leaf name as c hn ha hc =>
      refine ⟨[(List.replicate depth indent).flatten ++ '<' :: (name.toList ++ attributesText as) ++
        ['>'] ++ c.leafText ++ ('<' :: '/' :: name.toList ++ ['>'])], ?_, ?_⟩
      · rw [Printer.lines, openingText_eq hf.1]
        simp [bind, Except.bind, pure, Except.pure, hc.not_isMarkup, Printer.inlineAll,
          lines_leaf hc]
      · rw [written_leaf indent depth name as hc]
        simp [brokenLines, lead]

theorem integersFit_of_linesAll {indent : List Char} {depth : Nat} {cs : List Node}
    (h : ∀ c ∈ cs, ∀ ls, Printer.lines indent depth c = .ok ls → c.IntegersFit)
    {ls : List (List Char)} (hl : Printer.linesAll indent depth cs = .ok ls) :
    IntegersFitAll cs := by
  induction cs generalizing ls with
  | nil => trivial
  | cons c cs ih =>
      rw [Printer.linesAll] at hl
      obtain ⟨first, hfirst, hl⟩ := bind_eq_ok.mp hl
      obtain ⟨others, hothers, -⟩ := bind_eq_ok.mp hl
      exact ⟨h c List.mem_cons_self first hfirst,
        ih (fun d hd => h d (List.mem_cons_of_mem c hd)) hothers⟩

theorem integersFit_of_lines {opens closes : String → Prop} {t : Node} (h : Shaped opens closes t)
    {indent : List Char} {depth : Nat} {ls : List (List Char)}
    (hl : Printer.lines indent depth t = .ok ls) : t.IntegersFit := by
  induction h generalizing depth ls with
  | header hc ih =>
      rw [Printer.lines] at hl
      obtain ⟨ms, hms, -⟩ := bind_eq_ok.mp hl
      exact ih hms
  | closed hn ha =>
      rw [Printer.lines] at hl
      obtain ⟨opening, ho, -⟩ := bind_eq_ok.mp hl
      exact fits_of_openingText ho
  | @branch name as cs hn ha hne hcs ih =>
      have hall : cs.all isMarkup = true := List.all_eq_true.mpr fun c hc => (hcs c hc).isMarkup
      rw [Printer.lines] at hl
      obtain ⟨opening, ho, hl⟩ := bind_eq_ok.mp hl
      rw [if_pos (by simp [hall, hne])] at hl
      obtain ⟨ms, hms, -⟩ := bind_eq_ok.mp hl
      exact ⟨fits_of_openingText ho, integersFit_of_linesAll (fun c hc _ hls => ih c hc hls) hms⟩
  | @leaf name as c hn ha hc =>
      rw [Printer.lines] at hl
      obtain ⟨opening, ho, -⟩ := bind_eq_ok.mp hl
      refine ⟨fits_of_openingText ho, ?_, trivial⟩
      cases hc <;> trivial

theorem print_eq {opens closes : String → Prop} {t : Node} (h : Shaped opens closes t)
    (hf : t.IntegersFit) (indent : List Char) : Printer.print indent t = .ok (t.written indent 0) := by
  obtain ⟨ls, hls, htext⟩ := lines_eq h hf indent 0
  rw [Printer.print, hls]
  refine congrArg Except.ok ?_
  cases ls with
  | nil => simp [brokenLines, lead] at htext
  | cons line ls =>
      rw [intercalate_eq_flatMap]
      simpa [brokenLines, lead] using htext

/-- A tree is printed as its written form, provided that its integers can be. -/
theorem render_eq_ok {opens closes : String → Prop} {t : Node} (h : Shaped opens closes t)
    {indent s : String} : t.render indent = .ok s ↔
      t.IntegersFit ∧ s = String.ofList (t.written indent.toList 0) := by
  constructor
  · intro hs
    obtain ⟨text, hp, hs⟩ := bind_eq_ok.mp hs
    obtain ⟨ls, hl, -⟩ := bind_eq_ok.mp hp
    have hf := integersFit_of_lines h hl
    rw [print_eq h hf] at hp
    exact ⟨hf, by rw [Except.ok.inj hp, ← Except.ok.inj hs]⟩
  · rintro ⟨hf, rfl⟩
    rw [render, print_eq h hf]
    rfl

theorem depth_le_depthAll {t : Node} {ts : List Node} (h : t ∈ ts) : t.depth ≤ depthAll ts := by
  induction ts with
  | nil => exact absurd h List.not_mem_nil
  | cons u us ih =>
      rw [depthAll]
      obtain rfl | hu := List.mem_cons.mp h
      · exact Nat.le_max_left _ _
      · exact Nat.le_trans (ih hu) (Nat.le_max_right _ _)

theorem Shaped.depth_pos {opens closes : String → Prop} {t : Node} (h : Shaped opens closes t) :
    0 < t.depth := by
  induction h with
  | header _ ih => exact ih
  | closed => exact Nat.one_pos
  | branch | leaf => exact Nat.succ_pos _

theorem render_of_depth_le_one {opens closes : String → Prop} {t : Node}
    (h : Shaped opens closes t) (hd : t.depth ≤ 1) (indent other : String) :
    t.render indent = t.render other := by
  have hlines : Printer.lines indent.toList 0 t = Printer.lines other.toList 0 t := by
    induction h with
    | header _ ih => rw [Printer.lines, Printer.lines, ih hd]; rfl
    | closed => rfl
    | @branch name as cs hn ha hne hcs ih =>
        obtain ⟨c, hc⟩ := List.exists_mem_of_ne_nil cs hne
        have hpos := (hcs c hc).depth_pos
        have hle := depth_le_depthAll hc
        rw [depth] at hd
        omega
    | leaf hn ha hc =>
        rw [Printer.lines, Printer.lines]
        simp [hc.not_isMarkup]
  rw [render, render, Printer.print, Printer.print, hlines]

end Node

end MeshMarkup
