import MeshMarkup.Proofs.Document.Shape
import MeshMarkup.Proofs.Parser.Number
import MeshMarkup.Proofs.Parser.Spaced

namespace MeshMarkup

open Text

inductive AttributeText : Attribute → List Char → Prop
  | text {name content : String} : AttributeText ⟨name, .text content⟩
      (name.toList ++ '=' :: '"' :: (content.toList ++ ['"']))
  | integer {name : String} {l : IntegerLiteral} (hl : l.WellFormed) :
      AttributeText ⟨name, .integer l.value⟩ (name.toList ++ '=' :: '"' :: (l.text ++ ['"']))

/-- What stands between a name and the end of its tag: nothing, or a space and more white space
and any attributes. -/
inductive AttributeRun : List Attribute → List Char → Prop
  | none : AttributeRun [] []
  | blank {w} (hw : Blank w) : AttributeRun [] (' ' :: w)
  | some {w as s} (hw : Blank w) (hs : Spaced AttributeText BlankGap as s) :
      AttributeRun as (' ' :: (w ++ s))

def NumberText (x : Binary64) (s : List Char) : Prop :=
  ∃ l : ScientificLiteral, l.WellFormed ∧ l.Denotes x ∧ l.text = s

inductive LeafText : Node → List Char → Prop
  | numbers {xs s} (hs : Spaced NumberText BlankGap xs s) : LeafText (.numbers xs) s
  | text {content : String} : LeafText (.text content) content.toList
  | empty : LeafText .empty []

inductive Content (nested : Node → List Char → Prop) : List Node → List Char → Prop
  | nodes {cs s} (hs : Spaced nested Blank cs s) : Content nested cs s
  | leaf {c s} (hs : LeafText c s) : Content nested [c] s

/-- The texts of a tree. A closing tag without a name looks like an element of its own, so it only
ends numbers and texts. -/
inductive Rendering (strict : Bool) : Node → List Char → Prop
  | header {prologue w child s} (hp : '?' ∉ prologue) (hw : Blank w)
      (hc : Rendering strict child s) :
      Rendering strict (.header child) ('<' :: '?' :: (prologue ++ '?' :: '>' :: (w ++ s)))
  | closed {name : String} {as s} (ha : AttributeRun as s) :
      Rendering strict (.closed name as) ('<' :: (name.toList ++ (s ++ ['/', '>'])))
  | element {name closing : String} {as s w cs t} (ha : AttributeRun as s) (hw : Blank w)
      (hc : Content (Rendering strict) cs t) (hk : '>' ∉ closing.toList)
      (hstrict : strict = true → closing = name)
      (hplain : closing = "" → ∀ c ∈ cs, c.isPlain = true) :
      Rendering strict (.element name as cs)
        ('<' :: (name.toList ++ (s ++ '>' :: (w ++ (t ++ '<' :: '/' :: (closing.toList ++ ['>']))))))

theorem LeafText.not_isMarkup {c : Node} {s : List Char} (h : LeafText c s) :
    c.isMarkup = false := by
  cases h <;> rfl

theorem Content.imp {R S : Node → List Char → Prop} {cs : List Node} {s : List Char}
    (h : Content R cs s) (himp : ∀ c ∈ cs, ∀ s, R c s → S c s) : Content S cs s := by
  cases h with
  | nodes hs => exact .nodes (hs.imp himp)
  | leaf hs => exact .leaf hs

theorem Rendering.isMarkup {strict : Bool} {t : Node} {s : List Char} (h : Rendering strict t s) :
    t.isMarkup = true := by
  cases h <;> rfl

/-- Closing names that are right may as well be ignored. -/
theorem Rendering.lenient {opens closes : String → Prop} {t : Node} (ht : t.Shaped opens closes)
    {s : List Char} (h : Rendering true t s) : Rendering false t s := by
  induction ht generalizing s with
  | header _ ih =>
      cases h with
      | header hp hw hc => exact .header hp hw (ih hc)
  | closed _ _ =>
      cases h with
      | closed ha => exact .closed ha
  | branch _ _ _ _ ih =>
      cases h with
      | element ha hw hc hk _ hplain =>
          exact .element ha hw (hc.imp fun c hm _ hr => ih c hm hr) hk (by simp) hplain
  | leaf _ _ hleaf =>
      cases h with
      | element ha hw hc hk _ hplain =>
          -- A leaf has no rendering of its own.
          refine .element ha hw (hc.imp fun c hm _ hr => ?_) hk (by simp) hplain
          obtain rfl := List.mem_singleton.mp hm
          exact absurd (hleaf.not_isMarkup.symm.trans hr.isMarkup) Bool.false_ne_true

theorem Rendering.start {strict : Bool} {t : Node} {s : List Char} (h : Rendering strict t s) :
    ∃ u, s = '<' :: u := by
  cases h <;> exact ⟨_, rfl⟩

theorem Rendering.solid {strict : Bool} {t : Node} {s : List Char} (h : Rendering strict t s) :
    s ≠ [] ∧ Solid s := by
  obtain ⟨u, rfl⟩ := h.start
  exact ⟨by simp, solid_angle u⟩

end MeshMarkup
