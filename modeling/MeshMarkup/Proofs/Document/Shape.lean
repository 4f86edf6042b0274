import MeshMarkup.Document.Grammar
import MeshMarkup.Document.Printer
import MeshMarkup.Proofs.Number.Literal

namespace MeshMarkup

open Text

def AttributeValue.Shaped : AttributeValue → Prop
  | .text content =>
    '"' ∉ content.toList ∧ ∀ l : IntegerLiteral, l.WellFormed → l.text ≠ content.toList
  | .integer _ => True

structure Attribute.Shaped (a : Attribute) : Prop where
  name : ∀ c ∈ a.name.toList, c ∉ ['=', '/', '<', '>']
  start : Solid a.name.toList
  value : a.value.Shaped

def Attribute.Fits (a : Attribute) : Prop :=
  ∀ n, a.value = .integer n → n.natAbs < 10 ^ Printer.integerDigitLimit

namespace Node

/-- Content that is no list of elements: nothing, a run of numbers, or a text that is neither. -/
inductive Leaf : Node → Prop
  | empty : Leaf .empty
  | numbers {values} (hne : values ≠ []) (hnan : .nan ∉ values) : Leaf (.numbers values)
  | text {content} (hne : content ≠ "") (hopen : '<' ∉ content.toList)
      (hsolid : Solid content.toList)
      (hnumbers : Grammar.numbers.run (.start (content.toList ++ ['<'])) = .noMatch) :
      Leaf (.text content)

inductive Shaped (opens closes : String → Prop) : Node → Prop
  | header {child} (hc : Shaped opens closes child) : Shaped opens closes (.header child)
  | closed {name attributes} (hn : closes name) (ha : ∀ a ∈ attributes, a.Shaped) :
      Shaped opens closes (.closed name attributes)
  | branch {name attributes children} (hn : opens name) (ha : ∀ a ∈ attributes, a.Shaped)
      (hne : children ≠ []) (hc : ∀ c ∈ children, Shaped opens closes c) :
      Shaped opens closes (.element name attributes children)
  | leaf {name attributes child} (hn : opens name) (ha : ∀ a ∈ attributes, a.Shaped)
      (hc : Leaf child) : Shaped opens closes (.element name attributes [child])

/-- A name that is taken for nothing else, wherever it stands. -/
structure PlainName (name : String) : Prop where
  ne : name ≠ ""
  chars : ∀ c ∈ name.toList, c ∉ [' ', '/', '>']
  start : name.toList.head? ≠ some '?'

-- By the test of a list: there is another instance for all characters, which would try them all.
instance (name : String) : Decidable (PlainName name) :=
  decidable_of_iff (name ≠ "" ∧ (name.toList.all fun c => decide (c ∉ [' ', '/', '>'])) = true ∧
    name.toList.head? ≠ some '?')
    ⟨fun ⟨hne, hchars, hstart⟩ =>
      ⟨hne, fun c hc => of_decide_eq_true (List.all_eq_true.mp hchars c hc), hstart⟩,
     fun h => ⟨h.ne, List.all_eq_true.mpr fun c hc => decide_eq_true (h.chars c hc), h.start⟩⟩

def WellFormed : Node → Prop := Shaped PlainName PlainName

def OpenName (name : String) : Prop := ∀ c ∈ name.toList, c ∉ [' ', '/', '>']

def ClosedName (name : String) : Prop := ∀ c ∈ name.toList, c ∉ [' ', '/']

/-- A name, possibly empty, that makes no production look like another. -/
structure ClearName (name : String) : Prop where
  chars : ∀ c ∈ name.toList, c ∉ [' ', '/', '>']
  start : name.toList.head? ≠ some '?'

theorem ClearName.open {name : String} (h : ClearName name) : OpenName name := h.chars

theorem ClearName.closed {name : String} (h : ClearName name) : ClosedName name := by
  intro c hc hm
  exact h.chars c hc (List.mem_of_mem_take (i := 2) hm)

theorem PlainName.clear {name : String} (h : PlainName name) : ClearName name := ⟨h.chars, h.start⟩

theorem PlainName.open {name : String} (h : PlainName name) : OpenName name := h.clear.open

theorem OpenName.no_angle {name : String} (h : OpenName name) : '>' ∉ name.toList :=
  fun hm => h '>' hm (by decide)

theorem PlainName.closed {name : String} (h : PlainName name) : ClosedName name := h.clear.closed

theorem Shaped.imp {opens closes opens' closes' : String → Prop}
    (ho : ∀ name, opens name → opens' name) (hc : ∀ name, closes name → closes' name) {t : Node}
    (h : Shaped opens closes t) : Shaped opens' closes' t := by
  induction h with
  | header _ ih => exact .header ih
  | closed hn ha => exact .closed (hc _ hn) ha
  | branch hn ha hne _ ih => exact .branch (ho _ hn) ha hne ih
  | leaf hn ha hl => exact .leaf (ho _ hn) ha hl

theorem Shaped.isMarkup {opens closes : String → Prop} {t : Node} (h : Shaped opens closes t) :
    t.isMarkup = true := by
  cases h <;> rfl

theorem Leaf.not_isMarkup {t : Node} (h : Leaf t) : t.isMarkup = false := by
  cases h <;> rfl

/-- Whether a node is written as a text of its own, which ends at the next tag. -/
def isPlain : Node → Bool
  | text _ | numbers _ => true
  | _ => false

theorem Shaped.not_isPlain {opens closes : String → Prop} {t : Node} (h : Shaped opens closes t) :
    t.isPlain = false := by
  cases h <;> rfl

mutual

def nesting : Node → Nat
  | header child => child.nesting + 1
  | element _ _ children => nestingAll children + 1
  | _ => 0

def nestingAll : List Node → Nat
  | [] => 0
  | node :: nodes => max node.nesting (nestingAll nodes)

end

theorem nesting_le_nestingAll {t : Node} {ts : List Node} (h : t ∈ ts) :
    t.nesting ≤ nestingAll ts := by
  induction ts with
  | nil => exact absurd h List.not_mem_nil
  | cons u us ih =>
      rw [nestingAll]
      obtain rfl | hu := List.mem_cons.mp h
      · exact Nat.le_max_left _ _
      · exact Nat.le_trans (ih hu) (Nat.le_max_right _ _)

theorem nestingAll_lt {n : Nat} {ts : List Node} (hn : 0 < n) (h : ∀ t ∈ ts, t.nesting < n) :
    nestingAll ts < n := by
  induction ts with
  | nil => exact hn
  | cons u us ih =>
      rw [nestingAll]
      have hu := h u List.mem_cons_self
      have hus := ih fun t ht => h t (List.mem_cons_of_mem u ht)
      omega

theorem header_levels {child : Node} {levels : Nat} (h : (header child).nesting ≤ levels) :
    ∃ m, levels = m + 1 ∧ child.nesting ≤ m := by
  rw [nesting] at h
  obtain ⟨m, rfl⟩ := Nat.exists_eq_succ_of_ne_zero (Nat.ne_zero_of_lt h)
  exact ⟨m, rfl, Nat.le_of_succ_le_succ h⟩

theorem element_levels {name : String} {as : List Attribute} {cs : List Node} {levels : Nat}
    (h : (element name as cs).nesting ≤ levels) :
    ∃ m, levels = m + 1 ∧ ∀ c ∈ cs, c.nesting ≤ m := by
  rw [nesting] at h
  obtain ⟨m, rfl⟩ := Nat.exists_eq_succ_of_ne_zero (Nat.ne_zero_of_lt h)
  exact ⟨m, rfl, fun c hc => Nat.le_trans (nesting_le_nestingAll hc) (Nat.le_of_succ_le_succ h)⟩

mutual

def IntegersFit : Node → Prop
  | header child => child.IntegersFit
  | closed _ attributes => ∀ a ∈ attributes, a.Fits
  | element _ attributes children => (∀ a ∈ attributes, a.Fits) ∧ IntegersFitAll children
  | _ => True

def IntegersFitAll : List Node → Prop
  | [] => True
  | node :: nodes => node.IntegersFit ∧ IntegersFitAll nodes

end

theorem integersFitAll_iff {ts : List Node} : IntegersFitAll ts ↔ ∀ t ∈ ts, t.IntegersFit := by
  induction ts with
  | nil => simp [IntegersFitAll]
  | cons u us ih => simp [IntegersFitAll, ih]

end Node

end MeshMarkup
