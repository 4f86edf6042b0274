import MeshMarkup.Document.Query
import MeshMarkup.Proofs.Text.Scan

namespace MeshMarkup.Node

def IsOpen : Node → Prop
  | element .. => True
  | _ => False

theorem openElement?_eq_some {node found : Node} :
    node.openElement? = some found ↔ node.IsOpen ∧ node = found := by
  cases node <;> simp [openElement?, IsOpen]

theorem IsOpen.body_eq {node : Node} (h : node.IsOpen) : node.body = node := by
  cases node with
  | header child => exact h.elim
  | _ => rfl

def Opens (wanted : String → List Attribute → Prop) : Node → Prop
  | element name attributes _ => wanted name attributes
  | _ => False

/-- The last of the children of an open element that are as wanted. -/
def LastChild (wanted : String → List Attribute → Prop) (parent child : Node) : Prop :=
  ∃ name attributes before after, parent = element name attributes (before ++ child :: after) ∧
    child.Opens wanted ∧ ∀ other ∈ after, ¬ other.Opens wanted

def Named (wanted : String) (name : String) (_ : List Attribute) : Prop := name = wanted

/-- The first attribute is a text attribute named id, and its text contains a key. -/
def LeadingId (key : String) (_ : String) (attributes : List Attribute) : Prop :=
  ∃ content rest, attributes = ⟨"id", .text content⟩ :: rest ∧ key.toList <:+: content.toList

theorem Opens.isOpen {wanted : String → List Attribute → Prop} {node : Node}
    (h : node.Opens wanted) : node.IsOpen := by
  cases node with
  | element => trivial
  | _ => exact h.elim

theorem LastChild.parent_isOpen {wanted : String → List Attribute → Prop} {parent child : Node}
    (h : LastChild wanted parent child) : parent.IsOpen := by
  obtain ⟨_, _, _, _, rfl, _, _⟩ := h
  trivial

theorem LastChild.child_isOpen {wanted : String → List Attribute → Prop} {parent child : Node}
    (h : LastChild wanted parent child) : child.IsOpen := by
  obtain ⟨_, _, _, _, _, hopens, _⟩ := h
  exact hopens.isOpen

theorem opens_iff {wanted : String → List Attribute → Bool} {node : Node} :
    (match node with
      | element name attributes _ => wanted name attributes
      | _ => false) = true ↔ node.Opens fun name attributes => wanted name attributes = true := by
  cases node <;> simp [Opens]

theorem lastChild?_eq_some {wanted : String → List Attribute → Bool} {parent child : Node} :
    parent.lastChild? wanted = some child ↔
      LastChild (fun name attributes => wanted name attributes = true) parent child := by
  cases parent with
  | element name attributes children =>
      rw [lastChild?, List.find?_eq_some_iff_append]
      constructor
      · rintro ⟨hchild, after, before, hsplit, hafter⟩
        have hchildren : children = before.reverse ++ child :: after.reverse := by
          rw [← List.reverse_reverse children, hsplit]
          simp
        refine ⟨name, attributes, before.reverse, after.reverse, by rw [hchildren],
          opens_iff.mp hchild, fun other hother => ?_⟩
        have hnot := hafter other (List.mem_reverse.mp hother)
        rw [Bool.not_eq_true', ← Bool.not_eq_true] at hnot
        exact fun hopens => hnot (opens_iff.mpr hopens)
      · rintro ⟨_, _, before, after, hparent, hchild, hafter⟩
        obtain ⟨rfl, rfl, rfl⟩ := element.inj hparent
        refine ⟨opens_iff.mpr hchild, after.reverse, before.reverse, by simp, fun other hother => ?_⟩
        rw [Bool.not_eq_true', ← Bool.not_eq_true]
        exact fun hopens => hafter other (List.mem_reverse.mp hother) (opens_iff.mp hopens)
  | _ => simp [lastChild?, LastChild]

theorem childNamed?_eq_some {name : String} {parent child : Node} :
    parent.childNamed? name = some child ↔ LastChild (Named name) parent child := by
  simp only [childNamed?, lastChild?_eq_some, decide_eq_true_eq]
  rfl

theorem leadingId?_eq_some {attributes : List Attribute} {content : String} :
    leadingId? attributes = some content ↔ ∃ rest, attributes = ⟨"id", .text content⟩ :: rest := by
  rw [leadingId?.eq_def]
  split
  · next other rest => simp
  · next h =>
      simp only [reduceCtorEq, false_iff, not_exists]
      exact fun rest hrest => h content rest hrest

theorem idContains_iff {key name : String} {attributes : List Attribute} :
    idContains key attributes = true ↔ LeadingId key name attributes := by
  rw [idContains, LeadingId]
  cases h : leadingId? attributes with
  | none =>
      simp only [Bool.false_eq_true, false_iff]
      rintro ⟨content, rest, hid, -⟩
      rw [leadingId?_eq_some.mpr ⟨rest, hid⟩] at h
      nomatch h
  | some content =>
      obtain ⟨rest, rfl⟩ := leadingId?_eq_some.mp h
      simp [Text.contains_iff]

theorem source?_eq_some {key : String} {mesh source : Node} :
    mesh.source? key = some source ↔ LastChild (LeadingId key) mesh source := by
  rw [source?, lastChild?_eq_some]
  have hwanted : (fun (_ : String) attributes => idContains key attributes = true) =
      LeadingId key := by
    funext name attributes
    exact propext idContains_iff
  rw [hwanted]

/-- Names followed downwards, each to the last child of that name. -/
inductive Descends : List String → Node → Node → Prop where
  | here {node : Node} : Descends [] node node
  | down {name : String} {names : List String} {parent child found : Node}
      (hchild : LastChild (Named name) parent child) (hrest : Descends names child found) :
      Descends (name :: names) parent found

theorem descend?_eq_some {names : List String} {tree found : Node} :
    tree.descend? names = some found ↔ Descends names tree found := by
  induction names generalizing tree with
  | nil =>
      rw [descend?, Option.some.injEq]
      constructor
      · rintro rfl
        exact .here
      · rintro ⟨⟩
        rfl
  | cons name names ih =>
      rw [descend?]
      constructor
      · intro h
        split at h
        · next child hchild => exact .down (childNamed?_eq_some.mp hchild) (ih.mp h)
        · nomatch h
      · rintro (_ | ⟨hchild, hrest⟩)
        rw [childNamed?_eq_some.mpr hchild]
        exact ih.mpr hrest

theorem Descends.isOpen {names : List String} {tree found : Node} (h : Descends names tree found)
    (htree : tree.IsOpen) : found.IsOpen := by
  induction h with
  | here => exact htree
  | down hchild _ ih => exact ih hchild.child_isOpen

theorem Descends.start_isOpen {name : String} {names : List String} {tree found : Node}
    (h : Descends (name :: names) tree found) : tree.IsOpen := by
  obtain _ | ⟨hchild, _⟩ := h
  exact hchild.parent_isOpen

theorem path?_eq_some_iff {names : List String} {tree found : Node} :
    tree.path? names = some found ↔ tree.body.IsOpen ∧ Descends names tree.body found := by
  simp only [path?, Option.bind_eq_some_iff, openElement?_eq_some, descend?_eq_some]
  constructor
  · rintro ⟨_, hdown, hopen, rfl⟩
    cases names with
    | nil =>
        obtain _ | _ := hdown
        exact ⟨hopen, .here⟩
    | cons name names => exact ⟨hdown.start_isOpen, hdown⟩
  · rintro ⟨hopen, hdown⟩
    exact ⟨found, hdown, hdown.isOpen hopen, rfl⟩

theorem path?_eq_some {name : String} {names : List String} {tree found : Node} :
    tree.path? (name :: names) = some found ↔ Descends (name :: names) tree.body found := by
  rw [path?_eq_some_iff]
  exact and_iff_right_of_imp fun hdown => hdown.start_isOpen

def Holds (values : List Binary64) (node : Node) : Prop :=
  ∃ name attributes rest, node = element name attributes (numbers values :: rest)

theorem leadingNumbers?_eq_some {node : Node} {values : List Binary64} :
    node.leadingNumbers? = some values ↔ Holds values node := by
  rw [leadingNumbers?.eq_def]
  split
  · next name attributes found rest => simp [Holds]
  · next h =>
      simp only [reduceCtorEq, false_iff, Holds]
      rintro ⟨name, attributes, rest, rfl⟩
      exact h name attributes values rest rfl

end MeshMarkup.Node
