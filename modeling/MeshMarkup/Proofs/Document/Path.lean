import MeshMarkup.Proofs.Document.Query

namespace MeshMarkup.Node

theorem lastChild?_eq_none {wanted : String → List Attribute → Bool} {parent : Node}
    (h : parent.IsOpen) : parent.lastChild? wanted = none ↔
      ∀ child ∈ parent.parts, ¬ child.Opens fun name attributes => wanted name attributes = true := by
  cases parent with
  | element name attributes children =>
      rw [lastChild?, List.find?_eq_none, parts]
      exact forall_congr' fun child => imp_congr List.mem_reverse (not_congr opens_iff)
  | _ => exact h.elim

theorem childNamed?_eq_none {name : String} {parent : Node} (h : parent.IsOpen) :
    parent.childNamed? name = none ↔ ∀ child ∈ parent.parts, ¬ child.Opens (Named name) := by
  simp only [childNamed?, lastChild?_eq_none h, decide_eq_true_eq]
  rfl

theorem descend?_append (a b : List String) (tree : Node) :
    tree.descend? (a ++ b) = (tree.descend? a).bind fun found => found.descend? b := by
  induction a generalizing tree with
  | nil => rfl
  | cons name a ih =>
      rw [List.cons_append, descend?, descend?]
      cases tree.childNamed? name with
      | none => rfl
      | some child => exact ih child

/-- A step of a path for which there is no child: the names before it lead to an element that
holds no open element of its name. -/
def Gap (names : List String) (tree : Node) : Prop :=
  ∃ before name after reached, names = before ++ name :: after ∧ Descends before tree reached ∧
    ∀ child ∈ reached.parts, ¬ child.Opens (Named name)

theorem gap_nil {tree : Node} : ¬ Gap [] tree := by
  rintro ⟨before, name, after, reached, hnames, -⟩
  simp at hnames

theorem gap_cons {name : String} {names : List String} {tree : Node} :
    Gap (name :: names) tree ↔ (∀ child ∈ tree.parts, ¬ child.Opens (Named name)) ∨
      ∃ child, LastChild (Named name) tree child ∧ Gap names child := by
  constructor
  · rintro ⟨before, next, after, reached, hnames, hdown, hnone⟩
    cases hdown with
    | here =>
        obtain ⟨rfl, rfl⟩ := List.cons.inj hnames
        exact Or.inl hnone
    | down hchild hrest =>
        obtain ⟨rfl, rfl⟩ := List.cons.inj hnames
        exact Or.inr ⟨_, hchild, _, next, after, reached, rfl, hrest, hnone⟩
  · rintro (hnone | ⟨child, hchild, before, next, after, reached, rfl, hrest, hnone⟩)
    · exact ⟨[], name, names, tree, rfl, .here, hnone⟩
    · exact ⟨name :: before, next, after, reached, rfl, .down hchild hrest, hnone⟩

theorem descend?_eq_none {names : List String} {tree : Node} (h : tree.IsOpen) :
    tree.descend? names = none ↔ Gap names tree := by
  induction names generalizing tree with
  | nil => simp [descend?, gap_nil]
  | cons name names ih =>
      rw [descend?, gap_cons]
      cases hchild : tree.childNamed? name with
      | none =>
          have hnone := (childNamed?_eq_none h).mp hchild
          exact ⟨fun _ => Or.inl hnone, fun _ => rfl⟩
      | some child =>
          have hlast := childNamed?_eq_some.mp hchild
          dsimp only
          rw [ih hlast.child_isOpen]
          constructor
          · intro hgap
            exact Or.inr ⟨child, hlast, hgap⟩
          · rintro (hnone | ⟨other, hother, hgap⟩)
            · rw [(childNamed?_eq_none h).mpr hnone] at hchild
              cases hchild
            · rw [childNamed?_eq_some.mpr hother] at hchild
              obtain rfl := Option.some.inj hchild
              exact hgap

theorem path?_eq_descend? {names : List String} {tree : Node} (h : tree.body.IsOpen) :
    tree.path? names = tree.body.descend? names := by
  ext found
  rw [path?_eq_some_iff, descend?_eq_some]
  exact and_iff_right h

theorem path?_eq_none {names : List String} {tree : Node} :
    tree.path? names = none ↔ ¬ tree.body.IsOpen ∨ Gap names tree.body := by
  by_cases hopen : tree.body.IsOpen
  · rw [path?_eq_descend? hopen, descend?_eq_none hopen]
    simp [hopen]
  · have hnone : tree.path? names = none :=
      Option.eq_none_iff_forall_ne_some.mpr fun found hfound =>
        hopen (path?_eq_some_iff.mp hfound).1
    simp [hopen, hnone]

/-- A walk goes on below an open element only, where no prologue is left to step over. -/
theorem bind_path?_openElement? (node : Node) (names : List String) :
    (node.openElement?.bind fun found => found.path? names) =
      (node.descend? names).bind openElement? := by
  cases node with
  | element => rfl
  | _ => cases names <;> rfl

theorem path?_append (a b : List String) (tree : Node) :
    tree.path? (a ++ b) = (tree.path? a).bind fun found => found.path? b := by
  rw [path?, path?, descend?_append, Option.bind_assoc, Option.bind_assoc]
  simp only [bind_path?_openElement?]

/-- A path in two parts is followed as its second part from where the first one leads. What a path
leads to is the open element reached by last children from under a leading prologue, and it leads
nowhere just when it does not start at an open element or has a gap. -/
theorem paths_compose (tree : Node) :
    (∀ a b, tree.path? (a ++ b) = (tree.path? a).bind fun found => found.path? b) ∧
    (∀ names found, tree.path? names = some found ↔
      tree.body.IsOpen ∧ Descends names tree.body found ∧ found.IsOpen) ∧
    ∀ names, tree.path? names = none ↔ ¬ tree.body.IsOpen ∨ Gap names tree.body := by
  refine ⟨fun a b => path?_append a b tree, fun names found => ?_, fun names => path?_eq_none⟩
  rw [path?_eq_some_iff]
  constructor
  · rintro ⟨hopen, hdown⟩
    exact ⟨hopen, hdown, hdown.isOpen hopen⟩
  · rintro ⟨hopen, hdown, -⟩
    exact ⟨hopen, hdown⟩

/-- Only one prologue is stepped over. -/
example : (header (header (element "a" [] [empty]))).path? [] = none := rfl

end MeshMarkup.Node
