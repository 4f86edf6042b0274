import MeshMarkup.Document.Node
import MeshMarkup.Text.Search

namespace MeshMarkup.Node

/-- The last child that is an open element and passes a test on its name and attributes. -/
def lastChild? (wanted : String → List Attribute → Bool) : Node → Option Node
  | element _ _ children =>
    children.reverse.find? fun child =>
      match child with
      | element name attributes _ => wanted name attributes
      | _ => false
  | _ => none

def childNamed? (name : String) (tree : Node) : Option Node :=
  tree.lastChild? fun childName _ => childName = name

def leadingNumbers? : Node → Option (List Binary64)
  | element _ _ (numbers values :: _) => some values
  | _ => none

def firstAttribute? (tree : Node) : Option Attribute := tree.attributes.head?

def attribute? (name : String) (tree : Node) : Option Attribute :=
  tree.attributes.find? (·.name = name)

/-- Whether the first attribute is a text attribute named id; its text if so. -/
def leadingId? : List Attribute → Option String
  | ⟨"id", .text content⟩ :: _ => some content
  | _ => none

def idContains (key : String) (attributes : List Attribute) : Bool :=
  match leadingId? attributes with
  | some content => Text.contains key.toList content.toList
  | none => false

/-- The last child whose leading id contains the key. -/
def source? (key : String) (mesh : Node) : Option Node :=
  mesh.lastChild? fun _ attributes => idContains key attributes

def body : Node → Node
  | header child => child
  | tree => tree

def openElement? : Node → Option Node
  | element name attributes children => some (element name attributes children)
  | _ => none

/-- Follows names downwards, each step to the last child of that name. -/
def descend? (tree : Node) : List String → Option Node
  | [] => some tree
  | name :: names =>
    match tree.childNamed? name with
    | some child => child.descend? names
    | none => none

/-- The open element reached by a path of names, a leading prologue being stepped over. -/
def path? (names : List String) (tree : Node) : Option Node :=
  (tree.body.descend? names).bind openElement?

end MeshMarkup.Node
