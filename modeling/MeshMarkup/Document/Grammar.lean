import MeshMarkup.Parser.Number

namespace MeshMarkup

structure Grammar where
  strictCloseTags : Bool
  allowTrailingContent : Bool
  /-- How deep documents may be nested in one another before the machine gives up. -/
  nestingLimit : Nat
  deriving DecidableEq

namespace Grammar

open MeshMarkup.Parser

/-- Closing names are ignored, and so is anything after the root element. -/
def lenient (nestingLimit : Nat) : Grammar := ⟨false, true, nestingLimit⟩

def optionalBlanks : Parser Unit := blanks.optional ()

def header (element : Parser Node) : Parser Node :=
  (token "<?").andThen (upTo "?") |>.andThen (token "?>") |>.andThen optionalBlanks
    |>.andThen element |>.map fun parts => .header parts.2

def text : Parser Node :=
  (upTo "<").map fun content => if content.isEmpty then .empty else .text content

def numbers : Parser Node :=
  (scientific.delimited blanks).andThen (lookahead "<") |>.map fun parts => .numbers parts.1

def forbiddenInNames : List String := ["/", "<", ">"]

def validAttributeName (a : Attribute) : Bool :=
  a.name.toList.all fun c => c ≠ '/' && c ≠ '<' && c ≠ '>'

def attributeName : Parser String := upToAny ("=" :: forbiddenInNames)

def integerAttribute : Parser Attribute :=
  attributeName.andThen (token "=\"") |>.andThen integer |>.andThen (token "\"")
    |>.map fun parts => ⟨parts.1.1.1, .integer parts.1.2⟩

def textAttribute : Parser Attribute :=
  attributeName.andThen (token "=\"") |>.andThen (upTo "\"") |>.andThen (token "\"")
    |>.map fun parts => ⟨parts.1.1.1, .text parts.1.2⟩

/-- An attribute. A value that is an integer literal as a whole is read as an integer. -/
def anyAttribute : Parser Attribute :=
  (integerAttribute.orElse textAttribute).filter validAttributeName

def attributes : Parser (List Attribute) := (anyAttribute.delimited blanks).optional []

def validElementName (name : String) : Bool := name.toList.all (· ≠ '/')

def openTagName : Parser String := (upToAny [">", " "]).filter validElementName

def closedTagName : Parser String := (upToAny ["/", " "]).filter validElementName

def opening (name : Parser String) : Parser (String × Unit × List Attribute) :=
  name.andThen (optionalBlanks.andThen attributes)

def content (element : Parser Node) : Parser (List Node) :=
  (element.delimited optionalBlanks).orElse (numbers.map fun node => [node])
    |>.orElse (text.map fun node => [node])

structure ElementParts where
  name : String
  attributes : List Attribute
  children : List Node
  closingName : String

def ElementParts.closes (parts : ElementParts) : Bool := parts.name = parts.closingName

def elementParts (element : Parser Node) : Parser ElementParts :=
  (token "<").andThen (opening openTagName) |>.andThen (token ">")
    |>.andThen (optionalBlanks.andThen (content element) |>.andThen optionalBlanks)
    |>.andThen (token "</") |>.andThen (upTo ">") |>.andThen (token ">")
    |>.map fun (((((((_, name, _, attributes), _), (_, children), _), _), closing), _)) =>
      ⟨name, attributes, children, closing⟩

def tag (strict : Bool) (element : Parser Node) : Parser Node :=
  let parts := elementParts element
  (if strict then parts.filter ElementParts.closes else parts).map fun parts =>
    .element parts.name parts.attributes parts.children

def closedTag : Parser Node :=
  (token "<").andThen (opening closedTagName) |>.andThen (token "/>")
    |>.map fun ((_, name, _, attributes), _) => .closed name attributes

def documentOver (strict : Bool) (element : Parser Node) : Parser Node :=
  (header element).orElse (tag strict element) |>.orElse closedTag

/-- Documents of at most the given number of nested documents. -/
def documentWithin (strict : Bool) : Nat → Parser Node
  | 0 => .faulty "document" .tooDeep
  | levels + 1 => documentOver strict (.deferred "document" fun _ => documentWithin strict levels)

def nested (g : Grammar) : Parser Node :=
  .deferred "document" fun _ => documentWithin g.strictCloseTags g.nestingLimit

def document (g : Grammar) : Parser Node :=
  documentWithin g.strictCloseTags (g.nestingLimit + 1)

/-- The tree of a text. Content after the root element is refused unless the grammar allows it;
white space is no content. -/
def parse (g : Grammar) (text : String) : Except Fault (Option Node) :=
  match g.document.run (.start text.toList) with
  | .fault cause => .error cause
  | .noMatch => .ok none
  | .matched rest tree =>
    .ok (if g.allowTrailingContent || rest.skipBlanks.atEnd then some tree else none)

def flagName (flag : Bool) : String := if flag then "True" else "False"

def describe (g : Grammar) : String :=
  "DocumentGrammar(strict_close_tags=" ++ flagName g.strictCloseTags ++
    ", allow_trailing_content=" ++ flagName g.allowTrailingContent ++ ")"

end Grammar

def Node.readsBackFrom (tree : Node) (nestingLimit : Nat) (text : String) : Except Fault Bool := do
  match ← (Grammar.lenient nestingLimit).parse text with
  | some read => return tree.same read
  | none => return false

end MeshMarkup
