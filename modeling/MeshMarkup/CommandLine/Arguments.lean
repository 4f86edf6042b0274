import MeshMarkup.Text.Integer
import MeshMarkup.Text.Quoted
import MeshMarkup.Text.Search

namespace MeshMarkup.CommandLine

inductive Switch where
  | help
  | version
  | verbose
  | quiet
  | config
  | preset
  | strict
  | format
  | full
  | output
  | indent
  deriving DecidableEq

structure OptionSpec where
  switch : Switch
  names : List String
  takesValue : Bool
  problem? : String → Option String

inductive Arity where
  | one
  | oneOrMore
  | rest
  deriving DecidableEq

structure PositionalSpec where
  name : String
  arity : Arity
  required : Bool
  problem? : String → Option String

structure Spec where
  options : List OptionSpec
  positional : PositionalSpec

inductive Stop where
  | help
  | version
  | failure (message : String)

/-- What was read: options in the order given, the words of the argument, and what is left. An
option that takes no value is given without one. -/
structure Reading where
  options : List (Switch × Option String)
  words : Option (List String)
  extras : List String

def Reading.empty : Reading := ⟨[], none, []⟩

def argumentFailure {α : Type} (name message : String) : Except Stop α :=
  .error (.failure ("argument " ++ name ++ ": " ++ message))

def OptionSpec.displayName (o : OptionSpec) : String := "/".intercalate o.names

inductive TokenKind where
  | dashes
  | word
  | unknownOption
  | option (spec : OptionSpec) (name : String) (attached : Option (List Char))

structure Token where
  text : String
  kind : TokenKind

namespace Token

def isDashes (t : Token) : Bool :=
  match t.kind with
  | .dashes => true
  | _ => false

def isWordOrDashes (t : Token) : Bool :=
  match t.kind with
  | .word | .dashes => true
  | _ => false

end Token

def Spec.names (s : Spec) : List (OptionSpec × String) :=
  s.options.flatMap fun o => o.names.map fun name => (o, name)

def Spec.named? (s : Spec) (name : String) : Option OptionSpec :=
  (s.names.find? (·.2 = name)).map (·.1)

def splitEquals (text : List Char) : List Char × Option (List Char) :=
  match text.span (· ≠ '=') with
  | (before, '=' :: after) => (before, some after)
  | (before, _) => (before, none)

def Spec.longMatches (s : Spec) (text : List Char) :
    List (OptionSpec × String × Option (List Char)) :=
  let (name, value) := splitEquals text
  (s.names.filter fun o => Text.startsWith name o.2.toList).map fun o => (o.1, o.2, value)

def Spec.shortMatches (s : Spec) (text : List Char) :
    List (OptionSpec × String × Option (List Char)) :=
  s.names.filterMap fun o =>
    if o.2.toList = text.take 2 then some (o.1, o.2, some (text.drop 2))
    else if Text.startsWith text o.2.toList then some (o.1, o.2, none)
    else none

def Spec.guesses (s : Spec) (text : List Char) :
    List (OptionSpec × String × Option (List Char)) :=
  match text with
  | '-' :: '-' :: _ => s.longMatches text
  | _ => s.shortMatches text

def allDigits (text : List Char) : Bool := !text.isEmpty && text.all Text.isDecimalDigit

def dropLineEnd (text : List Char) : List Char :=
  if text.getLast? = some '\n' then text.dropLast else text

def isNegativeNumber : List Char → Bool
  | '-' :: text =>
    let digits := dropLineEnd text
    let (whole, fraction) := digits.span (· ≠ '.')
    allDigits digits ||
      (whole.all Text.isDecimalDigit && !fraction.isEmpty && allDigits (fraction.drop 1))
  | _ => false

/-- Arguments that name no option: numbers and texts with spaces are words. -/
def unmatched (text : List Char) : TokenKind :=
  if isNegativeNumber text || text.contains ' ' then .word else .unknownOption

def Spec.kindOf (s : Spec) (text : String) : Except Stop TokenKind :=
  match text.toList with
  | '-' :: _ :: _ =>
    match s.named? text with
    | some o => .ok (.option o text none)
    | none =>
      let (name, value) := splitEquals text.toList
      match s.named? (String.ofList name), value with
      | some o, some value => .ok (.option o (String.ofList name) (some value))
      | _, _ =>
        match s.guesses text.toList with
        | [] => .ok (unmatched text.toList)
        | [(o, name, attached)] => .ok (.option o name attached)
        | guesses => .error (.failure ("ambiguous option: " ++ text ++ " could match " ++
            ", ".intercalate (guesses.map (·.2.1))))
  | _ => .ok .word

/-- Every argument as a token; after two dashes all are words. -/
def Spec.tokens (s : Spec) : List String → Except Stop (List Token)
  | [] => .ok []
  | "--" :: rest => .ok (⟨"--", .dashes⟩ :: rest.map fun text => ⟨text, .word⟩)
  | text :: rest => do
    let kind ← s.kindOf text
    return ⟨text, kind⟩ :: (← s.tokens rest)

/-- Two dashes are no value: an option that they are attached to is given without one. -/
def dashes : String := "--"

def Reading.add (r : Reading) (switch : Switch) (value : Option String) : Reading :=
  { r with options := r.options ++ [(switch, value)] }

def Reading.take (r : Reading) (o : OptionSpec) (value : String) : Except Stop Reading :=
  match o.switch with
  | .help => .error .help
  | .version => .error .version
  | switch =>
    if !o.takesValue || value = dashes then .ok (r.add switch none)
    else match o.problem? value with
      | some problem => argumentFailure o.displayName problem
      | none => .ok (r.add switch (some value))

structure Bundle where
  taken : List (OptionSpec × String)
  usesNext : Bool

def fromNext (taken : List (OptionSpec × String)) (o : OptionSpec) (next : Option String) :
    Except Stop Bundle :=
  if !o.takesValue then .ok ⟨taken ++ [(o, "")], false⟩
  else match next with
    | some value => .ok ⟨taken ++ [(o, value)], true⟩
    | none => argumentFailure o.displayName "expected one argument"

def ignoredArgument (o : OptionSpec) (text : List Char) : Except Stop Bundle :=
  argumentFailure o.displayName ("ignored explicit argument " ++ quote (String.ofList text))

def isShort (name : String) : Bool :=
  match name.toList with
  | '-' :: '-' :: _ => false
  | _ => true

/-- Takes an option with an attached text: the text is its value, or further short options. -/
def Spec.bundle (s : Spec) (next : Option String) (taken : List (OptionSpec × String))
    (o : OptionSpec) (short : Bool) : List Char → Except Stop Bundle
  | [] => if o.takesValue then .ok ⟨taken ++ [(o, "")], false⟩ else ignoredArgument o []
  | c :: text =>
    if o.takesValue then .ok ⟨taken ++ [(o, String.ofList (c :: text))], false⟩
    else match if short then s.named? (String.ofList ['-', c]) else none with
      | none => ignoredArgument o (c :: text)
      | some further =>
        let taken := taken ++ [(o, "")]
        if text.isEmpty then fromNext taken further next
        else s.bundle next taken further true text

def nextWord? : List Token → Option String
  | ⟨text, .word⟩ :: _ => some text
  | _ => none

def Spec.takeOption (s : Spec) (r : Reading) (o : OptionSpec) (name : String)
    (attached : Option (List Char)) (rest : List Token) :
    Except Stop (Reading × List Token) := do
  let next := nextWord? rest
  let bundle ← match attached with
    | none => fromNext [] o next
    | some text => s.bundle next [] o (isShort name) text
  let r ← bundle.taken.foldlM (fun r t => r.take t.1 t.2) r
  return (r, if bundle.usesNext then rest.drop 1 else rest)

/-- How many of the tokens an argument of some arity takes; none if there is no word for it. -/
def Arity.extent (arity : Arity) (tokens : List Token) : Nat :=
  let lead := (tokens.takeWhile Token.isDashes).length
  match tokens.drop lead with
  | ⟨_, .word⟩ :: after =>
    lead + 1 + match arity with
      | .one => (after.takeWhile Token.isDashes).length
      | .oneOrMore => (after.takeWhile Token.isWordOrDashes).length
      | .rest => after.length
  | _ => 0

def Spec.takeWords (s : Spec) (r : Reading) (tokens : List Token) :
    Except Stop (Reading × List Token) :=
  let p := s.positional
  match r.words, p.arity.extent tokens with
  | some _, _ | none, 0 => .ok (r, tokens)
  | none, count =>
    let texts := (tokens.take count).map Token.text
    let words := if p.arity = .rest then texts else texts.erase dashes
    match words.head?.bind p.problem? with
    | some problem => argumentFailure p.name problem
    | none => .ok ({ r with words := some words }, tokens.drop count)

def Spec.readTokens (s : Spec) : Nat → Reading → List Token → Except Stop Reading
  | 0, r, tokens => .ok { r with extras := r.extras ++ tokens.map Token.text }
  | fuel + 1, r, tokens =>
    match tokens with
    | [] => .ok r
    | ⟨text, .unknownOption⟩ :: rest =>
      s.readTokens fuel { r with extras := r.extras ++ [text] } rest
    | ⟨_, .option o name attached⟩ :: rest => do
      let (r, rest) ← s.takeOption r o name attached rest
      s.readTokens fuel r rest
    | tokens => do
      let (taken, rest) ← s.takeWords r tokens
      if rest.length < tokens.length then s.readTokens fuel taken rest
      else
        let skipped := tokens.takeWhile Token.isWordOrDashes
        s.readTokens fuel { r with extras := r.extras ++ skipped.map Token.text }
          (tokens.drop skipped.length)

/-- The reading of all arguments. What is missing is reported only when nothing else is wrong. -/
def Spec.read (s : Spec) (args : List String) : Except Stop Reading := do
  let tokens ← s.tokens args
  let r ← s.readTokens (tokens.length + 1) .empty tokens
  if r.words.isNone && s.positional.required then
    throw (.failure ("the following arguments are required: " ++ s.positional.name))
  return r

namespace Reading

def has (r : Reading) (switch : Switch) : Bool := r.options.any (·.1 = switch)

def last? (r : Reading) (switch : Switch) : Option (Option String) :=
  (r.options.reverse.find? (·.1 = switch)).map (·.2)

def value? (r : Reading) (switch : Switch) : Option String := (r.last? switch).join

end Reading

end MeshMarkup.CommandLine
