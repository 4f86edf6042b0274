import MeshMarkup.Proofs.Document.Elements
import MeshMarkup.Proofs.Parser.Built

namespace MeshMarkup.Grammar

open MeshMarkup.Parser

inductive Production (g : Grammar) : {α : Type} → Parser α → Prop
  | document : Production g g.document
  | nested : Production g g.nested
  | header : Production g (header g.nested)
  | tag : Production g (tag g.strictCloseTags g.nested)
  | closedTag : Production g closedTag
  | content : Production g (content g.nested)
  | text : Production g text
  | numbers : Production g numbers
  | anyAttribute : Production g anyAttribute
  | attributes : Production g attributes
  | openTagName : Production g openTagName
  | closedTagName : Production g closedTagName

section Built

variable {leaf : (α : Type) → Parser α → Prop} {fallible : Prop}
variable (hplain : ∀ {α : Type} {p : Parser α}, Plain p → leaf α p)

include hplain

theorem built_token (literal : String) : Built leaf fallible (token literal) :=
  .leaf (hplain (.token literal))

theorem built_optionalBlanks : Built leaf fallible optionalBlanks :=
  Built.optional (.leaf (hplain .blanks)) ()

theorem built_text : Built leaf fallible text := .map _ (.leaf (hplain (.upTo "<")))

theorem built_anyAttribute : Built leaf fallible anyAttribute := by
  have hname : Built leaf fallible attributeName := .leaf (hplain (.upToAny _))
  have hquote : Built leaf fallible (token "\"") := built_token hplain _
  have hequals := hname.andThen (built_token hplain "=\"")
  have hinteger : Built leaf fallible integerAttribute :=
    .map _ ((hequals.andThen (.leaf (hplain .integer))).andThen hquote)
  have htext : Built leaf fallible textAttribute :=
    .map _ ((hequals.andThen (.leaf (hplain (.upTo _)))).andThen hquote)
  exact .filter _ (hinteger.orElse htext)

theorem built_attributes : Built leaf fallible attributes :=
  Built.optional ((built_anyAttribute hplain).delimited (.leaf (hplain .blanks))) []

theorem built_openTagName : Built leaf fallible openTagName :=
  .filter _ (.leaf (hplain (.upToAny _)))

theorem built_closedTagName : Built leaf fallible closedTagName :=
  .filter _ (.leaf (hplain (.upToAny _)))

theorem built_opening {name : Parser String} (hn : Built leaf fallible name) :
    Built leaf fallible (opening name) :=
  hn.andThen ((built_optionalBlanks hplain).andThen (built_attributes hplain))

theorem built_closedTag : Built leaf fallible closedTag :=
  .map _ (((built_token hplain _).andThen
    (built_opening hplain (built_closedTagName hplain))).andThen (built_token hplain _))

variable (hn : leaf Binary64 scientific)

include hn

theorem built_numbers : Built leaf fallible numbers :=
  .map _ (.andThen (.delimited (.leaf hn) (.leaf (hplain .blanks)))
    (.leaf (hplain (.lookahead "<"))))

section Element

variable {element : Parser Node} (he : Built leaf fallible element)

include he

theorem built_content : Built leaf fallible (content element) :=
  ((he.delimited (built_optionalBlanks hplain)).orElse ((built_numbers hplain hn).map _)).orElse
    ((built_text hplain).map _)

omit hn in
theorem built_header : Built leaf fallible (header element) :=
  .map _ (((((built_token hplain _).andThen (.leaf (hplain (.upTo _)))).andThen
    (built_token hplain _)).andThen (built_optionalBlanks hplain)).andThen he)

omit hn he in
theorem built_tag_of_front (strict : Bool)
    (hfront : Built leaf fallible ((((token "<").andThen (opening openTagName)).andThen
      (token ">")).andThen ((optionalBlanks.andThen (content element)).andThen optionalBlanks))) :
    Built leaf fallible (tag strict element) := by
  have hparts : Built leaf fallible (elementParts element) :=
    .map _ (((hfront.andThen (built_token hplain _)).andThen (.leaf (hplain (.upTo _)))).andThen
      (built_token hplain _))
  cases strict with
  | false => exact hparts.map _
  | true => exact (hparts.filter _).map _

theorem built_tag (strict : Bool) : Built leaf fallible (tag strict element) := by
  refine built_tag_of_front hplain strict (.andThen ?_ ?_)
  · exact ((built_token hplain "<").andThen
      (built_opening hplain (built_openTagName hplain))).andThen (built_token hplain ">")
  · exact ((built_optionalBlanks hplain).andThen (built_content hplain hn he)).andThen
      (built_optionalBlanks hplain)

theorem built_documentOver (strict : Bool) : Built leaf fallible (documentOver strict element) :=
  ((built_header hplain he).orElse (built_tag hplain hn he strict)).orElse (built_closedTag hplain)

end Element

variable (hrefused : ∀ name, leaf Node (faulty name .tooDeep))

include hrefused

theorem built_documentWithin (strict : Bool) (levels : Nat) :
    Built leaf fallible (documentWithin strict levels) := by
  induction levels with
  | zero => exact .leaf (hrefused "document")
  | succ levels ih => exact built_documentOver hplain hn (ih.deferred "document") strict

theorem built_production {g : Grammar} {α : Type} {p : Parser α} (h : g.Production p) :
    Built leaf fallible p := by
  have hnested : Built leaf fallible g.nested :=
    (built_documentWithin hplain hn hrefused g.strictCloseTags g.nestingLimit).deferred "document"
  cases h with
  | document => exact built_documentWithin hplain hn hrefused _ _
  | nested => exact hnested
  | header => exact built_header hplain hnested
  | tag => exact built_tag hplain hn hnested _
  | closedTag => exact built_closedTag hplain
  | content => exact built_content hplain hn hnested
  | text => exact built_text hplain
  | numbers => exact built_numbers hplain hn
  | anyAttribute => exact built_anyAttribute hplain
  | attributes => exact built_attributes hplain
  | openTagName => exact built_openTagName hplain
  | closedTagName => exact built_closedTagName hplain

end Built

/-- At any offset of any text, a parser does what it does on the text that remains there: it fails
or matches alike, with the same value, and ends as much further on. This holds of every parser
that the combinators build, of every expression over rules that refer to one another, and of every
production of a grammar. -/
theorem suffix_local :
    (∀ {α : Type} {p : Parser α}, Built @Primitive True p → p.SuffixLocal) ∧
    (∀ (rules : List (String × Expr)) (levels : Nat) (e : Expr),
      (Expr.parserWithin rules levels e).SuffixLocal) ∧
    ∀ (g : Grammar) {α : Type} {p : Parser α}, g.Production p → p.SuffixLocal := by
  have hbuilt {α : Type} {p : Parser α} (h : Built @Primitive True p) : p.SuffixLocal := by
    have := h.local Primitive.local
    exact suffixLocal_of_local p
  exact ⟨hbuilt, fun rules levels e => hbuilt (built_parserWithin rules levels e),
    fun g _ _ h => hbuilt (built_production .plain .scientific .refused h)⟩

theorem suffix_local_middle :
    Shifted (Cursor.skip 3 (.start "ab 12 3-".toList))
        ((digit.many.delimited blanks).run (Cursor.skip 3 (.start "ab 12 3-".toList)))
        ((digit.many.delimited blanks).run (.start "12 3-".toList)) ∧
      Shifted (Cursor.skip 1 (.start " <a>7</a>".toList))
        ((lenient 9).document.run (Cursor.skip 1 (.start " <a>7</a>".toList)))
        ((lenient 9).document.run (.start "<a>7</a>".toList)) := by
  have hrows : Built @Primitive True (digit.many.delimited blanks) :=
    (Built.plain .digit).many.delimited (.plain .blanks)
  exact ⟨suffix_local.1 hrows (Cursor.skip 3 (.start "ab 12 3-".toList)),
    suffix_local.2.2 (lenient 9) .document (Cursor.skip 1 (.start " <a>7</a>".toList))⟩

end MeshMarkup.Grammar
