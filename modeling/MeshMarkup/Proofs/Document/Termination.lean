import MeshMarkup.Proofs.Document.Nesting
import MeshMarkup.Proofs.Parser.Agreement

namespace MeshMarkup.Grammar

open Text MeshMarkup.Parser

variable {strict : Bool}

section Advances

variable (strict) (element : Parser Node) [element.Local]

theorem advances_prologue : Advances 4
    ((((token "<?").andThen (upTo "?")).andThen (token "?>")).andThen optionalBlanks) :=
  (((advances_token "<?").andThen forward_of_local).andThen (advances_token "?>")).andThen
    forward_of_local

theorem advances_opening : Advances 2
    (((token "<").andThen (opening openTagName)).andThen (token ">")) :=
  ((advances_token "<").andThen forward_of_local).andThen (advances_token ">")

theorem advances_elementParts : Advances 5 (elementParts element) := by
  have hbody := advances_opening.andThen (forward_of_local
    (p := (optionalBlanks.andThen (content element)).andThen optionalBlanks))
  exact (((hbody.andThen (advances_token "</")).andThen forward_of_local).andThen
    (advances_token ">")).map _

theorem advances_tag : Advances 5 (tag strict element) := by
  cases strict with
  | false => exact (advances_elementParts element).map _
  | true => exact ((advances_elementParts element).filter _).map _

theorem advances_closedTag : Advances 3 closedTag :=
  (((advances_token "<").andThen forward_of_local).andThen (advances_token "/>")).map _

theorem advances_documentOver : Advances 3 (documentOver strict element) := by
  have hheader : Advances 4 (header element) := (advances_prologue.andThen forward_of_local).map _
  exact ((hheader.mono (by omega)).orElse ((advances_tag strict element).mono (by omega))).orElse
    advances_closedTag

theorem advances_documentWithin (levels : Nat) : Advances 3 (documentWithin strict levels) := by
  cases levels with
  | zero =>
      intro c next t hr
      simp [documentWithin, faulty] at hr
  | succ levels => exact advances_documentOver strict (below strict levels)

theorem advances_anyAttribute : Advances 3 anyAttribute := by
  have hname : Advances 2 (attributeName.andThen (token "=\"")) :=
    (forward_of_local (p := attributeName)).andThen (advances_token "=\"")
  have hinteger : Advances 3 integerAttribute :=
    ((hname.andThen forward_of_local).andThen (advances_token "\"")).map _
  have htext : Advances 3 textAttribute :=
    ((hname.andThen forward_of_local).andThen (advances_token "\"")).map _
  exact (hinteger.orElse htext).filter _

theorem advances_scientific : Advances 1 scientific :=
  advances_of_reading fun hr => by
    obtain ⟨l, hl, -, rfl⟩ := scientific_matched hr
    have hpos := List.length_pos_iff.mpr (literal_solid hl).1
    rw [List.length_append]
    omega

end Advances

section Steady

theorem steady_optionalBlanks : Steady optionalBlanks := .optional () .blanks

theorem steady_attributes : Steady attributes := by
  have hname : Steady (attributeName.andThen (token "=\"")) := .andThen (.upToAny _) (.token _)
  have hinteger : Steady integerAttribute :=
    .map _ (.andThen (.andThen hname steady_integer) (.token _))
  have htext : Steady textAttribute := .map _ (.andThen (.andThen hname (.upTo _)) (.token _))
  have hany : Steady anyAttribute := .filter _ (.orElse hinteger htext)
  exact .optional [] (hany.delimited_of_advances .blanks
    (advances_anyAttribute.mono (by omega)) forward_of_local)

theorem steady_opening {name : Parser String} (hn : Steady name) : Steady (opening name) :=
  .andThen hn (.andThen steady_optionalBlanks steady_attributes)

theorem steady_numbers : Steady numbers :=
  .map _ (.andThen (steady_scientific.delimited_of_advances .blanks advances_scientific
    forward_of_local) (.lookahead "<"))

variable {element : Parser Node} (he : Steady element) (hadv : Advances 1 element)
include he

theorem steady_header : Steady (header element) :=
  .map _ (.andThen (.andThen (.andThen (.andThen (.token _) (.upTo _)) (.token _))
    steady_optionalBlanks) he)

include hadv

theorem steady_content : Steady (content element) :=
  .orElse (.orElse (he.delimited_of_advances steady_optionalBlanks hadv forward_of_local)
    (.map _ steady_numbers)) (.map _ (.map _ (.upTo _)))

theorem steady_tag : Steady (tag strict element) := by
  have hopening : Steady (((token "<").andThen (opening openTagName)).andThen (token ">")) :=
    .andThen (.andThen (.token _) (steady_opening (.filter _ (.upToAny _)))) (.token _)
  have hbody : Steady ((optionalBlanks.andThen (content element)).andThen optionalBlanks) :=
    .andThen (.andThen steady_optionalBlanks (steady_content he hadv)) steady_optionalBlanks
  have hparts : Steady (elementParts element) :=
    .map _ (.andThen (.andThen (.andThen (.andThen hopening hbody) (.token _)) (.upTo _))
      (.token _))
  cases strict with
  | false => exact .map _ hparts
  | true => exact .map _ (.filter _ hparts)

theorem steady_documentOver : Steady (documentOver strict element) := by
  have hclosed : Steady closedTag :=
    .map _ (.andThen (.andThen (.token _) (steady_opening (.filter _ (.upToAny _)))) (.token _))
  exact .orElse (.orElse (steady_header he) (steady_tag he hadv)) hclosed

omit he hadv in
theorem steady_documentWithin (levels : Nat) : Steady (documentWithin strict levels) := by
  induction levels with
  | zero => exact .faulty _ _
  | succ levels ih =>
      have hbelow : Steady (below strict levels) := .deferred _ ih
      exact steady_documentOver hbelow ((advances_documentWithin strict levels).mono (by omega))

end Steady

section Agreement

variable {excused : Fault → Prop} {text : List Char} {n : Nat} {element element' : Parser Node}
  [element'.Local]

theorem agrees_content (h : Agrees excused text n element element') :
    Agrees excused text n (content element) (content element') :=
  ((h.delimited forward_of_local forward_of_local).orElse (.refl _)).orElse (.refl _)

omit [element'.Local] in
theorem agrees_header (h : Agrees excused text (n + 4) element element') :
    Agrees excused text n (header element) (header element') :=
  (Agrees.andThen (.refl _) advances_prologue h).map _

theorem agrees_tag (h : Agrees excused text (n + 2) element element') :
    Agrees excused text n (tag strict element) (tag strict element') := by
  have hbody : Agrees excused text (n + 2)
      ((optionalBlanks.andThen (content element)).andThen optionalBlanks)
      ((optionalBlanks.andThen (content element')).andThen optionalBlanks) :=
    Agrees.andThen (Agrees.andThen (.refl _) forward_of_local (agrees_content h))
      forward_of_local (.refl _)
  have hfront := Agrees.andThen (.refl _) advances_opening hbody
  -- the closing tag is the same parser on both sides, so it agrees wherever it stands
  have hparts : Agrees excused text n (elementParts element) (elementParts element') :=
    (((hfront.andThen forward_of_local (.refl (token "</"))).andThen forward_of_local
      (.refl (upTo ">"))).andThen forward_of_local (.refl (token ">"))).map _
  cases strict with
  | false => exact hparts.map _
  | true => exact (hparts.filter _).map _

/-- A document asks documents nested in it for what they make of the text further on only. -/
theorem agrees_documentOver (h : Agrees excused text (n + 1) element element') :
    Agrees excused text n (documentOver strict element) (documentOver strict element') :=
  ((agrees_header (h.mono (by omega))).orElse (agrees_tag (h.mono (by omega)))).orElse (.refl _)

theorem before_of_begins {element : Parser Node} [element.Local] {c start : Cursor}
    (h : Begins (documentOver strict) element c start) : c.Before start :=
  h.before fun _ => agrees_documentOver

end Agreement

/-- With another level, nothing changes but that a refusal for the nesting may be lifted. -/
theorem agrees_documentWithin_succ (strict : Bool) (text : List Char) (levels n : Nat) :
    Agrees (· = .tooDeep) text n (documentWithin strict levels)
      (documentWithin strict (levels + 1)) := by
  induction levels generalizing n with
  | zero =>
      -- without a level the first of the two is refused at once
      exact fun c _ _ => .inr ⟨.tooDeep, rfl, rfl⟩
  | succ levels ih =>
      have hbelow : Agrees (· = .tooDeep) text (n + 1) (below strict levels)
          (below strict (levels + 1)) := ih (n + 1)
      exact agrees_documentOver hbelow

theorem documentWithin_upTo (strict : Bool) {levels more : Nat} (h : levels ≤ more) (c : Cursor) :
    ((documentWithin strict levels).run c).UpTo (· = .tooDeep)
      ((documentWithin strict more).run c) := by
  induction more, h using Nat.le_induction with
  | base => exact .refl _
  | succ more _ ih =>
      exact ih.trans (agrees_documentWithin_succ strict c.text more 0 c rfl (Nat.zero_le _))

/-- Documents nested without a bound: as many levels as characters remain are enough. -/
def unbounded (strict : Bool) : Parser Node where
  label := .named "document"
  absent := .nothing
  run c := (documentWithin strict (c.rest.length + 1)).run c

theorem reads_unbounded (strict : Bool) : (unbounded strict).Reads fun text =>
    (documentWithin strict (text.length + 1)).reading text where
  run_eq c := run_eq_outcome (documentWithin strict (c.rest.length + 1)) c
  suffix h := suffix_of_reading h

instance : (unbounded strict).Local := (reads_unbounded strict).local

theorem documentWithin_ne_tooDeep {levels : Nat} {c : Cursor} (h : c.rest.length < levels) :
    (documentWithin strict levels).run c ≠ .fault .tooDeep := by
  intro hf
  have hle := (faultsOn_documentWithin strict levels).reason (reading_eq_fault_iff.mp hf) rfl
  have hcount := List.count_le_length (a := '<') (l := c.rest)
  omega

theorem documentWithin_eq_unbounded {levels : Nat} {c : Cursor} (h : c.rest.length < levels) :
    (documentWithin strict levels).run c = (unbounded strict).run c := by
  refine ((documentWithin_upTo strict (show c.rest.length + 1 ≤ levels from h) c).eq ?_).symm
  rintro cause rfl
  exact documentWithin_ne_tooDeep (Nat.lt_succ_self _)

theorem documentWithin_eq_or_tooDeep {levels : Nat} {c : Cursor} :
    (documentWithin strict levels).run c = (unbounded strict).run c ∨
      (documentWithin strict levels).run c = .fault .tooDeep := by
  by_cases h : c.rest.length < levels
  · exact .inl (documentWithin_eq_unbounded h)
  · obtain heq | ⟨_, rfl, heq⟩ := documentWithin_upTo strict
      (show levels ≤ c.rest.length + 1 by omega) c
    · exact .inl heq
    · exact .inr heq

/-- Ahead of a cursor, levels for the text that remains there make up for a missing bound. -/
theorem agrees_unbounded (c : Cursor) {document : Parser Node}
    (h : ∀ d : Cursor, d.rest.length < c.rest.length → document.run d = (unbounded strict).run d) :
    Agrees (fun _ => False) c.text (c.offset + 1) document (below strict c.rest.length) := by
  intro d htext hle
  have hlt : d.rest.length < c.rest.length := Cursor.Before.length_rest_lt ⟨htext, hle⟩
  have hbelow : (below strict c.rest.length).run d = (unbounded strict).run d :=
    documentWithin_eq_unbounded hlt
  exact .inl ((h d hlt).trans hbelow.symm)

theorem documentOver_eq_unbounded (c : Cursor) {document : Parser Node}
    (h : ∀ d : Cursor, d.rest.length < c.rest.length → document.run d = (unbounded strict).run d) :
    (documentOver strict document).run c = (unbounded strict).run c :=
  (agrees_documentOver (agrees_unbounded c h) c rfl (Nat.le_refl _)).eq fun _ => False.elim

theorem eq_unbounded {document : Parser Node}
    (h : ∀ c, document.run c = (documentOver strict document).run c) :
    document.run = (unbounded strict).run := by
  funext c
  -- nested documents are begun further on, where less of the text remains
  induction hn : c.rest.length using Nat.strongRecOn generalizing c with
  | ind n ih =>
      subst hn
      rw [h c]
      exact documentOver_eq_unbounded c fun d hd => ih _ hd d rfl

/-- Documents nested without a bound, as the rules determine them. A document in another is begun
at a larger offset, so they are nested no deeper than the text is long. A bound on the nesting can
only refuse a document, and it does not when it is beyond the length of the text. -/
structure FreelyNested (strict : Bool) (document : Parser Node) : Prop where
  rule (c : Cursor) : document.run c = (documentOver strict document).run c
  unique (other : Parser Node) (h : ∀ c, other.run c = (documentOver strict other).run c) :
    other.run = document.run
  later {c start : Cursor} (h : Begins (documentOver strict) document c start) : c.Before start
  depth {c : Cursor} {path : List Cursor} (h : Descent (documentOver strict) document c path) :
    path.length ≤ c.rest.length
  within (levels : Nat) (c : Cursor) : (documentWithin strict levels).run c = document.run c ∨
    (documentWithin strict levels).run c = .fault .tooDeep
  enough {levels : Nat} {c : Cursor} (h : c.rest.length < levels) :
    (documentWithin strict levels).run c = document.run c ∧ document.run c ≠ .fault .tooDeep

theorem freelyNested_unbounded (strict : Bool) : FreelyNested strict (unbounded strict) where
  rule c := (documentOver_eq_unbounded c fun _ _ => rfl).symm
  unique _ := eq_unbounded
  later := before_of_begins
  depth h := h.length_le fun _ _ => before_of_begins
  within _ _ := documentWithin_eq_or_tooDeep
  enough h := ⟨documentWithin_eq_unbounded h, documentWithin_ne_tooDeep (Nat.lt_succ_self _)⟩

/-- The document grammar comes to an end on every text. A document nested in another is begun at a
larger offset of the same text, every round of every repetition leads on, and a document takes at
least three characters; so the rules have a meaning without a bound on the nesting. -/
theorem document_terminates (g : Grammar) :
    (∀ levels c start, Begins (documentOver g.strictCloseTags) (below g.strictCloseTags levels)
      c start → c.Before start) ∧
    (∀ levels, Steady (documentWithin g.strictCloseTags levels)) ∧
    (∀ levels, Advances 3 (documentWithin g.strictCloseTags levels)) ∧
    ∃ document, FreelyNested g.strictCloseTags document := by
  refine ⟨fun levels c start h => ?_, steady_documentWithin, ?_, ?_⟩
  · exact before_of_begins h
  · exact advances_documentWithin g.strictCloseTags
  · exact ⟨unbounded g.strictCloseTags, freelyNested_unbounded g.strictCloseTags⟩

example : Begins (documentOver false) (below false 1) (.start "<a><b/><c/></a>".toList)
    (Cursor.skip 7 (.start "<a><b/><c/></a>".toList)) :=
  ⟨.tooDeep, nofun⟩

end MeshMarkup.Grammar
