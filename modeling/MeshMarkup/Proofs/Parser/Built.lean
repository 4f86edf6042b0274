import MeshMarkup.Parser.Expression
import MeshMarkup.Proofs.Parser.Number

namespace MeshMarkup.Parser

inductive Plain : {α : Type} → Parser α → Prop
  | token (literal : String) : Plain (token literal)
  | lookahead (literal : String) : Plain (lookahead literal)
  | upTo (literal : String) : Plain (upTo literal)
  | upToAny (literals : List String) : Plain (upToAny literals)
  | blanks : Plain blanks
  | digit : Plain digit
  | integer : Plain integer

/-- The smallest parsers. A parser that stands for parsers nested too deep is one of them. -/
inductive Primitive : {α : Type} → Parser α → Prop
  | plain {α : Type} {p : Parser α} (hp : Plain p) : Primitive p
  | decimal : Primitive decimal
  | scientific : Primitive scientific
  | refused {α : Type} (name : String) : Primitive (faulty name .tooDeep : Parser α)

/-- Parsers put together from some given ones. Functions on values that may fail for good are left
out unless they are asked for. -/
inductive Built (leaf : (α : Type) → Parser α → Prop) (fallible : Prop) :
    {α : Type} → Parser α → Prop
  | leaf {α : Type} {p : Parser α} (hp : leaf α p) : Built leaf fallible p
  | map {α β : Type} {p : Parser α} (f : α → β) (hp : Built leaf fallible p) :
      Built leaf fallible (p.map f)
  | convert {α β : Type} {p : Parser α} (hf : fallible) (f : α → Except Fault β)
      (hp : Built leaf fallible p) : Built leaf fallible (p.convert f)
  | andThen {α β : Type} {p : Parser α} {q : Parser β} (hp : Built leaf fallible p)
      (hq : Built leaf fallible q) : Built leaf fallible (p.andThen q)
  | orElse {α : Type} {p q : Parser α} (hp : Built leaf fallible p) (hq : Built leaf fallible q) :
      Built leaf fallible (p.orElse q)
  | many {α : Type} {p : Parser α} (hp : Built leaf fallible p) : Built leaf fallible p.many
  | delimited {α δ : Type} {p : Parser α} {d : Parser δ} (hp : Built leaf fallible p)
      (hd : Built leaf fallible d) : Built leaf fallible (p.delimited d)
  | optionalWith {α : Type} {p : Parser α} (absent : Value) (value : α)
      (hp : Built leaf fallible p) : Built leaf fallible (p.optionalWith absent value)
  | filter {α : Type} {p : Parser α} (test : α → Bool) (hp : Built leaf fallible p) :
      Built leaf fallible (p.filter test)
  | deferred {α : Type} (name : String) {p : Unit → Parser α} (hp : Built leaf fallible (p ())) :
      Built leaf fallible (deferred name p)
  | renamed {α : Type} {p q : Parser α} (hp : Built leaf fallible p) (hrun : q.run = p.run) :
      Built leaf fallible q

variable {α β δ : Type} {leaf : (α : Type) → Parser α → Prop} {fallible : Prop}

theorem Plain.local {p : Parser α} (h : Plain p) : p.Local := by
  cases h <;> infer_instance

theorem Primitive.local {p : Parser α} (h : Primitive p) : p.Local := by
  cases h with
  | plain hp => exact hp.local
  | decimal | scientific | refused => infer_instance

theorem Plain.ne_fault {p : Parser α} (h : Plain p) {text : List Char} {cause : Fault} :
    p.reading text ≠ .fault cause := by
  cases h with
  | token literal => exact (reads_token literal).ne_fault (by split <;> simp)
  | lookahead literal => exact (reads_lookahead literal).ne_fault (by split <;> simp)
  | upTo literal => exact (reads_upTo literal).ne_fault captured_ne_fault
  | upToAny literals => exact (reads_upToAny literals).ne_fault captured_ne_fault
  | blanks => exact reads_blanks.ne_fault (by split <;> simp)
  | digit =>
      cases text with
      | nil => exact reads_digit.ne_fault (by simp)
      | cons c rest =>
          rw [reading_digit_cons]
          split <;> simp
  | integer => exact integer_ne_fault

theorem Built.optional {p : Parser α} (h : Built leaf fallible p) (value : α) :
    Built leaf fallible (p.optional value) :=
  h.optionalWith _ value

theorem Built.local (hleaf : ∀ {α : Type} {p : Parser α}, leaf α p → p.Local) {p : Parser α}
    (h : Built leaf fallible p) : p.Local := by
  induction h with
  | leaf hp => exact hleaf hp
  | map f _ ih => exact (reads_map _ f).local
  | convert _ f _ ih => exact (reads_convert f _).local
  | andThen _ _ ihp ihq => exact (reads_andThen _ _).local
  | orElse _ _ ihp ihq => exact (reads_orElse _ _).local
  | many _ ih => exact (reads_many _).local
  | delimited _ _ ihp ihd => exact (reads_delimited _ _).local
  | optionalWith absent value _ ih => exact (reads_optionalWith _ absent value).local
  | filter test _ ih => exact (reads_filter test _).local
  | @deferred _ name p _ ih => exact (reads_deferred name p).local
  | renamed _ hrun ih => exact (ih.reads.of_run_eq hrun).local

/-- The outcome at a cursor and the outcome on the text that remains there: both the same fault, no
match in both, or the same value with the second end as many characters further on in the first
text as the cursor is. -/
inductive Shifted (c : Cursor) : Outcome α → Outcome α → Prop
  | fault (cause : Fault) : Shifted c (.fault cause) (.fault cause)
  | noMatch : Shifted c .noMatch .noMatch
  | matched {e d : Cursor} (htext : e.text = c.text) (hrest : d.text = c.text.drop c.offset)
      (hoffset : e.offset = c.offset + d.offset) (a : α) :
      Shifted c (.matched e a) (.matched d a)

/-- What a parser does at an offset of a text is what it does on the text that remains there. -/
def SuffixLocal (p : Parser α) : Prop :=
  ∀ c : Cursor, Shifted c (p.run c) (p.run (.start (c.text.drop c.offset)))

theorem suffixLocal_of_local (p : Parser α) [p.Local] : p.SuffixLocal := by
  intro c
  rw [← c.rest_eq, run_eq_outcome p c, run_eq_outcome p (.start c.rest)]
  have hrest : (Cursor.start c.rest).rest = c.rest := rfl
  rw [hrest]
  cases p.reading c.rest with
  | fault cause => exact .fault cause
  | noMatch => exact .noMatch
  | matched rest a =>
      refine .matched (Cursor.text_skip _ c) ?_ ?_ a
      · rw [Cursor.text_skip, ← c.rest_eq]
        rfl
      · rw [Cursor.offset_skip, Cursor.offset_skip, hrest]
        have hstart : (Cursor.start c.rest).offset = 0 := rfl
        omega

/-- A parser that fails for good only as said of the text. -/
structure FaultsOn (P : Fault → List Char → Prop) (α : Type) (p : Parser α) : Prop where
  is_local : p.Local
  reason : ∀ {text : List Char} {cause : Fault}, p.reading text = .fault cause → P cause text

variable {P : Fault → List Char → Prop}

theorem Plain.faultsOn {p : Parser α} (h : Plain p) : FaultsOn P α p :=
  ⟨h.local, fun hf => absurd hf h.ne_fault⟩

namespace FaultsOn

theorem map {p : Parser α} (hp : FaultsOn P α p) (f : α → β) : FaultsOn P β (p.map f) := by
  have := hp.is_local
  refine ⟨(reads_map p f).local, fun hf => ?_⟩
  rw [reading_map, Reading.map_eq_fault] at hf
  exact hp.reason hf

theorem orElse {p q : Parser α} (hp : FaultsOn P α p) (hq : FaultsOn P α q) :
    FaultsOn P α (p.orElse q) := by
  have := hp.is_local
  have := hq.is_local
  refine ⟨(reads_orElse p q).local, fun hf => ?_⟩
  rw [reading_orElse, Reading.orElse_eq_fault] at hf
  obtain hf | ⟨-, hf⟩ := hf
  · exact hp.reason hf
  · exact hq.reason hf

theorem optionalWith {p : Parser α} (hp : FaultsOn P α p) (absent : Value) (value : α) :
    FaultsOn P α (p.optionalWith absent value) := by
  have := hp.is_local
  refine ⟨(reads_optionalWith p absent value).local, fun hf => ?_⟩
  rw [(reads_optionalWith p absent value).reading_eq, Reading.orElse_eq_fault] at hf
  obtain hf | ⟨-, hf⟩ := hf
  · exact hp.reason hf
  · simp at hf

theorem filter {p : Parser α} (hp : FaultsOn P α p) (test : α → Bool) :
    FaultsOn P α (p.filter test) := by
  have := hp.is_local
  refine ⟨(reads_filter test p).local, fun hf => ?_⟩
  rw [reading_filter, Reading.bind_eq_fault] at hf
  obtain hf | ⟨mid, a, -, hf⟩ := hf
  · exact hp.reason hf
  · split at hf <;> simp at hf

theorem deferred {p : Unit → Parser α} (hp : FaultsOn P α (p ())) (name : String) :
    FaultsOn P α (.deferred name p) := by
  have := hp.is_local
  refine ⟨(reads_deferred name p).local, fun hf => ?_⟩
  rw [reading_deferred] at hf
  exact hp.reason hf

theorem renamed {p q : Parser α} (hp : FaultsOn P α p) (hrun : q.run = p.run) :
    FaultsOn P α q := by
  have := hp.is_local
  have hreads := (Local.reads (p := p)).of_run_eq hrun
  refine ⟨hreads.local, fun hf => hp.reason ?_⟩
  rwa [← hreads.reading_eq]

section Suffixes

variable (hP : ∀ {cause : Fault} {u text : List Char}, P cause u → u <:+ text → P cause text)

include hP

theorem andThen {p : Parser α} {q : Parser β} (hp : FaultsOn P α p) (hq : FaultsOn P β q) :
    FaultsOn P (α × β) (p.andThen q) := by
  have := hp.is_local
  have := hq.is_local
  refine ⟨(reads_andThen p q).local, fun hf => ?_⟩
  rw [reading_andThen, Reading.bind_eq_fault] at hf
  obtain hf | ⟨mid, a, hm, hf⟩ := hf
  · exact hp.reason hf
  · exact hP (hq.reason (Reading.map_eq_fault.mp hf)) (suffix_of_reading hm)

theorem many {p : Parser α} (hp : FaultsOn P α p) : FaultsOn P (List α) p.many := by
  have := hp.is_local
  refine ⟨(reads_many p).local, fun hf => ?_⟩
  rw [(reads_many p).reading_eq, Reading.bind_eq_fault] at hf
  obtain hf | ⟨mid, a, hm, hf⟩ := hf
  · exact hp.reason hf
  · obtain ⟨u, hu, hf⟩ := turnsReading_fault _ hf
    exact hP (hp.reason hf) (hu.trans (suffix_of_reading hm))

theorem delimited {p : Parser α} {d : Parser β} (hp : FaultsOn P α p) (hd : FaultsOn P β d) :
    FaultsOn P (List α) (p.delimited d) := by
  have := hp.is_local
  have := hd.is_local
  refine ⟨(reads_delimited p d).local, fun hf => ?_⟩
  rw [(reads_delimited p d).reading_eq, Reading.bind_eq_fault] at hf
  obtain hf | ⟨mid, a, hm, hf⟩ := hf
  · exact hp.reason hf
  · obtain ⟨u, hu, hf⟩ := roundsReading_fault _ _ hf
    have hsuffix := hu.trans (suffix_of_reading hm)
    obtain hf | hf := hf
    · exact hP (hp.reason hf) hsuffix
    · exact hP (hd.reason hf) hsuffix

end Suffixes

end FaultsOn

/-- Without functions that may fail, faults are those of the given parsers, further on in the
text. -/
theorem Built.faultsOn {p : Parser α} (h : Built (FaultsOn P) False p)
    (hP : ∀ {cause : Fault} {u text : List Char}, P cause u → u <:+ text → P cause text) :
    FaultsOn P α p := by
  induction h with
  | leaf hp => exact hp
  | map f _ ih => exact ih.map f
  | convert hfalse => exact hfalse.elim
  | andThen _ _ ihp ihq => exact ihp.andThen @hP ihq
  | orElse _ _ ihp ihq => exact ihp.orElse ihq
  | many _ ih => exact ih.many @hP
  | delimited _ _ ihp ihd => exact ihp.delimited @hP ihd
  | optionalWith absent value _ ih => exact ih.optionalWith absent value
  | filter test _ ih => exact ih.filter test
  | deferred name _ ih => exact ih.deferred name
  | renamed _ hrun ih => exact ih.renamed hrun

theorem Built.plain {p : Parser α} (h : Plain p) : Built @Primitive fallible p := .leaf (.plain h)

open Expr in
/-- The parsers that expressions denote are built from the smallest ones, whatever the rules. -/
theorem built_parserWithin (rules : List (String × Expr)) (levels : Nat) (e : Expr) :
    Built @Primitive fallible (parserWithin rules levels e) := by
  induction levels generalizing e with
  | zero => exact .leaf (.refused "nested")
  | succ levels ih =>
      have hlift {α : Type} (f : α → Value) {p : Parser α} (hp : Built @Primitive fallible p) :
          Built @Primitive fallible (lift f p) := (hp.map f).renamed rfl
      cases e with
      | token literal => exact hlift _ (.plain (.token literal))
      | lookahead literal => exact hlift _ (.plain (.lookahead literal))
      | upTo literal => exact hlift _ (.plain (.upTo literal))
      | upToAny literals => exact hlift _ (.plain (.upToAny literals))
      | blanks => exact hlift _ (.plain .blanks)
      | digit => exact hlift _ (.plain .digit)
      | integer => exact hlift _ (.plain .integer)
      | decimal => exact hlift _ (.leaf .decimal)
      | scientific => exact hlift _ (.leaf .scientific)
      | andThen a b => exact hlift _ ((ih a).andThen (ih b))
      | orElse a b => exact (ih a).orElse (ih b)
      | many a => exact hlift _ (ih a).many
      | delimited a delimiter => exact hlift _ ((ih a).delimited (ih delimiter))
      | optional a => exact (ih a).optional _
      | optionalWith a absent => exact (ih a).optionalWith absent absent
      | filter a check => exact (ih a).filter check.holds
      | map a f => exact (ih a).map f.apply
      | mapWith a f absent => exact ((ih a).map f.apply).renamed rfl
      | rule name label =>
          rw [parserWithin]
          refine .deferred label ?_
          cases rules.find? (·.1 = name) with
          | some found => exact ih found.2
          | none =>
              -- a missing rule matches as little as a filter that nothing passes
              have hnone : Built @Primitive fallible ((token "").filter fun _ => false) :=
                .filter _ (.plain (.token ""))
              exact (hnone.map Value.text).renamed rfl

end MeshMarkup.Parser
