import MeshMarkup.Proofs.Parser.Built
import MeshMarkup.Proofs.Parser.Progress

namespace MeshMarkup

namespace Cursor

theorem ext_offset {c d : Cursor} (htext : c.text = d.text) (hoffset : c.offset = d.offset) :
    c = d := by
  have hrest : c.rest = d.rest := by rw [c.rest_eq, d.rest_eq, htext, hoffset]
  cases c
  cases d
  simp_all

theorem advance?_eq_skip {c : Cursor} {count : Nat} (h : count ≤ c.rest.length) :
    c.advance? count = some (c.skip count) := by
  rw [advance?]
  split
  · next hzero =>
    obtain rfl : count = 0 := by omega
    rfl
  · have hle : c.offset + count ≤ c.text.length := by
      have := c.offset_add_length
      omega
    have hin : 0 ≤ (c.offset + count : Int) ∧ (c.offset + count : Int).toNat ≤ c.text.length := by
      omega
    rw [at?, dif_pos hin, Option.some.injEq]
    refine ext_offset (text_skip count c).symm ?_
    rw [offset_skip]
    simp only
    omega

theorem slice_eq_take (c : Cursor) (count : Nat) :
    c.slice count = String.ofList (c.rest.take count) := by
  have hpos : ¬ ((c.offset : Int) + count < 0) := by omega
  simp [slice, hpos]

def between (c next : Cursor) : List Char := (c.text.take next.offset).drop c.offset

theorem between_skip (c : Cursor) (count : Nat) :
    c.between (c.skip count) = c.rest.take count := by
  rw [between, offset_skip, List.drop_take, Nat.add_sub_cancel_left, ← c.rest_eq,
    ← List.take_eq_take_min]

end Cursor

namespace Parser

variable {α β δ : Type}

/-- A run in which every move is checked. It gives nothing where a move is refused. -/
abbrev Checked (α : Type) := Cursor → Option (Outcome α)

namespace Checked

def moved (c : Cursor) (count : Int) (value : α) : Option (Outcome α) :=
  (c.advance? count).map (.matched · value)

def bind (step : Option (Outcome α)) (next : Cursor → α → Option (Outcome β)) :
    Option (Outcome β) :=
  match step with
  | none => none
  | some (.fault cause) => some (.fault cause)
  | some .noMatch => some .noMatch
  | some (.matched rest value) => next rest value

def token (literal : String) : Checked String := fun c =>
  if c.startsWith literal.toList then moved c literal.toList.length literal else some .noMatch

def lookahead (literal : String) : Checked Unit := fun c =>
  if c.startsWith literal.toList then some (.matched c ()) else some .noMatch

def capture (place : Cursor → Option Nat) : Checked String := fun c =>
  match place c with
  | none => some (.matched c "")
  | some count => moved c count (c.slice count)

def blanks : Checked Unit := fun c =>
  match c.peek? with
  | some ch =>
    if Text.isBlank ch then moved c (c.rest.takeWhile Text.isBlank).length () else some .noMatch
  | none => some .noMatch

def digit : Checked Nat := fun c =>
  match c.peek? with
  | some ch => if ch.isDigit then moved c 1 (digitValue ch) else some .noMatch
  | none => some .noMatch

def map (f : α → β) (run : Checked α) : Checked β := fun c => (run c).map (Outcome.map f)

def convert (f : α → Except Fault β) (run : Checked α) : Checked β := fun c =>
  bind (run c) fun rest a =>
    match f a with
    | .ok b => some (.matched rest b)
    | .error cause => some (.fault cause)

def andThen (run : Checked α) (run' : Checked β) : Checked (α × β) := fun c =>
  bind (run c) fun rest a => (run' rest).map (Outcome.map fun b => (a, b))

def orElse (run run' : Checked α) : Checked α := fun c =>
  match run c with
  | some .noMatch => run' c
  | outcome => outcome

def filter (test : α → Bool) (run : Checked α) : Checked α := fun c =>
  bind (run c) fun rest value => some (if test value then .matched rest value else .noMatch)

def manyFrom (run : Checked α) : List Char → Cursor → List α → Option (Outcome (List α))
  | fuel, c, values =>
    match run c with
    | none => none
    | some (.fault cause) => some (.fault cause)
    | some .noMatch => some (.matched c values.reverse)
    | some (.matched rest value) =>
      if rest.offset = c.offset then some (.matched c values.reverse)
      else match fuel with
        | [] => some (.matched c values.reverse)
        | _ :: fuel => manyFrom run fuel rest (value :: values)

def many (run : Checked α) : Checked (List α) := fun c =>
  bind (run c) fun rest value => manyFrom run rest.rest rest [value]

def delimitedFrom (run : Checked α) (delimiter : Checked δ) :
    List Char → Cursor → List α → Option (Outcome (List α))
  | fuel, c, values =>
    match delimiter c with
    | none => none
    | some (.fault cause) => some (.fault cause)
    | some .noMatch => some (.matched c values.reverse)
    | some (.matched after _) =>
      match run after with
      | none => none
      | some (.fault cause) => some (.fault cause)
      | some .noMatch => some (.matched after values.reverse)
      | some (.matched rest value) =>
        if rest.offset = c.offset then some (.matched rest (value :: values).reverse)
        else match fuel with
          | [] => some (.matched rest (value :: values).reverse)
          | _ :: fuel => delimitedFrom run delimiter fuel rest (value :: values)

def delimited (run : Checked α) (delimiter : Checked δ) : Checked (List α) := fun c =>
  bind (run c) fun rest value => delimitedFrom run delimiter rest.rest rest [value]

end Checked

/-- The checked runs of a parser, put together as the parser is. -/
inductive Checks : {α : Type} → Parser α → Checked α → Prop
  | token (literal : String) : Checks (token literal) (Checked.token literal)
  | lookahead (literal : String) : Checks (lookahead literal) (Checked.lookahead literal)
  | upTo (literal : String) : Checks (upTo literal) (Checked.capture (·.find? literal.toList))
  | upToAny (literals : List String) :
      Checks (upToAny literals) (Checked.capture (·.findAny? (literals.map String.toList)))
  | blanks : Checks blanks Checked.blanks
  | digit : Checks digit Checked.digit
  | faulty {α : Type} (name : String) (cause : Fault) :
      Checks (faulty name cause : Parser α) fun _ => some (.fault cause)
  | map {α β : Type} {p : Parser α} {run : Checked α} (f : α → β) (h : Checks p run) :
      Checks (p.map f) (run.map f)
  | convert {α β : Type} {p : Parser α} {run : Checked α} (f : α → Except Fault β)
      (h : Checks p run) : Checks (p.convert f) (run.convert f)
  | andThen {α β : Type} {p : Parser α} {q : Parser β} {run : Checked α} {run' : Checked β}
      (hp : Checks p run) (hq : Checks q run') : Checks (p.andThen q) (run.andThen run')
  | orElse {α : Type} {p q : Parser α} {run run' : Checked α} (hp : Checks p run)
      (hq : Checks q run') : Checks (p.orElse q) (run.orElse run')
  | many {α : Type} {p : Parser α} {run : Checked α} (h : Checks p run) : Checks p.many run.many
  | delimited {α δ : Type} {p : Parser α} {d : Parser δ} {run : Checked α} {run' : Checked δ}
      (hp : Checks p run) (hd : Checks d run') : Checks (p.delimited d) (run.delimited run')
  | optionalWith {α : Type} {p : Parser α} {run : Checked α} (absent : Value) (value : α)
      (h : Checks p run) :
      Checks (p.optionalWith absent value) (run.orElse fun c => some (.matched c value))
  | filter {α : Type} {p : Parser α} {run : Checked α} (test : α → Bool) (h : Checks p run) :
      Checks (p.filter test) (run.filter test)
  | deferred {α : Type} {p : Unit → Parser α} {run : Checked α} (name : String)
      (h : Checks (p ()) run) : Checks (deferred name p) run
  | renamed {α : Type} {p q : Parser α} {run : Checked α} (h : Checks p run)
      (hrun : q.run = p.run) : Checks q run

theorem Checked.moved_eq_some {c : Cursor} {count : Nat} (h : count ≤ c.rest.length) (value : α) :
    moved c count value = some (.matched (c.skip count) value) := by
  rw [moved, Cursor.advance?_eq_skip h]
  rfl

theorem Checked.bind_some {outcome : Outcome α} {next : Cursor → α → Option (Outcome β)}
    {next' : Cursor → α → Outcome β} (h : ∀ rest value, next rest value = some (next' rest value)) :
    Checked.bind (some outcome) next = some (outcome.bind next') := by
  cases outcome with
  | fault | noMatch => rfl
  | matched rest value => exact h rest value

section Combinators

variable {p q : Parser α} {d : Parser β} {run run' : Checked α} {runD : Checked β}

theorem checked_capture {place : Cursor → Option Nat} {c : Cursor}
    (hplace : ∀ n, place c = some n → n ≤ c.rest.length) :
    Checked.capture place c = some (capture (place c) c) := by
  rw [Checked.capture]
  cases h : place c with
  | none => rfl
  | some count => simp only [Checked.moved_eq_some (hplace count h), Cursor.slice_eq_take, capture]

theorem checked_token (literal : String) (c : Cursor) :
    Checked.token literal c = some ((token literal).run c) := by
  rw [Checked.token, token]
  by_cases h : c.startsWith literal.toList = true
  · have hle : literal.toList.length ≤ c.rest.length :=
      (List.isPrefixOf_iff_prefix.mp h).length_le
    simp only [h, if_true, Checked.moved_eq_some hle]
  · simp only [h, Bool.false_eq_true, if_false]

theorem checked_lookahead (literal : String) (c : Cursor) :
    Checked.lookahead literal c = some ((lookahead literal).run c) := by
  rw [Checked.lookahead, lookahead]
  split <;> simp [*]

theorem checked_blanks (c : Cursor) : Checked.blanks c = some (blanks.run c) := by
  have hle : (c.rest.takeWhile Text.isBlank).length ≤ c.rest.length :=
    (List.takeWhile_prefix Text.isBlank).length_le
  simp only [Checked.blanks, blanks, Cursor.skipBlanks]
  cases c.peek? with
  | none => rfl
  | some ch => cases h : Text.isBlank ch <;> simp [h, Checked.moved_eq_some hle]

theorem checked_digit (c : Cursor) : Checked.digit c = some (digit.run c) := by
  simp only [Checked.digit, digit]
  cases hpeek : c.peek? with
  | none => rfl
  | some ch =>
      obtain ⟨rest, hrest⟩ := List.head?_eq_some_iff.mp hpeek
      have hle : 1 ≤ c.rest.length := by simp [hrest]
      have hmove := Checked.moved_eq_some hle (digitValue ch)
      cases h : ch.isDigit with
      | false => simp [h]
      | true => simpa [h, Cursor.skip] using hmove

theorem checked_orElse (h : ∀ c, run c = some (p.run c)) {c : Cursor} {outcome : Outcome α}
    (h' : run' c = some outcome) :
    run.orElse run' c = some ((p.run c).orElse fun _ => outcome) := by
  rw [Checked.orElse, h c]
  cases p.run c with
  | noMatch => exact h'
  | fault | matched => rfl

theorem checked_manyFrom (h : ∀ c, run c = some (p.run c)) (fuel : List Char) (c : Cursor)
    (values : List α) : run.manyFrom fuel c values = some (manyFrom p fuel c values) := by
  induction fuel generalizing c values with
  | nil =>
      rw [Checked.manyFrom, manyFrom, h c]
      cases p.run c with
      | fault | noMatch => rfl
      | matched rest value => simp only [ite_self]
  | cons ch fuel ih =>
      rw [Checked.manyFrom, manyFrom, h c]
      cases p.run c with
      | fault | noMatch => rfl
      | matched rest value =>
          dsimp only
          split
          · rfl
          · exact ih rest (value :: values)

theorem checked_delimitedFrom (h : ∀ c, run c = some (p.run c))
    (hd : ∀ c, runD c = some (d.run c)) (fuel : List Char) (c : Cursor) (values : List α) :
    run.delimitedFrom runD fuel c values = some (delimitedFrom p d fuel c values) := by
  induction fuel generalizing c values with
  | nil =>
      rw [Checked.delimitedFrom, delimitedFrom, hd c]
      cases d.run c with
      | fault | noMatch => rfl
      | matched after u =>
          dsimp only
          rw [h after]
          cases p.run after with
          | fault | noMatch => rfl
          | matched rest value => simp only [ite_self]
  | cons ch fuel ih =>
      rw [Checked.delimitedFrom, delimitedFrom, hd c]
      cases d.run c with
      | fault | noMatch => rfl
      | matched after u =>
          dsimp only
          rw [h after]
          cases p.run after with
          | fault | noMatch => rfl
          | matched rest value =>
              dsimp only
              split
              · rfl
              · exact ih rest (value :: values)

end Combinators

theorem Checks.run_eq {p : Parser α} {run : Checked α} (h : Checks p run) (c : Cursor) :
    run c = some (p.run c) := by
  induction h generalizing c with
  | token literal => exact checked_token literal c
  | lookahead literal => exact checked_lookahead literal c
  | upTo literal => exact checked_capture fun _ => Text.find?_le
  | upToAny literals => exact checked_capture fun _ => Text.findAny?_le
  | blanks => exact checked_blanks c
  | digit => exact checked_digit c
  | faulty name cause => rfl
  | map f h ih => rw [Checked.map, ih]; rfl
  | convert f h ih =>
      rw [Checked.convert, ih]
      exact Checked.bind_some fun rest value => by cases f value <;> rfl
  | andThen hp hq ihp ihq =>
      rw [Checked.andThen, ihp]
      exact Checked.bind_some fun rest value => by rw [ihq]; rfl
  | orElse hp hq ihp ihq => exact checked_orElse ihp (ihq c)
  | many h ih =>
      rw [Checked.many, ih]
      exact Checked.bind_some fun rest value => checked_manyFrom ih _ _ _
  | delimited hp hd ihp ihd =>
      rw [Checked.delimited, ihp]
      exact Checked.bind_some fun rest value => checked_delimitedFrom ihp ihd _ _ _
  | optionalWith absent value h ih => exact checked_orElse ih rfl
  | filter test h ih =>
      rw [Checked.filter, ih]
      exact Checked.bind_some fun rest value => rfl
  | deferred name h ih => exact ih c
  | renamed h hrun ih => rw [ih, hrun]

theorem checks_digits : ∃ run, Checks digits run := ⟨_, .many .digit⟩

theorem checks_integer : ∃ run, Checks integer run := by
  obtain ⟨_, hdigits⟩ := checks_digits
  exact ⟨_, .renamed (.orElse (.map _ (.andThen (.token "-") hdigits)) (.map _ hdigits)) rfl⟩

theorem checks_unsigned : ∃ run, Checks unsigned run := by
  obtain ⟨_, hdigits⟩ := checks_digits
  exact ⟨_, .orElse (.map _ (.andThen hdigits (.andThen (.token ".") hdigits))) (.map _ hdigits)⟩

theorem checks_decimal : ∃ run, Checks decimal run := by
  obtain ⟨_, hunsigned⟩ := checks_unsigned
  exact ⟨_, .renamed (.convert _ hunsigned) rfl⟩

theorem checks_scientific : ∃ run, Checks scientific run := by
  obtain ⟨_, hunsigned⟩ := checks_unsigned
  obtain ⟨_, hinteger⟩ := checks_integer
  obtain ⟨_, hdecimal⟩ := checks_decimal
  have hexponent : Checks withExponent _ :=
    .convert _ (.andThen (.andThen hunsigned (.token "e")) hinteger)
  have hnegated {p : Parser Binary64} {run : Checked Binary64} (h : Checks p run) :
      Checks (negated p) _ := .map _ (.andThen (.token "-") h)
  exact ⟨_, .renamed (.orElse (.orElse (.orElse (hnegated hexponent) hexponent)
    (hnegated hdecimal)) hdecimal) rfl⟩

theorem Plain.exists_checks {p : Parser α} (h : Plain p) : ∃ run, Checks p run := by
  cases h with
  | token literal => exact ⟨_, .token literal⟩
  | lookahead literal => exact ⟨_, .lookahead literal⟩
  | upTo literal => exact ⟨_, .upTo literal⟩
  | upToAny literals => exact ⟨_, .upToAny literals⟩
  | blanks => exact ⟨_, .blanks⟩
  | digit => exact ⟨_, .digit⟩
  | integer => exact checks_integer

theorem Primitive.exists_checks {p : Parser α} (h : Primitive p) : ∃ run, Checks p run := by
  cases h with
  | plain hp => exact hp.exists_checks
  | decimal => exact checks_decimal
  | scientific => exact checks_scientific
  | refused name => exact ⟨_, .faulty name .tooDeep⟩

theorem Built.exists_checks {fallible : Prop} {p : Parser α} (h : Built @Primitive fallible p) :
    ∃ run, Checks p run := by
  induction h with
  | leaf hp => exact hp.exists_checks
  | map f _ ih =>
      obtain ⟨_, h⟩ := ih
      exact ⟨_, h.map f⟩
  | convert _ f _ ih =>
      obtain ⟨_, h⟩ := ih
      exact ⟨_, h.convert f⟩
  | andThen _ _ ihp ihq =>
      obtain ⟨_, hp⟩ := ihp
      obtain ⟨_, hq⟩ := ihq
      exact ⟨_, hp.andThen hq⟩
  | orElse _ _ ihp ihq =>
      obtain ⟨_, hp⟩ := ihp
      obtain ⟨_, hq⟩ := ihq
      exact ⟨_, hp.orElse hq⟩
  | many _ ih =>
      obtain ⟨_, h⟩ := ih
      exact ⟨_, h.many⟩
  | delimited _ _ ihp ihd =>
      obtain ⟨_, hp⟩ := ihp
      obtain ⟨_, hd⟩ := ihd
      exact ⟨_, hp.delimited hd⟩
  | optionalWith absent value _ ih =>
      obtain ⟨_, h⟩ := ih
      exact ⟨_, h.optionalWith absent value⟩
  | filter test _ ih =>
      obtain ⟨_, h⟩ := ih
      exact ⟨_, h.filter test⟩
  | deferred name _ ih =>
      obtain ⟨_, h⟩ := ih
      exact ⟨_, .deferred name h⟩
  | renamed _ hrun ih =>
      obtain ⟨_, h⟩ := ih
      exact ⟨_, h.renamed hrun⟩

section Primitives

variable {c next : Cursor}

theorem token_between {literal a : String} (h : (token literal).run c = .matched next a) :
    a = literal ∧ c.between next = literal.toList := by
  rw [token] at h
  dsimp only at h
  split at h
  · next hlead =>
    obtain ⟨rest, hrest⟩ := List.isPrefixOf_iff_prefix.mp hlead
    obtain ⟨rfl, rfl⟩ := Outcome.matched.inj h
    rw [Cursor.between_skip, ← hrest, List.take_left]
    exact ⟨rfl, rfl⟩
  · cases h

theorem between_self (c : Cursor) : c.between c = [] := by
  have hskip := c.between_skip 0
  rwa [List.take_zero] at hskip

theorem capture_between {place : Option Nat} {a : String}
    (h : capture place c = .matched next a) : c.between next = a.toList := by
  cases place with
  | none =>
      obtain ⟨rfl, rfl⟩ := Outcome.matched.inj h
      exact between_self c
  | some n =>
      obtain ⟨rfl, rfl⟩ := Outcome.matched.inj h
      rw [Cursor.between_skip, String.toList_ofList]

theorem digit_between {n : Nat} (h : digit.run c = .matched next n) :
    n < 10 ∧ c.between next = [n.digitChar] := by
  rw [digit] at h
  dsimp only at h
  split at h
  · next ch hpeek =>
    split at h
    · next hdigit =>
      obtain ⟨rfl, rfl⟩ := Outcome.matched.inj h
      obtain ⟨rest, hrest⟩ := List.head?_eq_some_iff.mp hpeek
      have hlt : digitValue ch < 10 := Nat.lt_succ_of_le (digitValue_le hdigit)
      have hchar : (digitValue ch).digitChar = ch := by
        have hr := isDigit_range hdigit
        have hzero : '0'.toNat = 48 := rfl
        rw [← Char.toNat_inj, Nat.toNat_digitChar_of_lt_ten hlt, digitValue]
        omega
      have hnext : c.next = c.skip 1 := rfl
      rw [hnext, Cursor.between_skip, hrest, hchar]
      exact ⟨hlt, rfl⟩
    · cases h
  · cases h

end Primitives

/-- No move of a run leaves the text, a match ends between its start and the end of the text, and
literals, scans and digits give the text that they move over. -/
theorem moves_within {fallible : Prop} {p : Parser α} (h : Built @Primitive fallible p) :
    (∃ run, Checks p run) ∧ (∀ run, Checks p run → ∀ c, run c = some (p.run c)) ∧
      (∀ c next a, p.run c = .matched next a →
        next.text = c.text ∧ c.offset ≤ next.offset ∧ next.offset ≤ c.text.length) ∧
      (∀ literal c next a, (token literal).run c = .matched next a →
        a = literal ∧ c.between next = literal.toList) ∧
      (∀ literal c next a, (upTo literal).run c = .matched next a → c.between next = a.toList) ∧
      (∀ literals c next a, (upToAny literals).run c = .matched next a →
        c.between next = a.toList) ∧
      (∀ c next n, digit.run c = .matched next n → n < 10 ∧ c.between next = [n.digitChar]) := by
  refine ⟨h.exists_checks, fun run hrun => hrun.run_eq, fun c next a hmatched => ?_,
    fun _ _ _ _ => token_between, fun _ _ _ _ => capture_between,
    fun _ _ _ _ => capture_between, fun _ _ _ => digit_between⟩
  have := h.local Primitive.local
  obtain ⟨htext, hle⟩ := forward_of_local c next a hmatched
  exact ⟨htext, hle, htext ▸ next.offset_le⟩

def bracketRules : List (String × Expr) :=
  [("brackets", .andThen (.token "[") (.andThen (.optional (.rule "brackets" "inner")) (.token "]")))]

def brackets : Parser Value := Expr.parserWithin bracketRules 12 (.rule "brackets" "outer")

def bracketStart : Cursor := (Cursor.start "a[[]]b".toList).skip 1

theorem moves_within_brackets :
    (∃ run, Checks brackets run ∧ run bracketStart = some (brackets.run bracketStart)) ∧
      ∃ next a, brackets.run bracketStart = .matched next a ∧ next.text = bracketStart.text ∧
        bracketStart.offset = 1 ∧ next.offset = 5 ∧ next.offset ≤ bracketStart.text.length := by
  have hbuilt : Built @Primitive False brackets :=
    built_parserWithin bracketRules 12 (.rule "brackets" "outer")
  obtain ⟨⟨run, hrun⟩, hchecked, hmatched, -⟩ := moves_within hbuilt
  have hvalue : brackets.run bracketStart = .matched (bracketStart.skip 4) (.pair (.text "[")
      (.pair (.pair (.text "[") (.pair .nothing (.text "]"))) (.text "]"))) := rfl
  obtain ⟨htext, -, hend⟩ := hmatched _ _ _ hvalue
  exact ⟨⟨run, hrun, hchecked run hrun bracketStart⟩, _, _, hvalue, htext, rfl, rfl, hend⟩

end Parser

end MeshMarkup
