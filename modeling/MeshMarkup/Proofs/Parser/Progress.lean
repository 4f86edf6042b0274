import MeshMarkup.Proofs.Parser.Combinators
import MeshMarkup.Proofs.Parser.Lexical

namespace MeshMarkup

namespace Cursor

theorem offset_add_length (c : Cursor) : c.offset + c.rest.length = c.text.length := by
  rw [c.rest_eq, List.length_drop]
  exact Nat.add_sub_cancel' c.offset_le

def Before (c next : Cursor) : Prop := next.text = c.text ∧ c.offset < next.offset

theorem Before.length_rest_lt {c next : Cursor} (h : c.Before next) :
    next.rest.length < c.rest.length := by
  obtain ⟨htext, hlt⟩ := h
  have hc := c.offset_add_length
  have hnext := next.offset_add_length
  rw [htext] at hnext
  omega

end Cursor

namespace Parser

variable {α β : Type} {k : Nat}

/-- A match stays on the text and ends at least so many characters further on. -/
def Advances (k : Nat) (p : Parser α) : Prop :=
  ∀ c next a, p.run c = .matched next a → next.text = c.text ∧ c.offset + k ≤ next.offset

/-- A match stays on the text and never ends before the cursor. -/
def Forward (p : Parser α) : Prop := Advances 0 p

theorem Advances.mono {j : Nat} {p : Parser α} (h : Advances k p) (hjk : j ≤ k) : Advances j p := by
  intro c next a hr
  obtain ⟨htext, hle⟩ := h c next a hr
  exact ⟨htext, by omega⟩

section Local

variable {p q : Parser α} [p.Local] [q.Local] {r : Parser β} [r.Local]

/-- For a local parser it is enough to compare the texts that remain. -/
theorem advances_of_reading
    (h : ∀ {text rest a}, p.reading text = .matched rest a → rest.length + k ≤ text.length) :
    Advances k p := by
  intro c next a hr
  obtain ⟨hread, hnext⟩ := reading_of_matched hr
  have hle := h hread
  have hc := c.offset_add_length
  have hn := next.offset_add_length
  have htext : next.text = c.text := by rw [hnext, Cursor.text_skip]
  rw [htext] at hn
  exact ⟨htext, by omega⟩

theorem Advances.reading (h : Advances k p) {text rest : List Char} {a : α}
    (hr : p.reading text = .matched rest a) : rest.length + k ≤ text.length := by
  obtain ⟨next, hrun, rfl⟩ := matched_of_reading (c := .start text) hr
  obtain ⟨htext, hle⟩ := h _ _ _ hrun
  have hc := (Cursor.start text).offset_add_length
  have hn := next.offset_add_length
  rw [htext] at hn
  have hstart : (Cursor.start text).rest = text := rfl
  rw [hstart] at hc
  omega

theorem forward_of_local : p.Forward :=
  advances_of_reading fun h => (suffix_of_reading h).length_le

theorem Advances.map (h : Advances k p) (f : α → β) : Advances k (p.map f) :=
  advances_of_reading fun hr => by
    obtain ⟨a, ha, -⟩ := map_matched.mp hr
    exact h.reading ha

theorem Advances.filter (h : Advances k p) (test : α → Bool) : Advances k (p.filter test) :=
  advances_of_reading fun hr => h.reading (filter_matched.mp hr).1

theorem Advances.orElse (hp : Advances k p) (hq : Advances k q) : Advances k (p.orElse q) :=
  advances_of_reading fun hr => by
    obtain ha | ⟨-, ha⟩ := orElse_matched.mp hr
    · exact hp.reading ha
    · exact hq.reading ha

theorem Advances.andThen {j : Nat} (hp : Advances j p) (hr : Advances k r) :
    Advances (j + k) (p.andThen r) :=
  advances_of_reading fun hread => by
    obtain ⟨mid, ha, hb⟩ := andThen_matched.mp hread
    have hmid := hp.reading ha
    have hrest := hr.reading hb
    omega

end Local

theorem advances_token (literal : String) : Advances literal.toList.length (token literal) :=
  advances_of_reading fun hr => by
    obtain ⟨rfl, -⟩ := token_matched.mp hr
    rw [List.length_append]
    omega

theorem advances_digit : Advances 1 digit :=
  advances_of_reading fun {text rest a} hr => by
    cases text with
    | nil => simp [reads_digit.reading_eq] at hr
    | cons c text =>
        rw [reading_digit_cons] at hr
        split at hr
        · simp only [Reading.matched.injEq] at hr
          simp [← hr.1]
        · simp at hr

/-- Parsers put together from ones without repetitions, where every round of every repetition ends
further on in the text than it starts. -/
inductive Steady : {α : Type} → Parser α → Prop
  | token (literal : String) : Steady (token literal)
  | lookahead (literal : String) : Steady (lookahead literal)
  | upTo (literal : String) : Steady (upTo literal)
  | upToAny (literals : List String) : Steady (upToAny literals)
  | blanks : Steady blanks
  | digit : Steady digit
  | faulty {α : Type} (name : String) (cause : Fault) : Steady (faulty name cause : Parser α)
  | map {α β : Type} (f : α → β) {p : Parser α} (hp : Steady p) : Steady (p.map f)
  | convert {α β : Type} (f : α → Except Fault β) {p : Parser α} (hp : Steady p) :
      Steady (p.convert f)
  | named {α : Type} (name : String) (absent : Value) {p : Parser α} (hp : Steady p) :
      Steady (named name absent p)
  | andThen {α β : Type} {p : Parser α} {q : Parser β} (hp : Steady p) (hq : Steady q) :
      Steady (p.andThen q)
  | orElse {α : Type} {p q : Parser α} (hp : Steady p) (hq : Steady q) : Steady (p.orElse q)
  | many {α : Type} {p : Parser α} (hp : Steady p)
      (hround : ∀ c next a, p.run c = .matched next a → c.Before next) : Steady p.many
  | delimited {α δ : Type} {p : Parser α} {d : Parser δ} (hp : Steady p) (hd : Steady d)
      (hround : ∀ c after next u a, d.run c = .matched after u → p.run after = .matched next a →
        c.Before next) : Steady (p.delimited d)
  | optional {α : Type} (value : α) {p : Parser α} (hp : Steady p) : Steady (p.optional value)
  | filter {α : Type} (test : α → Bool) {p : Parser α} (hp : Steady p) : Steady (p.filter test)
  | deferred {α : Type} (name : String) {p : Unit → Parser α} (hp : Steady (p ())) :
      Steady (deferred name p)

/-- It is enough that the values take something, whatever stands between them. -/
theorem Steady.delimited_of_advances {p : Parser α} {d : Parser β} (hp : Steady p) (hd : Steady d)
    (hadv : Advances 1 p) (hforward : d.Forward) : Steady (p.delimited d) := by
  refine hp.delimited hd fun c after next u a hdr hpr => ?_
  obtain ⟨hafter, hle⟩ := hforward c after u hdr
  obtain ⟨hnext, hlt⟩ := hadv after next a hpr
  exact ⟨hnext.trans hafter, by omega⟩

theorem steady_digits : Steady digits := .many .digit advances_digit

theorem steady_integer : Steady integer :=
  .named _ _ (.orElse (.map _ (.andThen (.token "-") steady_digits)) (.map _ steady_digits))

theorem steady_scientific : Steady scientific := by
  have hminus : Steady minus := .token "-"
  have hfraction : Steady ((token ".").andThen digits) := .andThen (.token ".") steady_digits
  have hunsigned : Steady unsigned :=
    .orElse (.map _ (.andThen steady_digits hfraction)) (.map _ steady_digits)
  have hexponent : Steady withExponent :=
    .convert _ (.andThen (.andThen hunsigned (.token "e")) steady_integer)
  have hdecimal : Steady decimal := .named _ _ (.convert _ hunsigned)
  exact .named _ _ (.orElse (.orElse (.orElse (.map _ (.andThen hminus hexponent)) hexponent)
    (.map _ (.andThen hminus hdecimal))) hdecimal)

end Parser

end MeshMarkup
