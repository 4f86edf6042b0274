import MeshMarkup.Proofs.Json.Number

namespace MeshMarkup.Json

def Spaces (gap : List Char) : Prop := ∀ ch ∈ gap, isSpace ch = true

def Begins (text : List Char) : Prop := ∃ ch rest, text = ch :: rest ∧ isSpace ch = false

theorem begins_cons {ch : Char} {rest : List Char} (h : isSpace ch = false) : Begins (ch :: rest) :=
  ⟨ch, rest, rfl, h⟩

theorem rest_skipSpaces {c : Cursor} {gap text : List Char} (hc : c.rest = gap ++ text)
    (hgap : Spaces gap) (htext : Begins text ∨ text = []) : (skipSpaces c).rest = text := by
  have hrun : c.rest.takeWhile isSpace = gap := by
    rw [hc, List.takeWhile_append_of_pos hgap]
    rcases htext with ⟨ch, rest, rfl, hch⟩ | rfl <;> simp [*]
  rw [skipSpaces, hrun]
  exact rest_skip_of_length hc rfl

theorem spaces_nil : Spaces [] := by
  intro ch hch
  exact absurd hch List.not_mem_nil

theorem spaces_singleton {ch : Char} (h : isSpace ch = true) : Spaces [ch] := by
  intro d hd
  rwa [List.mem_singleton.mp hd]

namespace Layout

theorem spaces_lineBreak (layout : Layout) (level : Nat) : Spaces (layout.lineBreak level) := by
  cases layout with
  | oneLine => exact spaces_nil
  | indented width =>
      intro ch hch
      rcases List.mem_cons.mp hch with rfl | h
      · rfl
      · rw [List.eq_of_mem_replicate h]
        rfl

theorem itemSeparator_eq (layout : Layout) (level : Nat) :
    ∃ gap, layout.itemSeparator level = ',' :: gap ∧ Spaces gap := by
  cases layout with
  | oneLine => exact ⟨[' '], rfl, spaces_singleton rfl⟩
  | indented width => exact ⟨_, rfl, (indented width).spaces_lineBreak level⟩

theorem closing_lineBreak (layout : Layout) (level : Nat) {ch : Char} {after : List Char}
    (h : ch ∈ [',', ']', '}', '\n']) : Closing (layout.lineBreak level ++ ch :: after) := by
  cases layout with
  | oneLine => exact closing_cons h
  | indented width => exact closing_cons (by decide)

end Layout

section Values

variable {levels : Nat} {c : Cursor} {after : List Char}

theorem Gives.map {α β : Type} {r : Reading α} {a : α} (h : Gives r a after) (f : α → β) :
    Gives (r.map fun (a, c) => (f a, c)) (f a) after := by
  obtain ⟨d, rfl, hrest⟩ := h
  exact ⟨d, rfl, hrest⟩

theorem readValue_text {content : String} (hc : c.rest = writeText content ++ after) :
    Gives (readValue levels c) (.text content) after := by
  have hread := (readText_writeText hc).map Json.text
  rw [readValue.eq_def]
  simpa [hc, writeText] using hread

def Scalar (ch : Char) : Prop := ch ≠ '"' ∧ ch ≠ '[' ∧ ch ≠ '{'

theorem readValue_scalar {ch : Char} {rest : List Char} (hc : c.rest = ch :: rest)
    (h : Scalar ch) : readValue levels c =
      match readName? c with
      | some found => .ok found
      | none => readNumber c := by
  obtain ⟨hquote, hbracket, hbrace⟩ := h
  rw [readValue.eq_def]
  dsimp only
  rw [hc]
  split
  · next h => exact absurd (List.cons.inj h).1 hquote
  · next h => exact absurd (List.cons.inj h).1 hbracket
  · next h => exact absurd (List.cons.inj h).1 hbrace
  · next h => exact absurd (List.cons.inj h).1 hbracket
  · next h => exact absurd (List.cons.inj h).1 hbrace
  · rfl

theorem scalar_of_isDigit {ch : Char} (h : ch.isDigit = true) : Scalar ch :=
  ⟨ne_of_isDigit h (by decide), ne_of_isDigit h (by decide), ne_of_isDigit h (by decide)⟩

theorem named_start : ∀ entry ∈ named, ∃ ch rest, entry.1.toList = ch :: rest ∧ Scalar ch := by
  intro entry h
  simp only [named, List.mem_cons, List.not_mem_nil, or_false] at h
  rcases h with rfl | rfl | rfl | rfl | rfl | rfl
  · exact ⟨'n', _, rfl, by simp [Scalar]⟩
  · exact ⟨'t', _, rfl, by simp [Scalar]⟩
  · exact ⟨'f', _, rfl, by simp [Scalar]⟩
  · exact ⟨'N', _, rfl, by simp [Scalar]⟩
  · exact ⟨'I', _, rfl, by simp [Scalar]⟩
  · exact ⟨'-', _, rfl, by simp [Scalar]⟩

theorem readName?_named {name : String} {value : Json} (h : (name, value) ∈ named)
    (hc : c.rest = name.toList ++ after) : readName? c = some (value, c.skip name.length) := by
  simp only [named, List.mem_cons, Prod.mk.injEq, List.not_mem_nil, or_false] at h
  rcases h with ⟨rfl, rfl⟩ | ⟨rfl, rfl⟩ | ⟨rfl, rfl⟩ | ⟨rfl, rfl⟩ | ⟨rfl, rfl⟩ | ⟨rfl, rfl⟩ <;>
    simp [readName?, named, Cursor.startsWith, Text.startsWith, hc]

theorem readValue_named {name : String} {value : Json} (h : (name, value) ∈ named)
    (hc : c.rest = name.toList ++ after) : Gives (readValue levels c) value after := by
  obtain ⟨ch, rest, hname, hch⟩ := named_start _ h
  have hfirst : c.rest = ch :: (rest ++ after) := by rw [hc, hname]; rfl
  rw [readValue_scalar hfirst hch, readName?_named h hc]
  exact ⟨_, rfl, rest_skip_of_length hc String.length_toList⟩

theorem readName?_spelled {t : NumberText} {s : List Char} (hs : Spelled t s)
    (hc : c.rest = s ++ after) : readName? c = none := by
  obtain ⟨d, ds, hd, hstart⟩ := hs.start
  have hne (ch : Char) (hch : ch.isDigit = false) : ch ≠ d := (ne_of_isDigit hd hch).symm
  rw [readName?, Option.map_eq_none_iff, List.find?_eq_none]
  intro entry hentry
  simp only [named, List.mem_cons, List.not_mem_nil, or_false] at hentry
  rcases hstart with he | he <;> rcases hentry with rfl | rfl | rfl | rfl | rfl | rfl <;>
    simp [Cursor.startsWith, Text.startsWith, hc, he, hne]

theorem readValue_spelled {t : NumberText} {s : List Char} {v : Json} (hs : Spelled t s)
    (hv : t.value = .ok v) (hc : c.rest = s ++ after) (h : Closing after) :
    Gives (readValue levels c) v after := by
  have hstart : ∃ ch rest, c.rest = ch :: rest ∧ Scalar ch := by
    obtain ⟨d, ds, hd, he | he⟩ := hs.start
    · exact ⟨d, ds ++ after, by rw [hc, he]; rfl, scalar_of_isDigit hd⟩
    · exact ⟨'-', d :: ds ++ after, by rw [hc, he]; rfl, by simp [Scalar]⟩
  obtain ⟨ch, rest, hfirst, hch⟩ := hstart
  rw [readValue_scalar hfirst hch, readName?_spelled hs hc]
  exact readNumber_spelled hs hv hc h

theorem readValue_integer {n : Int} (hn : n.natAbs < 10 ^ integerDigitLimit)
    (hc : c.rest = Numeral.intDigits n ++ after) (h : Closing after) :
    Gives (readValue levels c) (.integer n) after := by
  obtain ⟨t, hs, hv⟩ := exists_spelled_integer n
  exact readValue_spelled hs (hv hn) hc h

theorem NumberName.named {x : Binary64} {name : String} (h : NumberName x name) :
    (name, Json.number x) ∈ named := by
  cases h <;> simp [Json.named]

theorem readValue_number {x : Binary64}
    (hc : c.rest = Numeral.dataText Numeral.dataNames x ++ after) (h : Closing after) :
    Gives (readValue levels c) (.number x) after := by
  cases hx : x.isFinite with
  | true =>
      obtain ⟨t, hs, hv⟩ := exists_spelled_number hx
      exact readValue_spelled hs hv hc h
  | false =>
      obtain ⟨name, hname, htext⟩ := exists_numberName hx
      exact readValue_named hname.named (htext ▸ hc)

def Leads (ch : Char) : Prop := isSpace ch = false ∧ ch ≠ ']' ∧ ch ≠ '\uFEFF'

theorem leads_of_isDigit {ch : Char} (h : ch.isDigit = true) : Leads ch := by
  have hne (other : Char) (hother : other.isDigit = false) : ch ≠ other := ne_of_isDigit h hother
  exact ⟨by simp [isSpace, hne], hne ']' rfl, hne '\uFEFF' rfl⟩

theorem Spelled.leads {t : NumberText} {s : List Char} (hs : Spelled t s) :
    ∃ ch rest, s = ch :: rest ∧ Leads ch := by
  obtain ⟨d, ds, hd, he | he⟩ := hs.start
  · exact ⟨d, ds, he, leads_of_isDigit hd⟩
  · exact ⟨'-', d :: ds, he, by simp [Leads, isSpace]⟩

theorem exists_leads_number (x : Binary64) :
    ∃ ch rest, Numeral.dataText Numeral.dataNames x = ch :: rest ∧ Leads ch := by
  cases hx : x.isFinite with
  | true =>
      obtain ⟨t, hs, -⟩ := exists_spelled_number hx
      exact hs.leads
  | false =>
      obtain ⟨name, hname, htext⟩ := exists_numberName hx
      rw [htext]
      cases hname with
      | nan => exact ⟨'N', _, rfl, by simp [Leads, isSpace]⟩
      | infinity => exact ⟨'I', _, rfl, by simp [Leads, isSpace]⟩
      | negative => exact ⟨'-', _, rfl, by simp [Leads, isSpace]⟩

end Values

end MeshMarkup.Json
