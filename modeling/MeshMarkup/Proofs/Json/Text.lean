import MeshMarkup.Json.Reader

namespace MeshMarkup.Json

variable {α : Type}

def Gives (r : Reading α) (a : α) (after : List Char) : Prop := ∃ c, r = .ok (a, c) ∧ c.rest = after

theorem hexValue?_hexDigit : ∀ d < 16, hexValue? (Text.hexDigit d) = some d := by decide

theorem unit?_hexDigits {n : Nat} (h : n < 0x10000) (rest : List Char) :
    unit? (Text.hexDigits 4 n ++ rest) = some n := by
  have hvalue (k : Nat) : hexValue? (Text.hexDigit (k % 16)) = some (k % 16) :=
    hexValue?_hexDigit _ (Nat.mod_lt _ (by decide))
  simp only [Text.hexDigits, List.nil_append, List.cons_append, unit?, hvalue, Option.pure_def,
    Option.bind_eq_bind, Option.bind_some, Option.some.injEq]
  omega

theorem length_hexDigits (width n : Nat) : (Text.hexDigits width n).length = width := by
  induction width generalizing n with
  | zero => rfl
  | succ width ih => rw [Text.hexDigits, List.length_append, ih, List.length_singleton]

theorem length_escapeUnit (n : Nat) : (escapeUnit n).length = 6 := by
  rw [escapeUnit, List.length_cons, List.length_cons, length_hexDigits]

theorem drop_hexDigits (width n : Nat) (rest : List Char) :
    (Text.hexDigits width n ++ rest).drop width = rest := by
  have hlen := length_hexDigits width n
  rw [List.drop_append_of_le_length (by omega), List.drop_of_length_le (by omega), List.nil_append]

section Escapes

variable {opening n : Nat} {c : Cursor} {tail : List Char}

def shortEscapes : List (Char × Char) :=
  [('"', '"'), ('\\', '\\'), ('b', '\x08'), ('f', '\x0c'), ('n', '\n'), ('r', '\r'), ('t', '\t')]

theorem escape_short {letter meant : Char} (hletter : (letter, meant) ∈ shortEscapes)
    (hc : c.rest = '\\' :: letter :: tail) : escape opening c = .ok (meant, c.skip 2) := by
  simp only [shortEscapes, List.mem_cons, Prod.mk.injEq, List.not_mem_nil, or_false] at hletter
  obtain ⟨rfl, rfl⟩ | ⟨rfl, rfl⟩ | ⟨rfl, rfl⟩ | ⟨rfl, rfl⟩ | ⟨rfl, rfl⟩ | ⟨rfl, rfl⟩ | ⟨rfl, rfl⟩ :=
    hletter <;> simp [escape, hc]

theorem escape_unit (hc : c.rest = escapeUnit n ++ tail) (hn : n < 0x10000)
    (hhigh : isHighUnit n = false) (hlow : isLowUnit n = false) (htail : tail ≠ []) :
    escape opening c = .ok (Char.ofNat n, c.skip 6) := by
  have hrest : c.rest.drop 1 = 'u' :: (Text.hexDigits 4 n ++ tail) := by rw [hc]; rfl
  have hdigits : c.rest.drop 2 = Text.hexDigits 4 n ++ tail := by rw [hc]; rfl
  simp only [escape, hrest, unitEscape, hdigits, unit?_hexDigits hn, drop_hexDigits,
    List.isEmpty_eq_false_iff.mpr htail, hhigh, Bool.false_and, charOfUnit, hlow, Bool.or_false,
    Bool.false_eq_true, if_false]

theorem pair_code {code : Nat} (hlo : 0x10000 ≤ code) :
    0x10000 + (0xD800 + (code - 0x10000) / 0x400 - 0xD800) * 0x400 +
      (0xDC00 + (code - 0x10000) % 0x400 - 0xDC00) = code := by
  omega

theorem escape_pair {code : Nat} (hlo : 0x10000 ≤ code) (hhi : code < 0x110000)
    (hc : c.rest = escapeUnit (0xD800 + (code - 0x10000) / 0x400) ++
      escapeUnit (0xDC00 + (code - 0x10000) % 0x400) ++ tail) (htail : tail ≠ []) :
    escape opening c = .ok (Char.ofNat code, c.skip 12) := by
  generalize hh : 0xD800 + (code - 0x10000) / 0x400 = high at hc
  generalize hl : 0xDC00 + (code - 0x10000) % 0x400 = low at hc
  have hrest : c.rest.drop 1 = 'u' :: (Text.hexDigits 4 high ++ (escapeUnit low ++ tail)) := by
    rw [hc, List.append_assoc]; rfl
  have hdigits : c.rest.drop 2 = Text.hexDigits 4 high ++ (escapeUnit low ++ tail) := by
    rw [hc, List.append_assoc]; rfl
  have hsecond : (escapeUnit low ++ tail).drop 2 = Text.hexDigits 4 low ++ tail := rfl
  have hend : (escapeUnit low ++ tail).drop 6 = tail := by
    rw [show 6 = 2 + 4 from rfl, ← List.drop_drop, hsecond, drop_hexDigits]
  have hmark : isUnitEscape (escapeUnit low ++ tail) = true := rfl
  have hsome : (escapeUnit low ++ tail).isEmpty = false := rfl
  have hhigh : isHighUnit high = true := by simp [isHighUnit]; omega
  have hlow : isLowUnit low = true := by simp [isLowUnit]; omega
  have hcode : 0x10000 + (high - 0xD800) * 0x400 + (low - 0xDC00) = code := by
    rw [← hh, ← hl]; exact pair_code hlo
  simp only [escape, hrest, unitEscape, hdigits, unit?_hexDigits (show high < 0x10000 by omega),
    drop_hexDigits, hsome, hhigh, hend, hmark, hsecond,
    unit?_hexDigits (show low < 0x10000 by omega), hlow, hcode, List.isEmpty_eq_false_iff.mpr htail,
    Bool.not_false, Bool.and_true, if_true]

end Escapes

section Texts

variable {opening : Nat} {c d : Cursor} {tail fuel : List Char} {x ch meant : Char}
  {read : List Char}

theorem textFrom_plain (hc : c.rest = ch :: tail) (hquote : ch ≠ '"') (hescape : ch ≠ '\\')
    (hcontrol : 0x20 ≤ ch.toNat) :
    textFrom opening (x :: fuel) c read = textFrom opening fuel c.next (ch :: read) := by
  rw [textFrom.eq_def]
  simp [hc, hescape, Nat.not_lt.mpr hcontrol]

theorem textFrom_escape (hc : c.rest = '\\' :: tail) (h : escape opening c = .ok (meant, d)) :
    textFrom opening (x :: fuel) c read = textFrom opening fuel d (meant :: read) := by
  rw [textFrom.eq_def]
  simp [hc, h]

theorem textFrom_close (hc : c.rest = '"' :: tail) :
    textFrom opening fuel c read = .ok (String.ofList read.reverse, c.next) := by
  rw [textFrom.eq_def]
  simp [hc]

theorem escapeChar_cases (ch : Char) :
    (∃ letter, (letter, ch) ∈ shortEscapes ∧ escapeChar ch = ['\\', letter]) ∨
    (ch ≠ '"' ∧ ch ≠ '\\' ∧ 0x20 ≤ ch.toNat ∧ escapeChar ch = [ch]) ∨
    (ch.toNat < 0x10000 ∧ escapeChar ch = escapeUnit ch.toNat) ∨
    (0x10000 ≤ ch.toNat ∧ escapeChar ch = escapeUnit (0xD800 + (ch.toNat - 0x10000) / 0x400) ++
      escapeUnit (0xDC00 + (ch.toNat - 0x10000) % 0x400)) := by
  by_cases hshort : ch ∈ shortEscapes.map Prod.snd
  · left
    simp only [shortEscapes, List.map_cons, List.map_nil, List.mem_cons, List.not_mem_nil,
      or_false] at hshort
    rcases hshort with rfl | rfl | rfl | rfl | rfl | rfl | rfl
    · exact ⟨'"', by decide, rfl⟩
    · exact ⟨'\\', by decide, rfl⟩
    · exact ⟨'b', by decide, rfl⟩
    · exact ⟨'f', by decide, rfl⟩
    · exact ⟨'n', by decide, rfl⟩
    · exact ⟨'r', by decide, rfl⟩
    · exact ⟨'t', by decide, rfl⟩
  · right
    simp only [shortEscapes, List.map_cons, List.map_nil, List.mem_cons, List.not_mem_nil,
      or_false, not_or] at hshort
    obtain ⟨hq, he, hb, hf, hn, hr, ht⟩ := hshort
    simp only [escapeChar, if_neg hq, if_neg he, if_neg hb, if_neg hf, if_neg hn, if_neg hr,
      if_neg ht]
    by_cases hplain : 0x20 ≤ ch.toNat ∧ ch.toNat < 0x7F
    · left
      exact ⟨hq, he, hplain.1, if_pos hplain⟩
    · right
      rw [if_neg hplain]
      by_cases hbasic : ch.toNat < 0x10000
      · left
        exact ⟨hbasic, if_pos hbasic⟩
      · right
        exact ⟨Nat.not_lt.mp hbasic, if_neg hbasic⟩

theorem toNat_valid (ch : Char) :
    ch.toNat < 0xD800 ∨ 0xDFFF < ch.toNat ∧ ch.toNat < 0x110000 := ch.valid

theorem isHighUnit_toNat (ch : Char) : isHighUnit ch.toNat = false := by
  have hvalid := toNat_valid ch
  simp only [isHighUnit, Bool.and_eq_false_iff, decide_eq_false_iff_not]
  omega

theorem isLowUnit_toNat (ch : Char) : isLowUnit ch.toNat = false := by
  have hvalid := toNat_valid ch
  simp only [isLowUnit, Bool.and_eq_false_iff, decide_eq_false_iff_not]
  omega

theorem rest_skip_of_length {n : Nat} {a : List Char} (hc : c.rest = a ++ tail)
    (hlen : a.length = n) : (c.skip n).rest = tail := by
  rw [Cursor.rest_skip, hc, ← hlen, List.drop_left]

theorem textFrom_escapeChar (hc : c.rest = escapeChar ch ++ tail) (htail : tail ≠ []) :
    ∃ d, textFrom opening (x :: fuel) c read = textFrom opening fuel d (ch :: read) ∧
      d.rest = tail := by
  rcases escapeChar_cases ch with ⟨letter, hletter, he⟩ | ⟨hquote, hescape, hcontrol, he⟩ |
    ⟨hbasic, he⟩ | ⟨hbeyond, he⟩ <;> rw [he] at hc
  · exact ⟨_, textFrom_escape hc (escape_short hletter hc), rest_skip_of_length hc rfl⟩
  · refine ⟨_, textFrom_plain hc hquote hescape hcontrol, ?_⟩
    rw [Cursor.rest_next, hc]
    rfl
  · have hescape : escape opening c = .ok (Char.ofNat ch.toNat, c.skip 6) :=
      escape_unit hc hbasic (isHighUnit_toNat ch) (isLowUnit_toNat ch) htail
    rw [Char.ofNat_toNat] at hescape
    exact ⟨_, textFrom_escape hc hescape, rest_skip_of_length hc (by simp [length_escapeUnit])⟩
  · have hvalid := toNat_valid ch
    have hescape : escape opening c = .ok (Char.ofNat ch.toNat, c.skip 12) :=
      escape_pair hbeyond (by omega) hc htail
    rw [Char.ofNat_toNat] at hescape
    exact ⟨_, textFrom_escape hc hescape, rest_skip_of_length hc (by simp [length_escapeUnit])⟩

theorem textFrom_written {content after : List Char}
    (hc : c.rest = content.flatMap escapeChar ++ '"' :: after)
    (hfuel : content.length ≤ fuel.length) :
    Gives (textFrom opening fuel c read) (String.ofList (read.reverse ++ content)) after := by
  induction content generalizing c fuel read with
  | nil =>
      refine ⟨c.next, ?_, ?_⟩
      · rw [textFrom_close hc, List.append_nil]
      · rw [Cursor.rest_next, hc]
        rfl
  | cons ch content ih =>
      cases fuel with
      | nil => simp at hfuel
      | cons x fuel =>
          rw [List.flatMap_cons, List.append_assoc] at hc
          have hstep : ∃ d, textFrom opening (x :: fuel) c read =
              textFrom opening fuel d (ch :: read) ∧ d.rest = _ :=
            textFrom_escapeChar hc (by simp)
          obtain ⟨d, hd, hrest⟩ := hstep
          rw [hd, List.append_cons, ← List.reverse_cons]
          exact ih hrest (Nat.le_of_succ_le_succ hfuel)

theorem length_le_flatMap_escapeChar (content : List Char) :
    content.length ≤ (content.flatMap escapeChar).length := by
  induction content with
  | nil => exact Nat.le_refl 0
  | cons ch content ih =>
      have hpos : 1 ≤ (escapeChar ch).length := by
        rcases escapeChar_cases ch with ⟨_, -, he⟩ | ⟨-, -, -, he⟩ | ⟨-, he⟩ | ⟨-, he⟩ <;>
          simp [he, length_escapeUnit]
      rw [List.flatMap_cons, List.length_append, List.length_cons]
      omega

end Texts

theorem readText_writeText {c : Cursor} {content : String} {after : List Char}
    (hc : c.rest = writeText content ++ after) : Gives (readText c) content after := by
  have hnext : c.next.rest = content.toList.flatMap escapeChar ++ '"' :: after := by
    rw [Cursor.rest_next, hc]
    simp [writeText]
  have hlen := length_le_flatMap_escapeChar content.toList
  have hfuel : content.toList.length ≤ c.rest.length := by
    rw [hc]
    simp only [writeText, List.cons_append, List.length_cons, List.length_append]
    omega
  have hread : Gives (textFrom c.offset c.rest c.next []) _ after := textFrom_written hnext hfuel
  rwa [List.reverse_nil, List.nil_append, String.ofList_toList] at hread

end MeshMarkup.Json
