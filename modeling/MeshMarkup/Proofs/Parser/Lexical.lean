import MeshMarkup.Proofs.Parser.Combinators
import MeshMarkup.Proofs.Text.Scan

namespace MeshMarkup

open Text

theorem Cursor.skip_sub_drop {c : Cursor} {n : Nat} (h : n ≤ c.rest.length) :
    c.skip (c.rest.length - (c.rest.drop n).length) = c.skip n := by
  rw [List.length_drop]
  congr 1
  omega

theorem Cursor.skipBlanks_eq (c : Cursor) :
    c.skipBlanks = c.skip (c.rest.length - (c.rest.dropWhile isBlank).length) := by
  have hl := congrArg List.length (List.takeWhile_append_dropWhile (p := isBlank) (l := c.rest))
  rw [List.length_append] at hl
  rw [skipBlanks]
  congr 1
  omega

theorem Cursor.atEnd_skipBlanks {c : Cursor} : c.skipBlanks.atEnd = true ↔ Blank c.rest := by
  have hsplit := List.takeWhile_append_dropWhile (p := isBlank) (l := c.rest)
  rw [atEnd, skipBlanks_eq, rest_skip_of_suffix (List.dropWhile_suffix isBlank), List.isEmpty_iff]
  constructor
  · intro h
    rw [h, List.append_nil] at hsplit
    exact hsplit ▸ blank_takeWhile c.rest
  · intro h
    rw [← List.append_nil c.rest, dropWhile_blank_append h (by simp [Solid])]

namespace Parser

theorem reads_token (literal : String) : (token literal).Reads fun text =>
    if startsWith literal.toList text then .matched (text.drop literal.toList.length) literal
    else .noMatch where
  run_eq c := by
    change (if startsWith literal.toList c.rest then _ else _) = _
    split
    · next h =>
        have hl := (List.isPrefixOf_iff_prefix.mp h).length_le
        rw [Reading.outcome, Cursor.skip_sub_drop hl]
    · rfl
  suffix h := by
    split at h
    · simp only [Reading.matched.injEq] at h
      exact h.1 ▸ List.drop_suffix _ _
    · simp at h

instance (literal : String) : (token literal).Local := (reads_token literal).local

theorem token_matched {literal a : String} {text rest : List Char} :
    (token literal).reading text = .matched rest a ↔ text = literal.toList ++ rest ∧ a = literal := by
  rw [(reads_token literal).reading_eq]
  dsimp only
  split
  · next h =>
      obtain ⟨u, rfl⟩ := List.isPrefixOf_iff_prefix.mp h
      simp [eq_comm]
  · next h =>
      simp only [reduceCtorEq, false_iff, not_and]
      rintro rfl
      exact absurd (List.isPrefixOf_iff_prefix.mpr (List.prefix_append _ _)) h

theorem reading_token (literal : String) (rest : List Char) :
    (token literal).reading (literal.toList ++ rest) = .matched rest literal :=
  token_matched.mpr ⟨rfl, rfl⟩

theorem token_noMatch {literal : String} {text : List Char} :
    (token literal).reading text = .noMatch ↔ ¬ literal.toList <+: text := by
  rw [(reads_token literal).reading_eq]
  dsimp only
  split
  · next h => simpa using List.isPrefixOf_iff_prefix.mp h
  · next h => simpa using fun hp => h (List.isPrefixOf_iff_prefix.mpr hp)

theorem token_noMatch_of_ne {literal : String} {c d : Char} {ds u : List Char}
    (hl : literal.toList = d :: ds) (hc : c ≠ d) : (token literal).reading (c :: u) = .noMatch := by
  refine token_noMatch.mpr fun hp => ?_
  rw [hl] at hp
  exact hc (List.cons_prefix_cons.mp hp).1.symm

theorem reads_lookahead (literal : String) : (lookahead literal).Reads fun text =>
    if startsWith literal.toList text then .matched text () else .noMatch where
  run_eq c := by
    change (if startsWith literal.toList c.rest then _ else _) = _
    split
    · rw [Reading.outcome, Nat.sub_self, Cursor.skip_zero]
    · rfl
  suffix h := by
    split at h
    · simp only [Reading.matched.injEq] at h
      exact h.1 ▸ List.suffix_rfl
    · simp at h

instance (literal : String) : (lookahead literal).Local := (reads_lookahead literal).local

theorem lookahead_matched {literal : String} {text rest : List Char} {u : Unit} :
    (lookahead literal).reading text = .matched rest u ↔ literal.toList <+: text ∧ rest = text := by
  rw [(reads_lookahead literal).reading_eq]
  dsimp only
  split
  · next h => simp [List.isPrefixOf_iff_prefix.mp h, eq_comm]
  · next h => simpa using fun hp => absurd (List.isPrefixOf_iff_prefix.mpr hp) h

theorem lookahead_noMatch {literal : String} {text : List Char} :
    (lookahead literal).reading text = .noMatch ↔ ¬ literal.toList <+: text := by
  rw [(reads_lookahead literal).reading_eq]
  dsimp only
  split
  · next h => simpa using List.isPrefixOf_iff_prefix.mp h
  · next h => simpa using fun hp => h (List.isPrefixOf_iff_prefix.mpr hp)

def captured (place : Option Nat) (text : List Char) : Reading String :=
  match place with
  | none => .matched text ""
  | some n => .matched (text.drop n) (String.ofList (text.take n))

theorem reads_capture {p : Parser String} {place : List Char → Option Nat}
    (hp : ∀ c, p.run c = capture (place c.rest) c)
    (hplace : ∀ text n, place text = some n → n ≤ text.length) :
    p.Reads fun text => captured (place text) text where
  run_eq c := by
    rw [hp]
    cases h : place c.rest with
    | none => simp only [capture, captured, Reading.outcome, Nat.sub_self, Cursor.skip_zero]
    | some n =>
        simp only [capture, captured, Reading.outcome, Cursor.skip_sub_drop (hplace _ n h)]
  suffix {text rest a} h := by
    cases hn : place text <;> simp only [hn, captured, Reading.matched.injEq] at h
    · exact h.1 ▸ List.suffix_rfl
    · exact h.1 ▸ List.drop_suffix _ _

theorem captured_ne_fault {place : Option Nat} {text : List Char} {cause : Fault} :
    captured place text ≠ .fault cause := by
  cases place <;> simp [captured]

theorem reads_upTo (literal : String) :
    (upTo literal).Reads fun text => captured (find? literal.toList text) text :=
  reads_capture (fun _ => rfl) fun _ _ => find?_le

theorem reads_upToAny (ls : List String) :
    (upToAny ls).Reads fun text => captured (findAny? (ls.map String.toList) text) text :=
  reads_capture (fun _ => rfl) fun _ _ => findAny?_le

instance (literal : String) : (upTo literal).Local := (reads_upTo literal).local

instance (ls : List String) : (upToAny ls).Local := (reads_upToAny ls).local

/-- A parser that captures the text before the first of some characters. -/
def Scans (cs : List Char) (p : Parser String) : Prop :=
  ∀ c, p.run c = capture (findAny? (literals cs) c.rest) c

theorem scans_upToAny {ls : List String} {cs : List Char} (h : ls.map String.toList = literals cs) :
    Scans cs (upToAny ls) := by
  intro c
  rw [← h]
  rfl

theorem scans_upTo {literal : String} {c : Char} (hl : literal.toList = [c]) :
    Scans [c] (upTo literal) := by
  intro cursor
  rw [literals, List.map_singleton, findAny?_singleton, ← hl]
  rfl

section Scan

variable {p : Parser String} {cs : List Char} (hp : Scans cs p)
include hp

theorem Scans.reads : p.Reads fun text => captured (findAny? (literals cs) text) text :=
  reads_capture hp fun _ _ => findAny?_le

theorem reading_scan {w : List Char} {c : Char} {rest : List Char} (hw : ∀ d ∈ w, d ∉ cs)
    (hc : c ∈ cs) : p.reading (w ++ c :: rest) = .matched (c :: rest) (String.ofList w) := by
  rw [hp.reads.reading_eq]
  simp [findAny?_first hw hc, captured]

theorem reading_scan_absent {text : List Char} (h : ∀ c ∈ text, c ∉ cs) :
    p.reading text = .matched text "" := by
  rw [hp.reads.reading_eq]
  simp only [findAny?_absent h, captured]

theorem scan_matched {text rest : List Char} {a : String} (h : p.reading text = .matched rest a) :
    ((∀ c ∈ text, c ∉ cs) ∧ rest = text ∧ a = "") ∨
      ∃ c u, rest = c :: u ∧ c ∈ cs ∧ text = a.toList ++ c :: u ∧ ∀ d ∈ a.toList, d ∉ cs := by
  obtain habs | ⟨w, c, u, rfl, hw, hc⟩ := absent_or_first cs text
  · rw [reading_scan_absent hp habs, Reading.matched.injEq] at h
    exact Or.inl ⟨habs, h.1.symm, h.2.symm⟩
  · rw [reading_scan hp hw hc, Reading.matched.injEq] at h
    obtain ⟨rfl, rfl⟩ := h
    exact Or.inr ⟨c, u, rfl, hc, by simp, by simpa using hw⟩

end Scan

theorem reading_upTo {literal : String} {c : Char} (hl : literal.toList = [c]) {w : List Char}
    (hw : c ∉ w) (rest : List Char) :
    (upTo literal).reading (w ++ c :: rest) = .matched (c :: rest) (String.ofList w) :=
  reading_scan (scans_upTo hl) (fun _ hd hm => hw (List.mem_singleton.mp hm ▸ hd))
    List.mem_cons_self

theorem upTo_matched {literal a : String} {c : Char} (hl : literal.toList = [c])
    {text rest : List Char} (h : (upTo literal).reading text = .matched rest a) :
    (c ∉ text ∧ rest = text ∧ a = "") ∨
      ∃ u, rest = c :: u ∧ text = a.toList ++ c :: u ∧ c ∉ a.toList := by
  obtain ⟨habs, hr, ha⟩ | ⟨d, u, hr, hd, ht, hw⟩ := scan_matched (scans_upTo hl) h
  · exact Or.inl ⟨fun hm => habs c hm List.mem_cons_self, hr, ha⟩
  · obtain rfl := List.mem_singleton.mp hd
    exact Or.inr ⟨u, hr, ht, fun hm => hw _ hm hd⟩

/-- A scan for several literals always matches. Where none of them stands in the rest of the text
it takes nothing, else it takes what lies before the first place at which one stands. Neither the
order nor the repetition of literals matters, and a single literal is a list of one. -/
theorem upToAny_earliest (literals : List String) (c : Cursor) :
    ((∀ n, ¬ StandsAt (literals.map String.toList) c.rest n) ∧
        (upToAny literals).run c = .matched c "" ∨
      ∃ n, IsLeast {n | StandsAt (literals.map String.toList) c.rest n} n ∧
        (upToAny literals).run c = .matched (c.skip n) (String.ofList (c.rest.take n))) ∧
    (∀ others : List String, (∀ l, l ∈ others ↔ l ∈ literals) →
      (upToAny others).run c = (upToAny literals).run c) ∧
    ∀ literal, (upTo literal).run c = (upToAny [literal]).run c := by
  refine ⟨?_, fun others h => ?_, fun literal => ?_⟩
  · cases hfind : findAny? (literals.map String.toList) c.rest with
    | none =>
        refine Or.inl ⟨findAny?_eq_none.mp hfind, ?_⟩
        simp only [upToAny, capture, Cursor.findAny?, hfind]
    | some n =>
        refine Or.inr ⟨n, findAny?_eq_some.mp hfind, ?_⟩
        simp only [upToAny, capture, Cursor.findAny?, hfind]
  · have hmem (l : List Char) : l ∈ others.map String.toList ↔ l ∈ literals.map String.toList := by
      simp only [List.mem_map, h]
    simp only [upToAny, Cursor.findAny?, findAny?_congr hmem]
  · simp only [upTo, upToAny, Cursor.find?, Cursor.findAny?, List.map_singleton, findAny?_singleton]

theorem upToAny_earliest_overlapping :
    (∀ l, l ∈ ["c", "bc"] ↔ l ∈ ["bc", "c", "bc"]) ∧
      (upToAny ["c", "bc"]).run (Cursor.skip 2 (.start "bcabc".toList)) =
        (upToAny ["bc", "c", "bc"]).run (Cursor.skip 2 (.start "bcabc".toList)) ∧
      (upToAny ["bc", "c", "bc"]).run (Cursor.skip 2 (.start "bcabc".toList)) =
        .matched (Cursor.skip 3 (.start "bcabc".toList)) "a" := by
  have hmem (l : String) : l ∈ ["c", "bc"] ↔ l ∈ ["bc", "c", "bc"] := by
    simp only [List.mem_cons, List.not_mem_nil]
    tauto
  exact ⟨hmem, (upToAny_earliest ["bc", "c", "bc"] _).2.1 _ hmem, rfl⟩

theorem reads_blanks : blanks.Reads fun text =>
    if Solid text then .noMatch else .matched (text.dropWhile isBlank) () where
  run_eq c := by
    have hs := c.skipBlanks_eq
    simp only [blanks, Cursor.peek?]
    cases hr : c.rest with
    | nil => rfl
    | cons ch u =>
        by_cases hb : isBlank ch = true
        · simp [solid_cons, hb, hs, hr]
        · simp [solid_cons, hb]
  suffix h := by
    split at h
    · simp at h
    · simp only [Reading.matched.injEq] at h
      exact h.1 ▸ List.dropWhile_suffix _

instance : blanks.Local := reads_blanks.local

theorem reading_blanks {w rest : List Char} (hw : Blank w) (hne : w ≠ []) (hr : Solid rest) :
    blanks.reading (w ++ rest) = .matched rest () := by
  have hsolid : ¬ Solid (w ++ rest) := by
    cases w with
    | nil => exact absurd rfl hne
    | cons ch w => simp [solid_cons, (blank_cons.mp hw).1]
  rw [reads_blanks.reading_eq]
  simp only [hsolid, if_false, dropWhile_blank_append hw hr]

theorem blanks_noMatch {text : List Char} : blanks.reading text = .noMatch ↔ Solid text := by
  rw [reads_blanks.reading_eq]
  simp

theorem blanks_matched {text rest : List Char} {u : Unit}
    (h : blanks.reading text = .matched rest u) :
    ∃ w, w ≠ [] ∧ Blank w ∧ Solid rest ∧ text = w ++ rest := by
  rw [reads_blanks.reading_eq] at h
  by_cases hs : Solid text
  · simp [hs] at h
  · simp only [hs, if_false, Reading.matched.injEq, and_true] at h
    refine ⟨text.takeWhile isBlank, fun hnil => hs fun c hc => ?_, blank_takeWhile text, ?_, ?_⟩
    · cases text with
      | nil => simp at hc
      | cons d t =>
          obtain rfl : d = c := by simpa using hc
          simpa [List.takeWhile_cons] using hnil
    · exact h ▸ solid_dropWhile text
    · rw [← h, List.takeWhile_append_dropWhile]

theorem reads_digit : digit.Reads fun text =>
    match text with
    | [] => .noMatch
    | ch :: rest => if ch.isDigit then .matched rest (digitValue ch) else .noMatch where
  run_eq c := by
    simp only [digit, Cursor.peek?]
    cases hr : c.rest with
    | nil => rfl
    | cons ch u =>
        cases hd : ch.isDigit with
        | false => simp [hd]
        | true =>
            have hskip : c.skip (c.rest.length - u.length) = c.next := by
              rw [hr, List.length_cons, Nat.add_sub_cancel_left]
              rfl
            simp [hd, ← hskip, hr]
  suffix h := by
    split at h
    · simp at h
    · split at h
      · simp only [Reading.matched.injEq] at h
        exact h.1 ▸ List.suffix_cons _ _
      · simp at h

instance : digit.Local := reads_digit.local

theorem reading_digit_cons (ch : Char) (rest : List Char) : digit.reading (ch :: rest) =
    if ch.isDigit then .matched rest (digitValue ch) else .noMatch := by
  rw [reads_digit.reading_eq]

end Parser

end MeshMarkup
