import MeshMarkup.Proofs.Document.Rendering

namespace MeshMarkup

open Text

namespace Reading

variable {α : Type}

def extend (u : List Char) : Reading α → Reading α
  | fault cause => fault cause
  | noMatch => noMatch
  | matched rest a => matched (rest ++ u) a

theorem extend_eq_noMatch {r : Reading α} {u : List Char} :
    r.extend u = noMatch ↔ r = noMatch := by
  cases r <;> simp [extend]

theorem extend_eq_matched {r : Reading α} {u rest : List Char} {a : α} :
    r.extend u = matched rest a ↔ ∃ v, r = matched v a ∧ v ++ u = rest := by
  cases r <;> simp [extend, and_assoc, and_comm]

end Reading

namespace Parser

variable {α δ : Type}

/-- A parser that takes nothing of a stop nor of what comes after it. -/
def Halts (c : Char) (p : Parser α) : Prop :=
  ∀ w u, c ∉ w → p.reading (w ++ c :: u) = (p.reading w).extend (c :: u)

theorem Halts.noMatch {c : Char} {p : Parser α} (hp : Halts c p) {w u : List Char} (hw : c ∉ w)
    (h : p.reading (w ++ c :: u) = .noMatch) (u' : List Char) :
    p.reading (w ++ c :: u') = .noMatch := by
  rw [hp w u hw, Reading.extend_eq_noMatch] at h
  rw [hp w u' hw, h]
  rfl

theorem Halts.matched {c : Char} {p : Parser α} [p.Local] (hp : Halts c p) {w u rest : List Char}
    {a : α} (hw : c ∉ w) (h : p.reading (w ++ c :: u) = .matched rest a) :
    ∃ v, rest = v ++ c :: u ∧ v <:+ w ∧ c ∉ v ∧
      ∀ u', p.reading (w ++ c :: u') = .matched (v ++ c :: u') a := by
  rw [hp w u hw] at h
  obtain ⟨v, hv, rfl⟩ := Reading.extend_eq_matched.mp h
  have hvw := suffix_of_reading hv
  refine ⟨v, rfl, hvw, fun hm => hw (hvw.subset hm), fun u' => ?_⟩
  rw [hp w u' hw, hv]
  rfl

theorem halts_scientific {c : Char} (hc : Stops c) : Halts c scientific := by
  intro w u _
  rw [reading_scientific_eq, reading_scientific_eq, ScientificLiteral.read?_append hc]
  cases hl : ScientificLiteral.read? w with
  | none => rfl
  | some l =>
      have hlen := ScientificLiteral.length_le_of_read? hl
      dsimp only
      cases nearest l.negative l.value with
      | error cause => rfl
      | ok x => simp only [Reading.extend, List.drop_append_of_le_length hlen]

theorem halts_blanks {c : Char} (hc : isBlank c = false) : Halts c blanks := by
  intro w u hw
  have hdrop : (w ++ c :: u).dropWhile isBlank = w.dropWhile isBlank ++ c :: u := by
    induction w with
    | nil => simp [hc]
    | cons d w ih =>
        have ih := ih (List.not_mem_of_not_mem_cons hw)
        by_cases hd : isBlank d = true <;> simp [hd, ih]
  rw [reads_blanks.reading_eq]
  cases w with
  | nil => simp [hc, Solid, Reading.extend]
  | cons d w =>
      rw [List.cons_append] at hdrop ⊢
      by_cases hd : isBlank d = true
      · simp [solid_cons, hd, Reading.extend, hdrop]
      · simp [solid_cons, hd, Reading.extend]

theorem rounds_halt {c : Char} {p : Parser α} [p.Local] {d : Parser δ} [d.Local]
    (hp : Halts c p) (hd : Halts c d) {text rest : List Char} {as : List α}
    (h : Rounds p d text as rest) {w u : List Char} (ht : text = w ++ c :: u) (hw : c ∉ w) :
    ∃ v, rest = v ++ c :: u ∧ v <:+ w ∧ ∀ u', Rounds p d (w ++ c :: u') as (v ++ c :: u') := by
  induction h generalizing w u with
  | stop hdr =>
      subst ht
      exact ⟨w, rfl, List.suffix_rfl, fun u' => .stop (hd.noMatch hw hdr u')⟩
  | trailing hdr hpr =>
      subst ht
      obtain ⟨v, rfl, hvw, hv, hdr'⟩ := hd.matched hw hdr
      exact ⟨v, rfl, hvw, fun u' => .trailing (hdr' u') (hp.noMatch hv hpr u')⟩
  | still hdr hpr =>
      subst ht
      obtain ⟨v, rfl, hvw, hv, hdr'⟩ := hd.matched hw hdr
      obtain ⟨v', he, -, -, hpr'⟩ := hp.matched hv hpr
      obtain rfl := List.append_cancel_right he
      exact ⟨w, rfl, List.suffix_rfl, fun u' => .still (hdr' u') (hpr' u')⟩
  | more hdr hpr hmid hr ih =>
      subst ht
      obtain ⟨v, rfl, hvw, hv, hdr'⟩ := hd.matched hw hdr
      obtain ⟨v', rfl, hvw', hv', hpr'⟩ := hp.matched hv hpr
      obtain ⟨v'', rfl, hvw'', hr'⟩ := ih rfl hv'
      refine ⟨v'', rfl, (hvw''.trans hvw').trans hvw, fun u' => ?_⟩
      exact .more (hdr' u') (hpr' u') (fun he => hmid (by rw [List.append_cancel_right he])) (hr' u')

end Parser

namespace Grammar

open MeshMarkup.Parser

instance : numbers.Local := inferInstanceAs (Parser.map _ _).Local

theorem stops_angle : Stops '<' := ⟨by decide, by decide, by decide, by decide⟩

theorem numbers_noMatch {text : List Char} : numbers.reading text = .noMatch ↔
    scientific.reading text = .noMatch ∨
      ∃ mid xs, (scientific.delimited blanks).reading text = .matched mid xs ∧ ¬ ['<'] <+: mid := by
  rw [numbers, reading_map, Reading.map_eq_noMatch, reading_andThen, Reading.bind_eq_noMatch,
    delimited_noMatch]
  simp only [Reading.map_eq_noMatch, lookahead_noMatch]
  rfl

/-- Whether a text is taken for a run of numbers is decided before the next tag. -/
theorem numbers_noMatch_append {w u : List Char} (hw : '<' ∉ w)
    (h : numbers.reading (w ++ '<' :: u) = .noMatch) (u' : List Char) :
    numbers.reading (w ++ '<' :: u') = .noMatch := by
  have hs := halts_scientific stops_angle
  have hb := halts_blanks (c := '<') (by decide)
  refine numbers_noMatch.mpr ?_
  obtain hn | ⟨mid, xs, hm, hmid⟩ := numbers_noMatch.mp h
  · exact Or.inl (hs.noMatch hw hn u')
  · obtain ⟨text, x, ys, rfl, hx, hr⟩ := delimited_matched.mp hm
    obtain ⟨v, rfl, hvw, hv, hx'⟩ := hs.matched hw hx
    obtain ⟨v', rfl, hvw', hr'⟩ := rounds_halt hs hb hr rfl hv
    refine Or.inr ⟨v' ++ '<' :: u', _, delimited_matched.mpr ⟨_, x, ys, rfl, hx' u', hr' u'⟩, ?_⟩
    intro hp
    cases v' with
    | nil => exact hmid (List.cons_prefix_cons.mpr ⟨rfl, List.nil_prefix⟩)
    | cons c v' =>
        obtain ⟨rfl, -⟩ := List.cons_prefix_cons.mp hp
        exact hv (hvw'.subset List.mem_cons_self)

theorem literal_start {l : ScientificLiteral} (hl : l.WellFormed) :
    ∃ c u, l.text = c :: u ∧ (c = '-' ∨ c.isDigit = true) := by
  obtain ⟨c, u, hcu, hc⟩ : ∃ c u, l.mantissa.text = c :: u ∧ c.isDigit = true := by
    cases hw : l.mantissa.whole with
    | nil => exact absurd hw hl.mantissa.whole_ne
    | cons c u =>
        have hc := hl.mantissa.whole c (hw ▸ List.mem_cons_self)
        rw [DecimalLiteral.text, hw]
        split
        · exact ⟨c, u, rfl, hc⟩
        · exact ⟨c, _, rfl, hc⟩
  rw [ScientificLiteral.text, hcu]
  cases l.negative with
  | true => exact ⟨'-', _, rfl, Or.inl rfl⟩
  | false => exact ⟨c, _, rfl, Or.inr hc⟩

theorem numberText_start {x : Binary64} {s : List Char} (h : NumberText x s) :
    ∃ c u, s = c :: u ∧ (c = '-' ∨ c.isDigit = true) := by
  obtain ⟨l, hl, -, rfl⟩ := h
  exact literal_start hl

theorem not_isBlank_of_isDigit {c : Char} (h : c.isDigit = true) : isBlank c = false := by
  have hr := isDigit_range h
  simp only [isBlank, blankRanges, List.any_cons, List.any_nil, Bool.or_false, Bool.or_eq_false_iff,
    Bool.and_eq_false_iff, decide_eq_false_iff_not]
  omega

theorem literal_solid {l : ScientificLiteral} (hl : l.WellFormed) :
    l.text ≠ [] ∧ Solid l.text := by
  obtain ⟨c, u, htext, hc⟩ := literal_start hl
  rw [htext]
  refine ⟨List.cons_ne_nil c u, solid_cons.mpr ?_⟩
  obtain rfl | hc := hc
  · decide
  · exact not_isBlank_of_isDigit hc

theorem numberText_solid {x : Binary64} {s : List Char} (h : NumberText x s) :
    s ≠ [] ∧ Solid s := by
  obtain ⟨l, hl, -, rfl⟩ := h
  exact literal_solid hl

theorem terminates_of_blank {w : List Char} (hw : BlankGap w) (u : List Char) :
    Terminates (w ++ u) := by
  intro c hc
  cases w with
  | nil => exact absurd rfl hw.1
  | cons d w =>
      obtain rfl : d = c := by simpa using hc
      have hd := (blank_cons.mp hw.2).1
      refine ⟨?_, ?_, ?_⟩
      · cases hdigit : d.isDigit with
        | false => rfl
        | true => exact absurd hd (by simp [not_isBlank_of_isDigit hdigit])
      · rintro rfl
        exact absurd hd (by decide)
      · rintro rfl
        exact absurd hd (by decide)

theorem reading_numbers {xs : List Binary64} {s : List Char} (h : Spaced NumberText BlankGap xs s)
    (u : List Char) : numbers.reading (s ++ '<' :: u) = .matched ('<' :: u) (.numbers xs) := by
  have hsolid := solid_angle u
  have hend : Terminates ('<' :: u) := by simp [Terminates]
  refine map_matched.mpr ⟨(xs, ()), andThen_matched.mpr ⟨'<' :: u, ?_, ?_⟩, rfl⟩
  · refine reading_delimited delimits_blanks Terminates (fun hw _ => terminates_of_blank hw _) hend hsolid
      (scientific_noMatch (by decide) (by decide)) h ?_ fun _ _ _ hs => numberText_solid hs
    intro x _ s v hs hv
    obtain ⟨l, hl, hx, rfl⟩ := hs
    exact reading_scientific hl hx hv
  · exact lookahead_matched.mpr ⟨List.cons_prefix_cons.mpr ⟨rfl, List.nil_prefix⟩, rfl⟩

theorem numbers_matched {text rest : List Char} {t : Node} (hs : Solid text)
    (h : numbers.reading text = .matched rest t) : ∃ xs s u, t = .numbers xs ∧ rest = '<' :: u ∧
      text = s ++ rest ∧ Spaced NumberText BlankGap xs s := by
  obtain ⟨⟨xs, v⟩, hall, rfl⟩ := map_matched.mp h
  obtain ⟨mid, hrow, hlook⟩ := andThen_matched.mp hall
  obtain ⟨⟨u, rfl⟩, rfl⟩ := lookahead_matched.mp hlook
  obtain ⟨s, ht, -, hspaced, -⟩ := spaced_of_delimited delimits_blanks (R := NumberText)
    (fun {text rest x} _ hx => by
      obtain ⟨l, hl, hd, htext⟩ := scientific_matched hx
      have hn : NumberText x l.text := ⟨l, hl, hd, rfl⟩
      exact ⟨l.text, htext, (numberText_solid hn).1, hn⟩) hs hrow
  exact ⟨xs, s, u, rfl, rfl, ht, hspaced⟩

end Grammar

end MeshMarkup
