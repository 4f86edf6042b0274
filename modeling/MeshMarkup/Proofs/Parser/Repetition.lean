import MeshMarkup.Proofs.Parser.Combinators

namespace MeshMarkup.Parser

variable {α δ : Type}

def round (p : Parser α) (d : Parser δ) (next : List Char → List α → Reading (List α))
    (text : List Char) (values : List α) : Reading (List α) :=
  match d.reading text with
  | .fault cause => .fault cause
  | .noMatch => .matched text values.reverse
  | .matched after _ =>
    match p.reading after with
    | .fault cause => .fault cause
    | .noMatch => .matched after values.reverse
    | .matched rest value =>
      if rest = text then .matched rest (value :: values).reverse else next rest (value :: values)

def roundsReading (p : Parser α) (d : Parser δ) :
    List Char → List Char → List α → Reading (List α)
  | [] => round p d fun rest values => .matched rest values.reverse
  | _ :: fuel => round p d (roundsReading p d fuel)

def turn (p : Parser α) (next : List Char → List α → Reading (List α)) (text : List Char)
    (values : List α) : Reading (List α) :=
  match p.reading text with
  | .fault cause => .fault cause
  | .noMatch => .matched text values.reverse
  | .matched rest value =>
    if rest = text then .matched text values.reverse else next rest (value :: values)

def turnsReading (p : Parser α) : List Char → List Char → List α → Reading (List α)
  | [], text, values => turn p (fun _ _ => .matched text values.reverse) text values
  | _ :: fuel, text, values => turn p (turnsReading p fuel) text values

/-- The further rounds of a delimited repetition, without a bound on their number. -/
inductive Rounds (p : Parser α) (d : Parser δ) : List Char → List α → List Char → Prop
  | stop {text} (hd : d.reading text = .noMatch) : Rounds p d text [] text
  | trailing {text after u} (hd : d.reading text = .matched after u)
      (hp : p.reading after = .noMatch) : Rounds p d text [] after
  | still {text after u a} (hd : d.reading text = .matched after u)
      (hp : p.reading after = .matched text a) : Rounds p d text [a] text
  | more {text after u mid a as rest} (hd : d.reading text = .matched after u)
      (hp : p.reading after = .matched mid a) (hne : mid ≠ text) (hr : Rounds p d mid as rest) :
      Rounds p d text (a :: as) rest

theorem offset_skip_eq_iff {c : Cursor} {rest : List Char} (h : rest <:+ c.rest) :
    (c.skip (c.rest.length - rest.length)).offset = c.offset ↔ rest = c.rest := by
  have hl := h.length_le
  rw [Cursor.offset_skip]
  constructor
  · intro ho
    exact h.eq_of_length (by omega)
  · rintro rfl
    omega

/-- An outcome further on is an outcome here, when the text read there lies behind. -/
theorem outcome_skip {c : Cursor} {mid : List Char} (hm : mid <:+ c.rest) {r : Reading α}
    (hr : ∀ {rest a}, r = .matched rest a → rest <:+ mid) :
    r.outcome (c.skip (c.rest.length - mid.length)) = r.outcome c := by
  cases r with
  | fault cause => rfl
  | noMatch => rfl
  | matched rest a =>
      simp only [Reading.outcome, Cursor.rest_skip_of_suffix hm]
      rw [Cursor.skip_skip_of_suffix hm (hr rfl)]

variable (p : Parser α) [p.Local] (d : Parser δ) [d.Local]

theorem turn_suffix {next : List Char → List α → Reading (List α)} {text rest : List Char}
    {values as : List α}
    (hnext : ∀ {mid values}, mid <:+ text → next mid values = .matched rest as → rest <:+ text)
    (h : turn p next text values = .matched rest as) : rest <:+ text := by
  rw [turn] at h
  cases hp : p.reading text with
  | fault cause => simp [hp] at h
  | noMatch =>
      simp only [hp, Reading.matched.injEq] at h
      exact h.1 ▸ List.suffix_rfl
  | matched mid a =>
      simp only [hp] at h
      split at h
      · simp only [Reading.matched.injEq] at h
        exact h.1 ▸ List.suffix_rfl
      · exact hnext (suffix_of_reading hp) h

theorem turnsReading_suffix {fuel text rest : List Char} {values as : List α}
    (h : turnsReading p fuel text values = .matched rest as) : rest <:+ text := by
  induction fuel generalizing text values with
  | nil =>
      refine turn_suffix p (fun _ hstop => ?_) h
      simp only [Reading.matched.injEq] at hstop
      exact hstop.1 ▸ List.suffix_rfl
  | cons ch fuel ih => exact turn_suffix p (fun hm hr => (ih hr).trans hm) h

theorem turn_outcome {next : List Char → List α → Reading (List α)} (c : Cursor)
    (values : List α) (nextRun : Cursor → List α → Outcome (List α))
    (hrun : ∀ mid, mid <:+ c.rest → ∀ values,
      nextRun (c.skip (c.rest.length - mid.length)) values = (next mid values).outcome c) :
    (match p.run c with
      | .fault cause => .fault cause
      | .noMatch => .matched c values.reverse
      | .matched rest value =>
        if rest.offset = c.offset then .matched c values.reverse
        else nextRun rest (value :: values)) = (turn p next c.rest values).outcome c := by
  rw [turn, run_eq_outcome p]
  cases hp : p.reading c.rest with
  | fault cause => rfl
  | noMatch => simp only [Reading.outcome, Nat.sub_self, Cursor.skip_zero]
  | matched mid a =>
      have hm := suffix_of_reading hp
      simp only [Reading.outcome_matched]
      by_cases he : mid = c.rest
      · rw [if_pos ((offset_skip_eq_iff hm).mpr he), if_pos he, Reading.outcome_matched,
          Nat.sub_self, Cursor.skip_zero]
      · rw [if_neg (mt (offset_skip_eq_iff hm).mp he), if_neg he]
        exact hrun mid hm _

theorem manyFrom_eq (fuel : List Char) (c : Cursor) (values : List α) :
    manyFrom p fuel c values = (turnsReading p fuel c.rest values).outcome c := by
  induction fuel generalizing c values with
  | nil =>
      rw [manyFrom]
      refine turn_outcome p c values (fun _ _ => .matched c values.reverse) fun _ _ _ => ?_
      rw [Reading.outcome_matched, Nat.sub_self, Cursor.skip_zero]
  | cons ch fuel ih =>
      rw [manyFrom]
      refine turn_outcome p c values (manyFrom p fuel) fun mid hm values => ?_
      rw [ih, Cursor.rest_skip_of_suffix hm, outcome_skip hm fun h => turnsReading_suffix p h]

theorem reads_many : p.many.Reads fun text =>
    (p.reading text).bind fun rest a => turnsReading p rest rest [a] where
  run_eq c := by
    change (p.run c).bind (fun rest a => manyFrom p rest.rest rest [a]) = _
    rw [run_eq_outcome p]
    cases hp : p.reading c.rest with
    | fault cause => rfl
    | noMatch => rfl
    | matched mid a =>
        have hm := suffix_of_reading hp
        simp only [Reading.outcome_matched, Outcome.bind, Reading.bind_matched]
        rw [manyFrom_eq, Cursor.rest_skip_of_suffix hm,
          outcome_skip hm fun h => turnsReading_suffix p h]
  suffix h := by
    obtain ⟨mid, a, hp, hr⟩ := Reading.bind_eq_matched.mp h
    exact (turnsReading_suffix p hr).trans (suffix_of_reading hp)

instance : p.many.Local := (reads_many p).local

theorem turn_fault {next : List Char → List α → Reading (List α)} {text : List Char}
    {values : List α} {cause : Fault} (h : turn p next text values = .fault cause) :
    p.reading text = .fault cause ∨
      ∃ mid values, mid <:+ text ∧ next mid values = .fault cause := by
  rw [turn] at h
  cases hp : p.reading text with
  | fault cause' =>
      simp only [hp, Reading.fault.injEq] at h
      exact Or.inl (congrArg Reading.fault h)
  | noMatch => simp [hp] at h
  | matched mid a =>
      simp only [hp] at h
      split at h
      · simp at h
      · exact Or.inr ⟨mid, _, suffix_of_reading hp, h⟩

theorem turnsReading_fault {fuel text : List Char} {values : List α} {cause : Fault}
    (h : turnsReading p fuel text values = .fault cause) :
    ∃ u, u <:+ text ∧ p.reading u = .fault cause := by
  induction fuel generalizing text values with
  | nil =>
      obtain hp | ⟨_, _, -, hnext⟩ := turn_fault p h
      · exact ⟨text, List.suffix_rfl, hp⟩
      · simp at hnext
  | cons ch fuel ih =>
      obtain hp | ⟨mid, _, hm, hnext⟩ := turn_fault p h
      · exact ⟨text, List.suffix_rfl, hp⟩
      · obtain ⟨u, hu, hp⟩ := ih hnext
        exact ⟨u, hu.trans hm, hp⟩

section Round

variable {next : List Char → List α → Reading (List α)}
  (hnext : ∀ {text rest values as}, next text values = .matched rest as → rest <:+ text)
include hnext

theorem round_suffix {text rest : List Char} {values as : List α}
    (h : round p d next text values = .matched rest as) : rest <:+ text := by
  rw [round] at h
  cases hd : d.reading text with
  | fault cause => simp [hd] at h
  | noMatch =>
      simp only [hd, Reading.matched.injEq] at h
      exact h.1 ▸ List.suffix_rfl
  | matched after u =>
      have ha := suffix_of_reading hd
      cases hp : p.reading after with
      | fault cause => simp [hd, hp] at h
      | noMatch =>
          simp only [hd, hp, Reading.matched.injEq] at h
          exact h.1 ▸ ha
      | matched mid a =>
          have hm := (suffix_of_reading hp).trans ha
          simp only [hd, hp] at h
          split at h
          · simp only [Reading.matched.injEq] at h
            exact h.1 ▸ hm
          · exact (hnext h).trans hm

theorem round_outcome (nextRun : Cursor → List α → Outcome (List α))
    (hrun : ∀ c values, nextRun c values = (next c.rest values).outcome c)
    (c : Cursor) (values : List α) :
    (match d.run c with
      | .fault cause => .fault cause
      | .noMatch => .matched c values.reverse
      | .matched after _ =>
        match p.run after with
        | .fault cause => .fault cause
        | .noMatch => .matched after values.reverse
        | .matched rest value =>
          if rest.offset = c.offset then .matched rest (value :: values).reverse
          else nextRun rest (value :: values)) =
      (round p d next c.rest values).outcome c := by
  rw [round, run_eq_outcome d]
  cases hd : d.reading c.rest with
  | fault cause => rfl
  | noMatch => simp only [Reading.outcome, Nat.sub_self, Cursor.skip_zero]
  | matched after u =>
      have ha := suffix_of_reading hd
      simp only [Reading.outcome_matched]
      rw [run_eq_outcome p, Cursor.rest_skip_of_suffix ha]
      cases hp : p.reading after with
      | fault cause => rfl
      | noMatch => rfl
      | matched mid a =>
          have hm := (suffix_of_reading hp).trans ha
          simp only [Reading.outcome_matched, Cursor.rest_skip_of_suffix ha]
          rw [Cursor.skip_skip_of_suffix ha (suffix_of_reading hp)]
          by_cases he : mid = c.rest
          · rw [if_pos ((offset_skip_eq_iff hm).mpr he), if_pos he, Reading.outcome_matched]
          · simp only [mt (offset_skip_eq_iff hm).mp he, he, if_false]
            rw [hrun, Cursor.rest_skip_of_suffix hm, outcome_skip hm fun h => hnext h]

end Round

theorem roundsReading_suffix {fuel text rest : List Char} {values as : List α}
    (h : roundsReading p d fuel text values = .matched rest as) : rest <:+ text := by
  induction fuel generalizing text rest values as with
  | nil =>
      refine round_suffix p d (fun h => ?_) h
      simp only [Reading.matched.injEq] at h
      exact h.1 ▸ List.suffix_rfl
  | cons ch fuel ih => exact round_suffix p d ih h

theorem delimitedFrom_eq (fuel : List Char) (c : Cursor) (values : List α) :
    delimitedFrom p d fuel c values = (roundsReading p d fuel c.rest values).outcome c := by
  induction fuel generalizing c values with
  | nil =>
      rw [delimitedFrom]
      refine round_outcome p d ?_ (fun c values => .matched c values.reverse) ?_ c values
      · intro text rest values as h
        simp only [Reading.matched.injEq] at h
        exact h.1 ▸ List.suffix_rfl
      · intro c values
        simp only [Reading.outcome, Nat.sub_self, Cursor.skip_zero]
  | cons ch fuel ih =>
      rw [delimitedFrom]
      exact round_outcome p d (fun h => roundsReading_suffix p d h) _ ih c values

theorem reads_delimited : (p.delimited d).Reads fun text =>
    (p.reading text).bind fun rest a => roundsReading p d rest rest [a] where
  run_eq c := by
    change (p.run c).bind (fun rest a => delimitedFrom p d rest.rest rest [a]) = _
    rw [run_eq_outcome p]
    cases hp : p.reading c.rest with
    | fault cause => rfl
    | noMatch => rfl
    | matched mid a =>
        have hm := suffix_of_reading hp
        simp only [Reading.outcome_matched, Outcome.bind, Reading.bind_matched]
        rw [delimitedFrom_eq, Cursor.rest_skip_of_suffix hm,
          outcome_skip hm fun h => roundsReading_suffix p d h]
  suffix h := by
    obtain ⟨mid, a, hp, hr⟩ := Reading.bind_eq_matched.mp h
    exact (roundsReading_suffix p d hr).trans (suffix_of_reading hp)

instance : (p.delimited d).Local := (reads_delimited p d).local

theorem round_fault {next : List Char → List α → Reading (List α)} {text : List Char}
    {values : List α} {cause : Fault} (h : round p d next text values = .fault cause) :
    (∃ u, u <:+ text ∧ (p.reading u = .fault cause ∨ d.reading u = .fault cause)) ∨
      ∃ mid values, mid <:+ text ∧ next mid values = .fault cause := by
  rw [round] at h
  cases hd : d.reading text with
  | fault cause' =>
      simp only [hd, Reading.fault.injEq] at h
      exact Or.inl ⟨text, List.suffix_rfl, Or.inr (hd.trans (congrArg Reading.fault h))⟩
  | noMatch => simp [hd] at h
  | matched after u =>
      have ha := suffix_of_reading hd
      cases hp : p.reading after with
      | fault cause' =>
          simp only [hd, hp, Reading.fault.injEq] at h
          exact Or.inl ⟨after, ha, Or.inl (hp.trans (congrArg Reading.fault h))⟩
      | noMatch => simp [hd, hp] at h
      | matched mid a =>
          simp only [hd, hp] at h
          split at h
          · simp at h
          · exact Or.inr ⟨mid, _, (suffix_of_reading hp).trans ha, h⟩

theorem roundsReading_fault {fuel text : List Char} {values : List α} {cause : Fault}
    (h : roundsReading p d fuel text values = .fault cause) :
    ∃ u, u <:+ text ∧ (p.reading u = .fault cause ∨ d.reading u = .fault cause) := by
  induction fuel generalizing text values with
  | nil =>
      obtain hround | ⟨_, _, -, hnext⟩ := round_fault p d h
      · exact hround
      · simp at hnext
  | cons ch fuel ih =>
      obtain hround | ⟨mid, _, hm, hnext⟩ := round_fault p d h
      · exact hround
      · obtain ⟨u, hu, hp⟩ := ih hnext
        exact ⟨u, hu.trans hm, hp⟩

/-- The further rounds of a delimited repetition that one of its parts puts an end to for good. -/
inductive Breaks (p : Parser α) (d : Parser δ) (cause : Fault) : List Char → Prop
  | delimiter {text} (hd : d.reading text = .fault cause) : Breaks p d cause text
  | value {text after u} (hd : d.reading text = .matched after u)
      (hp : p.reading after = .fault cause) : Breaks p d cause text
  | more {text after u mid a} (hd : d.reading text = .matched after u)
      (hp : p.reading after = .matched mid a) (hne : mid ≠ text) (hr : Breaks p d cause mid) :
      Breaks p d cause text

theorem roundsReading_of_breaks {cause : Fault} {fuel text : List Char} {values : List α}
    (hf : text.length ≤ fuel.length) (h : Breaks p d cause text) :
    roundsReading p d fuel text values = .fault cause := by
  induction h generalizing fuel values with
  | delimiter hd => cases fuel <;> simp [roundsReading, round, hd]
  | value hd hp => cases fuel <;> simp [roundsReading, round, hd, hp]
  | @more text after u mid a hd hp hne _ ih =>
      have hm := (suffix_of_reading hp).trans (suffix_of_reading hd)
      have hlt : mid.length < text.length :=
        Nat.lt_of_le_of_ne hm.length_le fun he => hne (hm.eq_of_length he)
      cases fuel with
      | nil => exact absurd (Nat.lt_of_lt_of_le hlt hf) (Nat.not_lt_zero _)
      | cons ch fuel =>
          rw [List.length_cons] at hf
          simp only [roundsReading, round, hd, hp, hne, if_false]
          exact ih (by omega)

theorem delimited_fault {cause : Fault} {text mid : List Char} {a : α}
    (hp : p.reading text = .matched mid a) (h : Breaks p d cause mid) :
    (p.delimited d).reading text = .fault cause := by
  rw [(reads_delimited p d).reading_eq]
  simp only [hp, Reading.bind_matched]
  exact roundsReading_of_breaks p d (Nat.le_refl _) h

variable {p d}

theorem round_matched {next : List Char → List α → Reading (List α)} {text rest : List Char}
    {values as : List α}
    (hnext : ∀ {mid a}, mid <:+ text → mid ≠ text → (next mid (a :: values) = .matched rest as ↔
      ∃ bs, as = (a :: values).reverse ++ bs ∧ Rounds p d mid bs rest)) :
    round p d next text values = .matched rest as ↔
      ∃ bs, as = values.reverse ++ bs ∧ Rounds p d text bs rest := by
  constructor
  · intro h
    rw [round] at h
    cases hd : d.reading text with
    | fault cause => simp [hd] at h
    | noMatch =>
        simp only [hd, Reading.matched.injEq] at h
        obtain ⟨rfl, rfl⟩ := h
        exact ⟨[], by simp, .stop hd⟩
    | matched after u =>
        cases hp : p.reading after with
        | fault cause => simp [hd, hp] at h
        | noMatch =>
            simp only [hd, hp, Reading.matched.injEq] at h
            obtain ⟨rfl, rfl⟩ := h
            exact ⟨[], by simp, .trailing hd hp⟩
        | matched mid a =>
            have hm := (suffix_of_reading hp).trans (suffix_of_reading hd)
            simp only [hd, hp] at h
            split at h
            · next he =>
                simp only [Reading.matched.injEq] at h
                obtain ⟨rfl, rfl⟩ := h
                subst he
                exact ⟨[a], by simp, .still hd hp⟩
            · next he =>
                obtain ⟨bs, rfl, hr⟩ := (hnext hm he).mp h
                exact ⟨a :: bs, by simp, .more hd hp he hr⟩
  · rintro ⟨bs, rfl, hr⟩
    cases hr with
    | stop hd => simp [round, hd]
    | trailing hd hp => simp [round, hd, hp]
    | still hd hp => simp [round, hd, hp]
    | @more _ _ _ mid a as _ hd hp hne hr =>
        have hm := (suffix_of_reading hp).trans (suffix_of_reading hd)
        simp only [round, hd, hp, hne, if_false]
        exact (hnext hm hne).mpr ⟨as, by simp, hr⟩

/-- With a character of fuel for each one that remains, the loop is the relation. -/
theorem roundsReading_matched {fuel text rest : List Char} {values as : List α}
    (hf : text.length ≤ fuel.length) : roundsReading p d fuel text values = .matched rest as ↔
      ∃ bs, as = values.reverse ++ bs ∧ Rounds p d text bs rest := by
  induction fuel generalizing text values with
  | nil =>
      refine round_matched fun {mid a} hm hne => absurd ?_ hne
      have ht : text = [] := List.length_eq_zero_iff.mp (by simpa using hf)
      rw [ht] at hm ⊢
      exact List.suffix_nil.mp hm
  | cons ch fuel ih =>
      refine round_matched fun {mid a} hm hne => ih ?_
      have hl := hm.length_le
      have hlt : mid.length ≠ text.length := fun he => hne (hm.eq_of_length he)
      simp only [List.length_cons] at hf
      omega

omit [p.Local] [d.Local] in
theorem roundsReading_ne_noMatch {fuel text : List Char} {values : List α} :
    roundsReading p d fuel text values ≠ .noMatch := by
  induction fuel generalizing text values with
  | nil =>
      rw [roundsReading, round]
      repeat' split
      all_goals simp
  | cons ch fuel ih =>
      rw [roundsReading, round]
      repeat' split
      all_goals first | exact ih | simp

theorem delimited_matched {text rest : List Char} {as : List α} :
    (p.delimited d).reading text = .matched rest as ↔
      ∃ mid a bs, as = a :: bs ∧ p.reading text = .matched mid a ∧ Rounds p d mid bs rest := by
  rw [(reads_delimited p d).reading_eq, Reading.bind_eq_matched]
  constructor
  · rintro ⟨mid, a, hp, h⟩
    obtain ⟨bs, rfl, hr⟩ := (roundsReading_matched (Nat.le_refl _)).mp h
    exact ⟨mid, a, bs, rfl, hp, hr⟩
  · rintro ⟨mid, a, bs, rfl, hp, hr⟩
    exact ⟨mid, a, hp, (roundsReading_matched (Nat.le_refl _)).mpr ⟨bs, rfl, hr⟩⟩

theorem delimited_noMatch {text : List Char} :
    (p.delimited d).reading text = .noMatch ↔ p.reading text = .noMatch := by
  rw [(reads_delimited p d).reading_eq, Reading.bind_eq_noMatch]
  constructor
  · rintro (h | ⟨mid, a, hp, hr⟩)
    · exact h
    · exact absurd hr roundsReading_ne_noMatch
  · exact Or.inl

end MeshMarkup.Parser
