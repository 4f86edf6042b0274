import MeshMarkup.Proofs.Parser.Reading

namespace MeshMarkup.Parser

variable {α β : Type}

theorem reads_map (p : Parser α) [p.Local] (f : α → β) :
    (p.map f).Reads fun text => (p.reading text).map f where
  run_eq c := by
    change (p.run c).map f = _
    rw [run_eq_outcome]
    cases p.reading c.rest <;> rfl
  suffix h := by
    obtain ⟨a, ha, rfl⟩ := Reading.map_eq_matched.mp h
    exact suffix_of_reading ha

theorem reads_andThen (p : Parser α) [p.Local] (q : Parser β) [q.Local] :
    (p.andThen q).Reads fun text =>
      (p.reading text).bind fun rest a => (q.reading rest).map fun b => (a, b) where
  run_eq c := by
    change (p.run c).bind (fun rest a => (q.run rest).map fun b => (a, b)) = _
    rw [run_eq_outcome p]
    cases hp : p.reading c.rest with
    | fault cause => rfl
    | noMatch => rfl
    | matched mid a =>
        have hm := suffix_of_reading hp
        simp only [Reading.outcome, Outcome.bind, Reading.bind_matched]
        rw [run_eq_outcome q, Cursor.rest_skip_of_suffix hm]
        cases hq : q.reading mid with
        | fault cause => rfl
        | noMatch => rfl
        | matched rest b =>
            simp only [Reading.outcome, Outcome.map, Reading.map_matched,
              Cursor.rest_skip_of_suffix hm]
            rw [Cursor.skip_skip_of_suffix hm (suffix_of_reading hq)]
  suffix h := by
    obtain ⟨mid, a, hp, hq⟩ := Reading.bind_eq_matched.mp h
    obtain ⟨b, hb, -⟩ := Reading.map_eq_matched.mp hq
    exact (suffix_of_reading hb).trans (suffix_of_reading hp)

theorem reads_orElse (p q : Parser α) [p.Local] [q.Local] :
    (p.orElse q).Reads fun text => (p.reading text).orElse (q.reading text) where
  run_eq c := by
    change ((p.run c).orElse fun _ => q.run c) = _
    rw [run_eq_outcome p, run_eq_outcome q]
    cases p.reading c.rest <;> rfl
  suffix h := by
    obtain hp | ⟨-, hq⟩ := Reading.orElse_eq_matched.mp h
    · exact suffix_of_reading hp
    · exact suffix_of_reading hq

theorem reads_filter (test : α → Bool) (p : Parser α) [p.Local] :
    (p.filter test).Reads fun text =>
      (p.reading text).bind fun rest a => if test a then .matched rest a else .noMatch where
  run_eq c := by
    change ((p.run c).bind fun rest a => if test a then .matched rest a else .noMatch) = _
    rw [run_eq_outcome p]
    cases p.reading c.rest with
    | fault cause => rfl
    | noMatch => rfl
    | matched rest a => cases h : test a <;> simp [Reading.outcome, Outcome.bind, h]
  suffix h := by
    obtain ⟨mid, a, hp, ht⟩ := Reading.bind_eq_matched.mp h
    split at ht
    · simp only [Reading.matched.injEq] at ht
      exact ht.1 ▸ suffix_of_reading hp
    · simp at ht

theorem reads_convert (f : α → Except Fault β) (p : Parser α) [p.Local] :
    (p.convert f).Reads fun text => (p.reading text).bind fun rest a => .converted rest (f a) where
  run_eq c := by
    simp only [convert]
    rw [run_eq_outcome p]
    cases p.reading c.rest with
    | fault cause => rfl
    | noMatch => rfl
    | matched rest a => cases h : f a <;> simp [Reading.outcome, Outcome.bind, h]
  suffix h := by
    obtain ⟨mid, a, hp, hf⟩ := Reading.bind_eq_matched.mp h
    exact (Reading.converted_eq_matched.mp hf).1 ▸ suffix_of_reading hp

theorem reads_optionalWith (p : Parser α) [p.Local] (absent : Value) (value : α) :
    (p.optionalWith absent value).Reads fun text =>
      (p.reading text).orElse (.matched text value) where
  run_eq c := by
    change ((p.run c).orElse fun _ => .matched c value) = _
    rw [run_eq_outcome p]
    cases p.reading c.rest <;> simp [Reading.outcome, Outcome.orElse, Cursor.skip_zero]
  suffix h := by
    obtain hp | ⟨-, hv⟩ := Reading.orElse_eq_matched.mp h
    · exact suffix_of_reading hp
    · simp only [Reading.matched.injEq] at hv
      exact hv.1 ▸ List.suffix_rfl

theorem reads_optional (p : Parser α) [p.Local] (value : α) :
    (p.optional value).Reads fun text => (p.reading text).orElse (.matched text value) :=
  reads_optionalWith p p.absent value

theorem reads_named (name : String) (absent : Value) (p : Parser α) [p.Local] :
    (named name absent p).Reads p.reading :=
  Local.reads.of_run_eq rfl

theorem reads_deferred (name : String) (p : Unit → Parser α) [(p ()).Local] :
    (deferred name p).Reads (p ()).reading where
  run_eq c := run_eq_outcome (p ()) c
  suffix h := suffix_of_reading h

theorem reads_faulty (name : String) (cause : Fault) :
    (faulty name cause : Parser α).Reads fun _ => .fault cause where
  run_eq _ := rfl
  suffix h := by simp at h

variable (p : Parser α) [p.Local] (q : Parser β) [q.Local]

instance (f : α → β) : (p.map f).Local := (reads_map p f).local

instance : (p.andThen q).Local := (reads_andThen p q).local

instance (q : Parser α) [q.Local] : (p.orElse q).Local := (reads_orElse p q).local

instance (test : α → Bool) : (p.filter test).Local := (reads_filter test p).local

instance (f : α → Except Fault β) : (p.convert f).Local := (reads_convert f p).local

instance (value : α) : (p.optional value).Local := (reads_optional p value).local

instance (name : String) (absent : Value) : (named name absent p).Local :=
  (reads_named name absent p).local

instance (name : String) (p : Unit → Parser α) [(p ()).Local] : (deferred name p).Local :=
  (reads_deferred name p).local

instance (name : String) (cause : Fault) : (faulty name cause : Parser α).Local :=
  (reads_faulty name cause).local

theorem reading_map (f : α → β) (text : List Char) :
    (p.map f).reading text = (p.reading text).map f := congrFun (reads_map p f).reading_eq text

theorem reading_andThen (text : List Char) : (p.andThen q).reading text =
    (p.reading text).bind fun rest a => (q.reading rest).map fun b => (a, b) :=
  congrFun (reads_andThen p q).reading_eq text

theorem reading_orElse (q : Parser α) [q.Local] (text : List Char) :
    (p.orElse q).reading text = (p.reading text).orElse (q.reading text) :=
  congrFun (reads_orElse p q).reading_eq text

theorem reading_filter (test : α → Bool) (text : List Char) : (p.filter test).reading text =
    (p.reading text).bind fun rest a => if test a then .matched rest a else .noMatch :=
  congrFun (reads_filter test p).reading_eq text

theorem reading_convert (f : α → Except Fault β) (text : List Char) : (p.convert f).reading text =
    (p.reading text).bind fun rest a => .converted rest (f a) :=
  congrFun (reads_convert f p).reading_eq text

theorem reading_named (name : String) (absent : Value) (text : List Char) :
    (named name absent p).reading text = p.reading text :=
  congrFun (reads_named name absent p).reading_eq text

theorem reading_optional (value : α) (text : List Char) :
    (p.optional value).reading text = (p.reading text).orElse (.matched text value) :=
  congrFun (reads_optional p value).reading_eq text

theorem reading_deferred (name : String) (p : Unit → Parser α) [(p ()).Local]
    (text : List Char) : (deferred name p).reading text = (p ()).reading text :=
  congrFun (reads_deferred name p).reading_eq text

theorem reading_faulty (name : String) (cause : Fault) (text : List Char) :
    (faulty name cause : Parser α).reading text = .fault cause :=
  congrFun (reads_faulty name cause).reading_eq text

variable {p q} {text rest : List Char}

theorem andThen_matched {a : α} {b : β} : (p.andThen q).reading text = .matched rest (a, b) ↔
    ∃ mid, p.reading text = .matched mid a ∧ q.reading mid = .matched rest b := by
  rw [reading_andThen, Reading.bind_eq_matched]
  simp only [Reading.map_eq_matched, Prod.mk.injEq]
  constructor
  · rintro ⟨mid, a', hp, b', hq, rfl, rfl⟩
    exact ⟨mid, hp, hq⟩
  · rintro ⟨mid, hp, hq⟩
    exact ⟨mid, a, hp, b, hq, rfl, rfl⟩

theorem map_matched {f : α → β} {b : β} : (p.map f).reading text = .matched rest b ↔
    ∃ a, p.reading text = .matched rest a ∧ f a = b := by
  rw [reading_map, Reading.map_eq_matched]

theorem orElse_matched {q : Parser α} [q.Local] {a : α} :
    (p.orElse q).reading text = .matched rest a ↔ p.reading text = .matched rest a ∨
      p.reading text = .noMatch ∧ q.reading text = .matched rest a := by
  rw [reading_orElse, Reading.orElse_eq_matched]

theorem filter_matched {test : α → Bool} {a : α} : (p.filter test).reading text = .matched rest a ↔
    p.reading text = .matched rest a ∧ test a = true := by
  rw [reading_filter, Reading.bind_eq_matched]
  constructor
  · rintro ⟨mid, b, hp, ht⟩
    split at ht
    · simp only [Reading.matched.injEq] at ht
      obtain ⟨rfl, rfl⟩ := ht
      exact ⟨hp, ‹_›⟩
    · simp at ht
  · rintro ⟨hp, ht⟩
    exact ⟨rest, a, hp, by simp [ht]⟩

theorem optional_matched {value a : α} : (p.optional value).reading text = .matched rest a ↔
    p.reading text = .matched rest a ∨ p.reading text = .noMatch ∧ text = rest ∧ value = a := by
  rw [reading_optional, Reading.orElse_eq_matched, Reading.matched.injEq]

end MeshMarkup.Parser
