import MeshMarkup.Parser.Number

namespace MeshMarkup

inductive Reading (α : Type) where
  | fault (cause : Fault)
  | noMatch
  | matched (rest : List Char) (value : α)

namespace Reading

variable {α β : Type}

def map (f : α → β) : Reading α → Reading β
  | fault cause => fault cause
  | noMatch => noMatch
  | matched rest a => matched rest (f a)

def bind : Reading α → (List Char → α → Reading β) → Reading β
  | fault cause, _ => fault cause
  | noMatch, _ => noMatch
  | matched rest a, next => next rest a

def orElse : Reading α → Reading α → Reading α
  | noMatch, next => next
  | reading, _ => reading

def converted (rest : List Char) : Except Fault α → Reading α
  | .error cause => fault cause
  | .ok a => matched rest a

def outcome (c : Cursor) : Reading α → Outcome α
  | fault cause => .fault cause
  | noMatch => .noMatch
  | matched rest a => .matched (c.skip (c.rest.length - rest.length)) a

@[simp] theorem bind_fault (cause : Fault) (f : List Char → α → Reading β) :
    (fault cause).bind f = fault cause := rfl

@[simp] theorem bind_noMatch (f : List Char → α → Reading β) : noMatch.bind f = noMatch := rfl

@[simp] theorem bind_matched (rest : List Char) (a : α) (f : List Char → α → Reading β) :
    (matched rest a).bind f = f rest a := rfl

@[simp] theorem map_fault (cause : Fault) (f : α → β) : (fault cause).map f = fault cause := rfl

@[simp] theorem map_noMatch (f : α → β) : noMatch.map f = noMatch := rfl

@[simp] theorem map_matched (rest : List Char) (a : α) (f : α → β) :
    (matched rest a).map f = matched rest (f a) := rfl

@[simp] theorem orElse_fault (cause : Fault) (r : Reading α) :
    (fault cause).orElse r = fault cause := rfl

@[simp] theorem orElse_noMatch (r : Reading α) : noMatch.orElse r = r := rfl

@[simp] theorem orElse_matched (rest : List Char) (a : α) (r : Reading α) :
    (matched rest a).orElse r = matched rest a := rfl

@[simp] theorem converted_error (rest : List Char) (cause : Fault) :
    (converted rest (.error cause) : Reading α) = fault cause := rfl

@[simp] theorem converted_ok (rest : List Char) (a : α) :
    converted rest (.ok a) = matched rest a := rfl

@[simp] theorem outcome_fault (c : Cursor) (cause : Fault) :
    (fault cause : Reading α).outcome c = .fault cause := rfl

@[simp] theorem outcome_noMatch (c : Cursor) : (noMatch : Reading α).outcome c = .noMatch := rfl

@[simp] theorem outcome_matched (c : Cursor) (rest : List Char) (a : α) :
    (matched rest a).outcome c = .matched (c.skip (c.rest.length - rest.length)) a := rfl

theorem bind_eq_matched {r : Reading α} {f : List Char → α → Reading β} {rest : List Char}
    {b : β} : r.bind f = matched rest b ↔ ∃ mid a, r = matched mid a ∧ f mid a = matched rest b := by
  cases r <;> simp [and_assoc]

theorem bind_eq_noMatch {r : Reading α} {f : List Char → α → Reading β} :
    r.bind f = noMatch ↔ r = noMatch ∨ ∃ mid a, r = matched mid a ∧ f mid a = noMatch := by
  cases r <;> simp [and_assoc]

theorem map_eq_matched {r : Reading α} {f : α → β} {rest : List Char} {b : β} :
    r.map f = matched rest b ↔ ∃ a, r = matched rest a ∧ f a = b := by
  cases r <;> simp [and_assoc]

theorem map_eq_noMatch {r : Reading α} {f : α → β} : r.map f = noMatch ↔ r = noMatch := by
  cases r <;> simp

theorem converted_eq_matched {mid rest : List Char} {x : Except Fault α} {a : α} :
    converted mid x = matched rest a ↔ mid = rest ∧ x = .ok a := by
  cases x <;> simp

theorem orElse_eq_matched {r s : Reading α} {rest : List Char} {a : α} :
    r.orElse s = matched rest a ↔ r = matched rest a ∨ r = noMatch ∧ s = matched rest a := by
  cases r <;> simp

theorem orElse_eq_noMatch {r s : Reading α} :
    r.orElse s = noMatch ↔ r = noMatch ∧ s = noMatch := by
  cases r <;> simp

theorem bind_eq_fault {r : Reading α} {f : List Char → α → Reading β} {cause : Fault} :
    r.bind f = fault cause ↔ r = fault cause ∨ ∃ mid a, r = matched mid a ∧ f mid a = fault cause := by
  cases r <;> simp [and_assoc]

theorem map_eq_fault {r : Reading α} {f : α → β} {cause : Fault} :
    r.map f = fault cause ↔ r = fault cause := by
  cases r <;> simp

theorem orElse_eq_fault {r s : Reading α} {cause : Fault} :
    r.orElse s = fault cause ↔ r = fault cause ∨ r = noMatch ∧ s = fault cause := by
  cases r <;> simp

end Reading

namespace Cursor

theorem skip_skip (m n : Nat) (c : Cursor) : (c.skip m).skip n = c.skip (m + n) := by
  induction m generalizing c with
  | zero => rw [Nat.zero_add]; rfl
  | succ m ih => rw [Nat.succ_add]; exact ih c.next

theorem skip_zero (c : Cursor) : c.skip 0 = c := rfl

theorem rest_skip_of_suffix {c : Cursor} {rest : List Char} (h : rest <:+ c.rest) :
    (c.skip (c.rest.length - rest.length)).rest = rest := by
  rw [rest_skip]
  exact (List.suffix_iff_eq_drop.mp h).symm

theorem skip_skip_of_suffix {c : Cursor} {mid rest : List Char} (hm : mid <:+ c.rest)
    (hr : rest <:+ mid) :
    (c.skip (c.rest.length - mid.length)).skip (mid.length - rest.length) =
      c.skip (c.rest.length - rest.length) := by
  have hm' := hm.length_le
  have hr' := hr.length_le
  rw [skip_skip]
  congr 1
  omega

end Cursor

namespace Parser

variable {α β δ ρ : Type}

def reading (p : Parser α) (text : List Char) : Reading α :=
  match p.run (.start text) with
  | .fault cause => .fault cause
  | .noMatch => .noMatch
  | .matched rest a => .matched rest.rest a

/-- A function on texts that describes the runs of a parser at all cursors. -/
structure Reads (p : Parser α) (f : List Char → Reading α) : Prop where
  run_eq (c : Cursor) : p.run c = (f c.rest).outcome c
  suffix {text rest : List Char} {a : α} : f text = .matched rest a → rest <:+ text

theorem Reads.reading_eq {p : Parser α} {f : List Char → Reading α} (h : p.Reads f) :
    p.reading = f := by
  funext text
  have hrun := h.run_eq (.start text)
  change p.run (.start text) = (f text).outcome (.start text) at hrun
  rw [reading, hrun]
  cases hf : f text with
  | fault cause => rfl
  | noMatch => rfl
  | matched rest a =>
      have hs : (Cursor.start text).rest = text := rfl
      simp only [Reading.outcome, Cursor.rest_skip_of_suffix (c := .start text) (h.suffix hf)]

theorem Reads.ne_fault {p : Parser α} {f : List Char → Reading α} (h : p.Reads f)
    {text : List Char} {cause : Fault} (hf : f text ≠ .fault cause) :
    p.reading text ≠ .fault cause := by
  rwa [h.reading_eq]

/-- Names and values for absence have no part in what a parser reads. -/
theorem Reads.of_run_eq {p q : Parser α} {f : List Char → Reading α} (h : p.Reads f)
    (hrun : q.run = p.run) : q.Reads f where
  run_eq c := by
    rw [hrun]
    exact h.run_eq c
  suffix := h.suffix

/-- A parser that depends on nothing but the text that remains, and only takes from its front. -/
class Local (p : Parser α) : Prop where
  reads : p.Reads p.reading

theorem Reads.local {p : Parser α} {f : List Char → Reading α} (h : p.Reads f) : p.Local :=
  ⟨h.reading_eq ▸ h⟩

theorem run_eq_outcome (p : Parser α) [p.Local] (c : Cursor) :
    p.run c = (p.reading c.rest).outcome c := Local.reads.run_eq c

theorem suffix_of_reading {p : Parser α} [p.Local] {text rest : List Char} {a : α}
    (h : p.reading text = .matched rest a) : rest <:+ text := Local.reads.suffix h

theorem matched_of_reading {p : Parser α} [p.Local] {c : Cursor} {rest : List Char} {a : α}
    (h : p.reading c.rest = .matched rest a) :
    ∃ c', p.run c = .matched c' a ∧ c'.rest = rest := by
  refine ⟨_, by rw [run_eq_outcome, h]; rfl, ?_⟩
  exact Cursor.rest_skip_of_suffix (suffix_of_reading h)

theorem reading_of_matched {p : Parser α} [p.Local] {c c' : Cursor} {a : α}
    (h : p.run c = .matched c' a) : p.reading c.rest = .matched c'.rest a ∧
      c' = c.skip (c.rest.length - c'.rest.length) := by
  rw [run_eq_outcome] at h
  cases hr : p.reading c.rest with
  | fault cause => simp [hr, Reading.outcome] at h
  | noMatch => simp [hr, Reading.outcome] at h
  | matched rest b =>
      simp only [hr, Reading.outcome, Outcome.matched.injEq] at h
      obtain ⟨rfl, rfl⟩ := h
      rw [Cursor.rest_skip_of_suffix (suffix_of_reading hr)]
      exact ⟨rfl, rfl⟩

theorem run_eq_matched_iff {p : Parser α} [p.Local] {c c' : Cursor} {a : α} :
    p.run c = .matched c' a ↔ p.reading c.rest = .matched c'.rest a ∧
      c' = c.skip (c.rest.length - c'.rest.length) := by
  constructor
  · exact reading_of_matched
  · rintro ⟨hr, hc⟩
    rw [run_eq_outcome, hr, Reading.outcome_matched, ← hc]

theorem reading_eq_noMatch_iff {p : Parser α} [p.Local] {c : Cursor} :
    p.run c = .noMatch ↔ p.reading c.rest = .noMatch := by
  rw [run_eq_outcome]
  cases p.reading c.rest <;> simp [Reading.outcome]

theorem reading_eq_fault_iff {p : Parser α} [p.Local] {c : Cursor} {cause : Fault} :
    p.run c = .fault cause ↔ p.reading c.rest = .fault cause := by
  rw [run_eq_outcome]
  cases p.reading c.rest <;> simp [Reading.outcome]

end Parser

end MeshMarkup
