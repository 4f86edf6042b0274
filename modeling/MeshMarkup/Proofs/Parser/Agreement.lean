import MeshMarkup.Proofs.Parser.Progress

namespace MeshMarkup

variable {α β δ : Type} {excused : Fault → Prop}

namespace Outcome

/-- Equal outcomes, or an excused failure for good in place of the second. -/
def UpTo (excused : Fault → Prop) (r s : Outcome α) : Prop :=
  r = s ∨ ∃ cause, excused cause ∧ r = .fault cause

theorem UpTo.refl (r : Outcome α) : r.UpTo excused r := .inl rfl

theorem UpTo.fault {cause : Fault} (h : excused cause) (s : Outcome α) :
    (Outcome.fault cause).UpTo excused s := .inr ⟨cause, h, rfl⟩

theorem UpTo.eq {r s : Outcome α} (h : r.UpTo excused s)
    (hne : ∀ cause, excused cause → r ≠ .fault cause) : r = s := by
  obtain h | ⟨cause, hc, h⟩ := h
  · exact h
  · exact absurd h (hne cause hc)

theorem UpTo.trans {r s t : Outcome α} (h : r.UpTo excused s) (h' : s.UpTo excused t) :
    r.UpTo excused t := by
  obtain rfl | ⟨cause, hc, rfl⟩ := h
  · exact h'
  · exact .fault hc t

theorem UpTo.map {r s : Outcome α} (h : r.UpTo excused s) (f : α → β) :
    (r.map f).UpTo excused (s.map f) := by
  obtain rfl | ⟨cause, hc, rfl⟩ := h
  · exact .refl _
  · exact .fault hc _

theorem UpTo.orElse {r s : Outcome α} (h : r.UpTo excused s) {f g : Unit → Outcome α}
    (hnext : (f ()).UpTo excused (g ())) : (r.orElse f).UpTo excused (s.orElse g) := by
  obtain rfl | ⟨cause, hc, rfl⟩ := h
  · cases r with
    | fault cause => exact .refl _
    | noMatch => exact hnext
    | matched rest a => exact .refl _
  · exact .fault hc _

/-- What follows has to agree only where the second match ends. -/
theorem UpTo.bind {r s : Outcome α} (h : r.UpTo excused s) {f g : Cursor → α → Outcome β}
    (hnext : ∀ rest a, s = .matched rest a → (f rest a).UpTo excused (g rest a)) :
    (r.bind f).UpTo excused (s.bind g) := by
  obtain rfl | ⟨cause, hc, rfl⟩ := h
  · cases r with
    | fault cause => exact .refl _
    | noMatch => exact .refl _
    | matched rest a => exact hnext rest a rfl
  · exact .fault hc _

end Outcome

namespace Parser

variable {text : List Char} {n k : Nat}

def roundFrom (p : Parser α) (d : Parser δ) (next : Cursor → List α → Outcome (List α))
    (c : Cursor) (values : List α) : Outcome (List α) :=
  match d.run c with
  | .fault cause => .fault cause
  | .noMatch => .matched c values.reverse
  | .matched after _ =>
    match p.run after with
    | .fault cause => .fault cause
    | .noMatch => .matched after values.reverse
    | .matched rest value =>
      if rest.offset = c.offset then .matched rest (value :: values).reverse
      else next rest (value :: values)

theorem delimitedFrom_nil (p : Parser α) (d : Parser δ) (c : Cursor) (values : List α) :
    delimitedFrom p d [] c values =
      roundFrom p d (fun rest values => .matched rest values.reverse) c values := by
  rw [delimitedFrom]
  rfl

theorem delimitedFrom_cons (p : Parser α) (d : Parser δ) (ch : Char) (fuel : List Char)
    (c : Cursor) (values : List α) :
    delimitedFrom p d (ch :: fuel) c values = roundFrom p d (delimitedFrom p d fuel) c values := by
  rw [delimitedFrom]
  rfl

/-- From an offset of a text on, the first parser does what the second does, or is excused. -/
def Agrees (excused : Fault → Prop) (text : List Char) (n : Nat) (p q : Parser α) : Prop :=
  ∀ c : Cursor, c.text = text → n ≤ c.offset → (p.run c).UpTo excused (q.run c)

namespace Agrees

theorem refl (p : Parser α) : Agrees excused text n p p := fun _ _ _ => .refl _

theorem mono {m : Nat} {p q : Parser α} (h : Agrees excused text n p q) (hnm : n ≤ m) :
    Agrees excused text m p q :=
  fun c htext hle => h c htext (Nat.le_trans hnm hle)

variable {p p' : Parser α} {q q' : Parser β}

theorem map (h : Agrees excused text n p p') (f : α → β) :
    Agrees excused text n (p.map f) (p'.map f) :=
  fun c htext hle => (h c htext hle).map f

theorem filter (h : Agrees excused text n p p') (test : α → Bool) :
    Agrees excused text n (p.filter test) (p'.filter test) :=
  fun c htext hle => (h c htext hle).bind fun _ _ _ => .refl _

theorem orElse {q q' : Parser α} (h : Agrees excused text n p p')
    (h' : Agrees excused text n q q') : Agrees excused text n (p.orElse q) (p'.orElse q') :=
  fun c htext hle => (h c htext hle).orElse (h' c htext hle)

/-- Behind a part that takes some characters, the next part has to agree only that much later. -/
theorem andThen (h : Agrees excused text n p p') (hadv : Advances k p')
    (h' : Agrees excused text (n + k) q q') :
    Agrees excused text n (p.andThen q) (p'.andThen q') := by
  intro c htext hle
  refine (h c htext hle).bind fun rest a hr => ?_
  obtain ⟨hrest, hoffset⟩ := hadv c rest a hr
  exact (h' rest (hrest.trans htext) (by omega)).map _

theorem roundFrom {d : Parser δ} (h : Agrees excused text n p p') (hp : p'.Forward)
    (hd : d.Forward) {next next' : Cursor → List α → Outcome (List α)}
    (hnext : ∀ c values, c.text = text → n ≤ c.offset →
      (next c values).UpTo excused (next' c values))
    (c : Cursor) (values : List α) (htext : c.text = text) (hle : n ≤ c.offset) :
    (roundFrom p d next c values).UpTo excused (roundFrom p' d next' c values) := by
  rw [Parser.roundFrom, Parser.roundFrom]
  cases hdr : d.run c with
  | fault cause => exact .refl _
  | noMatch => exact .refl _
  | matched after u =>
      obtain ⟨hafter, hoffset⟩ := hd c after u hdr
      obtain heq | ⟨cause, hc, heq⟩ := h after (hafter.trans htext) (by omega)
      · simp only [heq]
        cases hpr : p'.run after with
        | fault cause => exact .refl _
        | noMatch => exact .refl _
        | matched rest a =>
            obtain ⟨hrest, hoffset'⟩ := hp after rest a hpr
            simp only
            split
            · exact .refl _
            · exact hnext rest _ (hrest.trans (hafter.trans htext)) (by omega)
      · simp only [heq]
        exact .fault hc _

theorem delimitedFrom {d : Parser δ} (h : Agrees excused text n p p') (hp : p'.Forward)
    (hd : d.Forward) (fuel : List Char) (c : Cursor) (values : List α) (htext : c.text = text)
    (hle : n ≤ c.offset) :
    (delimitedFrom p d fuel c values).UpTo excused (delimitedFrom p' d fuel c values) := by
  induction fuel generalizing c values with
  | nil =>
      rw [delimitedFrom_nil, delimitedFrom_nil]
      exact h.roundFrom hp hd (fun _ _ _ _ => .refl _) c values htext hle
  | cons ch fuel ih =>
      rw [delimitedFrom_cons, delimitedFrom_cons]
      exact h.roundFrom hp hd ih c values htext hle

theorem delimited {d : Parser δ} (h : Agrees excused text n p p') (hp : p'.Forward)
    (hd : d.Forward) : Agrees excused text n (p.delimited d) (p'.delimited d) := by
  intro c htext hle
  refine (h c htext hle).bind fun rest a hr => ?_
  obtain ⟨hrest, hoffset⟩ := hp c rest a hr
  exact h.delimitedFrom hp hd _ rest _ (hrest.trans htext) (by omega)

end Agrees

/-- The same parser, except that it fails for good where it is begun at one cursor. -/
def failingAt (start : Cursor) (cause : Fault) (p : Parser α) : Parser α where
  label := p.label
  absent := p.absent
  run c := if c.text = start.text ∧ c.offset = start.offset then .fault cause else p.run c

theorem agrees_failingAt {start : Cursor} (h : start.text = text → start.offset < n) (cause : Fault)
    (p : Parser α) : Agrees excused text n (p.failingAt start cause) p := by
  intro c htext hle
  have hne : ¬ (c.text = start.text ∧ c.offset = start.offset) := by
    rintro ⟨hsame, hoffset⟩
    have hlt := h (hsame.symm.trans htext)
    omega
  exact .inl (if_neg hne)

/-- A run begins a part of it at a cursor: that the part fails for good there does not go
unnoticed. -/
def Begins (whole : Parser α → Parser β) (part : Parser α) (c start : Cursor) : Prop :=
  ∃ cause, (whole (part.failingAt start cause)).run c ≠ (whole part).run c

theorem Begins.before {whole : Parser α → Parser β} {part : Parser α} {c start : Cursor}
    (h : Begins whole part c start)
    (hwhole : ∀ other, Agrees (fun _ => False) c.text (c.offset + 1) other part →
      Agrees (fun _ => False) c.text c.offset (whole other) (whole part)) : c.Before start := by
  obtain ⟨cause, hne⟩ := h
  refine Classical.byContradiction fun hnot => ?_
  have hpart : Agrees (fun _ => False) c.text (c.offset + 1) (part.failingAt start cause) part :=
    agrees_failingAt (fun htext => Nat.lt_of_not_le fun hlt => hnot ⟨htext, hlt⟩) cause part
  exact hne ((hwhole _ hpart c rfl (Nat.le_refl _)).eq fun _ => False.elim)

/-- Cursors each of which is where a run from the one before it begins a part of its own kind. -/
inductive Descent (whole : Parser α → Parser α) (part : Parser α) : Cursor → List Cursor → Prop
  | stop (c : Cursor) : Descent whole part c []
  | begin {c start : Cursor} {path : List Cursor} (hb : Begins whole part c start)
      (hr : Descent whole part start path) : Descent whole part c (start :: path)

theorem Descent.length_le {whole : Parser α → Parser α} {part : Parser α}
    (hlater : ∀ c start, Begins whole part c start → c.Before start)
    {c : Cursor} {path : List Cursor} (h : Descent whole part c path) :
    path.length ≤ c.rest.length := by
  induction h with
  | stop c => exact Nat.zero_le _
  | begin hb _ ih =>
      have hless := (hlater _ _ hb).length_rest_lt
      rw [List.length_cons]
      omega

end Parser

end MeshMarkup
