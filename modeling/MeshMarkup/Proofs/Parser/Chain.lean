import Mathlib.Logic.ExistsUnique
import MeshMarkup.Proofs.Parser.Progress

namespace MeshMarkup.Parser

variable {α δ : Type}

inductive Ending where
  | unmatched
  | undelimited
  | trailing
  | still
  | broken (cause : Fault)

structure Course (α : Type) where
  values : List α
  rest : Cursor
  ending : Ending

namespace Course

def cons (a : α) (course : Course α) : Course α := { course with values := a :: course.values }

def outcome (before : List α) (course : Course α) : Outcome (List α) :=
  match course.ending with
  | .broken cause => .fault cause
  | _ => .matched course.rest (before ++ course.values)

theorem outcome_cons (before : List α) (a : α) (course : Course α) :
    (course.cons a).outcome before = course.outcome (before ++ [a]) := by
  simp only [outcome, cons, List.append_assoc, List.cons_append, List.nil_append]

theorem outcome_ne_noMatch (before : List α) (course : Course α) :
    course.outcome before ≠ .noMatch := by
  rw [outcome]
  split <;> simp

end Course

/-- The chain of a plain repetition. Each round starts where the one before it ended. The last one
does not match, or takes nothing, and then its value is dropped. -/
inductive Chain (p : Parser α) : Cursor → Course α → Prop
  | unmatched {c} (hp : p.run c = .noMatch) : Chain p c ⟨[], c, .unmatched⟩
  | still {c next a} (hp : p.run c = .matched next a) (heq : next.offset = c.offset) :
      Chain p c ⟨[], c, .still⟩
  | broken {c cause} (hp : p.run c = .fault cause) : Chain p c ⟨[], c, .broken cause⟩
  | more {c next a course} (hp : p.run c = .matched next a) (hlt : c.offset < next.offset)
      (hr : Chain p next course) : Chain p c (course.cons a)

/-- The rounds of a delimited repetition, each a delimiter and a value. A delimiter without a value
behind it is taken; a round that takes nothing is the last one, and its value is kept. -/
inductive Alternation (p : Parser α) (d : Parser δ) : Cursor → Course α → Prop
  | undelimited {c} (hd : d.run c = .noMatch) : Alternation p d c ⟨[], c, .undelimited⟩
  | trailing {c after u} (hd : d.run c = .matched after u) (hp : p.run after = .noMatch) :
      Alternation p d c ⟨[], after, .trailing⟩
  | still {c after u rest a} (hd : d.run c = .matched after u) (hp : p.run after = .matched rest a)
      (heq : rest.offset = c.offset) : Alternation p d c ⟨[a], rest, .still⟩
  | brokenDelimiter {c cause} (hd : d.run c = .fault cause) :
      Alternation p d c ⟨[], c, .broken cause⟩
  | brokenValue {c after u cause} (hd : d.run c = .matched after u)
      (hp : p.run after = .fault cause) : Alternation p d c ⟨[], after, .broken cause⟩
  | more {c after u next a course} (hd : d.run c = .matched after u)
      (hp : p.run after = .matched next a) (hlt : c.offset < next.offset)
      (hr : Alternation p d next course) : Alternation p d c (course.cons a)

variable {p : Parser α} {d : Parser δ}

/-- What lies further on needs less fuel, so there is some to use up. -/
theorem exists_fuel {c next : Cursor} (h : c.Before next) {fuel : List Char}
    (hf : c.rest.length ≤ fuel.length) :
    ∃ ch left, fuel = ch :: left ∧ next.rest.length ≤ left.length := by
  have hless := h.length_rest_lt
  cases fuel with
  | nil => rw [List.length_nil] at hf; omega
  | cons ch left =>
      rw [List.length_cons] at hf
      exact ⟨ch, left, rfl, by omega⟩

section Chain

theorem Chain.unique {c : Cursor} {course other : Course α} (h : Chain p c course)
    (ho : Chain p c other) : course = other := by
  induction h generalizing other with
  | unmatched hp => cases ho <;> simp_all
  | still hp heq => cases ho <;> simp_all
  | broken hp => cases ho <;> simp_all
  | more hp hlt _ ih =>
      cases ho with
      | more hp' _ hr' =>
          simp only [hp, Outcome.matched.injEq] at hp'
          obtain ⟨rfl, rfl⟩ := hp'
          rw [ih hr']
      | _ => simp_all

variable (hp : p.Forward)
include hp

theorem exists_chain (c : Cursor) : ∃ course, Chain p c course := by
  -- each round that is not the last leaves less of the text
  induction hn : c.rest.length using Nat.strongRecOn generalizing c with
  | ind n ih =>
      subst hn
      cases hr : p.run c with
      | fault cause => exact ⟨_, .broken hr⟩
      | noMatch => exact ⟨_, .unmatched hr⟩
      | matched next a =>
          obtain ⟨htext, hle⟩ := hp c next a hr
          by_cases heq : next.offset = c.offset
          · exact ⟨_, .still hr heq⟩
          · have hbefore : c.Before next := ⟨htext, by omega⟩
            obtain ⟨course, hcourse⟩ := ih _ hbefore.length_rest_lt next rfl
            exact ⟨_, .more hr hbefore.2 hcourse⟩

/-- With a character of fuel for each one that remains, the loop runs the chain to its end. -/
theorem manyFrom_of_chain {c : Cursor} {course : Course α} (h : Chain p c course)
    {fuel : List Char} (hf : c.rest.length ≤ fuel.length) (values : List α) :
    manyFrom p fuel c values = course.outcome values.reverse := by
  induction h generalizing fuel values with
  | unmatched hr => rw [manyFrom]; simp [hr, Course.outcome]
  | still hr heq => rw [manyFrom]; simp [hr, heq, Course.outcome]
  | broken hr => rw [manyFrom]; simp [hr, Course.outcome]
  | @more c next a course hr hlt _ ih =>
      obtain ⟨htext, -⟩ := hp c next a hr
      obtain ⟨ch, left, rfl, hleft⟩ := exists_fuel ⟨htext, hlt⟩ hf
      rw [manyFrom]
      simp only [hr, if_neg (Nat.ne_of_gt hlt)]
      rw [ih hleft, Course.outcome_cons, List.reverse_cons]

end Chain

section Alternation

theorem Alternation.unique {c : Cursor} {course other : Course α} (h : Alternation p d c course)
    (ho : Alternation p d c other) : course = other := by
  induction h generalizing other with
  | undelimited hd => cases ho <;> simp_all
  | trailing hd hp => cases ho <;> simp_all
  | brokenDelimiter hd => cases ho <;> simp_all
  | brokenValue hd hp => cases ho <;> simp_all
  | still hd hp heq => cases ho <;> simp_all
  | more hd hp hlt _ ih =>
      cases ho with
      | more hd' hp' _ hr' =>
          simp only [hd, Outcome.matched.injEq] at hd'
          obtain ⟨rfl, rfl⟩ := hd'
          simp only [hp, Outcome.matched.injEq] at hp'
          obtain ⟨rfl, rfl⟩ := hp'
          rw [ih hr']
      | _ => simp_all

variable (hp : p.Forward) (hd : d.Forward)
include hp hd

theorem round_forward {c after next : Cursor} {u : δ} {a : α} (hdr : d.run c = .matched after u)
    (hpr : p.run after = .matched next a) : next.text = c.text ∧ c.offset ≤ next.offset := by
  obtain ⟨hafter, hle⟩ := hd c after u hdr
  obtain ⟨hnext, hle'⟩ := hp after next a hpr
  exact ⟨hnext.trans hafter, by omega⟩

theorem exists_alternation (c : Cursor) : ∃ course, Alternation p d c course := by
  induction hn : c.rest.length using Nat.strongRecOn generalizing c with
  | ind n ih =>
      subst hn
      cases hdr : d.run c with
      | fault cause => exact ⟨_, .brokenDelimiter hdr⟩
      | noMatch => exact ⟨_, .undelimited hdr⟩
      | matched after u =>
          cases hpr : p.run after with
          | fault cause => exact ⟨_, .brokenValue hdr hpr⟩
          | noMatch => exact ⟨_, .trailing hdr hpr⟩
          | matched next a =>
              obtain ⟨htext, hle⟩ := round_forward hp hd hdr hpr
              by_cases heq : next.offset = c.offset
              · exact ⟨_, .still hdr hpr heq⟩
              · have hbefore : c.Before next := ⟨htext, by omega⟩
                obtain ⟨course, hcourse⟩ := ih _ hbefore.length_rest_lt next rfl
                exact ⟨_, .more hdr hpr hbefore.2 hcourse⟩

theorem delimitedFrom_of_alternation {c : Cursor} {course : Course α}
    (h : Alternation p d c course) {fuel : List Char} (hf : c.rest.length ≤ fuel.length)
    (values : List α) : delimitedFrom p d fuel c values = course.outcome values.reverse := by
  induction h generalizing fuel values with
  | undelimited hdr => rw [delimitedFrom]; simp [hdr, Course.outcome]
  | trailing hdr hpr => rw [delimitedFrom]; simp [hdr, hpr, Course.outcome]
  | still hdr hpr heq => rw [delimitedFrom]; simp [hdr, hpr, heq, Course.outcome]
  | brokenDelimiter hdr => rw [delimitedFrom]; simp [hdr, Course.outcome]
  | brokenValue hdr hpr => rw [delimitedFrom]; simp [hdr, hpr, Course.outcome]
  | @more c after u next a course hdr hpr hlt _ ih =>
      obtain ⟨htext, -⟩ := round_forward hp hd hdr hpr
      obtain ⟨ch, left, rfl, hleft⟩ := exists_fuel ⟨htext, hlt⟩ hf
      rw [delimitedFrom]
      simp only [hdr, hpr, if_neg (Nat.ne_of_gt hlt)]
      rw [ih hleft, Course.outcome_cons, List.reverse_cons]

end Alternation

section Runs

variable {c first : Cursor} {a : α} {course : Course α}

theorem many_of_chain (hp : p.Forward) (hr : p.run c = .matched first a)
    (h : Chain p first course) : p.many.run c = course.outcome [a] := by
  change (p.run c).bind (fun rest value => manyFrom p rest.rest rest [value]) = _
  rw [hr]
  exact manyFrom_of_chain hp h (Nat.le_refl _) [a]

theorem delimited_of_alternation (hp : p.Forward) (hd : d.Forward)
    (hr : p.run c = .matched first a) (h : Alternation p d first course) :
    (p.delimited d).run c = course.outcome [a] := by
  change (p.run c).bind (fun rest value => delimitedFrom p d rest.rest rest [value]) = _
  rw [hr]
  exact delimitedFrom_of_alternation hp hd h (Nat.le_refl _) [a]

end Runs

/-- Over parsers that never lead back, a repetition always comes to its end. It fails to match
exactly where its first value does. From there on it runs the one chain there is, or the one
alternation, and gives back the values of it and the cursor that it leaves. -/
theorem repetition_maximal (hp : p.Forward) (hd : d.Forward) (c : Cursor) :
    (p.many.run c = .noMatch ↔ p.run c = .noMatch) ∧
    ((p.delimited d).run c = .noMatch ↔ p.run c = .noMatch) ∧
    (∀ cause, p.run c = .fault cause →
      p.many.run c = .fault cause ∧ (p.delimited d).run c = .fault cause) ∧
    ∀ first a, p.run c = .matched first a →
      (∃! course, Chain p first course) ∧
      (∀ course, Chain p first course → p.many.run c = course.outcome [a]) ∧
      (∃! course, Alternation p d first course) ∧
      ∀ course, Alternation p d first course → (p.delimited d).run c = course.outcome [a] := by
  cases hr : p.run c with
  | fault cause => simp [many, delimited, hr, Outcome.bind]
  | noMatch => simp [many, delimited, hr, Outcome.bind]
  | matched first a =>
      obtain ⟨chain, hchain⟩ := exists_chain hp first
      obtain ⟨rounds, hrounds⟩ := exists_alternation hp hd first
      refine ⟨?_, ?_, ?_, ?_⟩
      · rw [many_of_chain hp hr hchain]
        simp [Course.outcome_ne_noMatch]
      · rw [delimited_of_alternation hp hd hr hrounds]
        simp [Course.outcome_ne_noMatch]
      · rintro cause ⟨⟩
      · rintro _ _ ⟨⟩
        exact ⟨⟨chain, hchain, fun _ ho => ho.unique hchain⟩, fun _ ho => many_of_chain hp hr ho,
          ⟨rounds, hrounds, fun _ ho => ho.unique hrounds⟩,
          fun _ ho => delimited_of_alternation hp hd hr ho⟩

theorem repetition_maximal_nullable :
    (digit.optional 0).Forward ∧ ((token ",").optional "").Forward ∧
      (digit.optional 0).many.run (.start "1,x".toList) =
        .matched (Cursor.skip 1 (.start "1,x".toList)) [1] ∧
      ((digit.optional 0).delimited ((token ",").optional "")).run (.start "1,x".toList) =
        .matched (Cursor.skip 2 (.start "1,x".toList)) [1, 0, 0] := by
  have hp : (digit.optional 0).Forward := forward_of_local
  have hd : ((token ",").optional "").Forward := forward_of_local
  obtain ⟨-, -, -, hruns⟩ := repetition_maximal hp hd (.start "1,x".toList)
  obtain ⟨-, hmany, -, hdelimited⟩ := hruns (Cursor.skip 1 (.start "1,x".toList)) 1 rfl
  have hone : (digit.optional 0).run (Cursor.skip 1 (.start "1,x".toList)) =
      .matched (Cursor.skip 1 (.start "1,x".toList)) 0 := rfl
  have htwo : (digit.optional 0).run (Cursor.skip 2 (.start "1,x".toList)) =
      .matched (Cursor.skip 2 (.start "1,x".toList)) 0 := rfl
  have hcomma : ((token ",").optional "").run (Cursor.skip 1 (.start "1,x".toList)) =
      .matched (Cursor.skip 2 (.start "1,x".toList)) "," := rfl
  have hnone : ((token ",").optional "").run (Cursor.skip 2 (.start "1,x".toList)) =
      .matched (Cursor.skip 2 (.start "1,x".toList)) "" := rfl
  have hrounds := Alternation.more hcomma htwo (by decide) (.still hnone htwo rfl)
  exact ⟨hp, hd, hmany _ (.still hone rfl), hdelimited _ hrounds⟩

end MeshMarkup.Parser
