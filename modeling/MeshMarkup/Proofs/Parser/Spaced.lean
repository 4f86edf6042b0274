import MeshMarkup.Proofs.Parser.Lexical
import MeshMarkup.Proofs.Parser.Repetition

namespace MeshMarkup

open Text

variable {α : Type}

/-- What follows the first value of a row: further values, each after a gap, and white space. -/
inductive Following (R : α → List Char → Prop) (gap : List Char → Prop) :
    List α → List Char → Prop
  | done {w} (hw : Blank w) : Following R gap [] w
  | next {w a s as t} (hw : gap w) (ha : R a s) (ht : Following R gap as t) :
      Following R gap (a :: as) (w ++ (s ++ t))

inductive Spaced (R : α → List Char → Prop) (gap : List Char → Prop) : List α → List Char → Prop
  | mk {a s as t} (ha : R a s) (ht : Following R gap as t) : Spaced R gap (a :: as) (s ++ t)

def BlankGap (w : List Char) : Prop := w ≠ [] ∧ Blank w

theorem Following.forall {R : α → List Char → Prop} {gap : List Char → Prop} {P : α → Prop}
    (hP : ∀ a s, R a s → P a) {as : List α} {t : List Char} (h : Following R gap as t) :
    ∀ a ∈ as, P a := by
  induction h with
  | done hw => simp
  | next hw ha ht ih => exact List.forall_mem_cons.mpr ⟨hP _ _ ha, ih⟩

theorem Following.map {β : Type} {R : α → List Char → Prop} {S : β → List Char → Prop} {f : α → β}
    {gap : List Char → Prop} {as : List α} {t : List Char} (h : Following R gap as t)
    (hmap : ∀ a ∈ as, ∀ s, R a s → S (f a) s) : Following S gap (as.map f) t := by
  induction h with
  | done hw => exact .done hw
  | next hw ha ht ih =>
      exact .next hw (hmap _ List.mem_cons_self _ ha)
        (ih fun a hm => hmap a (List.mem_cons_of_mem _ hm))

theorem Spaced.map {β : Type} {R : α → List Char → Prop} {S : β → List Char → Prop} {f : α → β}
    {gap : List Char → Prop} {as : List α} {t : List Char} (h : Spaced R gap as t)
    (hmap : ∀ a ∈ as, ∀ s, R a s → S (f a) s) : Spaced S gap (as.map f) t := by
  cases h with
  | mk ha ht =>
      exact .mk (hmap _ List.mem_cons_self _ ha)
        (ht.map fun a hm => hmap a (List.mem_cons_of_mem _ hm))

theorem Spaced.imp {R S : α → List Char → Prop} {gap : List Char → Prop} {as : List α}
    {t : List Char} (h : Spaced R gap as t) (himp : ∀ a ∈ as, ∀ s, R a s → S a s) :
    Spaced S gap as t := by
  have h := h.map (f := id) himp
  rwa [List.map_id] at h

theorem Spaced.forall {R : α → List Char → Prop} {gap : List Char → Prop} {P : α → Prop}
    (hP : ∀ a s, R a s → P a) {as : List α} {t : List Char} (h : Spaced R gap as t) :
    ∀ a ∈ as, P a := by
  cases h with
  | mk ha ht => exact List.forall_mem_cons.mpr ⟨hP _ _ ha, ht.forall hP⟩

theorem Following.stands {R : α → List Char → Prop} {gap : List Char → Prop} {as : List α}
    {t : List Char} (h : Following R gap as t) : ∀ a ∈ as, ∃ s, R a s ∧ s <:+: t := by
  induction h with
  | done hw => simp
  | next hw ha ht ih =>
      rename_i w a s as t
      have hrest : t <:+: w ++ (s ++ t) := ⟨w ++ s, [], by simp⟩
      refine List.forall_mem_cons.mpr ⟨⟨s, ha, w, t, by simp⟩, fun b hb => ?_⟩
      obtain ⟨u, hu, hut⟩ := ih b hb
      exact ⟨u, hu, hut.trans hrest⟩

theorem Spaced.stands {R : α → List Char → Prop} {gap : List Char → Prop} {as : List α}
    {t : List Char} (h : Spaced R gap as t) : ∀ a ∈ as, ∃ s, R a s ∧ s <:+: t := by
  cases h with
  | mk ha ht =>
      refine List.forall_mem_cons.mpr ⟨⟨_, ha, (List.prefix_append _ _).isInfix⟩, fun b hb => ?_⟩
      obtain ⟨u, hu, hut⟩ := ht.stands b hb
      exact ⟨u, hu, hut.trans (List.suffix_append _ _).isInfix⟩

theorem Spaced.ne_nil {R : α → List Char → Prop} {gap : List Char → Prop} {as : List α}
    {t : List Char} (h : Spaced R gap as t) : as ≠ [] := by
  cases h with
  | mk ha ht => simp

theorem Spaced.solid {R : α → List Char → Prop} {gap : List Char → Prop} {as : List α}
    {t : List Char} (h : Spaced R gap as t) (hR : ∀ a ∈ as, ∀ s, R a s → s ≠ [] ∧ Solid s)
    (u : List Char) : Solid (t ++ u) := by
  cases h with
  | mk ha _ =>
      obtain ⟨hne, hs⟩ := hR _ List.mem_cons_self _ ha
      rw [List.append_assoc]
      exact hs.append hne

namespace Parser

/-- A delimiter that takes exactly the gaps, each of which is white space. -/
structure Delimits (d : Parser Unit) (gap : List Char → Prop) : Prop where
  takes {w u} : gap w → Solid u → d.reading (w ++ u) = .matched u ()
  refuses {w u} : Blank w → ¬ gap w → Solid u → w = [] ∧ d.reading u = .noMatch
  sound {text after v} : d.reading text = .matched after v →
    ∃ w, text = w ++ after ∧ gap w ∧ Blank w ∧ Solid after

theorem delimits_blanks : Delimits blanks BlankGap where
  takes hw hu := reading_blanks hw.2 hw.1 hu
  refuses {w u} hw hg hu := by
    have hnil : w = [] := Classical.not_not.mp fun hne => hg ⟨hne, hw⟩
    exact ⟨hnil, blanks_noMatch.mpr hu⟩
  sound h := by
    obtain ⟨w, hne, hw, hs, ht⟩ := blanks_matched h
    exact ⟨w, ht, ⟨hne, hw⟩, hw, hs⟩

theorem reading_optional_blanks {w u : List Char} (hw : Blank w) (hu : Solid u) :
    (blanks.optional ()).reading (w ++ u) = .matched u () := by
  rw [reading_optional]
  by_cases hne : w = []
  · subst hne
    rw [List.nil_append, blanks_noMatch.mpr hu, Reading.orElse_noMatch]
  · rw [reading_blanks hw hne hu, Reading.orElse_matched]

theorem optional_blanks_matched {text after : List Char} {v : Unit}
    (h : (blanks.optional ()).reading text = .matched after v) :
    ∃ w, text = w ++ after ∧ Blank w ∧ Solid after := by
  obtain hb | ⟨hn, rfl, -⟩ := optional_matched.mp h
  · obtain ⟨w, -, hw, hs, ht⟩ := blanks_matched hb
    exact ⟨w, ht, hw, hs⟩
  · exact ⟨[], rfl, blank_nil, blanks_noMatch.mp hn⟩

theorem delimits_optional_blanks : Delimits (blanks.optional ()) Blank where
  takes := reading_optional_blanks
  refuses hw hg _ := absurd hw hg
  sound h := by
    obtain ⟨w, ht, hw, hs⟩ := optional_blanks_matched h
    exact ⟨w, ht, hw, hw, hs⟩

variable {p : Parser α} {d : Parser Unit} {R : α → List Char → Prop} {gap : List Char → Prop}
  (hd : Delimits d gap)
include hd

section Soundness

variable (hp : ∀ {text rest a}, Solid text → p.reading text = .matched rest a →
  ∃ s, text = s ++ rest ∧ s ≠ [] ∧ R a s)
include hp

theorem following_of_rounds {text rest : List Char} {as : List α} (h : Rounds p d text as rest) :
    ∃ t, text = t ++ rest ∧ Following R gap as t ∧
      (d.reading rest = .noMatch ∨ Solid rest ∧ p.reading rest = .noMatch) := by
  induction h with
  | stop hdr => exact ⟨[], rfl, .done blank_nil, Or.inl hdr⟩
  | trailing hdr hpr =>
      obtain ⟨w, rfl, -, hw, hs⟩ := hd.sound hdr
      exact ⟨w, rfl, .done hw, Or.inr ⟨hs, hpr⟩⟩
  | @still text after u a hdr hpr =>
      -- A round that ends where it began has consumed no value, but values have texts.
      obtain ⟨w, htext, -, -, hs⟩ := hd.sound hdr
      obtain ⟨s, hafter, hne, -⟩ := hp hs hpr
      have hlen : text.length = w.length + (s.length + text.length) := by
        rw [← List.length_append, ← hafter, ← List.length_append, ← htext]
      exact absurd (List.length_eq_zero_iff.mp (by omega)) hne
  | more hdr hpr hmid hr ih =>
      obtain ⟨w, rfl, hw, -, hs⟩ := hd.sound hdr
      obtain ⟨s, rfl, -, ha⟩ := hp hs hpr
      obtain ⟨t, rfl, ht, hend⟩ := ih
      exact ⟨w ++ (s ++ t), by simp, .next hw ha ht, hend⟩

theorem spaced_of_delimited [p.Local] [d.Local] {text rest : List Char} {as : List α}
    (hs : Solid text) (h : (p.delimited d).reading text = .matched rest as) :
    ∃ s, text = s ++ rest ∧ s ≠ [] ∧ Spaced R gap as s ∧
      (d.reading rest = .noMatch ∨ Solid rest ∧ p.reading rest = .noMatch) := by
  obtain ⟨mid, a, bs, rfl, ha, hr⟩ := delimited_matched.mp h
  obtain ⟨s, rfl, hne, hR⟩ := hp hs ha
  obtain ⟨t, rfl, ht, hend⟩ := following_of_rounds hd hp hr
  exact ⟨s ++ t, by simp, by simp [hne], .mk hR ht, hend⟩

end Soundness

section Completeness

variable (follow : List Char → Prop) {rest : List Char}
  (hgap : ∀ {w u}, gap w → Solid u → follow (w ++ u)) (hfollow : follow rest)
  (hsolid : Solid rest) (hstop : p.reading rest = .noMatch)
include hgap hfollow hsolid hstop

theorem rounds_of_following {as : List α} {t : List Char} (h : Following R gap as t)
    (hp : ∀ a ∈ as, ∀ {s u}, R a s → follow u → p.reading (s ++ u) = .matched u a)
    (hne : ∀ a ∈ as, ∀ {s}, R a s → s ≠ [] ∧ Solid s) :
    Rounds p d (t ++ rest) as rest ∧ follow (t ++ rest) := by
  induction h with
  | @done w hw =>
      by_cases hg : gap w
      · exact ⟨.trailing (hd.takes hg hsolid) hstop, hgap hg hsolid⟩
      · obtain ⟨rfl, hdr⟩ := hd.refuses hw hg hsolid
        exact ⟨.stop hdr, hfollow⟩
  | @next w a s as t hw ha ht ih =>
      obtain ⟨hr, hf⟩ := ih (fun b hb => hp b (List.mem_cons_of_mem _ hb))
        fun b hb => hne b (List.mem_cons_of_mem _ hb)
      obtain ⟨hs, hss⟩ := hne a List.mem_cons_self ha
      have hs' : Solid (s ++ (t ++ rest)) := hss.append hs
      have hmid : t ++ rest ≠ w ++ (s ++ (t ++ rest)) := fun he => by
        have hlen := congrArg List.length he
        have hpos := List.length_pos_iff.mpr hs
        simp only [List.length_append] at hlen
        omega
      rw [List.append_assoc, List.append_assoc]
      exact ⟨.more (hd.takes hw hs') (hp a List.mem_cons_self ha hf) hmid hr, hgap hw hs'⟩

theorem reading_delimited [p.Local] [d.Local] {as : List α} {s : List Char} (h : Spaced R gap as s)
    (hp : ∀ a ∈ as, ∀ {s u}, R a s → follow u → p.reading (s ++ u) = .matched u a)
    (hne : ∀ a ∈ as, ∀ {s}, R a s → s ≠ [] ∧ Solid s) :
    (p.delimited d).reading (s ++ rest) = .matched rest as := by
  cases h with
  | @mk a s as t ha ht =>
      obtain ⟨hr, hf⟩ := rounds_of_following hd follow hgap hfollow hsolid hstop ht
        (fun b hb => hp b (List.mem_cons_of_mem _ hb))
        fun b hb => hne b (List.mem_cons_of_mem _ hb)
      rw [List.append_assoc]
      exact delimited_matched.mpr ⟨_, a, as, rfl, hp a List.mem_cons_self ha hf, hr⟩

end Completeness

end Parser

end MeshMarkup
