import Mathlib.Data.List.TakeWhile
import MeshMarkup.CommandLine.Command

namespace MeshMarkup.CommandLine

def IsWord (text : String) : Prop := text.toList.head? ≠ some '-'

instance (text : String) : Decidable (IsWord text) := inferInstanceAs (Decidable (_ ≠ _))

def wordTokens (words : List String) : List Token := words.map fun word => ⟨word, .word⟩

def Reading.ofWords (words : List String) : Reading := ⟨[], some words, []⟩

section Words

variable (s : Spec) {words : List String}

theorem IsWord.ne_dashes {word : String} (h : IsWord word) : word ≠ dashes := by
  rintro rfl
  exact h rfl

theorem kindOf_word {word : String} (h : IsWord word) : s.kindOf word = .ok .word := by
  rw [Spec.kindOf]
  split
  · next ht =>
      rw [IsWord, ht] at h
      exact absurd rfl h
  · rfl

theorem tokens_words (h : ∀ word ∈ words, IsWord word) :
    s.tokens words = .ok (wordTokens words) := by
  induction words with
  | nil => rfl
  | cons word words ih =>
      have hword := h word List.mem_cons_self
      have ih := ih fun w hw => h w (List.mem_cons_of_mem _ hw)
      rw [Spec.tokens, kindOf_word s hword, ih]
      · rfl
      · exact hword.ne_dashes

theorem extent_words {arity : Arity} {word : String}
    (hone : arity = .one → words = []) :
    arity.extent (wordTokens (word :: words)) = (word :: words).length := by
  have hall : (wordTokens words).takeWhile Token.isWordOrDashes = wordTokens words :=
    List.takeWhile_eq_self_iff.mpr fun token ht => by
      obtain ⟨w, -, rfl⟩ := List.mem_map.mp ht
      rfl
  have hlength : (wordTokens words).length = words.length := List.length_map _
  have hfirst : (wordTokens (word :: words)).takeWhile Token.isDashes = [] := rfl
  simp only [Arity.extent, hfirst, List.length_nil, List.drop_zero]
  rw [wordTokens, List.map_cons, ← wordTokens]
  cases arity with
  | one => simp [hone rfl, wordTokens]
  | oneOrMore => simp only [hall, hlength, List.length_cons]; omega
  | rest => simp only [hlength, List.length_cons]; omega

theorem takeWords_words {word : String} (h : ∀ w ∈ word :: words, IsWord w)
    (hone : s.positional.arity = .one → words = [])
    (hproblem : s.positional.problem? word = none) :
    s.takeWords .empty (wordTokens (word :: words)) = .ok (.ofWords (word :: words), []) := by
  have htexts : (wordTokens (word :: words)).map Token.text = word :: words := by
    rw [wordTokens, List.map_map]
    exact List.map_id _
  have hlength : (word :: words).length = (wordTokens (word :: words)).length :=
    (List.length_map _).symm
  have herase : (word :: words).erase dashes = word :: words :=
    List.erase_of_not_mem fun hm => (h _ hm).ne_dashes rfl
  have htake : (wordTokens (word :: words)).take (words.length + 1) = wordTokens (word :: words) :=
    List.take_of_length_le (Nat.le_of_eq hlength.symm)
  have hdrop : (wordTokens (word :: words)).drop (words.length + 1) = [] :=
    List.drop_eq_nil_of_le (Nat.le_of_eq hlength.symm)
  simp only [Spec.takeWords, extent_words hone, Reading.empty, List.length_cons, htake, hdrop,
    htexts, herase, ite_self, List.head?_cons, Option.bind_some, hproblem]
  rfl

theorem read_words {word : String} (h : ∀ w ∈ word :: words, IsWord w)
    (hone : s.positional.arity = .one → words = [])
    (hproblem : s.positional.problem? word = none) :
    s.read (word :: words) = .ok (.ofWords (word :: words)) := by
  have hrest (fuel : Nat) (r : Reading) : s.readTokens fuel r [] = .ok r := by
    cases fuel <;> simp [Spec.readTokens]
  have htokens : s.readTokens ((wordTokens (word :: words)).length + 1) .empty
      (wordTokens (word :: words)) = .ok (.ofWords (word :: words)) := by
    have hwords := takeWords_words s h hone hproblem
    rw [wordTokens, List.map_cons, ← wordTokens] at hwords ⊢
    rw [Spec.readTokens, hwords]
    · exact hrest _ _
    all_goals simp
  rw [Spec.read, tokens_words s h]
  change (s.readTokens _ _ _ >>= _) = _
  rw [htokens]
  rfl

end Words

theorem understand_words (name : CommandName) {words : List String} (hne : words ≠ [])
    (h : ∀ w ∈ words, IsWord w) (hone : name ≠ .parse → words.length = 1) :
    understand (name.name :: words) =
      .ok ⟨false, false, none, none, false, commandOf name (.ofWords words)⟩ := by
  obtain ⟨word, words, rfl⟩ := List.exists_cons_of_ne_nil hne
  have hname : IsWord name.name ∧ topSpec.positional.problem? name.name = none ∧
      CommandName.ofName? name.name = some name := by
    cases name <;> decide
  have htop : topSpec.read (name.name :: word :: words) =
      .ok (.ofWords (name.name :: word :: words)) :=
    read_words topSpec (List.forall_mem_cons.mpr ⟨hname.1, h⟩)
      (fun ha => absurd ha (by decide)) hname.2.1
  have hcommand : name.spec.read (word :: words) = .ok (.ofWords (word :: words)) := by
    refine read_words name.spec h (fun ha => ?_) ?_
    · cases name with
      | parse => exact absurd ha (by decide)
      | extract | tree => simpa using hone (by decide)
    · cases name <;> rfl
  have hread : readCommand name (word :: words) = .ok (.ofWords (word :: words)) := by
    rw [readCommand, hcommand]
    rfl
  rw [understand, htop]
  simp only [Except.mapError, Reading.ofWords, hname.2.2, hread, bind, Except.bind, List.append_nil]
  rfl

end MeshMarkup.CommandLine
