import MeshMarkup.Proofs.Document.Saturation

namespace MeshMarkup.Grammar

open Text MeshMarkup.Parser

variable {α β : Type} {strict : Bool} {n : Nat}

/-- A refusal for the nesting, only of texts with so many opening brackets. -/
def Bracketed (n : Nat) (cause : Fault) (text : List Char) : Prop :=
  cause = .tooDeep → n ≤ text.count '<'

theorem Bracketed.of_suffix {cause : Fault} {u text : List Char} (h : Bracketed n cause u)
    (hu : u <:+ text) : Bracketed n cause text :=
  fun hc => Nat.le_trans (h hc) (hu.sublist.count_le '<')

def TakesBracket (p : Parser α) [p.Local] : Prop :=
  ∀ (text mid : List Char) (a : α), p.reading text = .matched mid a →
    mid.count '<' < text.count '<'

theorem takesBracket_token {literal : String} (h : '<' ∈ literal.toList) :
    TakesBracket (token literal) := by
  intro text mid a hm
  obtain ⟨rfl, -⟩ := token_matched.mp hm
  have hpos := List.count_pos_iff.mpr h
  rw [List.count_append]
  omega

theorem TakesBracket.andThen {p : Parser α} [p.Local] (h : TakesBracket p) (q : Parser β)
    [q.Local] : TakesBracket (p.andThen q) := by
  intro text rest ab hm
  obtain ⟨mid, hp, hq⟩ := andThen_matched.mp hm
  exact Nat.lt_of_le_of_lt ((suffix_of_reading hq).sublist.count_le '<') (h _ _ _ hp)

/-- Behind a parser that never fails for good and takes a bracket, one more is needed. -/
theorem faultsOn_andThen {p : Parser α} [p.Local] (hp : FaultsOn (fun _ _ => False) α p)
    (hopen : TakesBracket p) {q : Parser β} (hq : FaultsOn (Bracketed n) β q) :
    FaultsOn (Bracketed (n + 1)) (α × β) (p.andThen q) := by
  have := hq.is_local
  refine ⟨inferInstance, fun {text cause} hf hc => ?_⟩
  rw [reading_andThen, Reading.bind_eq_fault] at hf
  obtain hf | ⟨mid, a, hm, hf⟩ := hf
  · exact (hp.reason hf).elim
  · have hlt := hopen _ _ _ hm
    have hle := hq.reason (Reading.map_eq_fault.mp hf) hc
    omega

theorem faultsOn_scientific : FaultsOn (Bracketed n) Binary64 scientific :=
  ⟨inferInstance, fun hf hc => absurd ((scientific_fault hf).1.symm.trans hc) (by decide)⟩

section Element

variable {element : Parser Node} (he : FaultsOn (Bracketed n) Node element)

include he

theorem faultsOn_header : FaultsOn (Bracketed (n + 1)) Node (header element) := by
  have hfront : Built (FaultsOn fun _ _ => False) False
      ((((token "<?").andThen (upTo "?")).andThen (token "?>")).andThen optionalBlanks) :=
    (((built_token Plain.faultsOn _).andThen (.leaf (Plain.upTo _).faultsOn)).andThen
      (built_token Plain.faultsOn _)).andThen (built_optionalBlanks Plain.faultsOn)
  have htoken : TakesBracket (token "<?") := takesBracket_token (by decide)
  have hopen : TakesBracket
      ((((token "<?").andThen (upTo "?")).andThen (token "?>")).andThen optionalBlanks) :=
    ((htoken.andThen _).andThen _).andThen _
  have hfront := hfront.faultsOn fun h _ => h
  exact (Built.map _ (.leaf (faultsOn_andThen hfront hopen he))).faultsOn Bracketed.of_suffix

theorem faultsOn_tag : FaultsOn (Bracketed (n + 1)) Node (tag strict element) := by
  have hfront : Built (FaultsOn fun _ _ => False) False
      (((token "<").andThen (opening openTagName)).andThen (token ">")) :=
    ((built_token Plain.faultsOn _).andThen (built_opening Plain.faultsOn
      (built_openTagName Plain.faultsOn))).andThen (built_token Plain.faultsOn _)
  have htoken : TakesBracket (token "<") := takesBracket_token (by decide)
  have hopen : TakesBracket (((token "<").andThen (opening openTagName)).andThen (token ">")) :=
    (htoken.andThen _).andThen _
  have hinner : Built (FaultsOn (Bracketed n)) False
      ((optionalBlanks.andThen (content element)).andThen optionalBlanks) :=
    ((built_optionalBlanks Plain.faultsOn).andThen (built_content Plain.faultsOn
      faultsOn_scientific (.leaf he))).andThen (built_optionalBlanks Plain.faultsOn)
  have hfront := hfront.faultsOn fun h _ => h
  have hinner := hinner.faultsOn Bracketed.of_suffix
  exact (built_tag_of_front Plain.faultsOn strict
    (.leaf (faultsOn_andThen hfront hopen hinner))).faultsOn Bracketed.of_suffix

theorem faultsOn_documentOver : FaultsOn (Bracketed (n + 1)) Node (documentOver strict element) := by
  have hclosed : Built (FaultsOn (Bracketed (n + 1))) False closedTag :=
    built_closedTag Plain.faultsOn
  exact (((Built.leaf (faultsOn_header he)).orElse (.leaf (faultsOn_tag he))).orElse
    hclosed).faultsOn Bracketed.of_suffix

end Element

theorem faultsOn_documentWithin (strict : Bool) (levels : Nat) :
    FaultsOn (Bracketed levels) Node (documentWithin strict levels) := by
  induction levels with
  | zero => exact ⟨inferInstanceAs (faulty _ _).Local, fun _ _ => Nat.zero_le _⟩
  | succ levels ih =>
      exact faultsOn_documentOver
        ((Built.deferred "document" (.leaf ih)).faultsOn Bracketed.of_suffix)

/-- A text that is refused for its nesting has more opening brackets than there are levels. -/
theorem parse_tooDeep {g : Grammar} {text : String} (h : g.parse text = .error .tooDeep) :
    g.nestingLimit < text.toList.count '<' :=
  (faultsOn_documentWithin g.strictCloseTags (g.nestingLimit + 1)).reason (parse_eq_error.mp h) rfl

def openings (n : Nat) (rest : List Char) : List Char :=
  (List.replicate n ['<', 'a', '>']).flatten ++ rest

theorem openings_succ (n : Nat) (rest : List Char) :
    openings (n + 1) rest = '<' :: 'a' :: '>' :: openings n rest := by
  simp [openings, List.replicate_succ]

theorem documentOver_opening {element : Parser Node} [element.Local] {body : List Char}
    (hsolid : Solid body) {cause : Fault} (he : element.reading body = .fault cause) :
    (documentOver strict element).reading ('<' :: 'a' :: '>' :: body) = .fault cause := by
  have hname : Node.ClearName "a" := ⟨by simp, by decide⟩
  have hheader : (header element).reading ('<' :: 'a' :: '>' :: body) = .noMatch :=
    header_noMatch_of_name hname.start .none (show '>' ≠ '?' by decide) body
  have hcontent : (content element).reading body = .fault cause := by
    have hrow : (element.delimited optionalBlanks).reading body = .fault cause := by
      rw [(reads_delimited _ _).reading_eq]
      simp only [he, Reading.bind_fault]
    rw [content, reading_orElse, reading_orElse, hrow]
    rfl
  have htag : (tag strict element).reading ('<' :: 'a' :: '>' :: body) = .fault cause :=
    tag_fault (reading_openTagName hname.open .none (by simp) body)
      (reading_optional_blanks (w := []) blank_nil hsolid) hcontent
  rw [reading_documentOver, hheader, Reading.orElse_noMatch, htag]
  rfl

theorem documentWithin_openings (strict : Bool) {levels n : Nat} (h : levels ≤ n)
    {rest : List Char} (hsolid : Solid rest) :
    (documentWithin strict levels).reading (openings n rest) = .fault .tooDeep := by
  induction levels generalizing n with
  | zero => exact reading_faulty _ _ _
  | succ levels ih =>
      obtain ⟨m, rfl⟩ : ∃ m, n = m + 1 := ⟨n - 1, by omega⟩
      have hbody : Solid (openings m rest) := by
        cases m with
        | zero => exact hsolid
        | succ m => rw [openings_succ]; exact solid_angle _
      rw [openings_succ, documentWithin_succ]
      exact documentOver_opening hbody (by rw [reading_below]; exact ih (by omega))

theorem parse_openings (g : Grammar) {n : Nat} (h : g.nestingLimit < n) {rest : List Char}
    (hsolid : Solid rest) : g.parse (String.ofList (openings n rest)) = .error .tooDeep := by
  rw [parse_eq_error, String.toList_ofList]
  exact documentWithin_openings g.strictCloseTags h hsolid

end MeshMarkup.Grammar
