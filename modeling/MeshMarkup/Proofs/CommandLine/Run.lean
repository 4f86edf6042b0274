import MeshMarkup.CommandLine.Run
import MeshMarkup.Files.Store
import MeshMarkup.Proofs.CommandLine.Arguments
import MeshMarkup.Proofs.Document.Nesting
import MeshMarkup.Proofs.Document.Soundness
import MeshMarkup.Proofs.Document.Written

namespace MeshMarkup.CommandLine

open MeshMarkup.Grammar

section Files

variable (files : FileView) (g : Grammar)

def Parses (path : Path) : Prop :=
  ∃ text tree, files.readText path .utf8 = .ok text ∧ g.parse text = .ok (some tree)

inductive Reported : Path → ParseReport → Prop
  | unreadable {path e} (hn : path.hasNull = false) (h : files.readText path .utf8 = .error e) :
      Reported path ⟨path.toText, .failed e.message⟩
  | unparsed {path text} (h : files.readText path .utf8 = .ok text)
      (hp : g.parse text = .ok none) :
      Reported path ⟨path.toText, .failed "Document could not be parsed"⟩
  | parsed {path text tree} (h : files.readText path .utf8 = .ok text)
      (hp : g.parse text = .ok (some tree)) :
      Reported path ⟨path.toText, .parsed tree.elementCount tree.depth⟩

inductive Escapes : Path → Crash → Prop
  | badPath {path} (h : path.hasNull = true) : Escapes path (.badPath .nullInPath)
  | parsing {path text cause} (h : files.readText path .utf8 = .ok text)
      (hp : g.parse text = .error cause) : Escapes path (.parsing cause)

def Breaks (path : Path) : Prop := ∃ cause, Escapes files g path cause

variable {files g} {path : Path}

theorem readText_null : files.readText path .utf8 = .error (.file .nullInPath) ↔
    path.hasNull = true := by
  have hread : files.read path = .error .nullInPath ↔ path.hasNull = true := by
    rw [FileView.read, FileView.find]
    by_cases hn : path.hasNull = true
    · simp [hn, bind, Except.bind]
    · by_cases ho : path.isOversized = true
      · simp [hn, ho, bind, Except.bind]
      · simp only [hn, ho, if_false, iff_false, Bool.false_eq_true]
        cases files path <;>
          simp [bind, Except.bind, throw, throwThe, MonadExceptOf.throw, pure, Except.pure]
  rw [FileView.readText, ← hread]
  cases files.read path with
  | error e => simp
  | ok bytes =>
      simp only
      split <;> simp

theorem error_ne_null {e : ReadTextError} (hn : path.hasNull = false)
    (h : files.readText path .utf8 = .error e) : e ≠ .file .nullInPath := by
  rintro rfl
  rw [readText_null, hn] at h
  exact Bool.false_ne_true h

theorem reported_or_breaks (files : FileView) (g : Grammar) (path : Path) :
    (∃ report, Reported files g path report) ∨ Breaks files g path := by
  cases h : files.readText path .utf8 with
  | error e =>
      cases hn : path.hasNull with
      | false => exact Or.inl ⟨_, .unreadable hn h⟩
      | true => exact Or.inr ⟨_, .badPath hn⟩
  | ok text =>
      cases hp : g.parse text with
      | error cause => exact Or.inr ⟨_, .parsing h hp⟩
      | ok result =>
          cases result with
          | none => exact Or.inl ⟨_, .unparsed h hp⟩
          | some tree => exact Or.inl ⟨_, .parsed h hp⟩

variable {report : ParseReport} {cause : Crash}

theorem Reported.parseReport_eq (h : Reported files g path report) :
    parseReport files g path = .ok report := by
  cases h with
  | unreadable hn h =>
      rw [parseReport, h]
      split
      · next he => exact absurd (Except.error.inj he) (error_ne_null hn h)
      · next he => rw [Except.error.inj he]
      · next ht => simp at ht
  | unparsed h hp => simp only [parseReport, h, hp, Load.unparsedMessage]
  | parsed h hp => simp only [parseReport, h, hp]

theorem Escapes.parseReport_eq (h : Escapes files g path cause) :
    parseReport files g path = .error cause := by
  cases h with
  | badPath h => simp only [parseReport, readText_null.mpr h]
  | parsing h hp => simp only [parseReport, h, hp]

theorem parseReport_eq_ok :
    parseReport files g path = .ok report ↔ Reported files g path report := by
  refine ⟨fun h => ?_, Reported.parseReport_eq⟩
  obtain ⟨other, ho⟩ | ⟨cause, hc⟩ := reported_or_breaks files g path
  · rwa [Except.ok.inj (h.symm.trans ho.parseReport_eq)]
  · exact absurd (h.symm.trans hc.parseReport_eq) (by simp)

theorem parseReport_eq_error :
    parseReport files g path = .error cause ↔ Escapes files g path cause := by
  refine ⟨fun h => ?_, Escapes.parseReport_eq⟩
  obtain ⟨report, hr⟩ | ⟨other, ho⟩ := reported_or_breaks files g path
  · exact absurd (h.symm.trans hr.parseReport_eq) (by simp)
  · rwa [Except.error.inj (h.symm.trans ho.parseReport_eq)]

theorem Reported.not_breaks (h : Reported files g path report) : ¬ Breaks files g path :=
  fun ⟨_, hc⟩ => absurd (h.parseReport_eq.symm.trans hc.parseReport_eq) (by simp)

theorem Parses.reported (h : Parses files g path) : ∃ report, Reported files g path report ∧
    report.succeeded = true := by
  obtain ⟨text, tree, ht, hp⟩ := h
  exact ⟨_, .parsed ht hp, rfl⟩

theorem Parses.not_breaks (h : Parses files g path) : ¬ Breaks files g path := by
  obtain ⟨report, hr, -⟩ := h.reported
  exact hr.not_breaks

theorem Reported.succeeded_iff (h : Reported files g path report) :
    report.succeeded = true ↔ Parses files g path := by
  constructor
  · intro hs
    cases h with
    | unreadable | unparsed => simp [ParseReport.succeeded] at hs
    | parsed ht hp => exact ⟨_, _, ht, hp⟩
  · intro hp
    obtain ⟨other, ho, hs⟩ := hp.reported
    rwa [Except.ok.inj (h.parseReport_eq.symm.trans ho.parseReport_eq)]

/-- Texts that end a run are deeply nested or hold a literal with a power of ten that is refused. -/
theorem Breaks.cases (h : Breaks files g path) : path.hasNull = true ∨
    ∃ text, files.readText path .utf8 = .ok text ∧
      (g.nestingLimit < text.toList.count '<' ∨ HasOversized text.toList) := by
  obtain ⟨cause, h⟩ := h
  cases h with
  | badPath h => exact Or.inl h
  | @parsing text refusal h hp =>
      refine Or.inr ⟨text, h, ?_⟩
      cases refusal with
      | oversizedPower => exact Or.inr (parse_oversized hp)
      | tooDeep => exact Or.inl (parse_tooDeep hp)

theorem breaks_of_openings {n : Nat} {rest : List Char} (hn : g.nestingLimit < n)
    (hsolid : Text.Solid rest)
    (h : files.readText path .utf8 = .ok (String.ofList (openings n rest))) :
    Breaks files g path :=
  ⟨_, .parsing h (parse_openings g hn hsolid)⟩

theorem breaks_of_oversized {ls : List ScientificLiteral} {row : List Char}
    (hrow : Spaced LiteralText BlankGap ls row) (ho : ∃ l ∈ ls, l.Oversized)
    (h : files.readText path .utf8 = .ok (String.ofList (literalElement row))) :
    Breaks files g path := by
  rcases Nat.eq_zero_or_pos g.nestingLimit with hflat | hlevels
  · have hone : openings 1 (row ++ ['<', '/', 'a', '>']) = literalElement row := by
      simp [openings, literalElement]
    exact breaks_of_openings (n := 1) (hflat ▸ Nat.one_pos) (literals_solid hrow _) (hone ▸ h)
  · exact ⟨_, .parsing h (parse_oversized_literals hlevels hrow ho)⟩

end Files

/-- What a run over files comes to: a report on each of them in the order given, unless one of
them ends the run; then nothing is reported. -/
structure ParseRun (files : FileView) (g : Grammar) (paths : List Path) (format : OutputFormat)
    (log : String) (o : RunOutcome) : Prop where
  reported : (∀ path ∈ paths, ¬ Breaks files g path) →
    ∃ reports, List.Forall₂ (Reported files g) paths reports ∧
      o.out = formatReports reports format ++ "\n"
  accepted : o.ending = .exit 0 ↔ ∀ path ∈ paths, Parses files g path
  refused : o.ending = .exit 1 ↔
    (∀ path ∈ paths, ¬ Breaks files g path) ∧ ∃ path ∈ paths, ¬ Parses files g path
  broken : ∀ cause, o.ending = .crash cause ↔
    ∃ before path after, paths = before ++ path :: after ∧
      (∀ p ∈ before, ¬ Breaks files g p) ∧ Escapes files g path cause
  silent : (∃ path ∈ paths, Breaks files g path) → o.out = ""
  logged : o.err = log
  written : o.written = none

section Reports

variable {files : FileView} {g : Grammar} {paths : List Path}

theorem reports_eq_ok {reports : List ParseReport} :
    paths.mapM (parseReport files g) = .ok reports ↔
      List.Forall₂ (Reported files g) paths reports := by
  rw [mapM_eq_ok]
  exact ⟨fun h => h.imp fun _ _ => parseReport_eq_ok.mp,
    fun h => h.imp fun _ _ => parseReport_eq_ok.mpr⟩

theorem reports_eq_error {cause : Crash} : paths.mapM (parseReport files g) = .error cause ↔
    ∃ before path after, paths = before ++ path :: after ∧
      (∀ p ∈ before, ¬ Breaks files g p) ∧ Escapes files g path cause := by
  have hbefore (p : Path) : (∃ report, parseReport files g p = .ok report) ↔ ¬ Breaks files g p := by
    constructor
    · rintro ⟨report, h⟩
      exact (parseReport_eq_ok.mp h).not_breaks
    · intro h
      obtain ⟨report, hr⟩ := (reported_or_breaks files g p).resolve_right h
      exact ⟨report, hr.parseReport_eq⟩
  simp only [mapM_eq_error, hbefore, parseReport_eq_error]

theorem forall_reported {reports : List ParseReport}
    (h : List.Forall₂ (Reported files g) paths reports) :
    (∀ path ∈ paths, ¬ Breaks files g path) ∧
      (reports.all ParseReport.succeeded = true ↔ ∀ path ∈ paths, Parses files g path) := by
  induction h with
  | nil => simp
  | cons hr _ ih =>
      rw [List.all_cons, Bool.and_eq_true, hr.succeeded_iff, ih.2, List.forall_mem_cons,
        List.forall_mem_cons]
      exact ⟨⟨hr.not_breaks, ih.1⟩, Iff.rfl⟩

theorem ParseRun.of_reported {reports : List ParseReport}
    (h : List.Forall₂ (Reported files g) paths reports) (format : OutputFormat) (log : String) :
    ParseRun files g paths format log
      ⟨.exit (if reports.all ParseReport.succeeded then 0 else 1),
        formatReports reports format ++ "\n", log, none⟩ := by
  obtain ⟨hnone, hall⟩ := forall_reported h
  refine ⟨fun _ => ⟨reports, h, rfl⟩, ?_, ?_, fun cause => ?_, fun ⟨p, hm, hp⟩ => ?_, rfl, rfl⟩
  · rw [← hall]
    cases reports.all ParseReport.succeeded <;> simp
  · rw [and_iff_right hnone, ← not_iff_not, not_exists]
    simp only [not_and, Classical.not_not, ← hall]
    cases reports.all ParseReport.succeeded <;> simp
  · rw [← reports_eq_error, reports_eq_ok.mpr h]
    simp
  · exact absurd hp (hnone p hm)

theorem ParseRun.of_broken {cause : Crash}
    (h : paths.mapM (parseReport files g) = .error cause) (format : OutputFormat) (log : String) :
    ParseRun files g paths format log ⟨.crash cause, "", log, none⟩ := by
  obtain ⟨before, path, after, hpaths, -, hp⟩ := reports_eq_error.mp h
  have hmem : path ∈ paths := by simp [hpaths]
  have hbreaks : Breaks files g path := ⟨cause, hp⟩
  refine ⟨fun hnone => absurd hbreaks (hnone path hmem), ?_, ?_, fun other => ?_, fun _ => rfl,
    rfl, rfl⟩
  · refine ⟨fun he => by simp at he, fun hall => ?_⟩
    exact absurd hbreaks (hall path hmem).not_breaks
  · refine ⟨fun he => by simp at he, fun ⟨hnone, _⟩ => ?_⟩
    exact absurd hbreaks (hnone path hmem)
  · rw [← reports_eq_error, h]
    simp

end Reports

theorem runParse_run (around : Surroundings) (s : Settings) (paths : List Path)
    (format : OutputFormat) (log : String) :
    ParseRun around.files (s.documentGrammar around.machine) paths format log
      ((runParse around s paths format).after log) := by
  rw [runParse, RunOutcome.after]
  cases h : paths.mapM (parseReport around.files (s.documentGrammar around.machine)) with
  | ok reports =>
      simp only [String.append_empty]
      exact .of_reported (reports_eq_ok.mp h) format log
  | error cause =>
      simp only [RunOutcome.silent, String.append_empty]
      exact .of_broken h format log

def spaces (width : Nat) : String := String.ofList (List.replicate width ' ')

section Trees

variable (files : FileView) (g : Grammar) (indent : Nat)

inductive Shows : Path → String → Prop
  | mk {path text tree printed} (h : files.readText path .utf8 = .ok text)
      (hp : g.parse text = .ok (some tree)) (hr : tree.render (spaces indent) = .ok printed) :
      Shows path printed

inductive Complaint : Path → String → Prop
  | unreadable {path e} (hn : path.hasNull = false) (h : files.readText path .utf8 = .error e) :
      Complaint path ("Could not read " ++ path.toText ++ ": " ++ e.message)
  | unparsed {path text} (h : files.readText path .utf8 = .ok text)
      (hp : g.parse text = .ok none) : Complaint path ("Could not parse " ++ path.toText)
  | unprintable {path text tree e} (h : files.readText path .utf8 = .ok text)
      (hp : g.parse text = .ok (some tree)) (hr : tree.render (spaces indent) = .error e) :
      Complaint path ("Could not print " ++ path.toText ++ ": " ++ e.message)

structure TreeRun (path : Path) (log : String) (o : RunOutcome) : Prop where
  shown : ∀ printed, Shows files g indent path printed → o = ⟨.exit 0, printed ++ "\n", log, none⟩
  refused : ∀ message, Complaint files g indent path message →
    o = ⟨.exit 1, "", log ++ (message ++ "\n"), none⟩
  broken : ∀ cause, Escapes files g path cause → o = ⟨.crash cause, "", log, none⟩
  settled : (∃ printed, Shows files g indent path printed) ∨
    (∃ message, Complaint files g indent path message) ∨ Breaks files g path

variable {files g indent} {path : Path}

theorem parse_shaped {text : String} {tree : Node} (h : g.parse text = .ok (some tree)) :
    tree.Shaped Node.OpenName Node.ClosedName := by
  obtain ⟨rest, hread, -⟩ := parse_eq_some.mp h
  obtain ⟨s, -, hy⟩ := documentWithin_sound g.strictCloseTags (g.nestingLimit + 1) hread
  exact hy.shaped

theorem settled (files : FileView) (g : Grammar) (indent : Nat) (path : Path) :
    (∃ printed, Shows files g indent path printed) ∨
      (∃ message, Complaint files g indent path message) ∨ Breaks files g path := by
  obtain ⟨report, h⟩ | hb := reported_or_breaks files g path
  · cases h with
    | unreadable hn h => exact Or.inr (Or.inl ⟨_, .unreadable hn h⟩)
    | unparsed h hp => exact Or.inr (Or.inl ⟨_, .unparsed h hp⟩)
    | @parsed text tree h hp =>
        cases hr : tree.render (spaces indent) with
        | ok printed => exact Or.inl ⟨_, .mk h hp hr⟩
        | error e => exact Or.inr (Or.inl ⟨_, .unprintable h hp hr⟩)
  · exact Or.inr (Or.inr hb)

variable {around : Surroundings}

theorem treeOutcome_parsed {s : Settings} (hi : Text.HasBlanks around.machine.memory indent)
    {text : String} {tree : Node} (h : around.files.readText path .utf8 = .ok text)
    (hp : (s.documentGrammar around.machine).parse text = .ok (some tree)) :
    treeOutcome around s path indent = printTree path tree (spaces indent) := by
  have hcount : Text.blankCount around.machine.memory indent = .ok indent :=
    Text.blankCount_eq_ok.mpr ⟨hi, Int.toNat_natCast indent⟩
  rw [treeOutcome, h]
  simp only [hp, indentText, hcount, Except.map]
  split
  · next hd =>
      rw [printTree, printTree, Node.render_of_depth_le_one (parse_shaped hp) hd _ (spaces indent)]
  · rfl

theorem treeOutcome_run (s : Settings) (hi : Text.HasBlanks around.machine.memory indent)
    (path : Path) (log : String) :
    TreeRun around.files (s.documentGrammar around.machine) indent path log
      ((treeOutcome around s path indent).after log) where
  shown printed h := by
    cases h with
    | mk h hp hr =>
        rw [treeOutcome_parsed hi h hp, printTree, hr]
        simp [RunOutcome.after]
  refused message h := by
    cases h with
    | unreadable hn h =>
        have hne := error_ne_null hn h
        rw [treeOutcome, h]
        split
        · next he => exact absurd (Except.error.inj he) hne
        · next he =>
            rw [Except.error.inj he]
            rfl
        · next ht => simp at ht
    | unparsed h hp =>
        rw [treeOutcome, h]
        simp only [hp]
        rfl
    | unprintable h hp hr =>
        rw [treeOutcome_parsed hi h hp, printTree, hr]
        rfl
  broken cause h := by
    cases h with
    | badPath hn =>
        rw [treeOutcome, readText_null.mpr hn]
        simp [RunOutcome.after, RunOutcome.silent]
    | parsing h hp =>
        rw [treeOutcome, h]
        simp [hp, RunOutcome.after, RunOutcome.silent]
  settled := settled _ _ _ _

end Trees

/-- Arguments that ask for something under settings that could be read, and time to do it. -/
structure Asks (around : Surroundings) (args : List String) (i : Invocation) (s : Settings) :
    Prop where
  understood : understand args = .ok i
  chosen : chosenSettings around i = .ok s
  uninterrupted : around.interrupted = false

def startLog (around : Surroundings) (i : Invocation) (s : Settings) : String :=
  logText around.stamp (logThreshold i s) [startRecord]

section Run

variable {around : Surroundings} {args : List String} {i : Invocation} {s : Settings}

theorem run_parse (h : Asks around args i s) {paths : List Path} {format : OutputFormat}
    (hc : i.command = .parse paths format) :
    ParseRun around.files (s.documentGrammar around.machine) paths format (startLog around i s)
      (run around args) := by
  have hrun : run around args = (runParse around s paths format).after (startLog around i s) := by
    simp only [run, h.understood, runInvocation, h.chosen, runCommand, h.uninterrupted, hc,
      Bool.false_eq_true, if_false, startLog]
  rw [hrun]
  exact runParse_run _ _ _ _ _

theorem run_tree (h : Asks around args i s) {path : Path} {indent : Nat}
    (hc : i.command = .tree path (some indent)) (hi : Text.HasBlanks around.machine.memory indent) :
    TreeRun around.files (s.documentGrammar around.machine) indent path (startLog around i s)
      (run around args) := by
  have hrun : run around args = (treeOutcome around s path indent).after (startLog around i s) := by
    simp only [run, h.understood, runInvocation, h.chosen, runCommand, h.uninterrupted, hc,
      Bool.false_eq_true, if_false, startLog]
    rfl
  rw [hrun]
  exact treeOutcome_run s hi path _

theorem asks_words (h : around.interrupted = false) (name : CommandName) {words : List String}
    (hne : words ≠ []) (hwords : ∀ word ∈ words, IsWord word)
    (hone : name ≠ .parse → words.length = 1) : Asks around (name.name :: words)
      ⟨false, false, none, none, false, commandOf name (.ofWords words)⟩ .usual :=
  ⟨understand_words name hne hwords hone, rfl, h⟩

end Run

/-- Files that are missing, unreadable or malformed end no run: parsing reports every file in the
order given and succeeds just when all of them are documents, and printing a tree gives its text
or a complaint. What does end a run is a path that cannot be passed on and a text that the grammar
refuses for good: such a text nests deeply or holds a literal whose power of ten is refused, and
elements opened one in another beyond the limit are refused as surely as a row with such a
literal. -/
theorem run_isolates_files (around : Surroundings) :
    (∀ (args : List String) (i : Invocation) (s : Settings), Asks around args i s →
      (∀ paths format, i.command = .parse paths format →
        ParseRun around.files (s.documentGrammar around.machine) paths format (startLog around i s)
          (run around args)) ∧
      ∀ path (indent : Nat), i.command = .tree path (some indent) →
        Text.HasBlanks around.machine.memory indent →
          TreeRun around.files (s.documentGrammar around.machine) indent path (startLog around i s)
            (run around args)) ∧
    (around.interrupted = false →
      (∀ words : List String, words ≠ [] → (∀ word ∈ words, IsWord word) →
        ParseRun around.files (lenient around.machine.documentNesting) (words.map Path.ofText) .text
          "" (run around ("parse" :: words))) ∧
      (2 ≤ around.machine.memory → ∀ word : String, IsWord word →
        TreeRun around.files (lenient around.machine.documentNesting) 2 (Path.ofText word) ""
          (run around ["tree", word]))) ∧
    ∀ (g : Grammar) (path : Path),
      (Breaks around.files g path → path.hasNull = true ∨
        ∃ text, around.files.readText path .utf8 = .ok text ∧
          (g.nestingLimit < text.toList.count '<' ∨ HasOversized text.toList)) ∧
      (∀ n rest, g.nestingLimit < n → Text.Solid rest →
        around.files.readText path .utf8 = .ok (String.ofList (openings n rest)) →
          Breaks around.files g path) ∧
      ∀ ls row, Spaced LiteralText BlankGap ls row → (∃ l ∈ ls, l.Oversized) →
        around.files.readText path .utf8 = .ok (String.ofList (literalElement row)) →
          Breaks around.files g path := by
  have hquiet (i : Invocation) (hv : i.verbose = false) (hq : i.quiet = false) :
      startLog around i .usual = "" := by
    rw [startLog, logThreshold, hv, hq]
    rfl
  refine ⟨fun args i s h => ⟨fun _ _ => run_parse h, fun _ _ => run_tree h⟩,
    fun h => ⟨fun words hne hwords => ?_, fun hmemory word hword => ?_⟩,
    fun g path => ⟨Breaks.cases, fun _ _ => breaks_of_openings, fun _ _ => breaks_of_oversized⟩⟩
  · have hasks := asks_words h .parse hne hwords (by simp)
    have hrun := run_parse hasks rfl
    rwa [hquiet _ rfl rfl] at hrun
  · have hasks := asks_words h .tree (List.cons_ne_nil _ _) (List.forall_mem_singleton.mpr hword)
      fun _ => rfl
    have hrun := run_tree hasks rfl ⟨by decide, by decide, hmemory⟩
    rwa [hquiet _ rfl rfl] at hrun

theorem run_isolates_files_listed :
    let machine : Machine := ⟨fun n => .ofNat n, fun _ => "", 9, 9, 80⟩
    let around : Surroundings :=
      ⟨machine, (⟨[(["a"], [60, 97, 47, 62])], [["d"]]⟩ : FileStore).view, "", false⟩
    (run around ["parse", "a"]).ending = .exit 0 ∧
      (run around ["parse", "d", "a"]).ending = .exit 1 ∧
      (run around ["parse", "a", "\x00"]).ending = .crash (.badPath .nullInPath) ∧
      run around ["tree", "a"] = ⟨.exit 0, "<a/>\n", "", none⟩ := by
  intro machine around
  have hread : around.files.readText (Path.ofText "a") .utf8 = .ok "<a/>" := by decide +kernel
  have hdirectory : around.files.readText (Path.ofText "d") .utf8 =
      .error (.file (.isADirectory "d")) := by decide +kernel
  have hparses : Parses around.files (lenient 9) (Path.ofText "a") := ⟨_, .closed "a" [], hread, rfl⟩
  have hreported := Reported.unreadable (g := lenient 9) rfl hdirectory
  have hfails : ¬ Parses around.files (lenient 9) (Path.ofText "d") := fun h =>
    absurd (hreported.succeeded_iff.mpr h) (by decide)
  obtain ⟨hasked, hplain, -⟩ := run_isolates_files around
  obtain ⟨hparse, -⟩ := hplain rfl
  refine ⟨?_, ?_, ?_, ?_⟩
  · exact (hparse ["a"] (by decide) (by decide)).accepted.mpr (by simpa using hparses)
  · refine (hparse ["d", "a"] (by decide) (by decide)).refused.mpr ⟨?_, ?_⟩
    · simpa using ⟨hreported.not_breaks, hparses.not_breaks⟩
    · exact ⟨_, List.mem_cons_self, hfails⟩
  · refine ((hparse ["a", "\x00"] (by decide) (by decide)).broken _).mpr ?_
    exact ⟨[Path.ofText "a"], Path.ofText "\x00", [], rfl, by simpa using hparses.not_breaks,
      .badPath rfl⟩
  · have hasks : Asks around ["tree", "a"] _ .usual :=
      asks_words rfl .tree (List.cons_ne_nil _ _) (by decide) fun _ => rfl
    have htree := (hasked _ _ _ hasks).2 _ _ rfl ⟨by decide, by decide, by decide⟩
    exact htree.shown "<a/>" (.mk hread rfl rfl)

end MeshMarkup.CommandLine
