import MeshMarkup.Loading.Session
import MeshMarkup.Proofs.Settings.Valid

namespace MeshMarkup

/-- What a result holds of what was found and reported, without the other figures. -/
structure Findings where
  document : Option Node
  model : Option Model
  vertices : Option (List Vertex)
  indexed : Option IndexedVertices
  vertexCount : Int
  diagnostics : List Diagnostic

def Findings.nothing : Findings := ⟨none, none, none, none, 0, []⟩

def LoadResult.findings (r : LoadResult) : Findings :=
  ⟨r.document, r.model, r.vertices, r.indexed, r.metrics.vertices, r.diagnostics⟩

/-- What a load has found, under which id, and whether it has broken down. -/
structure Load.State (load : Load) (id : Option String) (found : Findings)
    (breakdown : Option Breakdown) : Prop where
  id : load.result.correlationId = id
  found : load.result.findings = found
  breakdown : load.breakdown = breakdown

namespace Load

variable {load : Load} {id : Option String} {found : Findings} {breakdown : Option Breakdown}
  {time : Binary64}

theorem State.fresh (source id : Option String) (readings : Nat) :
    (Load.fresh source id readings).State id .nothing none :=
  ⟨rfl, rfl, rfl⟩

theorem State.report (h : load.State id found breakdown) (severity : Severity)
    (message component : String) (details : Json) :
    (load.report severity message component details).State id { found with diagnostics :=
      found.diagnostics ++ [⟨severity, message, component, details, id⟩] } breakdown := by
  obtain ⟨rfl, rfl, rfl⟩ := h
  exact ⟨rfl, rfl, rfl⟩

theorem State.noteAs (h : load.State id found breakdown) (component : String) (severity : Severity)
    (message : String) (extra : List (String × Json)) (attached : Bool) :
    (load.noteAs component severity message extra attached).State id found breakdown :=
  ⟨h.id, h.found, h.breakdown⟩

theorem State.started (h : load.State id found breakdown) (text : String) :
    (load.started text).State id found breakdown :=
  ⟨h.id, h.found, h.breakdown⟩

def limitReport (limit : Json) (id : Option String) : Diagnostic :=
  ⟨.critical, "Input exceeds " ++ limitText limit ++ " bytes", "input", .object [("limit", limit)],
    id⟩

def grammarReport (message : String) (id : Option String) : Diagnostic :=
  ⟨.critical, message, "grammar", .null, id⟩

theorem State.rejected (h : load.State id found breakdown) (limit : Json) :
    (load.rejected limit).State id
      { found with diagnostics := found.diagnostics ++ [limitReport limit id] } breakdown :=
  (h.report ..).noteAs ..

theorem State.parseTimed (h : load.State id found breakdown) :
    (load.parseTimed time).State id found breakdown :=
  ⟨h.id, h.found, h.breakdown⟩

theorem State.unparsed (h : load.State id found breakdown) (message : String) :
    (load.unparsed time message).State id
      { found with diagnostics := found.diagnostics ++ [grammarReport message id] } breakdown :=
  (h.report ..).parseTimed.noteAs ..

theorem State.withDocument (h : load.State id found breakdown) (document : Node) :
    (load.withDocument time document).State id { found with document := some document } breakdown := by
  obtain ⟨rfl, rfl, rfl⟩ := h
  exact ⟨rfl, rfl, rfl⟩

def gaps (model : Model) (id : Option String) : List Diagnostic :=
  (if model.coordinates.isEmpty then
    [⟨.warning, "No texture coordinates; continuing without them", "extraction", .null, id⟩]
  else []) ++
  if model.hasTransform then []
  else [⟨.info, "No transform matrix; using identity", "extraction", .null, id⟩]

def missingReport (array : MissingArray) (id : Option String) : Diagnostic :=
  ⟨.error, array.message, "extraction", .object [("missing", .text array.name)], id⟩

def packingReport {α : Type} (model : Model) (id : Option String) : Option α → List Diagnostic
  | some _ => []
  | none => [⟨.error, badIndexMessage, "packing", .object [("indices", lengthOf model.indices)], id⟩]

theorem State.extractionTimed (h : load.State id found breakdown) :
    (load.extractionTimed time).State id found breakdown :=
  ⟨h.id, h.found, h.breakdown⟩

theorem State.withoutArray (h : load.State id found breakdown) (array : MissingArray) :
    (load.withoutArray time array).State id
      { found with diagnostics := found.diagnostics ++ [missingReport array id] } breakdown :=
  ((h.report ..).noteAs ..).extractionTimed

theorem State.reportGaps (h : load.State id found breakdown) (model : Model) :
    (load.reportGaps model).State id
      { found with diagnostics := found.diagnostics ++ gaps model id } breakdown := by
  rw [Load.reportGaps, gaps]
  cases model.coordinates.isEmpty with
  | true =>
      cases model.hasTransform with
      | true => exact h.report ..
      | false =>
          simpa only [Bool.false_eq_true, if_true, if_false, List.append_assoc] using
            (h.report ..).report ..
  | false =>
      cases model.hasTransform with
      | true => simpa using h
      | false => exact h.report ..

theorem State.withModel (h : load.State id found breakdown) (model : Model) :
    (load.withModel time model).State id
      { found with model := some model, diagnostics := found.diagnostics ++ gaps model id }
      breakdown := by
  have hgaps : ((load.extractionTimed time).reportGaps model).State id _ breakdown :=
    h.extractionTimed.reportGaps model
  refine ⟨hgaps.id, ?_, hgaps.breakdown⟩
  exact congrArg (fun f : Findings => { f with model := some model }) hgaps.found

theorem State.finishPacking {α : Type} (h : load.State id found breakdown) (model : Model)
    (packed : Option α) (size : α → Nat) (hcount : found.vertexCount = 0) :
    (load.finishPacking time model (packed.map size)).State id
      { found with
        vertexCount := ((packed.map size).getD 0 : Nat)
        diagnostics := found.diagnostics ++ packingReport model id packed } breakdown := by
  cases packed with
  | none =>
      have hpacked : (load.packed time 0).State id found breakdown := ⟨h.id, h.found, h.breakdown⟩
      have hreport := hpacked.report .error badIndexMessage "packing"
        (.object [("indices", lengthOf model.indices)])
      obtain ⟨document, found', vertices, indexed, count, diagnostics⟩ := found
      obtain rfl : count = 0 := hcount
      exact hreport
  | some buffer =>
      obtain ⟨rfl, rfl, rfl⟩ := h
      rw [packingReport, List.append_nil]
      exact ⟨rfl, rfl, rfl⟩

theorem State.packed_plain (h : load.State id found breakdown) {s : PackingSettings} {model : Model}
    (hcount : found.vertexCount = 0) (hplain : s.deduplicateVertices.truthy = false) :
    (load.packModel time s model).State id
      { found with
        vertices := model.vertices?
        vertexCount := ((model.vertices?.map List.length).getD 0 : Nat)
        diagnostics := found.diagnostics ++ packingReport model id model.vertices? } breakdown := by
  have hset : ({ load with result := { load.result with vertices := model.vertices? } } : Load).State
      id { found with vertices := model.vertices? } breakdown := by
    obtain ⟨rfl, rfl, rfl⟩ := h
    exact ⟨rfl, rfl, rfl⟩
  rw [Load.packModel, hplain]
  exact hset.finishPacking model model.vertices? List.length hcount

theorem State.packed_indexed (h : load.State id found breakdown) {s : PackingSettings}
    {model : Model} (hcount : found.vertexCount = 0)
    (hindexed : s.deduplicateVertices.truthy = true) :
    (load.packModel time s model).State id
      { found with
        indexed := model.indexed?
        vertexCount := ((model.indexed?.map fun buffer => buffer.vertices.length).getD 0 : Nat)
        diagnostics := found.diagnostics ++ packingReport model id model.indexed? } breakdown := by
  have hset : ({ load with result := { load.result with indexed := model.indexed? } } : Load).State
      id { found with indexed := model.indexed? } breakdown := by
    obtain ⟨rfl, rfl, rfl⟩ := h
    exact ⟨rfl, rfl, rfl⟩
  rw [Load.packModel, hindexed]
  exact hset.finishPacking model model.indexed? (fun buffer => buffer.vertices.length) hcount

theorem State.recovered_none (h : load.State id found none) : load.recovered.State id found none := by
  rw [Load.recovered, h.breakdown]
  exact h

theorem State.recovered_some {cause : Breakdown} (h : load.State id found (some cause)) :
    load.recovered.State id { found with diagnostics := found.diagnostics ++
      [⟨.critical, "Model load failed: " ++ cause.message, "loader",
        .object [("exception", .text cause.kindName)], id⟩] } (some cause) := by
  rw [Load.recovered, h.breakdown]
  exact (h.noteAs ..).report ..

theorem State.completed (h : load.State id found breakdown) :
    load.completed.State id found breakdown :=
  h.noteAs ..

theorem State.document (h : load.State id found breakdown) : load.result.document = found.document :=
  congrArg Findings.document h.found

theorem State.model (h : load.State id found breakdown) : load.result.model = found.model :=
  congrArg Findings.model h.found

/-- Parsing: it breaks down, or it leaves a diagnostic and no document, or it leaves a document. -/
theorem State.parse (h : load.State id .nothing none) (time : Binary64) (g : Grammar)
    (text : String) :
    (g.parse text = .error .oversizedPower ∧
      (load.parse time g text).State id .nothing (some .oversizedPower)) ∨
    (g.parse text = .error .tooDeep ∧ (load.parse time g text).State id
      { Findings.nothing with diagnostics := [grammarReport tooDeepMessage id] } none) ∨
    (g.parse text = .ok none ∧ (load.parse time g text).State id
      { Findings.nothing with diagnostics := [grammarReport unparsedMessage id] } none) ∨
    ∃ document, g.parse text = .ok (some document) ∧ (load.parse time g text).State id
      { Findings.nothing with document := some document } none := by
  unfold Load.parse
  cases g.parse text with
  | error cause =>
      cases cause with
      | oversizedPower => exact Or.inl ⟨rfl, h.id, h.found, rfl⟩
      | tooDeep => exact Or.inr (Or.inl ⟨rfl, h.unparsed _⟩)
  | ok found =>
      cases found with
      | none => exact Or.inr (Or.inr (Or.inl ⟨rfl, h.unparsed _⟩))
      | some document => exact Or.inr (Or.inr (Or.inr ⟨document, rfl, h.withDocument document⟩))

theorem State.extract_nothing (h : load.State id found breakdown) (hnone : found.document = none)
    (s : ExtractionSettings) : (load.extract time s).State id found breakdown := by
  rw [Load.extract, h.document, hnone]
  exact h

theorem State.pack_nothing (h : load.State id found breakdown) (hnone : found.model = none)
    (s : PackingSettings) : (load.pack time s).State id found breakdown := by
  rw [Load.pack, h.model, hnone]
  exact h

theorem State.without_document (h : load.State id found breakdown) (hdocument : found.document = none)
    (hmodel : found.model = none) (m : Machine) (s : Settings) :
    (load.afterParsing m s).State id found breakdown :=
  (h.extract_nothing hdocument _).pack_nothing hmodel _

end Load

def textOf : Json → String
  | .text content => content
  | _ => ""

def ExtractionSettings.textKeys (s : ExtractionSettings) : SourceKeys :=
  ⟨textOf s.positionKey, textOf s.normalKey, textOf s.coordinatesKey⟩

theorem Node.modelBy_eq {ε : Type} (document : Node) (missing : MissingArray → ε)
    (position normal coordinates : String) (required : Requirements) :
    document.modelBy missing (.ok position) (.ok normal) (.ok coordinates) required =
      (document.model ⟨position, normal, coordinates⟩ required).mapError missing := by
  simp only [Node.model, Node.modelBy, bind, Except.bind]
  cases document.positions? position with
  | none => rfl
  | some positions =>
      cases document.normals? normal with
      | none => rfl
      | some normals =>
          cases required.coordinates <;> cases document.coordinates? coordinates <;>
            cases document.indices? <;>
            cases required.transform && document.transform?.isNone <;> rfl

theorem modelOf_eq {s : ExtractionSettings} (hkeys : ∀ key ∈ s.keys, Settings.IsText key)
    (document : Node) :
    Load.modelOf s document = (document.model s.textKeys (Load.requirements s)).mapError .missing := by
  have hkey : ∀ key ∈ s.keys, Load.keyText document key = .ok (textOf key) := by
    intro key hkey
    obtain ⟨content, rfl⟩ := hkeys key hkey
    rfl
  simp only [ExtractionSettings.keys, List.forall_mem_cons] at hkey
  obtain ⟨hposition, hnormal, hcoordinates, -⟩ := hkey
  rw [Load.modelOf, hposition, hnormal, hcoordinates]
  exact document.modelBy_eq ..

def Settings.Admits (s : Settings) (text : String) : Prop :=
  ∀ n, s.shared.maxInputBytes = .integer n → text.utf8ByteSize ≤ n

theorem exceeds_iff {s : Settings} (hdeclared : s.Declared) {text : String} :
    Load.exceeds text s.shared.maxInputBytes = true ↔
      ∃ n, s.shared.maxInputBytes = .integer n ∧ n < text.utf8ByteSize := by
  rcases hdeclared.limit with h | ⟨n, h⟩
  · rw [h]
    simp [Load.exceeds, Json.numeric?]
  · rw [h]
    simp [Load.exceeds, Json.numeric?, Json.Numeric.below]

structure Modelled (m : Machine) (s : Settings) (text : String) (document : Node)
    (model : Model) : Prop where
  admitted : s.Admits text
  parsed : (s.documentGrammar m).parse text = .ok (some document)
  extracted : document.model s.extraction.textKeys (Load.requirements s.extraction) = .ok model

/-- What is found and reported where each stage works on what the one before it gives. -/
inductive Composed (m : Machine) (s : Settings) (text : String) (id : Option String) :
    Findings → Prop
  | rejected {n : Int} (hlimit : s.shared.maxInputBytes = .integer n)
      (hsize : n < text.utf8ByteSize) :
      Composed m s text id
        { Findings.nothing with diagnostics := [Load.limitReport (.integer n) id] }
  | unparsed (hadmits : s.Admits text) (hparse : (s.documentGrammar m).parse text = .ok none) :
      Composed m s text id
        { Findings.nothing with diagnostics := [Load.grammarReport Load.unparsedMessage id] }
  | tooDeep (hadmits : s.Admits text) (hparse : (s.documentGrammar m).parse text = .error .tooDeep) :
      Composed m s text id
        { Findings.nothing with diagnostics := [Load.grammarReport Load.tooDeepMessage id] }
  | incomplete (hadmits : s.Admits text) {document : Node}
      (hparse : (s.documentGrammar m).parse text = .ok (some document)) {array : MissingArray}
      (hmodel : document.model s.extraction.textKeys (Load.requirements s.extraction) = .error array) :
      Composed m s text id
        { Findings.nothing with
          document := some document
          diagnostics := [Load.missingReport array id] }
  | unpacked {document : Node} {model : Model} (hmodelled : Modelled m s text document model)
      (hpack : s.packing.packOnLoad = .bool false) :
      Composed m s text id
        { Findings.nothing with
          document := some document
          model := some model
          diagnostics := Load.gaps model id }
  | plain {document : Node} {model : Model} (hmodelled : Modelled m s text document model)
      (hpack : s.packing.packOnLoad = .bool true)
      (hdeduplicate : s.packing.deduplicateVertices = .bool false) :
      Composed m s text id
        { Findings.nothing with
          document := some document
          model := some model
          vertices := model.vertices?
          vertexCount := ((model.vertices?.map List.length).getD 0 : Nat)
          diagnostics := Load.gaps model id ++ Load.packingReport model id model.vertices? }
  | indexed {document : Node} {model : Model} (hmodelled : Modelled m s text document model)
      (hpack : s.packing.packOnLoad = .bool true)
      (hdeduplicate : s.packing.deduplicateVertices = .bool true) :
      Composed m s text id
        { Findings.nothing with
          document := some document
          model := some model
          indexed := model.indexed?
          vertexCount := ((model.indexed?.map fun buffer => buffer.vertices.length).getD 0 : Nat)
          diagnostics := Load.gaps model id ++ Load.packingReport model id model.indexed? }

/-- A text that the grammar cannot read, since the exponent of one of its numbers is too large to
be computed with. -/
structure Breaks (m : Machine) (s : Settings) (text : String) : Prop where
  admitted : s.Admits text
  broken : (s.documentGrammar m).parse text = .error .oversizedPower

def brokenFindings (id : Option String) : Findings :=
  { Findings.nothing with
    diagnostics := [⟨.critical, "Model load failed: " ++ Fault.oversizedPowerMessage, "loader",
      .object [("exception", .text "OverflowError")], id⟩] }

theorem Composed.not_breaks {m : Machine} {s : Settings} {text : String} {id : Option String}
    {found : Findings} (h : Composed m s text id found) : ¬ Breaks m s text := by
  intro hbreaks
  have hbroken := hbreaks.broken
  have hmodelled {document : Node} {model : Model} (hm : Modelled m s text document model) : False := by
    rw [hm.parsed] at hbroken
    nomatch hbroken
  cases h with
  | rejected hlimit hsize => exact absurd (hbreaks.admitted _ hlimit) (Int.not_le.mpr hsize)
  | unparsed hadmits hparse =>
      rw [hparse] at hbroken
      nomatch hbroken
  | tooDeep hadmits hparse =>
      rw [hparse] at hbroken
      nomatch hbroken
  | incomplete hadmits hparse =>
      rw [hparse] at hbroken
      nomatch hbroken
  | unpacked hm => exact hmodelled hm
  | plain hm => exact hmodelled hm
  | indexed hm => exact hmodelled hm

theorem Modelled.model_eq {m : Machine} {s : Settings} {text : String} {document other : Node}
    {model found : Model} (h : Modelled m s text document model)
    (hother : Modelled m s text other found) : found = model := by
  have hsame := hother.parsed.symm.trans h.parsed
  obtain rfl := Option.some.inj (Except.ok.inj hsame)
  exact Except.ok.inj (hother.extracted.symm.trans h.extracted)

theorem Composed.model_eq {m : Machine} {s : Settings} {text : String} {id : Option String}
    {found : Findings} (h : Composed m s text id found) {document : Node} {model : Model}
    (hm : Modelled m s text document model) : found.model = some model := by
  have hparsed := hm.parsed
  cases h with
  | rejected hlimit hsize => exact absurd (hm.admitted _ hlimit) (Int.not_le.mpr hsize)
  | unparsed _ hparse | tooDeep _ hparse =>
      rw [hparse] at hparsed
      cases hparsed
  | incomplete _ hparse hmissing =>
      obtain rfl := Option.some.inj (Except.ok.inj (hparse.symm.trans hparsed))
      cases hmissing.symm.trans hm.extracted
  | unpacked hother | plain hother | indexed hother => exact congrArg some (hm.model_eq hother)

theorem exists_extracted {s : Settings} (hkeys : ∀ key ∈ s.extraction.keys, Settings.IsText key)
    {load : Load} {id : Option String} {document : Node}
    (h : load.State id { Findings.nothing with document := some document } none)
    (time : Binary64) :
    (∃ array, document.model s.extraction.textKeys (Load.requirements s.extraction) = .error array ∧
      (load.extract time s.extraction).State id
        { Findings.nothing with
          document := some document
          diagnostics := [Load.missingReport array id] } none) ∨
    ∃ model, document.model s.extraction.textKeys (Load.requirements s.extraction) = .ok model ∧
      (load.extract time s.extraction).State id
        { Findings.nothing with
          document := some document
          model := some model
          diagnostics := Load.gaps model id } none := by
  rw [Load.extract, h.document]
  simp only [modelOf_eq hkeys]
  cases document.model s.extraction.textKeys (Load.requirements s.extraction) with
  | error array => exact Or.inl ⟨array, rfl, h.withoutArray array⟩
  | ok model => exact Or.inr ⟨model, rfl, h.withModel model⟩

theorem exists_packed {m : Machine} {s : Settings} (hdeclared : s.Declared) {load : Load}
    {id : Option String} {text : String} {document : Node} {model : Model}
    (hmodelled : Modelled m s text document model)
    (h : load.State id
      { Findings.nothing with
        document := some document
        model := some model
        diagnostics := Load.gaps model id } none) (time : Binary64) :
    ∃ found, (load.pack time s.packing).State id found none ∧ Composed m s text id found := by
  have hflags := hdeclared.flags
  simp only [Settings.flags, List.forall_mem_cons] at hflags
  obtain ⟨-, -, ⟨deduplicate, hdeduplicate⟩, ⟨pack, hpack⟩, -⟩ := hflags
  rw [Load.pack, h.model]
  cases pack with
  | false =>
      simp only [hpack, Json.truthy, Bool.false_eq_true, if_false]
      exact ⟨_, h, .unpacked hmodelled hpack⟩
  | true =>
      simp only [hpack, Json.truthy, if_true]
      cases deduplicate with
      | false =>
          have hplain : s.packing.deduplicateVertices.truthy = false := by rw [hdeduplicate]; rfl
          exact ⟨_, h.packed_plain rfl hplain, .plain hmodelled hpack hdeduplicate⟩
      | true =>
          have hindexed : s.packing.deduplicateVertices.truthy = true := by rw [hdeduplicate]; rfl
          exact ⟨_, h.packed_indexed rfl hindexed, .indexed hmodelled hpack hdeduplicate⟩

theorem ofText_composed (m : Machine) {s : Settings} (hdeclared : s.Declared) {load : Load}
    {id : Option String} (hnew : load.State id .nothing none) (text : String) :
    ∃ found breakdown, (Load.ofText m s load text).State id found breakdown ∧
      (Composed m s text id found ∨ Breaks m s text ∧ found = brokenFindings id) := by
  have hstarted := hnew.started text
  by_cases hexceeds : Load.exceeds text s.shared.maxInputBytes = true
  · obtain ⟨n, hlimit, hsize⟩ := (exceeds_iff hdeclared).mp hexceeds
    have hrejected := hstarted.rejected s.shared.maxInputBytes
    simp only [Load.ofText, hexceeds, if_true]
    rw [hlimit] at hrejected ⊢
    exact ⟨_, _, hrejected, Or.inl (.rejected hlimit hsize)⟩
  · have hadmits : s.Admits text := by
      intro n hlimit
      refine Int.not_lt.mp fun hsize => hexceeds ?_
      exact (exceeds_iff hdeclared).mpr ⟨n, hlimit, hsize⟩
    simp only [Load.ofText, hexceeds, Bool.false_eq_true, if_false]
    rcases hstarted.parse _ (s.documentGrammar m) text with
      ⟨hparse, h⟩ | ⟨hparse, h⟩ | ⟨hparse, h⟩ | ⟨document, hparse, h⟩
    · have hrest := (h.without_document rfl rfl m s).recovered_some
      exact ⟨_, _, hrest.completed, Or.inr ⟨⟨hadmits, hparse⟩, rfl⟩⟩
    · have hrest := (h.without_document rfl rfl m s).recovered_none
      exact ⟨_, _, hrest.completed, Or.inl (.tooDeep hadmits hparse)⟩
    · have hrest := (h.without_document rfl rfl m s).recovered_none
      exact ⟨_, _, hrest.completed, Or.inl (.unparsed hadmits hparse)⟩
    · rw [Load.afterParsing]
      rcases exists_extracted hdeclared.keys h _ with ⟨array, hmodel, h⟩ | ⟨model, hmodel, h⟩
      · exact ⟨_, _, (h.pack_nothing rfl s.packing).recovered_none.completed,
          Or.inl (.incomplete hadmits hparse hmodel)⟩
      · obtain ⟨found, hfound, hcomposed⟩ := exists_packed hdeclared ⟨hadmits, hparse, hmodel⟩ h _
        exact ⟨found, none, hfound.recovered_none.completed, Or.inl hcomposed⟩

/-- The result of a load holds what the stages give for its text, and what each of them reports,
just when the text does not break the first of them. -/
theorem loadText_composed {loader : Loader} (hdeclared : loader.settings.Declared)
    (session : Session) (text : String) (source : Option String) :
    let result := (session.loadText loader text source).1.result
    (Composed loader.machine loader.settings text result.correlationId result.findings ↔
      ¬ Breaks loader.machine loader.settings text) ∧
    (Breaks loader.machine loader.settings text →
      result.findings = brokenFindings result.correlationId) := by
  have hnew := Load.State.fresh source (session.drawId loader).1 (session.drawId loader).2.readings
  obtain ⟨found, breakdown, h, hfindings⟩ := ofText_composed loader.machine hdeclared hnew text
  intro result
  have hid : result.correlationId = (session.drawId loader).1 := h.id
  have hfound : result.findings = found := h.found
  rw [hid, hfound]
  rcases hfindings with hcomposed | ⟨hbreaks, rfl⟩
  · have hnot := hcomposed.not_breaks
    exact ⟨⟨fun _ => hnot, fun _ => hcomposed⟩, fun hbreaks => absurd hbreaks hnot⟩
  · exact ⟨⟨fun hcomposed => hcomposed.not_breaks, fun hnot => absurd hbreaks hnot⟩, fun _ => rfl⟩

theorem loadText_composed_element :
    let machine : Machine := ⟨fun n => .ofNat n, fun _ => "", 9, 9, 80⟩
    let result := (Session.fresh.loadText ⟨.usual, none, machine⟩ "<a>1</a>" none).1.result
    Composed machine .usual "<a>1</a>" result.correlationId result.findings := by
  intro machine
  have hdeclared : (⟨.usual, none, machine⟩ : Loader).settings.Declared := Settings.usual_declared
  have hunbroken : ¬ Breaks machine .usual "<a>1</a>" := by
    rintro ⟨-, hbroken⟩
    have hread :
        ((Settings.usual.documentGrammar machine).parse "<a>1</a>").toOption.isSome = true := by
      decide +kernel
    rw [hbroken] at hread
    nomatch hread
  exact (loadText_composed hdeclared Session.fresh "<a>1</a>" none).1.mpr hunbroken

end MeshMarkup
