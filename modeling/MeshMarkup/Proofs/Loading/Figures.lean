import Mathlib.Data.String.Basic
import MeshMarkup.Proofs.Json.Number
import MeshMarkup.Proofs.Loading.Stages
import MeshMarkup.Proofs.Mesh.Contents
import MeshMarkup.Proofs.Number.Estimate

namespace MeshMarkup

theorem length_le_utf8ByteSize (text : String) : text.length ≤ text.utf8ByteSize := by
  rw [← String.length_toList, ← String.utf8Len_toList]
  induction text.toList with
  | nil => exact Nat.le_refl _
  | cons c cs ih => exact Nat.add_le_add ih c.utf8Size_pos

/-- Between two readings of the clock there is a finite time. -/
def Machine.Steady (m : Machine) : Prop := ∀ n, (m.elapsed n).isFinite = true

/-- Times that are finite, and figures of the text that are bounded. -/
structure Metrics.Measured (m : Metrics) (bound : Nat) : Prop where
  parseTime : m.parseTime.isFinite = true
  extractionTime : m.extractionTime.isFinite = true
  characters : m.characters.natAbs ≤ bound
  elements : m.elements.natAbs ≤ bound
  depth : m.depth.natAbs ≤ bound

namespace Load

variable {load : Load} {bound : Nat} {time : Binary64}

theorem measured_fresh (source id : Option String) (readings : Nat) :
    (Load.fresh source id readings).result.metrics.Measured bound :=
  ⟨rfl, rfl, Nat.zero_le _, Nat.zero_le _, Nat.zero_le _⟩

section Measured

variable (h : load.result.metrics.Measured bound)
include h

theorem measured_started {text : String} (hlength : text.length ≤ bound) :
    (load.started text).result.metrics.Measured bound :=
  ⟨h.parseTime, h.extractionTime, hlength, h.elements, h.depth⟩

theorem measured_parse (htime : time.isFinite = true) {g : Grammar} {text : String}
    (hweight : ∀ document, g.parse text = .ok (some document) → document.weight ≤ bound) :
    (load.parse time g text).result.metrics.Measured bound := by
  unfold Load.parse
  split
  · exact h
  · exact ⟨htime, h.extractionTime, h.characters, h.elements, h.depth⟩
  · exact ⟨htime, h.extractionTime, h.characters, h.elements, h.depth⟩
  · next document hparse =>
      have hle := hweight document hparse
      exact ⟨htime, h.extractionTime, h.characters,
        Nat.le_trans document.elementCount_le_weight hle,
        Nat.le_trans document.depth_le_weight hle⟩

theorem measured_timed (htime : time.isFinite = true) :
    (load.extractionTimed time).result.metrics.Measured bound :=
  ⟨h.parseTime, htime, h.characters, h.elements, h.depth⟩

theorem measured_extract (htime : time.isFinite = true) (s : ExtractionSettings) :
    (load.extract time s).result.metrics.Measured bound := by
  have htimed := measured_timed h htime
  rw [Load.extract]
  split
  · exact h
  · split
    · next model _ =>
        have hgaps : ((load.extractionTimed time).reportGaps model).result.metrics =
            (load.extractionTimed time).result.metrics := by
          rw [Load.reportGaps]
          cases model.coordinates.isEmpty <;> cases model.hasTransform <;> rfl
        have hmodel : (load.withModel time model).result.metrics =
            ((load.extractionTimed time).reportGaps model).result.metrics := rfl
        rw [hmodel, hgaps]
        exact htimed
    · exact htimed
    · exact htimed

theorem measured_finishPacking (model : Model) (count : Option Nat) :
    (load.finishPacking time model count).result.metrics.Measured bound := by
  cases count with
  | none => exact h
  | some count => exact ⟨h.parseTime, h.extractionTime, h.characters, h.elements, h.depth⟩

theorem measured_pack (s : PackingSettings) :
    (load.pack time s).result.metrics.Measured bound := by
  rw [Load.pack]
  split
  · exact h
  · next model _ =>
      split
      · rw [Load.packModel]
        -- Either buffer is set before packing is finished, and leaves the metrics as they are.
        split
        · have hset : ({ load with result :=
              { load.result with indexed := model.indexed? } } : Load).result.metrics.Measured
              bound := h
          exact measured_finishPacking hset _ _
        · have hset : ({ load with result :=
              { load.result with vertices := model.vertices? } } : Load).result.metrics.Measured
              bound := h
          exact measured_finishPacking hset _ _
      · exact h

theorem measured_recovered : load.recovered.result.metrics.Measured bound := by
  rw [Load.recovered]
  split
  · exact h
  · exact h

theorem measured_ofText {m : Machine} (hsteady : m.Steady) {s : Settings} {text : String}
    (hlength : text.length ≤ bound) : (Load.ofText m s load text).result.metrics.Measured bound := by
  have hstarted := measured_started h hlength
  have hweight : ∀ document, (s.documentGrammar m).parse text = .ok (some document) →
      document.weight ≤ bound :=
    fun document hparse => Nat.le_trans (Grammar.weight_le_length hparse) hlength
  rw [Load.ofText]
  split
  · exact hstarted
  · have hparsed (n : Nat) := measured_parse hstarted (hsteady n) hweight
    exact measured_recovered (measured_pack (measured_extract (hparsed _) (hsteady _) _) _)

end Measured

end Load

/-- The details of a diagnostic are none, or one member: a text or a bounded figure. -/
inductive Diagnostic.Plain (bound : Nat) : Diagnostic → Prop
  | bare {severity message component id} : Plain bound ⟨severity, message, component, .null, id⟩
  | text {severity message component id key content} :
      Plain bound ⟨severity, message, component, .object [(key, .text content)], id⟩
  | figure {severity message component id key} {n : Int} (h : n.natAbs ≤ bound) :
      Plain bound ⟨severity, message, component, .object [(key, .integer n)], id⟩

structure Findings.Within (found : Findings) (bound : Nat) : Prop where
  model : ∀ m, found.model = some m → m.Within bound
  vertices : ∀ vs, found.vertices = some vs → ∃ m, found.model = some m ∧ m.vertices? = some vs
  indexed : ∀ iv, found.indexed = some iv → ∃ m, found.model = some m ∧ m.indexed? = some iv
  vertexCount : found.vertexCount.natAbs ≤ bound
  diagnostics : ∀ d ∈ found.diagnostics, d.Plain bound

section Within

variable {bound : Nat} {id : Option String}

theorem Findings.Within.of_unmodelled (document : Option Node) {diagnostics : List Diagnostic}
    (h : ∀ d ∈ diagnostics, d.Plain bound) :
    Within { Findings.nothing with document := document, diagnostics := diagnostics } bound :=
  ⟨fun _ hm => (nomatch hm), fun _ hv => (nomatch hv), fun _ hv => (nomatch hv), Nat.zero_le _, h⟩

theorem Findings.Within.of_reported (document : Option Node) {d : Diagnostic} (h : d.Plain bound) :
    Within { Findings.nothing with document := document, diagnostics := [d] } bound :=
  .of_unmodelled document (List.forall_mem_singleton.mpr h)

namespace Load

theorem plain_gaps (model : Model) : ∀ d ∈ gaps model id, d.Plain bound := by
  rw [gaps]
  cases model.coordinates.isEmpty <;> cases model.hasTransform <;>
    simp [Diagnostic.Plain.bare]

theorem plain_packingReport {α : Type} {model : Model} (hmodel : model.Within bound)
    (buffer : Option α) : ∀ d ∈ packingReport model id buffer, d.Plain bound := by
  cases buffer with
  | some buffer => exact fun d hd => nomatch hd
  | none => exact List.forall_mem_singleton.mpr (.figure hmodel.indices)

theorem plain_packed {α : Type} {model : Model} (hmodel : model.Within bound)
    (buffer : Option α) :
    ∀ d ∈ gaps model id ++ packingReport model id buffer, d.Plain bound :=
  List.forall_mem_append.mpr ⟨plain_gaps model, plain_packingReport hmodel buffer⟩

end Load

variable {m : Machine} {s : Settings} {text : String} {found : Findings}

theorem Modelled.within {document : Node} {model : Model} (h : Modelled m s text document model)
    (hsize : text.utf8ByteSize ≤ bound) : model.Within bound := by
  have hle : document.weight ≤ bound :=
    calc document.weight ≤ text.length := Grammar.weight_le_length h.parsed
      _ ≤ text.utf8ByteSize := length_le_utf8ByteSize text
      _ ≤ bound := hsize
  obtain ⟨hpositions, hnormals, hcoordinates, hindices, hindex⟩ := Node.model_within h.extracted
  exact ⟨Nat.le_trans hpositions hle, Nat.le_trans hnormals hle, Nat.le_trans hcoordinates hle,
    Nat.le_trans hindices hle, hindex⟩

theorem Composed.within (h : Composed m s text id found) (hvalid : s.Valid)
    (hsize : text.utf8ByteSize ≤ bound) (hindex : maxIndex + 1 ≤ bound) : found.Within bound := by
  cases h with
  | rejected hlimit hexceeded =>
      have hpositive := hvalid.limit_pos hlimit
      exact .of_reported none (.figure (by omega))
  | unparsed => exact .of_reported none .bare
  | tooDeep => exact .of_reported none .bare
  | incomplete => exact .of_reported _ .text
  | @unpacked document model hmodelled =>
      have hmodel := hmodelled.within hsize
      refine ⟨?_, fun _ hv => (nomatch hv), fun _ hv => (nomatch hv), Nat.zero_le _,
        Load.plain_gaps model⟩
      rintro _ ⟨⟩
      exact hmodel
  | @plain document model hmodelled =>
      have hmodel := hmodelled.within hsize
      refine ⟨?_, fun vs hv => ⟨model, rfl, hv⟩, fun _ hv => (nomatch hv), ?_,
        Load.plain_packed hmodel _⟩
      · rintro _ ⟨⟩
        exact hmodel
      · cases hvertices : model.vertices? with
        | none => exact Nat.zero_le _
        | some vs => exact Nat.le_trans (Model.vertices?_contents hvertices).1 hmodel.indices
  | @indexed document model hmodelled =>
      have hmodel := hmodelled.within hsize
      refine ⟨?_, fun _ hv => (nomatch hv), fun iv hv => ⟨model, rfl, hv⟩, ?_,
        Load.plain_packed hmodel _⟩
      · rintro _ ⟨⟩
        exact hmodel
      · cases hindexed : model.indexed? with
        | none => exact Nat.zero_le _
        | some iv => exact Nat.le_trans (Model.indexed?_contents hindexed).1 hindex

end Within

structure LoadResult.Bounded (r : LoadResult) (bound : Nat) : Prop where
  metrics : r.metrics.Measured bound
  findings : r.findings.Within bound

section Whole

variable {m : Machine} {s : Settings} {load : Load} {id : Option String} {bound : Nat}

theorem Load.bounded_ofText (hsteady : m.Steady) (hdeclared : s.Declared) (hvalid : s.Valid)
    (hnew : load.State id .nothing none) (hmetrics : load.result.metrics.Measured bound)
    {text : String} (hsize : text.utf8ByteSize ≤ bound) (hindex : maxIndex + 1 ≤ bound) :
    (Load.ofText m s load text).result.Bounded bound := by
  refine ⟨measured_ofText hmetrics hsteady (Nat.le_trans (length_le_utf8ByteSize text) hsize), ?_⟩
  obtain ⟨found, breakdown, h, hcomposed | ⟨-, rfl⟩⟩ := ofText_composed m hdeclared hnew text
  · exact h.found ▸ hcomposed.within hvalid hsize hindex
  · exact h.found ▸ .of_reported none .text

namespace Session

variable {loader : Loader} {files : FileView} {path : Path} {encoding : Text.Encoding}

theorem exists_finished {found : Found} (hfound : files.find path = .ok found) (session : Session)
    (loader : Loader) (encoding : Text.Encoding) :
    ∃ load, (session.loadFile loader files path encoding).1 = .finished load := by
  have hreported : ∀ cause, fileText files path encoding ≠ .error (.ended cause) := by
    intro cause
    rw [fileText, locate, hfound]
    cases found with
    | file bytes =>
        intro h
        cases hread : files.readText path encoding <;> rw [hread] at h <;> cases h
    | directory | absent | unreachable | blocked | overlong => exact fun h => by cases h
  rw [loadFile]
  cases hfile : fileText files path encoding with
  | ok text => exact ⟨_, rfl⟩
  | error why =>
      cases why with
      | reported message => exact ⟨_, rfl⟩
      | ended cause => exact absurd hfile (hreported cause)

theorem readText_of_fileText {text : String} (h : fileText files path encoding = .ok text) :
    files.readText path encoding = .ok text := by
  rw [fileText, bind_eq_ok] at h
  obtain ⟨-, -, h⟩ := h
  cases hread : files.readText path encoding with
  | error cause =>
      rw [hread] at h
      nomatch h
  | ok other =>
      rw [hread, Except.mapError, Except.ok.injEq] at h
      rw [h]

theorem bounded_loadFile (hsteady : loader.machine.Steady) (hdeclared : loader.settings.Declared)
    (hvalid : loader.settings.Valid)
    (session : Session) (hload : (session.loadFile loader files path encoding).1 = .finished load)
    (hsize : ∀ text, files.readText path encoding = .ok text → text.utf8ByteSize ≤ bound)
    (hindex : maxIndex + 1 ≤ bound) : load.result.Bounded bound := by
  have hnew := (Load.State.fresh (some path.toText) (session.drawId loader).1
    (session.drawId loader).2.readings).noteAs "load_file" .info "Loading model file"
    [("file_path", .text path.toText)] false
  have hmetrics : (fileStarted path (session.drawId loader).1
      (session.drawId loader).2.readings).result.metrics.Measured bound :=
    Load.measured_fresh (some path.toText) _ 0
  rw [loadFile] at hload
  cases hfile : fileText files path encoding with
  | ok text =>
      rw [hfile] at hload
      obtain rfl := FileLoad.finished.inj hload
      exact Load.bounded_ofText hsteady hdeclared hvalid hnew hmetrics
        (hsize text (readText_of_fileText hfile)) hindex
  | error why =>
      rw [hfile] at hload
      cases why with
      | reported message =>
          obtain rfl := FileLoad.finished.inj hload
          exact ⟨hmetrics, .of_reported none .bare⟩
      | ended cause => nomatch hload

end Session

end Whole

end MeshMarkup
