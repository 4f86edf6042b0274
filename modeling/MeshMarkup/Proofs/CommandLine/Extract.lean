import MeshMarkup.Proofs.CommandLine.Run
import MeshMarkup.Proofs.Json.RoundTrip
import MeshMarkup.Proofs.Json.Standard
import MeshMarkup.Proofs.Loading.Figures

namespace MeshMarkup

open Json (Legible)

theorem LoadResult.legible_source {levels : Nat} (r : LoadResult) :
    Legible levels (optionalText r.source) := by
  cases r.source with
  | none => exact .null
  | some source => exact .text source

theorem CommandLine.legible_numbersJson {levels : Nat} (xs : List Binary64) :
    Legible (levels + 1) (numbersJson xs) :=
  .array (List.forall_mem_map.mpr fun x _ => .number x)

theorem CommandLine.nodup_reportKeys (r : LoadResult) (m : Model) :
    ((r.summaryMembers ++ modelMembers m ++ bufferMembers r).map Prod.fst).Nodup := by
  rw [bufferMembers]
  split <;> simp [LoadResult.summaryMembers, modelMembers]

section Legible

variable {levels bound : Nat} (hbound : bound < 10 ^ Json.integerDigitLimit)
include hbound

theorem legible_figure {n : Int} (h : n.natAbs ≤ bound) : Legible levels (.integer n) :=
  .integer (Nat.lt_of_le_of_lt h hbound)

theorem Metrics.Measured.legible {m : Metrics} (h : m.Measured bound)
    (hvertices : m.vertices.natAbs ≤ bound) : Legible (levels + 1) m.toJson := by
  apply Legible.object
  · simp
  · simp only [List.forall_mem_cons]
    exact ⟨.number _, .number _, legible_figure hbound h.characters,
      legible_figure hbound h.elements, legible_figure hbound h.depth,
      legible_figure hbound hvertices, List.forall_mem_nil _⟩

theorem Diagnostic.Plain.legible {d : Diagnostic} (h : d.Plain bound) :
    Legible (levels + 2) d.toJson := by
  have hmember {key : String} {value : Json} (hvalue : Legible levels value) :
      Legible (levels + 1) (.object [(key, value)]) :=
    .object (List.nodup_singleton key) (List.forall_mem_singleton.mpr hvalue)
  have hdetails :
      Legible (levels + 1) (if d.details.truthy then d.details else .object []) := by
    cases h with
    | bare => exact .object List.nodup_nil (List.forall_mem_nil _)
    | text => exact hmember (.text _)
    | figure h => exact hmember (legible_figure hbound h)
  apply Legible.object
  · simp
  · simp only [List.forall_mem_cons]
    exact ⟨.text _, .text _, .text _, hdetails, List.forall_mem_nil _⟩

namespace CommandLine

variable {r : LoadResult}

theorem legible_sizeOf {α : Type} (h : r.Bounded bound) {array : Model → List α}
    (harray : ∀ m : Model, m.Within bound → (array m).length ≤ bound) :
    Legible levels (r.sizeOf array) := by
  rw [LoadResult.sizeOf]
  cases hmodel : r.model with
  | none => exact legible_figure hbound (Nat.zero_le _)
  | some m => exact legible_figure hbound (harray m (h.findings.model m hmodel))

theorem legible_summaryMembers (h : r.Bounded bound) :
    ∀ m ∈ r.summaryMembers, Legible (levels + 3) m.2 := by
  have hdiagnostics : ∀ item ∈ r.diagnostics.map Diagnostic.toJson, Legible (levels + 2) item := by
    rw [List.forall_mem_map]
    exact fun d hd => (h.findings.diagnostics d hd).legible hbound
  simp only [LoadResult.summaryMembers, List.forall_mem_cons]
  exact ⟨r.legible_source, .bool _, .bool _, legible_sizeOf hbound h fun _ hm => hm.positions,
    legible_sizeOf hbound h fun _ hm => hm.normals,
    legible_sizeOf hbound h fun _ hm => hm.coordinates,
    legible_sizeOf hbound h fun _ hm => hm.indices, .bool _,
    legible_figure hbound h.findings.vertexCount, h.metrics.legible hbound h.findings.vertexCount,
    .array hdiagnostics, List.forall_mem_nil _⟩

variable (hindex : maxIndex ≤ bound)
include hindex

theorem legible_indicesJson {ns : List Nat} (h : ∀ n ∈ ns, n ≤ maxIndex) :
    Legible (levels + 1) (indicesJson ns) :=
  .array (List.forall_mem_map.mpr fun n hn =>
    legible_figure hbound (Nat.le_trans (h n hn) hindex))

theorem legible_modelMembers {m : Model} (h : m.Within bound) :
    ∀ member ∈ modelMembers m, Legible (levels + 2) member.2 := by
  have hrows {α : Type} (rows : List α) (row : α → List Binary64) :
      Legible (levels + 2) (.array (rows.map fun a => numbersJson (row a))) :=
    .array (List.forall_mem_map.mpr fun a _ => legible_numbersJson (row a))
  simp only [modelMembers, List.forall_mem_cons]
  exact ⟨hrows _ _, hrows _ _, hrows _ _, legible_indicesJson hbound hindex h.index, hrows _ id,
    List.forall_mem_nil _⟩

theorem legible_bufferMembers (h : r.Bounded bound) :
    ∀ member ∈ bufferMembers r, Legible (levels + 2) member.2 := by
  have hvertices (vs : List Vertex) : Legible (levels + 2) (verticesJson vs) :=
    .array (List.forall_mem_map.mpr fun v _ => legible_numbersJson v.toList)
  rw [bufferMembers]
  split
  · next buffer hbuffer =>
      obtain ⟨m, -, hm⟩ := h.findings.indexed buffer hbuffer
      have hindices := (Model.indexed?_contents hm).2.1
      simp only [List.forall_mem_cons]
      exact ⟨hvertices _, legible_indicesJson hbound hindex hindices, List.forall_mem_nil _⟩
  · exact List.forall_mem_singleton.mpr (hvertices _)
  · exact List.forall_mem_nil _

theorem legible_loadData (h : r.Bounded bound) (full : Bool) :
    Legible (levels + 4) (loadData r full) := by
  have hsummary : Legible (levels + 4) r.summary := by
    refine .object ?_ (legible_summaryMembers hbound h)
    simp [LoadResult.summaryMembers]
  cases full with
  | false => exact hsummary
  | true =>
      rw [loadData, if_pos rfl, fullData]
      cases hmodel : r.model with
      | none => exact hsummary
      | some m =>
          have hm := h.findings.model m hmodel
          refine .object (nodup_reportKeys r m) ?_
          rw [List.forall_mem_append, List.forall_mem_append]
          exact ⟨⟨legible_summaryMembers hbound h, legible_modelMembers hbound hindex hm⟩,
            legible_bufferMembers hbound hindex h⟩

end CommandLine

end Legible

namespace CommandLine

@[simp]
theorem allFinite_numbersJson {xs : List Binary64} :
    (numbersJson xs).AllFinite ↔ ∀ x ∈ xs, x.isFinite = true := by
  simp [numbersJson]

@[simp]
theorem allFinite_indicesJson (ns : List Nat) : (indicesJson ns).AllFinite := by
  simp [indicesJson]

theorem allFinite_rows {α : Type} (rows : List α) (row : α → List Binary64) :
    (Json.array (rows.map fun a => numbersJson (row a))).AllFinite ↔
      ∀ x ∈ rows.flatMap row, x.isFinite = true := by
  simp only [Json.allFinite_array, List.forall_mem_map, allFinite_numbersJson,
    List.forall_mem_flatMap]

theorem allFinite_modelMembers {m : Model} :
    (∀ member ∈ modelMembers m, member.2.AllFinite) ↔ ∀ x ∈ m.numbers, x.isFinite = true := by
  -- The rows of the transform are lists already, and are listed as they are.
  have htransform := allFinite_rows m.transform.toLists id
  rw [List.flatMap_id] at htransform
  have hnumbers : (Json.array (m.transform.toLists.map numbersJson)).AllFinite ↔ _ := htransform
  simp only [modelMembers, List.forall_mem_cons, allFinite_rows, allFinite_indicesJson, hnumbers,
    Model.numbers, List.forall_mem_append, List.not_mem_nil, true_and, and_assoc]
  simp

theorem allFinite_bufferMembers {r : LoadResult} {bound : Nat} (h : r.Bounded bound) {m : Model}
    (hmodel : r.model = some m) (hfinite : ∀ x ∈ m.numbers, x.isFinite = true) :
    ∀ member ∈ bufferMembers r, member.2.AllFinite := by
  have hvertices (vs : List Vertex) (hnumbers : ∀ v ∈ vs, ∀ x ∈ v.toList, x ∈ m.numbers) :
      (verticesJson vs).AllFinite := by
    rw [verticesJson, allFinite_rows, List.forall_mem_flatMap]
    exact fun v hv x hx => hfinite x (hnumbers v hv x hx)
  have howner {owner : Model} (howner : r.findings.model = some owner) : owner = m :=
    Option.some.inj (howner.symm.trans hmodel)
  rw [bufferMembers]
  split
  · next buffer hbuffer =>
      obtain ⟨owner, hfound, hm⟩ := h.findings.indexed buffer hbuffer
      obtain rfl := howner hfound
      simp only [List.forall_mem_cons]
      exact ⟨hvertices _ (Model.indexed?_contents hm).2.2, allFinite_indicesJson _,
        List.forall_mem_nil _⟩
  · next vs _ hvs =>
      obtain ⟨owner, hfound, hm⟩ := h.findings.vertices vs hvs
      obtain rfl := howner hfound
      exact List.forall_mem_singleton.mpr (hvertices vs (Model.vertices?_contents hm).2)
  · exact List.forall_mem_nil _

theorem allFinite_details {d : Diagnostic} {bound : Nat} (h : d.Plain bound) :
    d.toJson.AllFinite := by
  cases h <;> simp [Diagnostic.toJson, Json.truthy]

theorem allFinite_summaryMembers {r : LoadResult} {bound : Nat} (h : r.Bounded bound) :
    ∀ member ∈ r.summaryMembers, member.2.AllFinite := by
  have hsource : (optionalText r.source).AllFinite := by
    cases r.source <;> simp [optionalText]
  have hmetrics : r.metrics.toJson.AllFinite := by
    simp [Metrics.toJson, h.metrics.parseTime, h.metrics.extractionTime]
  have hdiagnostics : (Json.array (r.diagnostics.map Diagnostic.toJson)).AllFinite := by
    rw [Json.allFinite_array, List.forall_mem_map]
    exact fun d hd => allFinite_details (h.findings.diagnostics d hd)
  simp [LoadResult.summaryMembers, LoadResult.sizeOf, hsource, hmetrics, hdiagnostics]

theorem allFinite_loadData {r : LoadResult} {bound : Nat} (h : r.Bounded bound) (full : Bool) :
    (loadData r full).AllFinite ↔
      (full = true → ∀ m, r.model = some m → ∀ x ∈ m.numbers, x.isFinite = true) := by
  have hsummary : r.summary.AllFinite := Json.allFinite_object.mpr (allFinite_summaryMembers h)
  cases full with
  | false => simp [loadData, hsummary]
  | true =>
      rw [loadData, if_pos rfl, fullData]
      cases hmodel : r.model with
      | none => simp [hsummary]
      | some m =>
          simp only [Json.allFinite_object, List.forall_mem_append, allFinite_modelMembers,
            Option.some.injEq, forall_eq', forall_const]
          constructor
          · exact fun hall => hall.1.2
          · exact fun hfinite => ⟨⟨allFinite_summaryMembers h, hfinite⟩,
              allFinite_bufferMembers h hmodel hfinite⟩

/-- What becomes of a text: it is printed, or written to a file where one is named. -/
def RunOutcome.Delivers (o : RunOutcome) (text : String) : Option Path → Prop
  | none => o.out = text
  | some target => o.written = some (target, text)

theorem RunOutcome.Delivers.after {o : RunOutcome} {text : String} {output : Option Path}
    (h : o.Delivers text output) (log : String) : (o.after log).Delivers text output := by
  cases output with
  | none => exact h
  | some target => exact h

section Printed

variable {around : Surroundings} {i : Invocation} {s : Settings} {path : Path} {load : Load}
  {full : Bool} {output : Option Path}

theorem runExtract_delivers
    (hload : (Session.fresh.loadFile ⟨s, none, around.machine⟩ around.files path .utf8).1 =
      .finished load)
    (hwritable : ∀ target ∈ output, around.files.writeProblem? target = none)
    (format : OutputFormat) :
    (runExtract around i s path format full output).Delivers
      (formatLoad load.result full format ++ "\n") output := by
  rw [runExtract, hload]
  apply RunOutcome.Delivers.after
  cases output with
  | none => rfl
  | some target =>
      simp only [writeResult, hwritable target rfl]
      rfl

theorem run_extract {args : List String} {format : OutputFormat} (h : Asks around args i s)
    (hc : i.command = .extract path format full output) :
    run around args =
      (runExtract around i s path format full output).after (startLog around i s) := by
  simp only [run, h.understood, runInvocation, h.chosen, runCommand, h.uninterrupted, hc,
    Bool.false_eq_true, if_false, startLog]

theorem lengthBound_lt : Text.lengthBound < 10 ^ Json.integerDigitLimit :=
  calc Text.lengthBound < 10 ^ 19 := by decide
    _ ≤ 10 ^ Json.integerDigitLimit := Nat.pow_le_pow_right (by decide) (by decide)

theorem read_formatLoad {r : LoadResult} (h : r.Bounded Text.lengthBound) (full : Bool)
    {nestingLimit : Nat} (hnesting : 4 ≤ nestingLimit) :
    Json.read nestingLimit (formatLoad r full .json ++ "\n") = .ok (loadData r full) := by
  obtain ⟨levels, rfl⟩ := Nat.exists_eq_add_of_le' hnesting
  have hlegible : Legible (levels + 4) (loadData r full) :=
    legible_loadData lengthBound_lt (by decide) h full
  exact Json.read_written hlegible (Json.spaces_singleton rfl) (Json.closing_cons (by decide))
    (Json.toList_render_append ..)

/-- The text that extracting a model delivers as data is read back to the report of the load, for
all settings of the declared kinds and whatever the path leads to. It is in the standard grammar
just when the numbers of the model are finite or are not asked for. -/
theorem extract_delivers_data (hdeclared : s.Declared) (hvalid : s.Valid)
    (around : Surroundings) (hsteady : around.machine.Steady) (i : Invocation) {found : Found}
    (hfound : around.files.find path = .ok found)
    (hsize : ∀ text, around.files.readText path .utf8 = .ok text →
      text.utf8ByteSize < Text.lengthBound)
    (full : Bool) :
    ∃ load text,
      (Session.fresh.loadFile ⟨s, none, around.machine⟩ around.files path .utf8).1 =
        .finished load ∧
      (∀ output, (∀ target ∈ output, around.files.writeProblem? target = none) →
        (runExtract around i s path .json full output).Delivers text output ∧
        ∀ args, Asks around args i s → i.command = .extract path .json full output →
          (run around args).Delivers text output) ∧
      (∀ nestingLimit, 4 ≤ nestingLimit →
        Json.read nestingLimit text = .ok (loadData load.result full)) ∧
      (Json.IsStandard text ↔
        (full = true → ∀ m, load.result.model = some m → ∀ x ∈ m.numbers, x.isFinite = true)) := by
  obtain ⟨load, hload⟩ := Session.exists_finished hfound Session.fresh ⟨s, none, around.machine⟩ .utf8
  have hbounded : load.result.Bounded Text.lengthBound :=
    Session.bounded_loadFile hsteady hdeclared hvalid Session.fresh hload
      (fun text ht => Nat.le_of_lt (hsize text ht)) (by decide)
  refine ⟨load, formatLoad load.result full .json ++ "\n", hload, fun output hwritable => ?_,
    fun _ => read_formatLoad hbounded full, ?_⟩
  · have hdelivers : (runExtract around i s path .json full output).Delivers _ output :=
      runExtract_delivers hload hwritable .json
    exact ⟨hdelivers, fun args hasks hc => run_extract hasks hc ▸ hdelivers.after _⟩
  · have hspaces : Json.Spaces "\n".toList := Json.spaces_singleton rfl
    exact (Json.isStandard_render_append hspaces).trans (allFinite_loadData hbounded full)

end Printed

def infiniteText : String :=
  "<?x?><C><library_geometries><geometry><mesh><source id=\"position\"><float_array>1e400 0 0</a>" ++
    "</a><source id=\"normal\"><float_array>0</a></a><triangles><p>0</a></a></a></a></a></a>"

theorem positionsOnly_declared : Settings.positionsOnly.Declared := by
  refine ⟨?_, ?_, Or.inl rfl, Or.inr ⟨_, rfl⟩, Or.inr ⟨_, rfl⟩⟩
  · simp [Settings.positionsOnly, ExtractionSettings.usual, ExtractionSettings.keys, Settings.IsText]
  · simp [Settings.positionsOnly, ExtractionSettings.usual, SharedSettings.usual, Settings.flags,
      Settings.IsFlag]

theorem extract_delivers_data_infinite :
    let machine : Machine := ⟨fun _ => .zero, fun _ => "", 9, 9, 80⟩
    let around : Surroundings :=
      ⟨machine, fun _ => .file infiniteText.toUTF8.data.toList, "", false⟩
    let printed := (run around ["extract", "m", "--full", "--preset", "positions_only"]).out
    (∃ data, Json.read 9 printed = .ok data) ∧ ¬ Json.IsStandard printed := by
  intro machine around printed
  have htime : (machine.elapsed 0).isFinite = true := by decide +kernel
  have hsteady : machine.Steady := fun _ => htime
  have hasks : Asks around ["extract", "m", "--full", "--preset", "positions_only"]
      ⟨false, false, none, some .positionsOnly, false, .extract (Path.ofText "m") .json true none⟩
      .positionsOnly := ⟨rfl, rfl, rfl⟩
  have hvalid : Settings.positionsOnly.Valid :=
    Settings.valid_iff.mpr ⟨Settings.positionsOnly.toJson, rfl⟩
  have hfound : around.files.find (Path.ofText "m") =
      .ok (.file infiniteText.toUTF8.data.toList) := by decide +kernel
  have hread : around.files.readText (Path.ofText "m") .utf8 = .ok infiniteText := by decide +kernel
  have hsize : ∀ text, around.files.readText (Path.ofText "m") .utf8 = .ok text →
      text.utf8ByteSize < Text.lengthBound := by
    intro text htext
    obtain rfl := Except.ok.inj (hread.symm.trans htext)
    decide +kernel
  -- The load is run here: its model has a number that is not finite.
  have hinfinite : (match (Session.fresh.loadFile ⟨.positionsOnly, none, machine⟩ around.files
      (Path.ofText "m") .utf8).1 with
      | .finished load => load.result.model.any fun m => !m.numbers.all Binary64.isFinite
      | .aborted .. => false) = true := by decide +kernel
  obtain ⟨load, text, hload, hdelivers, hdata, hstandard⟩ :=
    extract_delivers_data positionsOnly_declared hvalid around hsteady _ hfound hsize true
  obtain rfl : printed = text := (hdelivers none (by simp)).2 _ hasks rfl
  refine ⟨⟨_, hdata 9 (by decide)⟩, fun h => ?_⟩
  rw [hload] at hinfinite
  cases hmodel : load.result.model with
  | none => simp [hmodel] at hinfinite
  | some m =>
      have hall := List.all_eq_true.mpr (hstandard.mp h rfl m hmodel)
      simp [hmodel, hall] at hinfinite

end CommandLine

end MeshMarkup
