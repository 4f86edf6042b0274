import Mathlib.Data.List.Nodup
import Mathlib.Data.Set.Operations
import Mathlib.Data.Nat.Basic
import Mathlib.Order.Interval.Set.Defs
import MeshMarkup.Proofs.Except
import MeshMarkup.Proofs.Loading.Statistics

namespace MeshMarkup

/-- Everything that a load leaves carries one id. -/
structure Load.Carries (load : Load) (id : Option String) : Prop where
  result : load.result.correlationId = id
  diagnostics : ∀ d ∈ load.result.diagnostics, d.correlationId = id
  log : ∀ r ∈ load.log, r.correlationId = optionalText id

namespace Load

variable {load : Load} {id : Option String} {time : Binary64}

theorem Carries.fresh (source id : Option String) (readings : Nat) :
    (Load.fresh source id readings).Carries id :=
  ⟨rfl, List.forall_mem_nil _, List.forall_mem_nil _⟩

theorem Carries.setMetrics (h : load.Carries id) (change : Metrics → Metrics) :
    (load.setMetrics change).Carries id :=
  ⟨h.result, h.diagnostics, h.log⟩

theorem Carries.timed (h : load.Carries id) : load.timed.Carries id :=
  ⟨h.result, h.diagnostics, h.log⟩

theorem Carries.report (h : load.Carries id) (severity : Severity) (message component : String)
    (details : Json) : (load.report severity message component details).Carries id := by
  refine ⟨h.result, ?_, h.log⟩
  intro d hd
  rcases List.mem_append.mp hd with hd | hd
  · exact h.diagnostics d hd
  · rw [List.mem_singleton.mp hd]
    exact h.result

/-- A record carries the id of its load, unless a field given with it replaces the id. -/
theorem Carries.noteAs (h : load.Carries id) (component : String) (severity : Severity)
    (message : String) {extra : List (String × Json)} (attached : Bool)
    (hextra : Json.member? "correlation_id" extra = none) :
    (load.noteAs component severity message extra attached).Carries id := by
  refine ⟨h.result, h.diagnostics, ?_⟩
  intro r hr
  rcases List.mem_append.mp hr with hr | hr
  · exact h.log r hr
  · rw [List.mem_singleton.mp hr]
    simp only [Logger.record, hextra, Option.getD_none, logger, h.result]

theorem Carries.note (h : load.Carries id) (severity : Severity) (message : String)
    {extra : List (String × Json)} (hextra : Json.member? "correlation_id" extra = none) :
    (load.note severity message extra).Carries id :=
  h.noteAs "load" severity message false hextra

theorem Carries.started (h : load.Carries id) (text : String) : (load.started text).Carries id :=
  (h.setMetrics _).note _ _ rfl

theorem Carries.rejected (h : load.Carries id) (limit : Json) : (load.rejected limit).Carries id :=
  (h.report ..).note _ _ rfl

theorem Carries.unparsed (h : load.Carries id) (message : String) :
    (load.unparsed time message).Carries id :=
  ((h.report ..).timed.setMetrics _).note _ _ rfl

theorem Carries.withDocument (h : load.Carries id) (document : Node) :
    (load.withDocument time document).Carries id := by
  have htimed := (h.timed.setMetrics fun m => { m with parseTime := time }).setMetrics fun m =>
    { m with elements := document.elementCount, depth := document.depth }
  rw [Load.withDocument]
  refine Carries.note ?_ _ _ rfl
  exact ⟨htimed.result, htimed.diagnostics, htimed.log⟩

theorem Carries.parse (h : load.Carries id) (time : Binary64) (g : Grammar) (text : String) :
    (load.parse time g text).Carries id := by
  unfold Load.parse
  split
  · exact ⟨h.result, h.diagnostics, h.log⟩
  · exact h.unparsed _
  · exact h.unparsed _
  · exact h.withDocument _

theorem Carries.reportGaps (h : load.Carries id) (model : Model) :
    (load.reportGaps model).Carries id := by
  rw [Load.reportGaps]
  cases model.coordinates.isEmpty <;> cases model.hasTransform
  · exact h.report ..
  · exact h
  · exact (h.report ..).report ..
  · exact h.report ..

theorem Carries.withModel (h : load.Carries id) (model : Model) :
    (load.withModel time model).Carries id := by
  have hgaps := (h.timed.setMetrics fun m => { m with extractionTime := time }).reportGaps model
  rw [Load.withModel]
  refine Carries.note ?_ _ _ rfl
  exact ⟨hgaps.result, hgaps.diagnostics, hgaps.log⟩

theorem Carries.withoutArray (h : load.Carries id) (array : MissingArray) :
    (load.withoutArray time array).Carries id := by
  rw [Load.withoutArray, extractionTimed]
  exact ((h.report ..).note _ _ rfl).timed.setMetrics _

theorem Carries.extract (h : load.Carries id) (time : Binary64) (s : ExtractionSettings) :
    (load.extract time s).Carries id := by
  rw [Load.extract]
  split
  · exact h
  · split
    · exact h.withModel _
    · exact h.withoutArray _
    · exact ⟨h.result, h.diagnostics, h.log⟩

theorem Carries.finishPacking (h : load.Carries id) (model : Model) (count : Option Nat) :
    (load.finishPacking time model count).Carries id := by
  have hpacked : (load.packed time (count.getD 0)).Carries id := h.timed.note _ _ rfl
  simp only [Load.finishPacking]
  cases count with
  | none => exact hpacked.report ..
  | some count => exact hpacked.setMetrics _

theorem Carries.packModel (h : load.Carries id) (s : PackingSettings) (model : Model) :
    (load.packModel time s model).Carries id := by
  simp only [Load.packModel]
  split
  all_goals
    apply Carries.finishPacking
    exact ⟨h.result, h.diagnostics, h.log⟩

theorem Carries.pack (h : load.Carries id) (time : Binary64) (s : PackingSettings) :
    (load.pack time s).Carries id := by
  rw [Load.pack]
  split
  · exact h
  · split
    · exact h.packModel ..
    · exact h

theorem Carries.recovered (h : load.Carries id) : load.recovered.Carries id := by
  rw [Load.recovered]
  split
  · exact h
  · exact (h.noteAs _ _ _ _ rfl).report ..

theorem Carries.completed (h : load.Carries id) : load.completed.Carries id := h.note _ _ rfl

theorem Carries.ofText (h : load.Carries id) (m : Machine) (s : Settings) (text : String) :
    (Load.ofText m s load text).Carries id := by
  have hstarted := h.started text
  rw [Load.ofText]
  split
  · exact hstarted.rejected _
  · exact (((hstarted.parse ..).extract ..).pack ..).recovered.completed

end Load

def Loader.generates (loader : Loader) : Bool :=
  loader.correlationId.isNone && loader.settings.shared.trackCorrelation.truthy

def Loader.ids (loader : Loader) (issued count : Nat) : List (Option String) :=
  match loader.correlationId with
  | some id => List.replicate count (some id)
  | none =>
    if loader.settings.shared.trackCorrelation.truthy then
      (List.range' issued count).map fun n => some (loader.machine.newId n)
    else List.replicate count none

/-- New ids are different where the machine gives different ones. -/
theorem Loader.nodup_ids {loader : Loader} (h : loader.generates = true) {issued count : Nat} :
    (loader.ids issued count).Nodup ↔
      Set.InjOn loader.machine.newId (Set.Ico issued (issued + count)) := by
  rw [generates, Bool.and_eq_true, Option.isNone_iff_eq_none] at h
  rw [ids, h.1]
  simp only [h.2, if_true]
  rw [List.nodup_map_iff_inj_on List.nodup_range']
  simp only [List.mem_range'_1, Option.some.injEq]
  exact ⟨fun hone m hm n hn => hone m hm n hn, fun hone m hm n hn => hone hm hn⟩

namespace Session

def issues (loader : Loader) : Nat := if loader.generates then 1 else 0

theorem issued_drawId (s : Session) (loader : Loader) :
    (s.drawId loader).2.issued = s.issued + issues loader := by
  rw [drawId, issues, Loader.generates]
  cases loader.correlationId with
  | some id => rfl
  | none => cases loader.settings.shared.trackCorrelation.truthy <;> rfl

theorem ids_succ (s : Session) (loader : Loader) (count : Nat) :
    loader.ids s.issued (count + 1) =
      (s.drawId loader).1 :: loader.ids (s.drawId loader).2.issued count := by
  rw [issued_drawId, issues, drawId, Loader.ids, Loader.ids, Loader.generates]
  cases loader.correlationId with
  | some id => rfl
  | none => cases loader.settings.shared.trackCorrelation.truthy <;> rfl

/-- What a load leaves carries an id, also where it ended without a result. -/
inductive Event.Carries : Event → Option String → Prop
  | returned {load : Load} {id : Option String} (h : load.Carries id) : Carries (.returned load) id
  | ended {log : List LogRecord} {id : Option String}
      (h : ∀ r ∈ log, r.correlationId = optionalText id) : Carries (.ended log) id

structure Draws (s : Session) (loader : Loader) (event : Event) (after : Session) : Prop where
  isLoad : event.isReset = false
  carries : event.Carries (s.drawId loader).1
  issued : after.issued = (s.drawId loader).2.issued

theorem loadText_draws (s : Session) (loader : Loader) (text : String) (source : Option String) :
    s.Draws loader (.returned (s.loadText loader text source).1)
      (s.loadText loader text source).2 :=
  ⟨rfl, .returned ((Load.Carries.fresh source _ _).ofText ..), rfl⟩

theorem fileStarted_carries (path : Path) (id : Option String) (readings : Nat) :
    (fileStarted path id readings).Carries id :=
  (Load.Carries.fresh _ id readings).noteAs _ _ _ _ rfl

theorem loadFile_draws (s : Session) (loader : Loader) (files : FileView) (path : Path)
    (encoding : Text.Encoding) :
    s.Draws loader (.ofFile (s.loadFile loader files path encoding).1)
      (s.loadFile loader files path encoding).2 := by
  have hstarted := fileStarted_carries path (s.drawId loader).1 (s.drawId loader).2.readings
  rw [loadFile]
  cases fileText files path encoding with
  | ok text => exact ⟨rfl, .returned (hstarted.ofText ..), rfl⟩
  | error why =>
      cases why with
      | reported message =>
          exact ⟨rfl, .returned ((hstarted.noteAs _ _ _ _ rfl).report ..), rfl⟩
      | ended cause => exact ⟨rfl, .ended hstarted.log, rfl⟩

theorem loadEncoded_draws (s : Session) (loader : Loader) (files : FileView) (path : Path)
    (encoding : String) :
    s.Draws loader (.ofFile (s.loadEncoded loader files path encoding).1)
      (s.loadEncoded loader files path encoding).2 := by
  rw [loadEncoded]
  split
  · exact ⟨rfl, .ended (fileStarted_carries path _ _).log, rfl⟩
  · rw [ofFile_mapCause]
    exact loadFile_draws ..

theorem take_draws (loader : Loader) (s : Session) (step : Step) :
    s.Draws loader (s.take loader step).1 (s.take loader step).2 ∨
      (s.take loader step).1.isReset = true ∧ (s.take loader step).2.issued = s.issued := by
  cases step with
  | text text source => exact Or.inl (loadText_draws ..)
  | file files path encoding => exact Or.inl (loadFile_draws ..)
  | encodedFile files path encoding => exact Or.inl (loadEncoded_draws ..)
  | reset => exact Or.inr ⟨rfl, rfl⟩

def loads (events : List Event) : List Event := events.filter (!·.isReset)

theorem run_draws (loader : Loader) (s : Session) (steps : List Step) :
    List.Forall₂ Event.Carries (loads (s.run loader steps).1)
      (loader.ids s.issued (loads (s.run loader steps).1).length) ∧
    (s.run loader steps).2.issued =
      s.issued + issues loader * (loads (s.run loader steps).1).length := by
  induction steps generalizing s with
  | nil =>
      have hids : loader.ids s.issued 0 = [] := by
        rw [Loader.ids]
        cases loader.correlationId with
        | some id => rfl
        | none => cases loader.settings.shared.trackCorrelation.truthy <;> rfl
      exact ⟨hids ▸ .nil, rfl⟩
  | cons step steps ih =>
      obtain ⟨hcarries, hissued⟩ := ih (s.take loader step).2
      rw [run]
      rcases take_draws loader s step with hdraws | ⟨hreset, hsame⟩
      · rw [hdraws.issued] at hcarries hissued
        have hload : (!(s.take loader step).1.isReset) = true := by rw [hdraws.isLoad]; rfl
        have hloads (events : List Event) :
            loads ((s.take loader step).1 :: events) = (s.take loader step).1 :: loads events :=
          List.filter_cons_of_pos hload
        simp only [hloads, List.length_cons, ids_succ, Nat.mul_succ]
        rw [issued_drawId] at hissued
        exact ⟨.cons hdraws.carries hcarries, by omega⟩
      · rw [hsame] at hcarries hissued
        have hload : ¬ (!(s.take loader step).1.isReset) = true := by simp [hreset]
        have hloads (events : List Event) :
            loads ((s.take loader step).1 :: events) = loads events :=
          List.filter_cons_of_neg hload
        simp only [hloads]
        exact ⟨hcarries, hissued⟩

/-- Each load of a run carries one id, wherever it ends, and where new ids are drawn each load
takes the next one, so that none is left out, and none comes twice unless the machine gives it
twice. -/
theorem run_carries (loader : Loader) (s : Session) (steps : List Step) :
    let done := loads (s.run loader steps).1
    let after := (s.run loader steps).2
    List.Forall₂ Event.Carries done (loader.ids s.issued done.length) ∧
      after.issued = s.issued + (if loader.generates then done.length else 0) ∧
      (loader.generates = true → ((loader.ids s.issued done.length).Nodup ↔
        Set.InjOn loader.machine.newId (Set.Ico s.issued after.issued))) := by
  intro done after
  obtain ⟨hcarries, hissued⟩ := run_draws loader s steps
  have hafter : after.issued = s.issued + (if loader.generates then done.length else 0) := by
    rw [hissued, issues]
    cases loader.generates <;> simp [done]
  refine ⟨hcarries, hafter, fun hgenerates => ?_⟩
  rw [hafter, hgenerates, if_pos rfl]
  exact loader.nodup_ids hgenerates

theorem run_carries_tracked :
    let newId (n : Nat) := if n = 0 then "3f" else "b0"
    let loader : Loader := ⟨.usual, none, ⟨fun n => .ofNat n, newId, 9, 9, 80⟩⟩
    let ids := [some "3f", some "b0"]
    let steps : List Step :=
      [.text "<a/>" none, .reset, .file (fun _ => .absent) (Path.ofText "b") .utf8]
    List.Forall₂ Event.Carries (loads (fresh.run loader steps).1) ids ∧ ids.Nodup := by
  intro newId loader ids steps
  obtain ⟨hcarries, -, hnodup⟩ := run_carries loader fresh steps
  have hids : loader.ids 0 2 = ids := rfl
  have hsmall : ∀ m < 2, ∀ n < 2, newId m = newId n → m = n := by decide
  have hdistinct : Set.InjOn newId (Set.Ico 0 2) := fun m hm n hn => hsmall m hm.2 n hn.2
  exact ⟨hids ▸ hcarries, hids ▸ (hnodup rfl).mpr hdistinct⟩

end Session

end MeshMarkup
