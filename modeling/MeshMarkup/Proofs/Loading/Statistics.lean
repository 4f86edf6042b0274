import MeshMarkup.Loading.Session

namespace MeshMarkup.Session

inductive Step where
  | text (text : String) (source : Option String)
  | file (files : FileView) (path : Path) (encoding : Text.Encoding)
  | encodedFile (files : FileView) (path : Path) (encoding : String)
  | reset

inductive Event where
  | returned (load : Load)
  | ended (log : List LogRecord)
  | reset

def Event.ofFile {ε : Type} : FileLoad ε → Event
  | .finished load => .returned load
  | .aborted log _ => .ended log

def take (loader : Loader) (s : Session) : Step → Event × Session
  | .text text source => ((s.loadText loader text source).map .returned id)
  | .file files path encoding => ((s.loadFile loader files path encoding).map .ofFile id)
  | .encodedFile files path encoding => ((s.loadEncoded loader files path encoding).map .ofFile id)
  | .reset => (.reset, s.resetStatistics)

def run (loader : Loader) : Session → List Step → List Event × Session
  | s, [] => ([], s)
  | s, step :: steps =>
    let (event, s) := s.take loader step
    let (events, s) := run loader s steps
    (event :: events, s)

/-- The statistics after an event: a result that is returned is counted once, a load without a
result is not, and a reset leaves nothing. -/
inductive Counted (before : Statistics) : Event → Statistics → Prop
  | returned (load : Load) : Counted before (.returned load) (before.add load.result)
  | ended (log : List LogRecord) : Counted before (.ended log) before
  | reset : Counted before .reset .zero

theorem statistics_drawId (s : Session) (loader : Loader) :
    (s.drawId loader).2.statistics = s.statistics := by
  rw [drawId]
  cases loader.correlationId with
  | some id => rfl
  | none => cases loader.settings.shared.trackCorrelation.truthy <;> rfl

theorem loadText_counted (s : Session) (loader : Loader) (text : String) (source : Option String) :
    Counted s.statistics (.returned (s.loadText loader text source).1)
      (s.loadText loader text source).2.statistics := by
  rw [← statistics_drawId s loader]
  exact .returned _

theorem loadFile_counted (s : Session) (loader : Loader) (files : FileView) (path : Path)
    (encoding : Text.Encoding) :
    Counted s.statistics (.ofFile (s.loadFile loader files path encoding).1)
      (s.loadFile loader files path encoding).2.statistics := by
  rw [← statistics_drawId s loader, loadFile]
  cases fileText files path encoding with
  | ok text => exact .returned _
  | error why =>
      cases why with
      | reported message => exact .returned _
      | ended cause => exact .ended _

theorem ofFile_mapCause {ε δ : Type} (f : ε → δ) (outcome : FileLoad ε) :
    Event.ofFile (outcome.mapCause f) = Event.ofFile outcome := by
  cases outcome <;> rfl

theorem loadEncoded_counted (s : Session) (loader : Loader) (files : FileView) (path : Path)
    (encoding : String) :
    Counted s.statistics (.ofFile (s.loadEncoded loader files path encoding).1)
      (s.loadEncoded loader files path encoding).2.statistics := by
  rw [loadEncoded]
  split
  · rw [← statistics_drawId s loader]
    exact .ended _
  · rw [ofFile_mapCause]
    exact loadFile_counted ..

theorem take_counted (loader : Loader) (s : Session) (step : Step) :
    Counted s.statistics (s.take loader step).1 (s.take loader step).2.statistics := by
  cases step with
  | text text source => exact loadText_counted ..
  | file files path encoding => exact loadFile_counted ..
  | encodedFile files path encoding => exact loadEncoded_counted ..
  | reset => exact .reset

def Event.result? : Event → Option LoadResult
  | .returned load => some load.result
  | _ => none

def Event.isReset : Event → Bool
  | .reset => true
  | _ => false

def sinceReset (events : List Event) : List LoadResult :=
  (events.reverse.takeWhile (!·.isReset)).reverse.filterMap Event.result?

theorem sinceReset_returned (events : List Event) (load : Load) :
    sinceReset (events ++ [.returned load]) = sinceReset events ++ [load.result] := by
  rw [sinceReset, List.reverse_concat, List.takeWhile_cons_of_pos rfl, List.reverse_cons,
    List.filterMap_append]
  rfl

theorem sinceReset_ended (events : List Event) (log : List LogRecord) :
    sinceReset (events ++ [.ended log]) = sinceReset events := by
  rw [sinceReset, List.reverse_concat, List.takeWhile_cons_of_pos rfl, List.reverse_cons,
    List.filterMap_append]
  exact List.append_nil _

theorem sinceReset_reset (events : List Event) : sinceReset (events ++ [.reset]) = [] := by
  rw [sinceReset, List.reverse_concat, List.takeWhile_cons_of_neg (by decide)]
  rfl

def tally (results : List LoadResult) : Statistics where
  loads := results.length
  successes := results.countP (·.success)
  failures := results.countP (!·.success)
  totalTime := results.foldl (fun total r => total.add r.metrics.totalTime) .zero
  characters := results.foldl (fun total r => total + r.metrics.characters) 0

theorem tally_concat (results : List LoadResult) (r : LoadResult) :
    tally (results ++ [r]) = (tally results).add r := by
  cases hsuccess : r.success <;>
    simp [tally, Statistics.add, List.countP_append, hsuccess]

theorem Counted.tally_eq {events : List Event} {event : Event} {after : Statistics}
    (h : Counted (tally (sinceReset events)) event after) :
    after = tally (sinceReset (events ++ [event])) := by
  cases h with
  | returned load => rw [sinceReset_returned, tally_concat]
  | ended log => rw [sinceReset_ended]
  | reset =>
      rw [sinceReset_reset]
      rfl

/-- The statistics of a session stay those of the results since the last reset, over any run. -/
theorem run_tally (loader : Loader) {s : Session} {done : List Event}
    (h : s.statistics = tally (sinceReset done)) (steps : List Step) :
    (s.run loader steps).2.statistics = tally (sinceReset (done ++ (s.run loader steps).1)) := by
  induction steps generalizing s done with
  | nil => simpa [run] using h
  | cons step steps ih =>
      have hstep := take_counted loader s step
      rw [h] at hstep
      have hlater := ih hstep.tally_eq
      rwa [List.append_assoc] at hlater

theorem tally_loads (results : List LoadResult) :
    (tally results).loads = (tally results).successes + (tally results).failures := by
  have h := List.length_eq_countP_add_countP (l := results) fun r => r.success
  simpa [tally] using h

/-- The statistics after any run of a new session. -/
theorem statistics_run (loader : Loader) (steps : List Step) :
    let results := sinceReset (fresh.run loader steps).1
    let statistics := (fresh.run loader steps).2.statistics
    statistics.loads = results.length ∧
      statistics.successes = results.countP (·.success) ∧
      statistics.failures = results.countP (!·.success) ∧
      statistics.loads = statistics.successes + statistics.failures ∧
      statistics.characters = results.foldl (fun total r => total + r.metrics.characters) 0 ∧
      statistics.totalTime = results.foldl (fun total r => total.add r.metrics.totalTime) .zero ∧
      statistics.averageTime =
        if results.length = 0 then .zero else statistics.totalTime.div (.ofNat results.length) := by
  intro results statistics
  have hnew : fresh.statistics = tally (sinceReset []) := rfl
  have hrun : statistics = tally results := run_tally loader hnew steps
  rw [hrun]
  exact ⟨rfl, rfl, rfl, tally_loads results, rfl, rfl, rfl⟩

end MeshMarkup.Session
