import MeshMarkup.Proofs.Loading.Stages
import MeshMarkup.Proofs.Mesh.Document
import MeshMarkup.Proofs.Mesh.Packing

namespace MeshMarkup

open MeshArrays (CornerAt cornerSet corners Unresolved Dangles)

/-- A complete group of three indices has one that is not below the length of its array. -/
def Model.Overruns (m : Model) : Prop :=
  ∃ k position normal coordinates, m.indices[3 * k]? = some position ∧
    m.indices[3 * k + 1]? = some normal ∧ m.indices[3 * k + 2]? = some coordinates ∧
    (m.positions.length ≤ position ∨ m.normals.length ≤ normal ∨
      m.coordinates.length ≤ coordinates)

/-- There are more distinct groups of three indices than sixteen bits can number. -/
def Model.Crowded (m : Model) : Prop := 2 ^ 16 < (cornerSet m.indexStream).ncard

theorem dangles_natCast {α : Type} {entries : List α} {index : Nat} :
    Dangles entries (index : Int) ↔ entries.length ≤ index := by
  rw [Dangles]
  omega

theorem Model.vertices?_eq_none {m : Model} : m.vertices? = none ↔ m.Overruns := by
  have hentry (k : Nat) (n : Int) : m.indexStream[k]? = some n ↔
      ∃ index : Nat, m.indices[k]? = some index ∧ (index : Int) = n := by
    rw [indexStream, List.getElem?_map, Option.map_eq_some_iff]
    rfl
  rw [Model.vertices?, MeshArrays.vertices?_eq_none]
  simp only [CornerAt, hentry]
  constructor
  · rintro ⟨k, ⟨_, _, _⟩, ⟨⟨p, hp, rfl⟩, ⟨n, hn, rfl⟩, ⟨c, hc, rfl⟩⟩, hout⟩
    simp only [Unresolved, dangles_natCast] at hout
    exact ⟨k, p, n, c, hp, hn, hc, hout⟩
  · rintro ⟨k, p, n, c, hp, hn, hc, hout⟩
    refine ⟨k, (p, n, c), ⟨⟨p, hp, rfl⟩, ⟨n, hn, rfl⟩, ⟨c, hc, rfl⟩⟩, ?_⟩
    simpa only [Unresolved, dangles_natCast] using hout

theorem Model.indexed?_eq_none {m : Model} : m.indexed? = none ↔ m.Overruns ∨ m.Crowded := by
  rw [Model.indexed?, MeshArrays.indexed?_eq_none, ← Model.vertices?, Model.vertices?_eq_none,
    Crowded]

def Diagnostic.BlamesIndices (d : Diagnostic) : Prop :=
  d.severity = .error ∧ d.message = Load.badIndexMessage

namespace Load

variable {load : Load} {id : Option String} {time : Binary64}

theorem not_blames_of_severity {d : Diagnostic} (h : d.severity ≠ .error) : ¬ d.BlamesIndices :=
  fun hblames => h hblames.1

theorem missingReport_not_blames (array : MissingArray) (id : Option String) :
    ¬ (missingReport array id).BlamesIndices := by
  have hmessage : array.message ≠ badIndexMessage := by cases array <;> decide
  exact fun hblames => hmessage hblames.2

theorem gaps_not_blames (model : Model) (id : Option String) :
    ∀ d ∈ gaps model id, ¬ d.BlamesIndices := by
  have hsplit : ∀ d ∈ gaps model id, d.severity = .warning ∨ d.severity = .info := by
    rw [gaps]
    cases model.coordinates.isEmpty <;> cases model.hasTransform <;> simp
  intro d hd
  rcases hsplit d hd with h | h
  · exact not_blames_of_severity (by simp [h])
  · exact not_blames_of_severity (by simp [h])

def packReports (s : PackingSettings) (model : Model) (id : Option String) : List Diagnostic :=
  if s.packOnLoad.truthy then
    if s.deduplicateVertices.truthy then packingReport model id model.indexed?
    else packingReport model id model.vertices?
  else []

theorem exists_packingReport_blames {α : Type} {model : Model} {id : Option String}
    {buffer : Option α} :
    (∃ d ∈ packingReport model id buffer, d.BlamesIndices) ↔ buffer = none := by
  cases buffer with
  | none => simp [packingReport, Diagnostic.BlamesIndices]
  | some buffer => simp [packingReport]

theorem exists_packReports_blames {s : PackingSettings} {model : Model} {id : Option String} :
    (∃ d ∈ packReports s model id, d.BlamesIndices) ↔ s.packOnLoad.truthy = true ∧
      (model.Overruns ∨ s.deduplicateVertices.truthy = true ∧ model.Crowded) := by
  rw [packReports]
  cases s.packOnLoad.truthy with
  | false => simp
  | true =>
      cases s.deduplicateVertices.truthy with
      | false => simp [exists_packingReport_blames, Model.vertices?_eq_none]
      | true => simp [exists_packingReport_blames, Model.indexed?_eq_none]

/-- A load ends without a model and without a report on its indices, or with a model and the
reports on its gaps and its buffer. -/
inductive PackedEnd (s : PackingSettings) (r : LoadResult) : Prop
  | unmodelled (hmodel : r.model = none) (hquiet : ∀ d ∈ r.diagnostics, ¬ d.BlamesIndices)
  | modelled {model : Model} (hmodel : r.model = some model)
      (hreports : r.diagnostics = gaps model r.correlationId ++
        packReports s model r.correlationId)

theorem State.diagnostics {found : Findings} {breakdown : Option Breakdown}
    (h : load.State id found breakdown) : load.result.diagnostics = found.diagnostics :=
  congrArg Findings.diagnostics h.found

theorem State.ends_unmodelled {found : Findings} {breakdown : Option Breakdown}
    (h : load.State id found breakdown) (hmodel : found.model = none)
    (hquiet : ∀ d ∈ found.diagnostics, ¬ d.BlamesIndices) (s : PackingSettings) :
    PackedEnd s load.result :=
  .unmodelled (h.model.trans hmodel) (h.diagnostics ▸ hquiet)

theorem State.ends_broken {found : Findings} {cause : Breakdown}
    (h : load.State id found (some cause)) (hmodel : found.model = none)
    (hquiet : found.diagnostics = []) (s : PackingSettings) :
    PackedEnd s (load.pack time s).recovered.completed.result := by
  refine ((h.pack_nothing hmodel s).recovered_some.completed).ends_unmodelled hmodel ?_ s
  simp only [hquiet, List.nil_append, List.forall_mem_singleton]
  exact not_blames_of_severity (by simp)

theorem State.ends_reported {found : Findings} (h : load.State id found none)
    (hmodel : found.model = none) (hquiet : ∀ d ∈ found.diagnostics, ¬ d.BlamesIndices)
    (s : PackingSettings) : PackedEnd s (load.pack time s).recovered.completed.result :=
  (h.pack_nothing hmodel s).recovered_none.completed.ends_unmodelled hmodel hquiet s

theorem State.ends_modelled {document : Node} {model : Model}
    (h : load.State id
      { Findings.nothing with
        document := some document
        model := some model
        diagnostics := gaps model id } none) (s : PackingSettings) :
    PackedEnd s (load.pack time s).recovered.completed.result := by
  have hpacked : ∃ found, (load.pack time s).State id found none ∧ found.model = some model ∧
      found.diagnostics = gaps model id ++ packReports s model id := by
    rw [Load.pack, h.model, packReports]
    simp only
    split
    · split
      · next hindexed => exact ⟨_, h.packed_indexed rfl hindexed, rfl, rfl⟩
      · next hplain => exact ⟨_, h.packed_plain rfl (Bool.eq_false_iff.mpr hplain), rfl, rfl⟩
    · exact ⟨_, h, rfl, (List.append_nil _).symm⟩
  obtain ⟨found, hfound, hmodel, hreports⟩ := hpacked
  have hend := hfound.recovered_none.completed
  refine .modelled (hend.model.trans hmodel) ?_
  rw [hend.diagnostics, hend.id, hreports]

theorem State.ends_extracted {document : Node}
    (h : load.State id { Findings.nothing with document := some document } none) (m : Machine)
    (s : Settings) :
    PackedEnd s.packing (load.afterParsing m s).recovered.completed.result := by
  simp only [Load.afterParsing]
  rw [Load.extract, h.document]
  simp only
  split
  · next model _ => exact (h.withModel model).ends_modelled s.packing
  · next array _ =>
      refine (h.withoutArray array).ends_reported rfl ?_ s.packing
      simp only [Findings.nothing, List.nil_append, List.forall_mem_singleton]
      exact missingReport_not_blames array id
  · next kind _ =>
      have hbroken : ({ load.extractionTimed (m.elapsed load.readings) with
          breakdown := some (.unusableKey kind) } : Load).State id
          { Findings.nothing with document := some document } (some (.unusableKey kind)) :=
        ⟨h.id, h.found, rfl⟩
      exact hbroken.ends_broken rfl rfl s.packing

theorem State.ends_ofText (h : load.State id .nothing none) (m : Machine) (s : Settings)
    (text : String) : PackedEnd s.packing (Load.ofText m s load text).result := by
  have hstarted := h.started text
  have hcritical (message : String) : ∀ d ∈ [grammarReport message id], ¬ d.BlamesIndices := by
    rw [List.forall_mem_singleton]
    exact not_blames_of_severity (by simp [grammarReport])
  rw [Load.ofText]
  split
  · refine (hstarted.rejected _).ends_unmodelled rfl ?_ s.packing
    simp only [Findings.nothing, List.nil_append, List.forall_mem_singleton]
    exact not_blames_of_severity (by simp [limitReport])
  · rcases hstarted.parse _ (s.documentGrammar m) text with
      ⟨-, h⟩ | ⟨-, h⟩ | ⟨-, h⟩ | ⟨document, -, h⟩
    · exact (h.extract_nothing rfl _).ends_broken rfl rfl s.packing
    · exact (h.extract_nothing rfl _).ends_reported rfl (hcritical _) s.packing
    · exact (h.extract_nothing rfl _).ends_reported rfl (hcritical _) s.packing
    · exact h.ends_extracted m s

theorem PackedEnd.exists_blames {s : PackingSettings} {r : LoadResult} (h : PackedEnd s r) :
    (∃ d ∈ r.diagnostics, d.BlamesIndices) ↔ s.packOnLoad.truthy = true ∧
      ∃ model, r.model = some model ∧
        (model.Overruns ∨ s.deduplicateVertices.truthy = true ∧ model.Crowded) := by
  cases h with
  | unmodelled hmodel hquiet =>
      constructor
      · rintro ⟨d, hd, hblames⟩
        exact absurd hblames (hquiet d hd)
      · rintro ⟨-, model, hsome, -⟩
        rw [hmodel] at hsome
        nomatch hsome
  | @modelled model hmodel hreports =>
      have hgaps : ¬ ∃ d ∈ gaps model r.correlationId, d.BlamesIndices := by
        rintro ⟨d, hd, hblames⟩
        exact gaps_not_blames model _ d hd hblames
      simp only [hreports, List.mem_append, or_and_right, exists_or, hgaps, false_or, hmodel,
        Option.some.injEq, exists_eq_left', exists_packReports_blames]

end Load

/-- A mesh with a corner for each of some first pairs of a position and a normal. -/
def grid (positions normals count : Nat) : MeshRows where
  positions := List.replicate (positions * 3) (.ofNat 0)
  normals := List.replicate (normals * 3) (.ofNat 0)
  coordinates := [.ofNat 0, .ofNat 0]
  indices := (List.range count).flatMap fun n =>
    [.ofNat (n / normals), .ofNat (n % normals), .ofNat 0]

def gridCorner (normals n : Nat) : Corner := ((n / normals : Nat), (n % normals : Nat), (0 : Nat))

theorem gridCorner_injective (normals : Nat) : Function.Injective (gridCorner normals) := by
  intro n k h
  simp only [gridCorner, Prod.mk.injEq, Nat.cast_inj, and_true] at h
  rw [← Nat.div_add_mod n normals, ← Nat.div_add_mod k normals, h.1, h.2]

theorem length_triples_replicate (n : Nat) (x : Binary64) :
    (triples (List.replicate (n * 3) x)).length = n := by
  rw [(grouped_triples _).length, List.length_replicate, Nat.mul_div_cancel _ (by decide)]

theorem grid_writable {positions normals count : Nat} (hpositions : 0 < positions)
    (hnormals : 0 < normals) (hcount : 0 < count) : (grid positions normals count).Writable where
  positions := by
    refine writable_of_natural ?_ fun x hx => ⟨0, List.eq_of_mem_replicate hx⟩
    rw [grid, Ne, List.replicate_eq_nil_iff]
    omega
  normals := by
    refine writable_of_natural ?_ fun x hx => ⟨0, List.eq_of_mem_replicate hx⟩
    rw [grid, Ne, List.replicate_eq_nil_iff]
    omega
  coordinates :=
    writable_of_natural (List.cons_ne_nil _ _) fun x hx => ⟨0, by simpa [grid] using hx⟩
  indices := by
    refine writable_of_natural ?_ fun x hx => ?_
    · have hfirst : .ofNat (0 / normals) ∈ (grid positions normals count).indices :=
        List.mem_flatMap.mpr ⟨0, List.mem_range.mpr hcount, List.mem_cons_self⟩
      exact List.ne_nil_of_mem hfirst
    · obtain ⟨n, -, hx⟩ := List.mem_flatMap.mp hx
      simp only [List.mem_cons, List.not_mem_nil, or_false] at hx
      rcases hx with rfl | rfl | rfl <;> exact ⟨_, rfl⟩

section Grid

variable {positions normals count : Nat} (hcount : count ≤ positions * normals)
include hcount

theorem grid_pair_lt {n : Nat} (hn : n ∈ List.range count) :
    n / normals < positions ∧ n % normals < normals := by
  have hlt : n < positions * normals := Nat.lt_of_lt_of_le (List.mem_range.mp hn) hcount
  exact ⟨Nat.div_lt_of_lt_mul (Nat.mul_comm _ _ ▸ hlt), Nat.mod_lt _ (Nat.pos_of_lt_mul_left hlt)⟩

variable (hpositions : positions ≤ maxIndex) (hnormals : normals ≤ maxIndex)
include hpositions hnormals

theorem corners_grid : corners (grid positions normals count).model.indexStream =
    (List.range count).map (gridCorner normals) := by
  have hindex : ∀ n ∈ List.range count,
      [Binary64.ofNat (n / normals), .ofNat (n % normals), .ofNat 0].map (Int.ofNat ∘ toIndex) =
        [(gridCorner normals n).1, (gridCorner normals n).2.1, (gridCorner normals n).2.2] := by
    intro n hn
    obtain ⟨hposition, hnormal⟩ := grid_pair_lt hcount hn
    simp [gridCorner, toIndex_ofNat (hposition.le.trans hpositions),
      toIndex_ofNat (hnormal.le.trans hnormals), toIndex_ofNat (Nat.zero_le maxIndex)]
  rw [← MeshArrays.corners_flatMap, Model.indexStream, MeshRows.model, grid, List.map_map,
    List.map_flatMap]
  exact congrArg corners (List.flatMap_congr hindex)

theorem ncard_grid : (cornerSet (grid positions normals count).model.indexStream).ncard = count := by
  have hdistinct : ((List.range count).map (gridCorner normals)).Nodup :=
    List.nodup_range.map (gridCorner_injective normals)
  rw [MeshArrays.ncard_cornerSet, corners_grid hcount hpositions hnormals,
    List.toFinset_card_of_nodup hdistinct, List.length_map, List.length_range]

theorem grid_not_overruns : ¬ (grid positions normals count).model.Overruns := by
  have hpositionCount : (grid positions normals count).model.positions.length = positions :=
    length_triples_replicate positions _
  have hnormalCount : (grid positions normals count).model.normals.length = normals :=
    length_triples_replicate normals _
  have hcoordinateCount : (grid positions normals count).model.coordinates.length = 1 := rfl
  rw [← Model.vertices?_eq_none, Model.vertices?, MeshArrays.vertices?_eq_none]
  rintro ⟨k, corner, hcorner, hout⟩
  have hmem := MeshArrays.mem_corners.mpr ⟨k, hcorner⟩
  rw [corners_grid hcount hpositions hnormals] at hmem
  obtain ⟨n, hn, rfl⟩ := List.mem_map.mp hmem
  obtain ⟨hposition, hnormal⟩ := grid_pair_lt hcount hn
  simp only [Unresolved, gridCorner, dangles_natCast, hpositionCount, hnormalCount,
    hcoordinateCount] at hout
  omega

end Grid

/-- The written document of a mesh is loaded as that mesh. -/
theorem loadText_rows {r : MeshRows} (h : r.Writable) {loader : Loader}
    (hdeclared : loader.settings.Declared) (hlimit : loader.settings.shared.maxInputBytes = .null)
    (hextraction : loader.settings.extraction = .usual)
    (hnesting : 7 ≤ loader.machine.documentNesting) (session : Session) (source : Option String) :
    (session.loadText loader (String.ofList (r.document.written [] 0)) source).1.result.model =
      some r.model := by
  have hmodelled : Modelled loader.machine loader.settings
      (String.ofList (r.document.written [] 0)) r.document r.model := by
    refine ⟨fun n hn => ?_, MeshRows.parse_document h hnesting, ?_⟩
    · rw [hlimit] at hn
      cases hn
    · rw [hextraction]
      exact MeshRows.model_document r
  have hnew := Load.State.fresh source (session.drawId loader).1 (session.drawId loader).2.readings
  obtain ⟨found, _, hload, hcomposed | ⟨hbreaks, -⟩⟩ :=
    ofText_composed loader.machine hdeclared hnew (String.ofList (r.document.written [] 0))
  · exact hload.model.trans (hcomposed.model_eq hmodelled)
  · cases hbreaks.broken.symm.trans hmodelled.parsed

theorem loadText_blames_crowded {r : MeshRows} (h : r.Writable) (hcrowded : r.model.Crowded)
    {loader : Loader} (hdeclared : loader.settings.Declared)
    (hlimit : loader.settings.shared.maxInputBytes = .null)
    (hextraction : loader.settings.extraction = .usual)
    (hpacking : loader.settings.packing = ⟨.bool true, .bool true⟩)
    (hnesting : 7 ≤ loader.machine.documentNesting) (session : Session) (source : Option String) :
    let text := String.ofList (r.document.written [] 0)
    ∃ d ∈ (session.loadText loader text source).1.result.diagnostics,
      d.severity = .error ∧ d.message = Load.badIndexMessage := by
  have hnew := Load.State.fresh source (session.drawId loader).1 (session.drawId loader).2.readings
  have hmodel := loadText_rows h hdeclared hlimit hextraction hnesting session source
  refine (hnew.ends_ofText loader.machine loader.settings _).exists_blames.mpr ?_
  rw [hpacking]
  exact ⟨rfl, _, hmodel, Or.inr ⟨rfl, hcrowded⟩⟩

def indexingLoader : Loader where
  settings := { Settings.usual with packing := ⟨.bool true, .bool true⟩ }
  correlationId := none
  machine := ⟨fun n => .ofNat n, fun _ => "", 9, 9, 80⟩

/-- A load reports an index stream that points outside the arrays just when it packs a model whose
stream does so, or when it packs without repetition and there are too many distinct corners. -/
theorem loadText_blames_indices (loader : Loader) (session : Session) (text : String)
    (source : Option String) :
    let result := (session.loadText loader text source).1.result
    (∃ d ∈ result.diagnostics, d.severity = .error ∧ d.message = Load.badIndexMessage) ↔
      loader.settings.packing.packOnLoad.truthy = true ∧
        ∃ model, result.model = some model ∧
          (model.Overruns ∨
            loader.settings.packing.deduplicateVertices.truthy = true ∧ model.Crowded) := by
  have hnew := Load.State.fresh source (session.drawId loader).1 (session.drawId loader).2.readings
  exact (hnew.ends_ofText loader.machine loader.settings text).exists_blames

/-- A mesh with one corner too many is reported when it is packed without repetition, though none
of its indices points outside its array. -/
theorem grid_blames_indices :
    let text := String.ofList ((grid 257 256 65537).document.written [] 0)
    let result := (Session.fresh.loadText indexingLoader text none).1.result
    (∃ d ∈ result.diagnostics, d.severity = .error ∧ d.message = Load.badIndexMessage) ∧
      ∃ model, result.model = some model ∧ ¬ model.Overruns := by
  have hwritable : (grid 257 256 65537).Writable :=
    grid_writable (by decide) (by decide) (by decide)
  have hcrowded : (grid 257 256 65537).model.Crowded := by
    rw [Model.Crowded, ncard_grid (by decide) (by decide) (by decide)]
    decide
  have hinside : ¬ (grid 257 256 65537).model.Overruns :=
    grid_not_overruns (by decide) (by decide) (by decide)
  have hdeclared : indexingLoader.settings.Declared :=
    Settings.usual_declared.withPacking ⟨true, rfl⟩ ⟨true, rfl⟩
  generalize grid 257 256 65537 = r at hwritable hcrowded hinside ⊢
  exact ⟨loadText_blames_crowded hwritable hcrowded hdeclared rfl rfl rfl (by decide) _ _,
    _, loadText_rows hwritable hdeclared rfl rfl (by decide) _ _, hinside⟩

end MeshMarkup
