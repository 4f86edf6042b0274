import MeshMarkup.Json.Value

namespace MeshMarkup

structure Metrics where
  parseTime : Binary64
  extractionTime : Binary64
  characters : Int
  elements : Int
  depth : Int
  vertices : Int

namespace Metrics

def zero : Metrics := ⟨.zero, .zero, 0, 0, 0, 0⟩

def totalTime (m : Metrics) : Binary64 := m.parseTime.add m.extractionTime

/-- Characters parsed in a second, or zero where no time was taken. There is no such figure when
the number of characters exceeds every finite one. -/
def charactersPerSecond? (m : Metrics) : Option Binary64 :=
  if m.parseTime.le .zero then some .zero
  else (Binary64.ofInt? m.characters).map fun count => (count.mul (.ofNat 1000)).div m.parseTime

def toJson (m : Metrics) : Json :=
  .object
    [("parse_time_ms", .number m.parseTime), ("extraction_time_ms", .number m.extractionTime),
     ("characters_processed", .integer m.characters), ("element_count", .integer m.elements),
     ("max_depth", .integer m.depth), ("vertex_count", .integer m.vertices)]

end Metrics

end MeshMarkup
