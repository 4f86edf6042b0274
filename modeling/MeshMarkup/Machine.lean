import MeshMarkup.Number.Binary64

namespace MeshMarkup

/-- What the program is given by the machine that it runs on. -/
structure Machine where
  /-- The readings of the clock, in seconds, in the order in which they are taken. -/
  reading : Nat → Binary64
  /-- The new ids, in the order in which they are drawn. -/
  newId : Nat → String
  /-- How deep documents may be nested in one another before the machine gives up. -/
  documentNesting : Nat
  dataNesting : Nat
  /-- The length of the longest text that fits into memory. -/
  memory : Nat

def Machine.elapsed (m : Machine) (n : Nat) : Binary64 :=
  ((m.reading (n + 1)).sub (m.reading n)).mul (.ofNat 1000)

end MeshMarkup
