import MeshMarkup.Proofs.Json.RoundTrip
import MeshMarkup.Proofs.Settings.Valid

namespace MeshMarkup.Settings

open Json (Legible)

section Legible

variable {levels : Nat} {value : Json} {s : Settings}

theorem IsFlag.legible (h : IsFlag value) : Legible levels value := by
  obtain ⟨flag, rfl⟩ := h
  exact .bool flag

theorem IsText.legible (h : IsText value) : Legible levels value := by
  obtain ⟨content, rfl⟩ := h
  exact .text content

variable (hdeclared : s.Declared) (hvalid : s.Valid)
  (hlimit : ∀ n, s.shared.maxInputBytes = .integer n → n < 10 ^ Json.integerDigitLimit)

include hdeclared hvalid hlimit

end Legible

def escaped : Settings where
  grammar := ⟨true, false⟩
  extraction := ⟨.text "\"\\\n", .text "\x00", .text "é😀", .bool false, .bool true⟩
  packing := ⟨.bool true, .bool true⟩
  shared := ⟨.critical, .bool false, .integer 1⟩
  name := .text ""
  description := .null

end MeshMarkup.Settings
