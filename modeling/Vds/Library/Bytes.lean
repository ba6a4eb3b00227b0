import Mathlib

/-! What holds of each of the 256 bytes holds of every byte. -/

namespace Vds.Library

theorem forall_byte {P : UInt8 → Prop} (h : ∀ i : Fin 256, P (UInt8.ofNat i)) (a : UInt8) :
    P a := by
  have ha := h ⟨a.toNat, a.toNat_lt⟩
  rwa [UInt8.ofNat_toNat] at ha

end Vds.Library
