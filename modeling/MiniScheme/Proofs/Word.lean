import Mathlib.Data.Int.ModEq

namespace MiniScheme

/-- The representative of an exact number modulo `2 ^ 64`. -/
structure Represents (n : Int64) (z : ℤ) : Prop where
  le : -2 ^ 63 ≤ n.toInt
  lt : n.toInt < 2 ^ 63
  modEq : n.toInt ≡ z [ZMOD 2 ^ 64]

theorem represents_ofInt (z : ℤ) : Represents (Int64.ofInt z) z := by
  refine ⟨Int64.le_toInt _, Int64.toInt_lt _, ?_⟩
  rw [Int64.toInt_ofInt]
  exact Int.bmod_emod

namespace Represents

variable {m n : Int64} {z : ℤ}

/-- There is only one such number among all integers. -/
theorem eq_toInt_iff (h : Represents n z) (k : ℤ) :
    k = n.toInt ↔ -2 ^ 63 ≤ k ∧ k < 2 ^ 63 ∧ k ≡ z [ZMOD 2 ^ 64] := by
  constructor
  · rintro rfl
    exact ⟨h.le, h.lt, h.modEq⟩
  · intro hk
    obtain ⟨hkle, hklt, hkz⟩ := hk
    have hmod : k ≡ n.toInt [ZMOD 2 ^ 64] := hkz.trans h.modEq.symm
    have hle := h.le
    have hlt := h.lt
    rw [Int.ModEq] at hmod
    omega

theorem unique (hm : Represents m z) (hn : Represents n z) : m = n :=
  Int64.toInt_inj.1 ((hn.eq_toInt_iff _).2 ⟨hm.le, hm.lt, hm.modEq⟩)

end Represents

end MiniScheme
