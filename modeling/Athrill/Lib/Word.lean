import Mathlib.Data.BitVec

/-!
# Fixed-width words

Unsigned words are `BitVec w`, ordered by their values.
-/

namespace BitVec

variable {w : Nat}

instance instLinearOrder : LinearOrder (BitVec w) where
  le_refl _ := Nat.le_refl _
  le_trans _ _ _ := BitVec.le_trans
  lt_iff_le_not_ge a b := by simp only [lt_def, le_def]; omega
  le_antisymm _ _ := BitVec.le_antisymm
  le_total := BitVec.le_total
  toDecidableLE := inferInstance
  toDecidableLT := inferInstance
  toDecidableEq := inferInstance

theorem toNat_add_cases (x y : BitVec w) :
    (x + y).toNat = x.toNat + y.toNat ∧ x.toNat + y.toNat < 2 ^ w ∨
      (x + y).toNat + 2 ^ w = x.toNat + y.toNat := by
  have hx := x.isLt
  have hy := y.isLt
  rw [toNat_add]
  rcases Nat.lt_or_ge (x.toNat + y.toNat) (2 ^ w) with h | h
  · exact .inl ⟨Nat.mod_eq_of_lt h, h⟩
  · right
    rw [Nat.mod_eq_sub_mod h, Nat.mod_eq_of_lt (by omega)]
    omega

end BitVec
