import Athrill.Lib.Bytes

/-!
# LEB128 numbers

A number as bytes of seven bits each, the lowest first, where every byte but the last has its high bit set.
-/

namespace Leb128

def IsLeb : List UInt8 → Prop
  | [] => False
  | b :: bs => if b.toNat < 128 then bs = [] else IsLeb bs

instance IsLeb.instDecidable : (bytes : List UInt8) → Decidable (IsLeb bytes)
  | [] => inferInstanceAs (Decidable False)
  | b :: bs =>
    have := IsLeb.instDecidable bs
    inferInstanceAs (Decidable (if b.toNat < 128 then bs = [] else IsLeb bs))

def value : List UInt8 → Nat
  | [] => 0
  | b :: bs => b.toNat % 128 + 128 * value bs

def svalue (bytes : List UInt8) : Int :=
  if (bytes.getLastD 0).toNat % 128 < 64 then value bytes
  else value bytes - (128 ^ bytes.length : Nat)

theorem IsLeb.length_pos {bytes : List UInt8} (h : IsLeb bytes) : 0 < bytes.length := by
  cases bytes with
  | nil => exact h.elim
  | cons b bs => exact Nat.succ_pos _

theorem value_lt (bytes : List UInt8) : value bytes < 128 ^ bytes.length := by
  induction bytes with
  | nil => exact Nat.zero_lt_one
  | cons b bs ih =>
    have hb : b.toNat % 128 < 128 := Nat.mod_lt _ (by decide)
    rw [value, List.length_cons, Nat.pow_succ]
    omega

theorem value_take (bytes : List UInt8) (n : Nat) :
    value (bytes.take n) = value bytes % 128 ^ n := by
  induction bytes generalizing n with
  | nil => simp [value]
  | cons b bs ih =>
    cases n with
    | zero => simp [value, Nat.mod_one]
    | succ n =>
      have hb : b.toNat % 128 < 128 := Nat.mod_lt _ (by decide)
      rw [List.take_succ_cons, value, value, ih, Nat.pow_succ, Nat.mul_comm (128 ^ n), Nat.mod_mul,
        Nat.add_mul_mod_self_left, Nat.mod_eq_of_lt hb, Nat.add_mul_div_left _ _ (by decide),
        Nat.div_eq_of_lt hb, Nat.zero_add]

end Leb128
