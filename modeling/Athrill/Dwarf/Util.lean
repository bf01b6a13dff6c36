import Athrill.Lib.Leb128
import Athrill.StdTypes

/-!
# Reading debug sections (`lib/dwarf/elf_dwarf_util.c`, `elf_get_data*` of `elf_section.c`)

A pointer into a section is the list of bytes from there on. Main result: `elf_dwarf_decode_leb128_iff`.
-/

namespace Athrill

open Bytes Leb128 List

/-! ## Numbers of a fixed size -/

def elfGetData (n : Nat) (addr : List UInt8) (off : Nat) : Nat := leAt addr off n

def elfGetData8 : List UInt8 → Nat → Nat := elfGetData 1

def elfGetData16 : List UInt8 → Nat → Nat := elfGetData 2

def elfGetData32 : List UInt8 → Nat → Nat := elfGetData 4

def elfGetData64 : List UInt8 → Nat → Nat := elfGetData 8

def cstring (addr : List UInt8) : List UInt8 := addr.takeWhile (· ≠ 0)

def strlen (addr : List UInt8) : Nat := (cstring addr).length

theorem drop_add_of_drop_eq {data bytes tail : List UInt8} {off : Nat}
    (h : data.drop off = bytes ++ tail) : data.drop (off + bytes.length) = tail := by
  rw [← drop_drop, h, drop_left]

/-! ## LEB128 numbers -/

structure LebLoop where
  i : Nat := 0
  byte : UInt8 := 0
  data : Nat := 0
  shift : Nat := 0
  deriving DecidableEq, Repr

def lebLoop : Nat → List UInt8 → LebLoop → LebLoop
  | 0, _, st => st
  | n + 1, ptr, st =>
    let byte := ptr.headD 0
    let data := st.data ||| (byte.toNat % 128) <<< st.shift
    let shift := st.shift + 7
    if byte.toNat < 128 then ⟨st.i, byte, data, shift⟩
    else lebLoop n ptr.tail ⟨st.i + 1, byte, data, shift⟩

def elfDwarfDecodeUleb128 (ptr : List UInt8) : Nat × Nat :=
  let st := lebLoop 4 ptr {}
  (st.data, st.i + 1)

def elfDwarfDecodeSleb128 (ptr : List UInt8) : Int × Nat :=
  let st := lebLoop 5 ptr {}
  let data := u32 st.data
  let data := if st.byte.toNat % 128 < 64 then data else data ||| (2 ^ 32 - 2 ^ (st.shift % 32))
  (intOfUint32 data, st.i + 1)

theorem or_shiftLeft {data shift : Nat} (h : data < 2 ^ shift) (b : Nat) :
    data ||| b <<< shift = data + 2 ^ shift * b := by
  rw [Nat.or_comm, ← Nat.shiftLeft_add_eq_or_of_lt h, Nat.shiftLeft_eq, Nat.mul_comm, Nat.add_comm]

theorem or_topBits {v s n : Nat} (hv : v < 2 ^ n) (hs : s ≤ n) :
    v ||| (2 ^ n - 2 ^ s) = 2 ^ n - 2 ^ s + v % 2 ^ s := by
  have hbits : 2 ^ n - 2 ^ s = 2 ^ s * (2 ^ (n - s) - 1) := by
    rw [Nat.mul_sub, ← Nat.pow_add, Nat.add_sub_cancel' hs, Nat.mul_one]
  rw [hbits]
  apply Nat.eq_of_testBit_eq
  intro i
  rw [Nat.testBit_or, Nat.testBit_two_pow_mul, Nat.testBit_two_pow_mul_add _ (Nat.mod_lt _ (Nat.two_pow_pos s)),
    Nat.testBit_two_pow_sub_one, Nat.testBit_mod_two_pow]
  by_cases hi : i < s
  · simp [hi]
  · by_cases hin : i < n
    · simp [hi, show i - s < n - s by omega, show s ≤ i by omega]
    · have hv' : v.testBit i = false :=
        Nat.testBit_lt_two_pow (hv.trans_le (Nat.pow_le_pow_right (by decide) (by omega)))
      simp [hi, hv', show ¬ i - s < n - s by omega]

theorem intOfUint32_signExtend {v s : Nat} (hs : s ≤ 28) (hv : v < 2 ^ s) :
    intOfUint32 (v ||| (2 ^ 32 - 2 ^ s)) = v - (2 ^ s : Nat) := by
  have hle : 2 ^ s ≤ 2 ^ 28 := Nat.pow_le_pow_right (by decide) hs
  rw [or_topBits (by omega) (by omega), Nat.mod_eq_of_lt hv, intOfUint32, if_neg (by omega)]
  omega

theorem lebLoop_cons {b : UInt8} (hb : ¬ b.toNat < 128) (n : Nat) (ptr : List UInt8)
    {st : LebLoop} (hd : st.data < 2 ^ st.shift) :
    lebLoop (n + 1) (b :: ptr) st =
      lebLoop n ptr ⟨st.i + 1, b, st.data + 2 ^ st.shift * (b.toNat % 128), st.shift + 7⟩ := by
  rw [lebLoop, headD_cons, if_neg hb, or_shiftLeft hd, tail_cons]

theorem add_lt_two_pow {data shift : Nat} (h : data < 2 ^ shift) (b : Nat) :
    data + 2 ^ shift * (b % 128) < 2 ^ (shift + 7) := by
  have hb : b % 128 ≤ 127 := Nat.le_of_lt_succ (Nat.mod_lt _ (by decide))
  have hmul : 2 ^ shift * (b % 128) ≤ 2 ^ shift * 127 := Nat.mul_le_mul_left _ hb
  rw [Nat.pow_add]
  omega

theorem lebLoop_short {bytes tail : List UInt8} (h : IsLeb bytes) {n : Nat}
    (hn : bytes.length ≤ n) {st : LebLoop} (hd : st.data < 2 ^ st.shift) :
    lebLoop n (bytes ++ tail) st =
      ⟨st.i + (bytes.length - 1), bytes.getLastD 0, st.data + 2 ^ st.shift * value bytes,
        st.shift + 7 * bytes.length⟩ := by
  induction bytes generalizing n st with
  | nil => exact h.elim
  | cons b bs ih =>
    obtain ⟨n, rfl⟩ := Nat.exists_eq_add_one_of_ne_zero (Nat.ne_of_gt (Nat.lt_of_lt_of_le
      (Nat.succ_pos _) hn))
    unfold IsLeb at h
    split_ifs at h with hb
    · subst h
      simp [lebLoop, hb, or_shiftLeft hd, value]
    · have hpos := h.length_pos
      have hlast : (b :: bs).getLastD 0 = bs.getLastD 0 := by
        cases bs with
        | nil => exact absurd hpos (Nat.lt_irrefl 0)
        | cons c cs => rfl
      rw [cons_append, lebLoop_cons hb _ _ hd,
        ih h (Nat.le_of_succ_le_succ hn) (add_lt_two_pow hd _), hlast, value, length_cons]
      simp only [LebLoop.mk.injEq, true_and]
      refine ⟨by omega, ?_, by omega⟩
      rw [Nat.pow_add, Nat.mul_add, Nat.add_assoc, Nat.mul_assoc]

theorem lebLoop_long {bytes tail : List UInt8} (h : IsLeb bytes) {n : Nat}
    (hn : n < bytes.length) {st : LebLoop} (hd : st.data < 2 ^ st.shift) :
    (lebLoop n (bytes ++ tail) st).i = st.i + n ∧
      (lebLoop n (bytes ++ tail) st).data = st.data + 2 ^ st.shift * value (bytes.take n) := by
  induction bytes generalizing n st with
  | nil => exact h.elim
  | cons b bs ih =>
    cases n with
    | zero => simp [lebLoop, value]
    | succ n =>
      unfold IsLeb at h
      split_ifs at h with hb
      · subst h
        simp at hn
      · obtain ⟨hi, hdata⟩ := @ih h n (Nat.lt_of_succ_lt_succ hn) ⟨_, b, _, _⟩
          (add_lt_two_pow hd b.toNat)
        rw [cons_append, lebLoop_cons hb _ _ hd, hi, hdata, take_succ_cons, value]
        refine ⟨Nat.add_right_comm _ _ _, ?_⟩
        rw [Nat.pow_add, Nat.mul_add, Nat.add_assoc, Nat.mul_assoc]

section
variable {bytes : List UInt8} (h : IsLeb bytes) (tail : List UInt8)
include h

theorem lebLoop_init_short {n : Nat} (hn : bytes.length ≤ n) :
    lebLoop n (bytes ++ tail) {} =
      ⟨bytes.length - 1, bytes.getLastD 0, value bytes, 7 * bytes.length⟩ := by
  simpa using @lebLoop_short bytes tail h n hn {} Nat.zero_lt_one

theorem lebLoop_init_long {n : Nat} (hn : n < bytes.length) :
    (lebLoop n (bytes ++ tail) {}).i = n ∧
      (lebLoop n (bytes ++ tail) {}).data = value bytes % 128 ^ n := by
  simpa [value_take] using @lebLoop_long bytes tail h n hn {} Nat.zero_lt_one

theorem elfDwarfDecodeUleb128_append :
    elfDwarfDecodeUleb128 (bytes ++ tail) = (value bytes % 2 ^ 28, min bytes.length 5) := by
  have hpos := h.length_pos
  rcases Nat.lt_or_ge 4 bytes.length with hlen | hlen
  · obtain ⟨hi, hdata⟩ := lebLoop_init_long h tail hlen
    simp only [elfDwarfDecodeUleb128, hi, hdata, Nat.min_eq_right hlen]
    rfl
  · have hlt : value bytes < 2 ^ 28 :=
      (value_lt bytes).trans_le (Nat.pow_le_pow_right (by decide) hlen)
    simp only [elfDwarfDecodeUleb128, lebLoop_init_short h tail hlen, Nat.mod_eq_of_lt hlt,
      Nat.sub_add_cancel hpos, Nat.min_eq_left (Nat.le_succ_of_le hlen)]

theorem elfDwarfDecodeSleb128_append (hlen : bytes.length ≤ 4) :
    elfDwarfDecodeSleb128 (bytes ++ tail) = (svalue bytes, bytes.length) := by
  have hpos := h.length_pos
  have hpow : 128 ^ bytes.length = 2 ^ (7 * bytes.length) := by rw [Nat.pow_mul]
  have hlt : value bytes < 2 ^ (7 * bytes.length) := hpow ▸ value_lt bytes
  have hle : 2 ^ (7 * bytes.length) ≤ 2 ^ 28 := Nat.pow_le_pow_right (by decide) (by omega)
  have hshift : 7 * bytes.length % 32 = 7 * bytes.length := by omega
  have hu32 : u32 (value bytes) = value bytes := Nat.mod_eq_of_lt (by omega)
  simp only [elfDwarfDecodeSleb128, lebLoop_init_short h tail (Nat.le_succ_of_le hlen), hshift, hu32,
    Nat.sub_add_cancel hpos, Prod.mk.injEq, and_true, svalue]
  split_ifs with hsign
  · exact intOfUint32_of_lt (by omega)
  · rw [intOfUint32_signExtend (by omega) hlt, ← hpow]

theorem elfDwarfDecodeSleb128_five (hlen : bytes.length = 5) (hlow : -2 ^ 31 ≤ svalue bytes)
    (hhigh : svalue bytes < 2 ^ 31) :
    elfDwarfDecodeSleb128 (bytes ++ tail) =
      (if svalue bytes < 0 then svalue bytes % 8 - 8 else svalue bytes, 5) := by
  have hlt : value bytes < 2 ^ 35 := by
    have hpow := value_lt bytes
    rw [hlen] at hpow
    exact hpow
  have hloop := lebLoop_init_short h tail (Nat.le_of_eq hlen)
  rw [hlen] at hloop
  simp only [elfDwarfDecodeSleb128, hloop, u32, Prod.mk.injEq, and_true]
  simp only [svalue, hlen] at hlow hhigh ⊢
  split_ifs at hlow hhigh ⊢ with hsign hneg
  · omega
  · rw [Nat.mod_eq_of_lt (by omega)]
    exact intOfUint32_of_lt (by omega)
  · have hbits := or_topBits (show value bytes % 2 ^ 32 < 2 ^ 32 from Nat.mod_lt _ (by decide))
      (show 3 ≤ 32 by decide)
    rw [show (7 * 5) % 32 = 3 from rfl, hbits, intOfUint32, if_neg (by omega)]
    omega
  · omega

/-- An encoding of at most five bytes of an unsigned number of 32 bits is read back exactly if the number
fits in 28 bits; one of a signed number, exactly if it has at most four bytes or the number is at
least -8. -/
theorem elf_dwarf_decode_leb128_iff (hlen : bytes.length ≤ 5) :
    (value bytes < 2 ^ 32 →
      (elfDwarfDecodeUleb128 (bytes ++ tail) = (value bytes, bytes.length) ↔ value bytes < 2 ^ 28)) ∧
    (-2 ^ 31 ≤ svalue bytes → svalue bytes < 2 ^ 31 →
      (elfDwarfDecodeSleb128 (bytes ++ tail) = (svalue bytes, bytes.length) ↔
        bytes.length ≤ 4 ∨ -8 ≤ svalue bytes)) := by
  refine ⟨fun _ => ?_, fun hlow hhigh => ?_⟩
  · rw [elfDwarfDecodeUleb128_append h, Nat.min_eq_left hlen, Prod.mk.injEq, and_iff_left rfl]
    exact Nat.mod_eq_iff_lt (by decide)
  · rcases Nat.lt_or_ge bytes.length 5 with hshort | hlong
    · exact iff_of_true (elfDwarfDecodeSleb128_append h tail (by omega)) (.inl (by omega))
    · have hfive : bytes.length = 5 := by omega
      rw [elfDwarfDecodeSleb128_five h tail hfive hlow hhigh, hfive, Prod.mk.injEq, and_iff_left rfl]
      split_ifs <;> omega

end

/-- The five bytes of 2 ^ 28 are read as 0, and those of -2 ^ 31 as -8. -/
theorem elf_dwarf_decode_leb128_five_bytes :
    IsLeb [0x80, 0x80, 0x80, 0x80, 0x01] ∧ value [0x80, 0x80, 0x80, 0x80, 0x01] = 2 ^ 28 ∧
      elfDwarfDecodeUleb128 [0x80, 0x80, 0x80, 0x80, 0x01] = (0, 5) ∧
    IsLeb [0x80, 0x80, 0x80, 0x80, 0x78] ∧ svalue [0x80, 0x80, 0x80, 0x80, 0x78] = -2 ^ 31 ∧
      elfDwarfDecodeSleb128 [0x80, 0x80, 0x80, 0x80, 0x78] = (-8, 5) := by
  decide

theorem elf_dwarf_decode_leb128_short :
    elfDwarfDecodeUleb128 ([0xac, 0x02] ++ [0xff]) = (300, 2) ∧
      elfDwarfDecodeSleb128 ([0x7e] ++ [0xff]) = (-2, 1) :=
  ⟨((elf_dwarf_decode_leb128_iff (by decide) [0xff] (by decide)).1 (by decide)).2 (by decide),
    ((elf_dwarf_decode_leb128_iff (by decide) [0xff] (by decide)).2 (by decide) (by decide)).2
      (by decide)⟩

end Athrill
