import Athrill.Lib.Word

/-!
# Bytes

Slices of a byte string, little-endian numbers in it and strings that end at a zero byte.
-/

namespace Bytes

open List

def slice (bytes : List UInt8) (off n : Nat) : List UInt8 := (bytes.drop off).take n

def leValue : List UInt8 → Nat
  | [] => 0
  | b :: bs => b.toNat + 256 * leValue bs

def leBytes : Nat → Nat → List UInt8
  | 0, _ => []
  | n + 1, v => UInt8.ofNat v :: leBytes n (v / 256)

@[simp] theorem length_leBytes (n v : Nat) : (leBytes n v).length = n := by
  induction n generalizing v with
  | zero => rfl
  | succ n ih => simp [leBytes, ih]

variable {bytes : List UInt8}

@[simp] theorem length_slice {off n : Nat} (h : off + n ≤ bytes.length) :
    (slice bytes off n).length = n := by
  simp only [slice, length_take, length_drop]
  omega

theorem getElem?_slice {off n k : Nat} (hk : k < n) :
    (slice bytes off n)[k]? = bytes[off + k]? := by
  rw [slice, getElem?_take_of_lt hk, getElem?_drop]

theorem slice_congr {bytes bytes' : List UInt8} {off off' n : Nat}
    (h : ∀ k < n, bytes[off + k]? = bytes'[off' + k]?) : slice bytes off n = slice bytes' off' n := by
  apply ext_getElem?
  intro k
  by_cases hk : k < n
  · rw [getElem?_slice hk, getElem?_slice hk, h k hk]
  · rw [slice, slice, getElem?_take_eq_none (Nat.not_lt.1 hk),
      getElem?_take_eq_none (Nat.not_lt.1 hk)]

def leAt (bytes : List UInt8) (off n : Nat) : Nat := leValue (slice bytes off n)

theorem leValue_lt (bytes : List UInt8) : leValue bytes < 256 ^ bytes.length := by
  induction bytes with
  | nil => exact Nat.zero_lt_one
  | cons b bs ih =>
    have hb : b.toNat < 256 := b.toNat_lt
    rw [leValue, length_cons, Nat.pow_succ]
    omega

theorem leValue_leBytes (n v : Nat) : leValue (leBytes n v) = v % 256 ^ n := by
  induction n generalizing v with
  | zero => simp [leBytes, leValue, Nat.mod_one]
  | succ n ih =>
    have hpow : 256 ^ (n + 1) = 256 * 256 ^ n := Nat.pow_succ'
    rw [leBytes, leValue, ih, UInt8.toNat_ofNat', hpow, Nat.mod_mul]

theorem leAt_lt (bytes : List UInt8) (off n : Nat) : leAt bytes off n < 256 ^ n :=
  (leValue_lt _).trans_le (Nat.pow_le_pow_right (by decide) (length_take_le _ _))

def ascii (cs : List Char) : List UInt8 := cs.map fun c => UInt8.ofNat c.toNat

def cstrAt (bytes : List UInt8) (off : Nat) : Option (List UInt8) :=
  if 0 ∈ bytes.drop off then some ((bytes.drop off).takeWhile (· ≠ 0)) else none

theorem cstrAt_isSome {off q : Nat} (hq : off ≤ q)
    (h : bytes[q]? = some 0) : ∃ name, cstrAt bytes off = some name := by
  have hmem : (0 : UInt8) ∈ bytes.drop off := by
    rw [mem_iff_getElem?]
    exact ⟨q - off, by rw [getElem?_drop, Nat.add_sub_cancel' hq, h]⟩
  exact ⟨_, if_pos hmem⟩

structure CString where
  bytes : List UInt8
  ne_zero : ∀ b ∈ bytes, b ≠ 0

def CString.ofBytes (bytes : List UInt8) : CString where
  bytes := bytes.takeWhile (· ≠ 0)
  ne_zero b hb := by simpa using all_eq_true.1 all_takeWhile b hb

def CString.append (a b : CString) : CString where
  bytes := a.bytes ++ b.bytes
  ne_zero x hx := (mem_append.1 hx).elim (a.ne_zero x) (b.ne_zero x)

@[simp] theorem CString.bytes_append (a b : CString) : (a.append b).bytes = a.bytes ++ b.bytes := rfl

namespace CString

variable {s : CString} {i : Nat} {c : UInt8} {rest : List UInt8}

theorem eq_of_bytes {a b : CString} (h : a.bytes = b.bytes) : a = b := by
  cases a
  cases b
  simpa using h

def ofChars (cs : List Char) (h : (ascii cs).contains 0 = false) : CString where
  bytes := ascii cs
  ne_zero b hb hzero := by
    rw [hzero, ← contains_iff_mem, h] at hb
    cases hb

def cons (c : UInt8) (hc : c ≠ 0) (s : CString) : CString where
  bytes := c :: s.bytes
  ne_zero x hx := (mem_cons.1 hx).elim (fun h => h ▸ hc) (s.ne_zero x)

@[simp] theorem bytes_cons (c : UInt8) (hc : c ≠ 0) (s : CString) :
    (cons c hc s).bytes = c :: s.bytes := rfl

def char (s : CString) (i : Nat) : Option UInt8 := (s.bytes ++ [0])[i]?

def suffix (s : CString) (i : Nat) : Option CString :=
  if i ≤ s.bytes.length then some ⟨s.bytes.drop i, fun b hb => s.ne_zero b (mem_of_mem_drop hb)⟩
  else none

def strchr (s : CString) (c : UInt8) : Option Nat := (s.bytes ++ [0]).findIdx? (· = c)

theorem char_of_lt (h : i < s.bytes.length) : s.char i = some s.bytes[i] := by
  rw [char, getElem?_append_left h, getElem?_eq_getElem h]

@[simp] theorem char_length : s.char s.bytes.length = some 0 := by
  simp [char]

theorem lt_length_of_char (h : s.char i = some c) (hc : c ≠ 0) : i < s.bytes.length := by
  by_contra hge
  rw [char, List.getElem?_append_right (by omega)] at h
  obtain ⟨hi, hget⟩ := List.getElem?_eq_some_iff.1 h
  simp at hget
  exact hc hget.symm

theorem char_isSome (h : i ≤ s.bytes.length) : ∃ c, s.char i = some c := by
  have hlt : i < (s.bytes ++ [0]).length := by simpa using Nat.lt_succ_of_le h
  exact ⟨_, getElem?_eq_getElem hlt⟩

theorem char_of_drop (h : s.bytes.drop i = c :: rest) : s.char i = some c ∧ c ≠ 0 := by
  have hlt : i < s.bytes.length := by
    by_contra hge
    rw [drop_eq_nil_of_le (by omega)] at h
    cases h
  rw [drop_eq_getElem_cons hlt] at h
  obtain ⟨hget, -⟩ := cons.inj h
  exact ⟨by rw [char_of_lt hlt, hget], hget ▸ s.ne_zero _ (getElem_mem hlt)⟩

end CString

end Bytes
