import Mathlib.Data.BitVec
import Mathlib.Data.List.TakeWhile

/-!
# `strtoul` to the base 16

The number parser of the C library on a string without its zero byte, for an `unsigned long` of 64 bits and
the C locale: white space, a sign and `0x` may come before the digits, and what follows them is left over.
-/

namespace Strtoul

open List

def isSpace (b : UInt8) : Bool := (9 ≤ b && b ≤ 13) || b == 32

def hexDigit (b : UInt8) : Option Nat :=
  if 48 ≤ b ∧ b ≤ 57 then some (b.toNat - 48)
  else if 97 ≤ b ∧ b ≤ 102 then some (b.toNat - 87)
  else if 65 ≤ b ∧ b ≤ 70 then some (b.toNat - 55)
  else none

def digitValue (base : Nat) (b : UInt8) : Option Nat := (hexDigit b).filter (· < base)

/-- The value of a non-empty text of digits only. -/
def digitsValue (base : Nat) (ds : List UInt8) : Option Nat :=
  if ds = [] then none
  else ds.foldlM (fun v b => (digitValue base b).map (v * base + ·)) 0

def sign : List UInt8 → Bool × List UInt8
  | [] => (false, [])
  | b :: text => if b = 45 then (true, text) else (false, if b = 43 then text else b :: text)

def afterMarker : List UInt8 → List UInt8
  | z :: x :: d :: text =>
    if z = 48 ∧ (x = 120 ∨ x = 88) ∧ (hexDigit d).isSome then d :: text else z :: x :: d :: text
  | text => text

structure Parsed where
  value : Nat
  rest : List UInt8
  erange : Bool
  deriving DecidableEq, Repr

def strtoul (text : List UInt8) : Parsed :=
  let signed := sign (text.dropWhile isSpace)
  let body := afterMarker signed.2
  let ds := body.takeWhile fun b => (hexDigit b).isSome
  let rest := body.dropWhile fun b => (hexDigit b).isSome
  match digitsValue 16 ds with
  | none => ⟨0, text, false⟩
  | some v =>
    if 2 ^ 64 ≤ v then ⟨2 ^ 64 - 1, rest, true⟩
    else ⟨if signed.1 then (2 ^ 64 - v) % 2 ^ 64 else v, rest, false⟩

/-! ## Characters -/

theorem hexDigit_eq_some {b : UInt8} {v : Nat} (h : hexDigit b = some v) :
    v < 16 ∧ (48 ≤ b.toNat ∧ b.toNat ≤ 57 ∨ 97 ≤ b.toNat ∧ b.toNat ≤ 102 ∨
      65 ≤ b.toNat ∧ b.toNat ≤ 70) := by
  simp only [hexDigit, UInt8.le_iff_toNat_le, UInt8.reduceToNat] at h
  split_ifs at h with h₁ h₂ h₃
  · cases h
    omega
  · cases h
    omega
  · cases h
    omega

theorem class_of_hexDigit {b : UInt8} {v : Nat} (h : hexDigit b = some v) :
    isSpace b = false ∧ b ≠ 45 ∧ b ≠ 43 ∧ b ≠ 0 := by
  have hrange := (hexDigit_eq_some h).2
  refine ⟨?_, ?_, ?_, ?_⟩
  · rw [Bool.eq_false_iff]
    simp only [isSpace, Bool.or_eq_true, Bool.and_eq_true, decide_eq_true_eq, beq_iff_eq,
      UInt8.le_iff_toNat_le, UInt8.reduceToNat, ne_eq, ← UInt8.toNat_inj]
    omega
  all_goals
    simp only [ne_eq, ← UInt8.toNat_inj, UInt8.reduceToNat]
    omega

theorem digitValue_of_hexDigit {b : UInt8} {v : Nat} (h : hexDigit b = some v) : digitValue 16 b = some v := by
  rw [digitValue, h, Option.filter_some, if_pos (by simpa using (hexDigit_eq_some h).1)]

theorem digitsValue_singleton {d : UInt8} {v : Nat} (h : hexDigit d = some v) : digitsValue 16 [d] = some v := by
  simp [digitsValue, digitValue_of_hexDigit h]

/-! ## What is left over -/

theorem sign_suffix (text : List UInt8) : (sign text).2 <:+ text := by
  cases text with
  | nil => exact suffix_rfl
  | cons b text =>
    rw [sign]
    split_ifs
    · exact suffix_cons b text
    · exact suffix_cons b text
    · exact suffix_rfl

theorem afterMarker_suffix (text : List UInt8) : afterMarker text <:+ text := by
  unfold afterMarker
  split
  · split_ifs
    · exact (suffix_cons _ _).trans (suffix_cons _ _)
    · exact suffix_rfl
  · exact suffix_rfl

theorem rest_strtoul_concat (text : List UInt8) {c : UInt8} (hc : hexDigit c = none) :
    (strtoul (text ++ [c])).rest ≠ [] := by
  have hsuffix : afterMarker (sign ((text ++ [c]).dropWhile isSpace)).2 <:+ text ++ [c] :=
    (afterMarker_suffix _).trans ((sign_suffix _).trans (dropWhile_suffix _))
  simp only [strtoul]
  generalize afterMarker (sign ((text ++ [c]).dropWhile isSpace)).2 = body at hsuffix ⊢
  cases hds : digitsValue 16 (body.takeWhile fun b => (hexDigit b).isSome) with
  | none => exact append_ne_nil_of_right_ne_nil _ (cons_ne_nil _ _)
  | some v =>
    -- otherwise the digits reach the end of the text, and the last character is one of them
    intro hnil
    have hdrop : body.dropWhile (fun b => (hexDigit b).isSome) = [] := by
      dsimp only at hnil
      split_ifs at hnil <;> exact hnil
    have hall := dropWhile_eq_nil_iff.1 hdrop
    obtain rfl | ⟨body', rfl, -⟩ := suffix_concat_iff.1 hsuffix
    · cases hds
    · have hlast := hall c (mem_append_right _ mem_cons_self)
      rw [hc] at hlast
      cases hlast

/-! ## Texts of at most two characters -/

@[simp] theorem strtoul_nil : strtoul [] = ⟨0, [], false⟩ := rfl

theorem strtoul_digit {d : UInt8} {v : Nat} (h : hexDigit d = some v) :
    strtoul [d] = ⟨v, [], false⟩ := by
  obtain ⟨hspace, hminus, hplus, -⟩ := class_of_hexDigit h
  have hlt := (hexDigit_eq_some h).1
  simp [strtoul, hspace, sign, hminus, hplus, afterMarker, h, digitsValue_singleton h]
  omega

theorem strtoul_digits {d e : UInt8} {v w : Nat} (hd : hexDigit d = some v) (he : hexDigit e = some w) :
    strtoul [d, e] = ⟨16 * v + w, [], false⟩ := by
  obtain ⟨hspace, hminus, hplus, -⟩ := class_of_hexDigit hd
  have hlt := (hexDigit_eq_some hd).1
  have hlt' := (hexDigit_eq_some he).1
  have hvalue : digitsValue 16 [d, e] = some (16 * v + w) := by
    simp [digitsValue, digitValue_of_hexDigit hd, digitValue_of_hexDigit he, Nat.mul_comm]
  simp [strtoul, hspace, sign, hminus, hplus, afterMarker, hd, he, hvalue]
  omega

theorem strtoul_lead_digit {c d : UInt8} {v : Nat} (hc : isSpace c = true ∨ c = 43)
    (hd : hexDigit d = some v) : strtoul [c, d] = ⟨v, [], false⟩ := by
  obtain ⟨hspace, hminus, hplus, -⟩ := class_of_hexDigit hd
  have hlt := (hexDigit_eq_some hd).1
  rcases hc with hc | rfl
  · simp [strtoul, hc, hspace, sign, hminus, hplus, afterMarker, hd, digitsValue_singleton hd]
    omega
  · have hplain : isSpace 43 = false := rfl
    simp [strtoul, hplain, sign, afterMarker, hd, digitsValue_singleton hd]
    omega

theorem strtoul_minus_digit {d : UInt8} {v : Nat} (hd : hexDigit d = some v) :
    strtoul [45, d] = ⟨(2 ^ 64 - v) % 2 ^ 64, [], false⟩ := by
  have hlt := (hexDigit_eq_some hd).1
  have hplain : isSpace 45 = false := rfl
  simp [strtoul, hplain, sign, afterMarker, hd, digitsValue_singleton hd]
  omega

theorem rest_strtoul_pair_of_other {c d : UInt8} (hc : hexDigit c = none) (hspace : isSpace c = false)
    (hminus : c ≠ 45) (hplus : c ≠ 43) : (strtoul [c, d]).rest ≠ [] := by
  simp [strtoul, hspace, sign, hminus, hplus, afterMarker, hc, digitsValue]

end Strtoul
