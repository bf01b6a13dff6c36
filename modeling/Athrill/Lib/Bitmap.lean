import Mathlib.Data.List.FinRange

/-!
# Bitmaps

A bitmap is the list of its bits; a clear bit is a free entry.
-/

namespace Bitmap

open List

def isFree (bits : List Bool) (k : Nat) : Bool := bits[k]? == some false

def wordFull (size : Nat) (bits : List Bool) (w : Nat) : Bool :=
  (range size).all fun b => !isFree bits (size * w + b)

def freeCount (bits : List Bool) : Nat := bits.count false

variable {bits : List Bool} {k : Nat}

theorem isFree_iff : isFree bits k = true ↔ bits[k]? = some false := by
  simp [isFree]

theorem lt_of_isFree (h : isFree bits k = true) : k < bits.length :=
  (List.getElem?_eq_some_iff.1 (isFree_iff.1 h)).1

theorem freeCount_pos_iff : 0 < freeCount bits ↔ false ∈ bits := count_pos_iff

theorem freeCount_le : freeCount bits ≤ bits.length := count_le_length

theorem freeCount_set_true (h : isFree bits k = true) :
    freeCount (bits.set k true) = freeCount bits - 1 := by
  obtain ⟨hk, hbit⟩ := List.getElem?_eq_some_iff.1 (isFree_iff.1 h)
  simp [freeCount, List.count_set hk, hbit]

theorem freeCount_set_false (h : bits[k]? = some true) :
    freeCount (bits.set k false) = freeCount bits + 1 := by
  obtain ⟨hk, hbit⟩ := List.getElem?_eq_some_iff.1 h
  simp [freeCount, List.count_set hk, hbit]

theorem set_false_of_isFree (h : isFree bits k = true) : bits.set k false = bits := by
  obtain ⟨hk, hbit⟩ := List.getElem?_eq_some_iff.1 (isFree_iff.1 h)
  rw [← hbit, List.set_getElem_self]

theorem exists_isFree_of_wordFull {size w : Nat} (h : wordFull size bits w = false) :
    ∃ b < size, isFree bits (size * w + b) = true := by
  simp only [wordFull, all_eq_false, mem_range, Bool.not_eq_true', Bool.not_eq_false] at h
  exact h

theorem not_mem_of_wordFull {size n : Nat} (hlen : bits.length = size * n)
    (h : ∀ w < n, wordFull size bits w = true) : false ∉ bits := by
  intro hmem
  obtain ⟨k, hk⟩ := mem_iff_getElem?.1 hmem
  have hlt : k < size * n := hlen ▸ lt_of_isFree (isFree_iff.2 hk)
  have hsize : 0 < size := Nat.pos_of_ne_zero fun h0 => by simp [h0] at hlt
  have hfull := h (k / size) (Nat.div_lt_of_lt_mul hlt)
  simp only [wordFull, all_eq_true, mem_range, Bool.not_eq_true'] at hfull
  have := hfull (k % size) (Nat.mod_lt k hsize)
  rw [Nat.div_add_mod, ← Bool.not_eq_true, isFree_iff] at this
  exact this hk

theorem findSome?_finRange_eq_some {n : Nat} {α : Type*} {f : Fin n → Option α} {a : α} :
    (finRange n).findSome? f = some a ↔ ∃ i, f i = some a ∧ ∀ j < i, f j = none := by
  rw [← Fin.findSome?_eq_findSome?_finRange, Fin.findSome?_eq_some_iff]

theorem findSome?_finRange_eq_none {n : Nat} {α : Type*} {f : Fin n → Option α} :
    (finRange n).findSome? f = none ↔ ∀ i, f i = none := by
  rw [← Fin.findSome?_eq_findSome?_finRange, Fin.findSome?_eq_none_iff]

end Bitmap
