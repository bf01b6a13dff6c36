import Mathlib.Algebra.BigOperators.Group.List.Basic
import Mathlib.Algebra.GroupWithZero.Nat

/-!
# Spans of time

A span has a start and an end.
-/

namespace Spans

variable {lo mid hi start stop : Nat} {l : List (Nat × Nat)}

def InOrder : Nat → List (Nat × Nat) → Nat → Prop
  | lo, [], hi => lo ≤ hi
  | lo, x :: l, hi => lo ≤ x.1 ∧ x.1 ≤ x.2 ∧ InOrder x.2 l hi

def length (x : Nat × Nat) : Nat := x.2 - x.1

theorem InOrder.le (h : InOrder lo l hi) : lo ≤ hi := by
  induction l generalizing lo with
  | nil => exact h
  | cons x l ih => exact Nat.le_trans (Nat.le_trans h.1 h.2.1) (ih h.2.2)

theorem InOrder.mono (h : InOrder lo l mid) (hle : mid ≤ hi) : InOrder lo l hi := by
  induction l generalizing lo with
  | nil => exact Nat.le_trans h hle
  | cons x l ih => exact ⟨h.1, h.2.1, ih h.2.2⟩

theorem InOrder.concat (h : InOrder lo l start) (hle : start ≤ stop) :
    InOrder lo (l ++ [(start, stop)]) stop := by
  induction l generalizing lo with
  | nil => exact ⟨h, hle, Nat.le_refl stop⟩
  | cons x l ih => exact ⟨h.1, h.2.1, ih h.2.2⟩

theorem InOrder.le_start (h : InOrder lo l hi) : ∀ x ∈ l, lo ≤ x.1 := by
  induction l generalizing lo with
  | nil => exact fun x hx => absurd hx List.not_mem_nil
  | cons y l ih =>
    intro x hx
    rcases List.mem_cons.1 hx with rfl | hx
    · exact h.1
    · exact Nat.le_trans (Nat.le_trans h.1 h.2.1) (ih h.2.2 x hx)

theorem InOrder.pairwise (h : InOrder lo l hi) : l.Pairwise fun x y => x.2 ≤ y.1 := by
  induction l generalizing lo with
  | nil => exact List.Pairwise.nil
  | cons x l ih => exact List.Pairwise.cons h.2.2.le_start (ih h.2.2)

theorem InOrder.sum_length_le (h : InOrder lo l hi) : (l.map length).sum ≤ hi - lo := by
  induction l generalizing lo with
  | nil => exact Nat.zero_le _
  | cons x l ih =>
    obtain ⟨hlo, hx, hrest⟩ := h
    have hsum := ih hrest
    have hle := hrest.le
    rw [List.map_cons, List.sum_cons, length]
    omega

end Spans
