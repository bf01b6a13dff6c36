import Mathlib.Algebra.BigOperators.Group.List.Basic
import Mathlib.Algebra.GroupWithZero.Nat
import Mathlib.Data.List.Nodup

/-!
# Tallies

A tally is a list of counters, at most one for a key, with the total of all counts.
-/

namespace Tally

open List

universe u v
variable {α : Type u} {κ : Type v} {key : α → κ} {count : α → Nat} {l : List α} {n i : Nat} {x y : α}

structure IsTally (key : α → κ) (count : α → Nat) (l : List α) (total : Nat) : Prop where
  distinct : (l.map key).Nodup
  sum : (l.map count).sum = total

theorem isTally_nil : IsTally key count [] 0 := ⟨nodup_nil, rfl⟩

theorem sum_map_set (hi : l[i]? = some x) :
    ((l.set i y).map count).sum + count x = (l.map count).sum + count y := by
  induction l generalizing i with
  | nil => simp at hi
  | cons z l ih =>
    cases i with
    | zero =>
      cases hi
      simp only [set_cons_zero, map_cons, sum_cons]
      omega
    | succ i =>
      have hrest := ih hi
      simp only [set_cons_succ, map_cons, sum_cons]
      omega

theorem count_le_sum (hi : l[i]? = some x) : count x ≤ (l.map count).sum := by
  induction l generalizing i with
  | nil => simp at hi
  | cons z l ih =>
    rw [map_cons, sum_cons]
    cases i with
    | zero =>
      cases hi
      omega
    | succ i =>
      have hrest := ih hi
      omega

theorem IsTally.set (h : IsTally key count l n) (hi : l[i]? = some x) (hkey : key y = key x)
    (hcount : count y = count x + 1) : IsTally key count (l.set i y) (n + 1) where
  distinct := by
    have hsame : (l.map key)[i]? = some (key y) := by rw [List.getElem?_map, hi, Option.map_some, hkey]
    obtain ⟨hlt, hget⟩ := List.getElem?_eq_some_iff.1 hsame
    rw [List.map_set, ← hget, List.set_getElem_self]
    exact h.distinct
  sum := by
    have hsum : ((l.set i y).map count).sum + count x = (l.map count).sum + count y := sum_map_set hi
    rw [h.sum] at hsum
    omega

theorem IsTally.concat (h : IsTally key count l n) (hkey : key y ∉ l.map key) (hcount : count y = 1) :
    IsTally key count (l ++ [y]) (n + 1) where
  distinct := by
    rw [map_append, map_singleton, ← concat_eq_append]
    exact h.distinct.concat hkey
  sum := by rw [map_append, sum_append, h.sum, map_singleton, sum_singleton, hcount]

end Tally
