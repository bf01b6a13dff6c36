import Mathlib.Data.List.Induction
import Mathlib.Data.List.Nodup
import Mathlib.Data.List.TakeWhile

/-!
# Trails

A trail is what is left of a sequence of visits when every return to a place of the trail cuts off what came
after it.
-/

namespace Trail

open List

universe u
variable {α : Type u} [DecidableEq α] {st vs : List α} {v : α} {i : Nat}

def visit (st : List α) (v : α) : List α := st.takeWhile (· ≠ v) ++ [v]

def trail (vs : List α) : List α := vs.foldl visit []

theorem trail_concat : trail (vs ++ [v]) = visit (trail vs) v := by
  rw [trail, foldl_concat]
  rfl

theorem visit_of_not_mem (h : v ∉ st) : visit st v = st ++ [v] := by
  have hall : ∀ x ∈ st, decide (x ≠ v) = true := fun x hx => by
    simpa using fun heq : x = v => h (heq ▸ hx)
  rw [visit, takeWhile_eq_self_iff.2 hall]

theorem visit_of_getElem? (h : st[i]? = some v) (hfirst : ∀ j < i, st[j]? ≠ some v) :
    visit st v = st.take (i + 1) := by
  induction st generalizing i with
  | nil => simp at h
  | cons x st ih =>
    cases i with
    | zero =>
      cases h
      simp [visit]
    | succ i =>
      have hx : x ≠ v := by simpa using hfirst 0 (Nat.succ_pos i)
      have hrest : visit st v = st.take (i + 1) :=
        ih h fun j hj => by simpa using hfirst (j + 1) (Nat.succ_lt_succ hj)
      rw [take_succ_cons, ← hrest]
      simp [visit, hx]

theorem nodup_visit (h : st.Nodup) : (visit st v).Nodup := by
  rw [visit, nodup_append]
  refine ⟨h.sublist (takeWhile_sublist _), nodup_singleton v, fun a ha b hb hab => ?_⟩
  have hne := mem_takeWhile_imp ha
  simp [hab, mem_singleton.1 hb] at hne

theorem nodup_trail (vs : List α) : (trail vs).Nodup := by
  induction vs using reverseRecOn with
  | nil => exact nodup_nil
  | append_singleton vs v ih =>
    rw [trail_concat]
    exact nodup_visit ih

theorem length_trail_le (vs : List α) : (trail vs).length ≤ vs.length := by
  induction vs using reverseRecOn with
  | nil => exact Nat.le_refl _
  | append_singleton vs v ih =>
    have htake := (takeWhile_sublist (fun x => decide (x ≠ v)) (l := trail vs)).length_le
    rw [trail_concat, visit, length_append, length_append]
    exact Nat.add_le_add_right (htake.trans ih) 1

theorem trail_of_nodup (h : vs.Nodup) : trail vs = vs := by
  induction vs using reverseRecOn with
  | nil => rfl
  | append_singleton vs v ih =>
    obtain ⟨hvs, -, hne⟩ := nodup_append.1 h
    rw [trail_concat, ih hvs]
    exact visit_of_not_mem fun hmem => hne v hmem v (.head _) rfl

theorem getLast?_trail (vs : List α) : (trail vs).getLast? = vs.getLast? := by
  cases vs using reverseRecOn with
  | nil => rfl
  | append_singleton vs v => rw [trail_concat, visit, getLast?_concat, getLast?_concat]

end Trail
