import Mathlib.Data.List.Basic
import Mathlib.Order.Lattice

/-!
# Searching sorted tables

The parts of an index over a table sorted by start: the contract of a sorting routine driven by a three-way
comparator (`Sorter`), the binary search for the point where a predicate stops holding (`partitionPoint`),
and the running maximum of a list (`runningMax`), which bounds a backward scan.
-/

namespace SortedSearch

open List

def Consistent {α : Type} (cmp : α → α → Int) (l : List α) : Prop :=
  (∀ a ∈ l, ∀ b ∈ l, cmp a b ≤ 0 ∨ cmp b a ≤ 0) ∧
  ∀ a ∈ l, ∀ b ∈ l, ∀ c ∈ l, cmp a b ≤ 0 → cmp b c ≤ 0 → cmp a c ≤ 0

/-- A sorting routine by its contract; the order of elements that compare equal is left open. -/
structure Sorter where
  sort : {α : Type} → (α → α → Int) → List α → List α
  perm : ∀ {α : Type} (cmp : α → α → Int) (l : List α), (sort cmp l).Perm l
  sorted : ∀ {α : Type} (cmp : α → α → Int) (l : List α), Consistent cmp l →
    (sort cmp l).Pairwise fun a b => cmp a b ≤ 0

def mergeSorter : Sorter where
  sort cmp l := (l.attach.mergeSort fun a b => decide (cmp a.1 b.1 ≤ 0)).map Subtype.val
  perm cmp l := by
    have h := (mergeSort_perm l.attach fun a b => decide (cmp a.1 b.1 ≤ 0)).map Subtype.val
    simpa only [attach_map_subtype_val] using h
  sorted cmp l hc := by
    rw [pairwise_map]
    have h := @List.pairwise_mergeSort _ (fun a b : {x // x ∈ l} => decide (cmp a.1 b.1 ≤ 0))
      (fun a b c hab hbc => decide_eq_true
        (hc.2 a.1 a.2 b.1 b.2 c.1 c.2 (of_decide_eq_true hab) (of_decide_eq_true hbc)))
      (fun a b => by simpa using hc.1 a.1 a.2 b.1 b.2) l.attach
    exact h.imp of_decide_eq_true

/-! ## Binary search -/

def partitionPoint (p : Nat → Option Bool) (low high : Nat) : Option Nat :=
  if low < high then
    match p (low + (high - low) / 2) with
    | none => none
    | some true => partitionPoint p (low + (high - low) / 2 + 1) high
    | some false => partitionPoint p low (low + (high - low) / 2)
  else some low
termination_by high - low

theorem exists_partition {p : Nat → Bool} (n : Nat) (h : ∀ j k, j ≤ k → k < n → p k = true → p j = true) :
    ∃ c, c ≤ n ∧ ∀ k, k < n → p k = decide (k < c) := by
  induction n with
  | zero => exact ⟨0, Nat.le_refl _, fun k hk => absurd hk (Nat.not_lt_zero k)⟩
  | succ n ih =>
    obtain ⟨c, hc, hp⟩ := ih fun j k hjk hk => h j k hjk (by omega)
    cases hn : p n with
    | true =>
      refine ⟨n + 1, Nat.le_refl _, fun k hk => ?_⟩
      rw [h k n (by omega) (by omega) hn, decide_eq_true hk]
    | false =>
      refine ⟨c, by omega, fun k hk => ?_⟩
      rcases Nat.lt_succ_iff_lt_or_eq.1 hk with hlt | rfl
      · exact hp k hlt
      · rw [hn, decide_eq_false (by omega)]

theorem partitionPoint_eq {p : Nat → Option Bool} {c : Nat} (low high : Nat)
    (h : ∀ k, low ≤ k → k < high → p k = some (decide (k < c))) (hlc : low ≤ c)
    (hch : c ≤ high) : partitionPoint p low high = some c := by
  fun_induction partitionPoint p low high with
  | case1 low high hlt hp =>
    rw [h _ (by omega) (by omega)] at hp
    cases hp
  | case2 low high hlt hp ih =>
    rw [h _ (by omega) (by omega), Option.some.injEq, decide_eq_true_eq] at hp
    exact ih (fun k h1 h2 => h k (by omega) h2) (by omega) hch
  | case3 low high hlt hp ih =>
    rw [h _ (by omega) (by omega), Option.some.injEq, decide_eq_false_iff_not] at hp
    exact ih (fun k h1 h2 => h k h1 (by omega)) hlc (by omega)
  | case4 low high hlt => rw [show low = c by omega]

/-! ## Reading through a list of positions -/

theorem mapM_eq_some_map {α β : Type} {f : α → Option β} {g : α → β} {l : List α}
    (h : ∀ a ∈ l, f a = some (g a)) : l.mapM f = some (l.map g) := by
  induction l with
  | nil => rfl
  | cons a l ih =>
    rw [mapM_cons, h a (mem_cons_self ..), ih fun b hb => h b (mem_cons_of_mem _ hb)]
    rfl

/-! ## Running maximum -/

section
variable {α : Type} [LinearOrder α]

def runningMax (m : α) : List α → List α
  | [] => []
  | x :: xs =>
    let m' := if m < x then x else m
    m' :: runningMax m' xs

@[simp] theorem length_runningMax (m : α) (l : List α) : (runningMax m l).length = l.length := by
  induction l generalizing m with
  | nil => rfl
  | cons x xs ih => simp [runningMax, ih]

theorem le_runningMax_start (m : α) (l : List α) {k : Nat} {r : α}
    (h : (runningMax m l)[k]? = some r) : m ≤ r := by
  induction l generalizing m k with
  | nil => simp [runningMax] at h
  | cons x xs ih =>
    have hm : m ≤ if m < x then x else m := by split <;> [exact le_of_lt ‹_›; exact le_rfl]
    cases k with
    | zero =>
      simp only [runningMax, getElem?_cons_zero, Option.some.injEq] at h
      exact h ▸ hm
    | succ k =>
      simp only [runningMax, getElem?_cons_succ] at h
      exact le_trans hm (ih _ h)

theorem le_runningMax (m : α) (l : List α) {j k : Nat} {x r : α} (hjk : j ≤ k)
    (hx : l[j]? = some x) (hr : (runningMax m l)[k]? = some r) : x ≤ r := by
  induction l generalizing m j k with
  | nil => simp at hx
  | cons y ys ih =>
    cases j with
    | zero =>
      simp only [getElem?_cons_zero, Option.some.injEq] at hx
      subst hx
      have hm : y ≤ if m < y then y else m := by split <;> [exact le_rfl; exact le_of_not_gt ‹_›]
      cases k with
      | zero =>
        simp only [runningMax, getElem?_cons_zero, Option.some.injEq] at hr
        exact hr ▸ hm
      | succ k =>
        simp only [runningMax, getElem?_cons_succ] at hr
        exact le_trans hm (le_runningMax_start _ _ hr)
    | succ j =>
      obtain ⟨k, rfl⟩ : ∃ k', k = k' + 1 := ⟨k - 1, by omega⟩
      simp only [runningMax, getElem?_cons_succ] at hx hr
      exact ih _ (by omega) hx hr

end

end SortedSearch
