import Mathlib.Data.List.Basic

/-!
# Loops that advance a clock

A loop whose iterations each advance a clock, until it reaches a stop.
-/

structure ClockedLoop (σ ο : Type*) where
  iter : σ → List ο × σ
  clock : σ → Nat
  stop : Nat
  advances : ∀ s, clock s < stop → clock s < clock (iter s).2

namespace ClockedLoop

variable {σ ο β : Type*} (L : ClockedLoop σ ο)

def foldFor (f : σ → β → β) (b : β) : Nat → σ → β
  | 0, _ => b
  | n + 1, s => if L.stop ≤ L.clock s then b else f s (foldFor f b n (L.iter s).2)

def fold (f : σ → β → β) (b : β) (s : σ) : β := L.foldFor f b (L.stop - L.clock s) s

variable {s : σ} {f : σ → β → β}

theorem foldFor_congr {b : β} {n m : Nat} (hn : L.stop - L.clock s ≤ n)
    (hm : L.stop - L.clock s ≤ m) : L.foldFor f b n s = L.foldFor f b m s := by
  induction n generalizing m s with
  | zero =>
    cases m with
    | zero => rfl
    | succ m => rw [foldFor, foldFor, if_pos (Nat.sub_eq_zero_iff_le.1 (Nat.le_zero.1 hn))]
  | succ n ih =>
    cases m with
    | zero => rw [foldFor, foldFor, if_pos (Nat.sub_eq_zero_iff_le.1 (Nat.le_zero.1 hm))]
    | succ m =>
      rw [foldFor, foldFor]
      split_ifs with hstop
      · rfl
      · have hadv := L.advances s (Nat.not_le.1 hstop)
        exact congrArg (f s) (ih (by omega) (by omega))

theorem fold_of_le {b : β} (h : L.stop ≤ L.clock s) : L.fold f b s = b := by
  rw [fold, Nat.sub_eq_zero_of_le h, foldFor]

theorem fold_of_lt {b : β} (h : L.clock s < L.stop) :
    L.fold f b s = f s (L.fold f b (L.iter s).2) := by
  have hadv := L.advances s h
  rw [fold, L.foldFor_congr (Nat.le_refl _) (Nat.le_succ (L.stop - L.clock s)), foldFor,
    if_neg (Nat.not_le.2 h), fold]
  exact congrArg (f s) (L.foldFor_congr (by omega) (Nat.le_refl _))

def trace (s : σ) : List ο := L.fold (fun s rest => (L.iter s).1 ++ rest) [] s

/-- `P` holds in every state the loop passes. -/
def Always (P : σ → Prop) (s : σ) : Prop := L.fold (fun s rest => P s ∧ rest) True s

theorem trace_of_le (h : L.stop ≤ L.clock s) : L.trace s = [] := L.fold_of_le h

theorem trace_of_lt (h : L.clock s < L.stop) :
    L.trace s = (L.iter s).1 ++ L.trace (L.iter s).2 := L.fold_of_lt h

theorem always_of_le {P : σ → Prop} (h : L.stop ≤ L.clock s) : L.Always P s := by
  rw [Always, L.fold_of_le h]
  trivial

theorem always_of_lt {P : σ → Prop} (h : L.clock s < L.stop) :
    L.Always P s ↔ P s ∧ L.Always P (L.iter s).2 := by
  rw [Always, L.fold_of_lt h]
  rfl

theorem induction {motive : σ → Prop} (stopped : ∀ s, L.stop ≤ L.clock s → motive s)
    (step : ∀ s, L.clock s < L.stop → motive (L.iter s).2 → motive s) (s : σ) : motive s := by
  obtain ⟨n, hn⟩ : ∃ n, L.stop - L.clock s ≤ n := ⟨_, Nat.le_refl _⟩
  induction n generalizing s with
  | zero => exact stopped s (Nat.sub_eq_zero_iff_le.1 (Nat.le_zero.1 hn))
  | succ n ih =>
    rcases Nat.lt_or_ge (L.clock s) L.stop with h | h
    · have hadv := L.advances s h
      exact step s h (ih _ (by omega))
    · exact stopped s h

theorem clock_le_of_mem_trace {obsClock : ο → Nat}
    (hiter : ∀ s, ∀ o ∈ (L.iter s).1, L.clock s ≤ obsClock o) (s : σ) :
    ∀ o ∈ L.trace s, L.clock s ≤ obsClock o := by
  induction s using L.induction with
  | stopped s h =>
    intro o ho
    rw [L.trace_of_le h] at ho
    cases ho
  | step s h ih =>
    intro o ho
    rw [L.trace_of_lt h] at ho
    rcases List.mem_append.1 ho with ho | ho
    · exact hiter s o ho
    · exact Nat.le_trans (Nat.le_of_lt (L.advances s h)) (ih o ho)

end ClockedLoop
