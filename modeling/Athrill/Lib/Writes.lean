import Mathlib.Data.Option.Basic

/-!
# Sequences of writes

Places that have a value or none, and a sequence of writes to some of them.
-/

namespace Writes

open Option

variable {κ β : Type} [DecidableEq κ]

def last (k : κ) : List (κ × β) → Option β
  | [] => none
  | w :: ws => (last k ws).or (if w.1 = k then some w.2 else none)

/-- The writes of a block of values to the places with the numbers from `n` on. -/
def placed (key : Nat → κ) : Nat → List β → List (κ × β)
  | _, [] => []
  | n, b :: bs => (key n, b) :: placed key (n + 1) bs

def apply (f : κ → Option β) (ws : List (κ × β)) : κ → Option β := fun k => (last k ws).or (f k)

variable {f : κ → Option β} {ws ws' : List (κ × β)} {w : κ × β} {k : κ}

@[simp] theorem last_nil : last k ([] : List (κ × β)) = none := rfl

theorem last_append : last k (ws ++ ws') = (last k ws').or (last k ws) := by
  induction ws with
  | nil => simp
  | cons w ws ih => rw [List.cons_append, last, last, ih, Option.or_assoc]

theorem last_placed_of_ne {key : Nat → κ} (h : ∀ n, key n ≠ k) (n : Nat) (bs : List β) :
    last k (placed key n bs) = none := by
  induction bs generalizing n with
  | nil => rfl
  | cons b bs ih => rw [placed, last, ih, if_neg (h n), none_or]

theorem last_placed {key : Nat → κ} (hkey : Function.Injective key) (m n : Nat) (bs : List β) :
    last (key m) (placed key n bs) = if n ≤ m then bs[m - n]? else none := by
  induction bs generalizing n with
  | nil => simp [placed]
  | cons b bs ih =>
    rw [placed, last, ih]
    rcases Nat.lt_trichotomy n m with hlt | rfl | hgt
    · have hsub : m - n = m - (n + 1) + 1 := by omega
      have hne : ¬ key n = key m := fun h => Nat.ne_of_lt hlt (hkey h)
      rw [if_pos (by omega), if_neg hne, or_none, if_pos (by omega), hsub, List.getElem?_cons_succ]
    · rw [if_neg (by omega), if_pos rfl, none_or, if_pos (Nat.le_refl n), Nat.sub_self, List.getElem?_cons_zero]
    · have hne : ¬ key n = key m := fun h => Nat.ne_of_gt hgt (hkey h)
      rw [if_neg (by omega), if_neg hne, none_or, if_neg (by omega)]

@[simp] theorem apply_nil : apply f [] = f := by
  funext k
  simp [apply]

theorem apply_singleton : apply f [w] k = if w.1 = k then some w.2 else f k := by
  rw [apply, last, last_nil, none_or]
  by_cases h : w.1 = k
  · rw [if_pos h, if_pos h, some_or]
  · rw [if_neg h, if_neg h, none_or]

theorem apply_append : apply f (ws ++ ws') = apply (apply f ws) ws' := by
  funext k
  rw [apply, last_append, Option.or_assoc, apply, apply]

theorem apply_cons : apply f (w :: ws) = apply (apply f [w]) ws := @apply_append _ _ _ f [w] ws

theorem apply_eq_self_iff : apply f ws = f ↔ ∀ k v, last k ws = some v → f k = some v := by
  constructor
  · intro h k v hlast
    have hk := congrFun h k
    rwa [apply, hlast, some_or, eq_comm] at hk
  · intro h
    funext k
    rw [apply]
    cases hlast : last k ws with
    | none => rw [none_or]
    | some v => rw [h k v hlast, some_or]

end Writes
