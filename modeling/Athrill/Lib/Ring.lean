import Mathlib.Data.List.Basic
import Mathlib.Data.Nat.ModEq

/-!
# Rings

A queue kept in `cap` places that are used in a circle: `count` elements from the place `rx` on.
-/

namespace Ring

open List Function

universe u
variable {α : Type u}

def contents (data : Nat → α) (cap rx count : Nat) : List α :=
  (range count).map fun i => data ((rx + i) % cap)

def next (cap i : Nat) : Nat := if i + 1 ≥ cap then 0 else i + 1

theorem next_eq_mod {cap i : Nat} (h : i < cap) : next cap i = (i + 1) % cap := by
  unfold next
  split_ifs with hge
  · rw [show i + 1 = cap by omega, Nat.mod_self]
  · exact (Nat.mod_eq_of_lt (Nat.lt_of_not_le hge)).symm

section
variable (data : Nat → α) (cap rx count : Nat)

@[simp] theorem length_contents : (contents data cap rx count).length = count := by
  simp [contents]

theorem contents_succ :
    contents data cap rx (count + 1) =
      data (rx % cap) :: contents data cap ((rx + 1) % cap) count := by
  simp only [contents, range_succ_eq_map, map_cons, map_map, Nat.add_zero]
  congr 1
  refine map_congr_left fun i _ => ?_
  rw [comp_apply, Nat.mod_add_mod, Nat.add_right_comm, Nat.add_assoc]

theorem contents_update (x : α) (h : count < cap) :
    contents (update data ((rx + count) % cap) x) cap rx (count + 1) =
      contents data cap rx count ++ [x] := by
  rw [contents, range_succ, map_append, map_singleton, update_self]
  congr 1
  refine map_congr_left fun i hi => update_of_ne (fun heq => ?_) _ _
  -- two places of a ring are equal only if they are a multiple of the capacity apart
  have hmod : Nat.ModEq cap i count := Nat.ModEq.add_left_cancel' rx heq
  have hlt := mem_range.1 hi
  exact absurd (hmod.eq_of_lt_of_lt (by omega) h) (by omega)

end

/-! ## Logs -/

def back (cap i k : Nat) : Nat := if k ≤ i then i - k else cap - (k - i)

theorem back_eq_mod {cap j k : Nat} (hj : k ≤ j) (hk : k < cap) : back cap (j % cap) k = (j - k) % cap := by
  have hcap : 0 < cap := Nat.zero_lt_of_lt hk
  have hlt := Nat.mod_lt j hcap
  have hdiv := Nat.div_add_mod j cap
  unfold back
  split_ifs with hle
  · have hsplit : j - k = j % cap - k + cap * (j / cap) := by omega
    have hsmall : j % cap - k < cap := by omega
    rw [hsplit, Nat.add_mul_mod_self_left, Nat.mod_eq_of_lt hsmall]
  · -- the walk goes through the start of the ring once
    obtain ⟨q, hq⟩ : ∃ q, j / cap = q + 1 := Nat.exists_eq_add_one.2 (Nat.pos_of_ne_zero fun h0 => by
      rw [h0, Nat.mul_zero] at hdiv
      omega)
    rw [hq, Nat.mul_add, Nat.mul_one] at hdiv
    have hsplit : j - k = cap - (k - j % cap) + cap * q := by omega
    have hsmall : cap - (k - j % cap) < cap := by omega
    rw [hsplit, Nat.add_mul_mod_self_left, Nat.mod_eq_of_lt hsmall]

def HoldsEnd (data : Nat → α) (cap : Nat) (l : List α) : Prop :=
  ∀ i < l.length, l.length ≤ i + cap → l[i]? = some (data (i % cap))

theorem holdsEnd_nil (data : Nat → α) (cap : Nat) :
    HoldsEnd data cap [] := fun _ hi => absurd hi (Nat.not_lt_zero _)

theorem HoldsEnd.concat {data : Nat → α} {cap : Nat} {l : List α} (h : HoldsEnd data cap l) (x : α) :
    HoldsEnd (update data (l.length % cap) x) cap (l ++ [x]) := by
  intro i hi hend
  rw [length_append, length_singleton] at hi hend
  rcases Nat.lt_succ_iff_lt_or_eq.1 hi with hlt | rfl
  · -- two places less than `cap` apart are different
    have hne : i % cap ≠ l.length % cap := fun heq => by
      have hdvd : cap ∣ l.length - i := (Nat.modEq_iff_dvd' hlt.le).1 heq
      exact absurd (Nat.le_of_dvd (by omega) hdvd) (by omega)
    rw [getElem?_append_left hlt, update_of_ne hne]
    exact h i hlt (by omega)
  · rw [getElem?_concat_length, update_self]

end Ring
