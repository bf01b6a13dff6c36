import Mathlib.Data.List.Basic

/-!
# Bubble sort

One pass of a bubble sort carries an element along a list: it changes places with its neighbour where the
comparison says so, and otherwise leaves the neighbour to be carried on.
-/

namespace BubbleSort

open List

universe u
variable {α : Type u} (r : α → α → Bool)

def bubble : α → List α → List α
  | a, [] => [a]
  | a, b :: l => if r a b then b :: bubble a l else a :: bubble b l

def swaps : α → List α → Bool
  | _, [] => false
  | a, b :: l => if r a b then true else swaps b l

def inversions : List α → Nat
  | [] => 0
  | a :: l => l.countP (r a) + inversions l

/-- A comparison that says which elements are strictly larger than which. -/
structure StrictWeak (r : α → α → Bool) : Prop where
  asymm : ∀ a b, r a b = true → r b a = false
  trans : ∀ a b c, r a b = false → r b c = false → r a c = false

variable {r} {a : α} {l : List α}

theorem bubble_perm (a : α) (l : List α) : (bubble r a l).Perm (a :: l) := by
  induction l generalizing a with
  | nil => exact .refl _
  | cons b l ih =>
    unfold bubble
    split_ifs
    · exact ((ih a).cons b).trans (.swap a b l)
    · exact (ih b).cons a

theorem inversions_bubble (hr : StrictWeak r) (a : α) (l : List α) :
    inversions r (bubble r a l) + (swaps r a l).toNat ≤ inversions r (a :: l) := by
  induction l generalizing a with
  | nil => exact Nat.le_refl _
  | cons b l ih =>
    have hcount : ∀ x y, (bubble r x l).countP (r y) = (x :: l).countP (r y) := fun x y =>
      (bubble_perm x l).countP_eq (r y)
    unfold bubble swaps
    split_ifs with hab
    · have hba : (a :: l).countP (r b) = l.countP (r b) := by
        rw [countP_cons_of_neg (by simp [hr.asymm a b hab])]
      have hrest := ih a
      simp only [inversions, hcount, hba, countP_cons_of_pos hab, Bool.toNat_true] at hrest ⊢
      omega
    · have hrest := ih b
      simp only [inversions, hcount] at hrest ⊢
      omega

theorem pairwise_of_not_swaps (hr : StrictWeak r) (h : swaps r a l = false) :
    (a :: l).Pairwise (fun x y => r x y = false) := by
  have : IsTrans α fun x y => r x y = false := ⟨hr.trans⟩
  refine isChain_iff_pairwise.1 ?_
  induction l generalizing a with
  | nil => exact .singleton a
  | cons b l ih =>
    unfold swaps at h
    split_ifs at h with hab
    exact .cons_cons (by simpa using hab) (ih h)

theorem bubble_of_not_swaps (h : swaps r a l = false) : bubble r a l = a :: l := by
  induction l generalizing a with
  | nil => rfl
  | cons b l ih =>
    unfold swaps at h
    split_ifs at h with hab
    rw [bubble, if_neg hab, ih h]

theorem pairwise_bubble {S : α → α → Prop} (hS : ∀ x y, r x y = true → S y x) (h : (a :: l).Pairwise S) :
    (bubble r a l).Pairwise S := by
  induction l generalizing a with
  | nil => exact h
  | cons b l ih =>
    obtain ⟨ha, hb, hl⟩ := by simpa only [pairwise_cons] using h
    unfold bubble
    split_ifs with hab
    · refine pairwise_cons.2 ⟨fun x hx => ?_, ih (pairwise_cons.2 ⟨fun x hx => ha x (.tail _ hx), hl⟩)⟩
      rcases mem_cons.1 ((bubble_perm a l).mem_iff.1 hx) with rfl | hx
      · exact hS _ _ hab
      · exact hb x hx
    · refine pairwise_cons.2 ⟨fun x hx => ?_, ih (pairwise_cons.2 ⟨hb, hl⟩)⟩
      exact ha x ((bubble_perm b l).mem_iff.1 hx)

end BubbleSort
