import Mathlib.Logic.Basic

/-!
# Checkers that must not fault

A checker of untrusted bytes reads them, rejects what is malformed, and must never read outside the bytes
while it does so.
-/

namespace Checker

universe u v

/-- A check reads outside the data, or refuses it. -/
inductive Failure (ρ : Type u)
  | fault
  | rejected (reason : ρ)
  deriving DecidableEq, Repr

section
variable {ρ : Type u} {α β : Type v} {P Q : Prop}

def reject (c : Prop) [Decidable c] (reason : ρ) : Except (Failure ρ) PUnit.{v + 1} :=
  if c then .error (.rejected reason) else .ok ⟨⟩

structure Yields (r : Except (Failure ρ) α) (P : Prop) (a : α) : Prop where
  ok : P → r = .ok a
  rejects : ¬ P → ∃ reason, r = .error (.rejected reason)

namespace Yields

variable {r : Except (Failure ρ) α} {a : α} {b : β}

theorem congr (h : Yields r P a) (hPQ : P ↔ Q) : Yields r Q a :=
  ⟨fun hQ => h.ok (hPQ.2 hQ), fun hQ => h.rejects fun hP => hQ (hPQ.1 hP)⟩

theorem of_eq (h : r = .ok a) : Yields r True a :=
  ⟨fun _ => h, fun hn => absurd trivial hn⟩

theorem reject {c : Prop} [Decidable c] {reason : ρ} :
    Yields (Checker.reject.{u, v} c reason) (¬ c) ⟨⟩ := by
  unfold Checker.reject
  by_cases hc : c
  · exact ⟨fun h => absurd hc h, fun _ => ⟨reason, if_pos hc⟩⟩
  · exact ⟨fun _ => if_neg hc, fun h => absurd hc h⟩

theorem bind {f : α → Except (Failure ρ) β} (h : Yields r P a) (hf : P → Yields (f a) Q b) :
    Yields (r >>= f) (P ∧ Q) b := by
  by_cases hP : P
  · have hr : (r >>= f) = f a := by rw [h.ok hP]; rfl
    rw [hr]
    exact ⟨fun hPQ => (hf hP).ok hPQ.2, fun hn => (hf hP).rejects fun hQ => hn ⟨hP, hQ⟩⟩
  · obtain ⟨reason, hreason⟩ := h.rejects hP
    refine ⟨fun hPQ => absurd hPQ.1 hP, fun _ => ⟨reason, ?_⟩⟩
    rw [hreason]
    rfl

theorem read {f : α → Except (Failure ρ) β} (h : r = .ok a) (hf : Yields (f a) Q b) :
    Yields (r >>= f) Q b := by
  rwa [h]

theorem skip {r : Except (Failure ρ) PUnit.{v + 1}} {c : Prop} [Decidable c] (h : ¬ c → Yields r P ⟨⟩) :
    Yields (if c then .ok ⟨⟩ else r) (¬ c → P) ⟨⟩ := by
  by_cases hc : c
  · rw [if_pos hc]
    exact (of_eq rfl).congr ⟨fun _ hn => absurd hc hn, fun _ => trivial⟩
  · rw [if_neg hc]
    exact (h hc).congr ⟨fun hP _ => hP, fun hP => hP hc⟩

theorem forM {ι : Type*} {f : ι → Except (Failure ρ) PUnit.{v + 1}} {p : ι → Prop} (xs : List ι)
    (h : ∀ x ∈ xs, Yields (f x) (p x) ⟨⟩) : Yields (xs.forM f) (∀ x ∈ xs, p x) ⟨⟩ := by
  induction xs with
  | nil => exact (of_eq rfl).congr (by simp)
  | cons x xs ih =>
    have hrest := ih fun y hy => h y (List.mem_cons_of_mem _ hy)
    refine ((h x List.mem_cons_self).bind fun _ => hrest).congr ?_
    simp

end Yields

end

end Checker
