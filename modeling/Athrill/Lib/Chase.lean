import Mathlib.Logic.Basic

/-!
# Loops that follow links

A loop without a bound of its own looks at the place where it stands.
-/

universe u v

namespace Chase

open List

variable {σ : Type u} {ρ : Type v} {step : σ → Option (ρ ⊕ σ)} {s : σ} {r r' : ρ} {m n : Nat}

def chase (step : σ → Option (ρ ⊕ σ)) : Nat → σ → Option ρ
  | 0, _ => none
  | n + 1, s =>
    match step s with
    | none => none
    | some (.inl r) => some r
    | some (.inr s') => chase step n s'

/-- The steps from `s` end with the result `r`. -/
inductive Leads (step : σ → Option (ρ ⊕ σ)) : σ → ρ → Prop
  | stop {s : σ} {r : ρ} (h : step s = some (.inl r)) : Leads step s r
  | next {s s' : σ} {r : ρ} (h : step s = some (.inr s')) (hleads : Leads step s' r) : Leads step s r

theorem chase_succ_of_stop (h : step s = some (.inl r)) : chase step (n + 1) s = some r := by
  rw [chase, h]

theorem chase_succ_of_next {s' : σ} (h : step s = some (.inr s')) :
    chase step (n + 1) s = chase step n s' := by
  rw [chase, h]

theorem Leads.of_chase (h : chase step n s = some r) : Leads step s r := by
  induction n generalizing s with
  | zero => cases h
  | succ n ih =>
    rw [chase] at h
    split at h
    · cases h
    · rename_i hstep
      exact .stop (hstep.trans (by rw [Option.some.inj h]))
    · rename_i hstep
      exact .next hstep (ih h)

theorem exists_chase_iff : (∃ n, chase step n s = some r) ↔ Leads step s r := by
  refine ⟨fun ⟨n, h⟩ => .of_chase h, fun h => ?_⟩
  induction h with
  | stop h => exact ⟨1, chase_succ_of_stop h⟩
  | next h _ ih =>
    obtain ⟨n, hn⟩ := ih
    exact ⟨n + 1, (chase_succ_of_next h).trans hn⟩

theorem chase_mono (h : chase step m s = some r) (hle : m ≤ n) : chase step n s = some r := by
  induction m generalizing n s with
  | zero => cases h
  | succ m ih =>
    obtain ⟨n, rfl⟩ := Nat.exists_eq_add_one_of_ne_zero (show n ≠ 0 by omega)
    cases hstep : step s with
    | none => simp [chase, hstep] at h
    | some next =>
      cases next with
      | inl r' => simpa [chase, hstep] using h
      | inr s' =>
        rw [chase_succ_of_next hstep] at h ⊢
        exact ih h (by omega)

theorem chase_eq_none_of_closed {P : σ → Prop} (hP : ∀ s, P s → ∃ s', step s = some (.inr s') ∧ P s')
    (h : P s) (n : Nat) : chase step n s = none := by
  induction n generalizing s with
  | zero => rfl
  | succ n ih =>
    obtain ⟨s', hstep, hs'⟩ := hP s h
    rw [chase_succ_of_next hstep, ih hs']

theorem exists_forall_of_mono {α : Type u} {P : Nat → α → Prop} (hmono : ∀ {m n a}, m ≤ n → P m a → P n a)
    {l : List α} (h : ∀ a ∈ l, ∃ n, P n a) : ∃ n, ∀ a ∈ l, P n a := by
  induction l with
  | nil => exact ⟨0, by simp⟩
  | cons a l ih =>
    obtain ⟨m, hm⟩ := h a mem_cons_self
    obtain ⟨n, hn⟩ := ih fun b hb => h b (mem_cons_of_mem a hb)
    refine ⟨max m n, forall_mem_cons.2 ⟨hmono (Nat.le_max_left m n) hm, fun b hb => ?_⟩⟩
    exact hmono (Nat.le_max_right m n) (hn b hb)

end Chase
