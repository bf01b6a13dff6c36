import Mathlib.Data.List.Basic

/-!
# Programs that call back

A program of arbitrary code is known by the calls that it makes: after each of them it goes on in a way that
depends on the answer, and it ends after finitely many.
-/

namespace Interaction

universe u v w
variable {σ ρ α β : Type u}

inductive Program (ρ α β : Type u)
  | ret (b : β)
  | call (request : ρ) (next : α → Program ρ α β)

/-- A request with its answer, and the states before and after. -/
structure Record (σ ρ α : Type u) where
  before : σ
  request : ρ
  answer : α
  after : σ

structure Outcome (σ ρ α β : Type u) where
  result : β
  trace : List (Record σ ρ α)
  last : σ

def run (step : σ → ρ → Option (α × σ)) : Program ρ α β → σ → Option (Outcome σ ρ α β)
  | .ret b, s => some ⟨b, [], s⟩
  | .call r next, s =>
    (step s r).bind fun as => (run step (next as.1) as.2).map fun o =>
      ⟨o.result, ⟨s, r, as.1, as.2⟩ :: o.trace, o.last⟩

/-- The calls as the program sees them. -/
def Outcome.calls (o : Outcome σ ρ α β) : List (ρ × α) := o.trace.map fun c => (c.request, c.answer)

variable {step : σ → ρ → Option (α × σ)} {s : σ} {o : Outcome σ ρ α β}

theorem run_call_eq_some {r : ρ} {next : α → Program ρ α β} :
    run step (.call r next) s = some o ↔
      ∃ a s₁ o₁, step s r = some (a, s₁) ∧ run step (next a) s₁ = some o₁ ∧
        o = ⟨o₁.result, ⟨s, r, a, s₁⟩ :: o₁.trace, o₁.last⟩ := by
  simp only [run, Option.bind_eq_some_iff, Option.map_eq_some_iff, Prod.exists]
  constructor
  · rintro ⟨a, s₁, hstep, o₁, hrun, rfl⟩
    exact ⟨a, s₁, o₁, hstep, hrun, rfl⟩
  · rintro ⟨a, s₁, o₁, hstep, hrun, rfl⟩
    exact ⟨a, s₁, hstep, o₁, hrun, rfl⟩

theorem run_records (Inv : σ → Prop) (P : Record σ ρ α → Prop)
    (hstep : ∀ s r a s', Inv s → step s r = some (a, s') → Inv s' ∧ P ⟨s, r, a, s'⟩)
    {p : Program ρ α β} (hs : Inv s) (h : run step p s = some o) :
    Inv o.last ∧ ∀ c ∈ o.trace, P c := by
  induction p generalizing s o with
  | ret b =>
    cases h
    exact ⟨hs, fun c hc => by cases hc⟩
  | call r next ih =>
    obtain ⟨a, s₁, o₁, hcall, hrun, rfl⟩ := run_call_eq_some.1 h
    obtain ⟨hinv, hP⟩ := hstep s r a s₁ hs hcall
    obtain ⟨hlast, hrest⟩ := ih a hinv hrun
    refine ⟨hlast, fun c hc => ?_⟩
    rcases List.mem_cons.1 hc with rfl | hc
    · exact hP
    · exact hrest c hc

theorem exists_run (Inv : σ → Prop) (hstep : ∀ s r, Inv s → ∃ a s', step s r = some (a, s') ∧ Inv s')
    (p : Program ρ α β) (hs : Inv s) : ∃ o, run step p s = some o := by
  induction p generalizing s with
  | ret b => exact ⟨_, rfl⟩
  | call r next ih =>
    obtain ⟨a, s₁, hcall, hinv⟩ := hstep s r hs
    obtain ⟨o, hrun⟩ := ih a hinv
    exact ⟨_, run_call_eq_some.2 ⟨a, s₁, o, hcall, hrun, rfl⟩⟩

theorem run_last {γ : Type v} {δ : Type w} (Inv : σ → Prop) (view : σ → γ) (update : γ → List δ → γ)
    (effect : Record σ ρ α → List δ)
    (hnil : ∀ g, update g [] = g) (happend : ∀ g ds ds', update g (ds ++ ds') = update (update g ds) ds')
    (hstep : ∀ s r a s', Inv s → step s r = some (a, s') →
      Inv s' ∧ view s' = update (view s) (effect ⟨s, r, a, s'⟩))
    {p : Program ρ α β} (hs : Inv s) (h : run step p s = some o) :
    view o.last = update (view s) (o.trace.flatMap effect) := by
  induction p generalizing s o with
  | ret b =>
    cases h
    exact (hnil _).symm
  | call r next ih =>
    obtain ⟨a, s₁, o₁, hcall, hrun, rfl⟩ := run_call_eq_some.1 h
    obtain ⟨hinv, hview⟩ := hstep s r a s₁ hs hcall
    show view o₁.last = _
    rw [ih a hinv hrun, hview, List.flatMap_cons, happend]

theorem run_flag (flag : σ → Prop) (P : Record σ ρ α → Prop)
    (hstep : ∀ s r a s', step s r = some (a, s') → (flag s' ↔ flag s ∨ P ⟨s, r, a, s'⟩))
    {p : Program ρ α β} (h : run step p s = some o) :
    flag o.last ↔ flag s ∨ ∃ c ∈ o.trace, P c := by
  have hlast := run_last (fun _ => True) flag (fun g cs => g ∨ ∃ c ∈ cs, P c) (fun c => [c]) (by simp)
    (fun g cs cs' => by simp only [List.mem_append, or_and_right, exists_or, or_assoc])
    (fun s r a s' _ h => ⟨trivial, by simp [hstep s r a s' h]⟩) trivial h
  simpa using hlast

end Interaction
