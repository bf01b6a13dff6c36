import Mathlib.Data.List.Basic

/-!
# Runs of programs with a state that can stop

A program over states `σ` that ends with a value and a state, or stops early with a reason `ε`, is a
`StateT σ (Except ε)`. `Wp` is its weakest precondition: `Wp False` says that it ends, `Wp True` speaks of
the runs that do.
-/

namespace StateExcept

variable {ε σ α β : Type}

/-- From `s` the program `x` ends as `Q` says, or it stops and `e` holds. -/
def Wp (e : Prop) (x : StateT σ (Except ε) α) (s : σ) (Q : α → σ → Prop) : Prop :=
  match x s with
  | .ok (v, s') => Q v s'
  | .error _ => e

/-- From `s` the program `x` ends, and as `Q` says. -/
def Returns (x : StateT σ (Except ε) α) (s : σ) (Q : α → σ → Prop) : Prop :=
  ∃ v s', x s = .ok (v, s') ∧ Q v s'

variable {e : Prop} {s s' : σ} {v : α} {Q : α → σ → Prop} {x y : StateT σ (Except ε) α}

theorem wp_of_ok (h : x s = .ok (v, s')) : Wp e x s Q ↔ Q v s' := by
  rw [Wp, h]

theorem wp_of_error {r : ε} (h : x s = .error r) : Wp e x s Q ↔ e := by
  rw [Wp, h]

theorem returns_iff : Returns x s Q ↔ Wp False x s Q := by
  cases h : x s with
  | error r => simp [Returns, wp_of_error h, h]
  | ok p =>
    obtain ⟨v, s'⟩ := p
    simp [Returns, wp_of_ok h, h]

@[simp] theorem wp_pure : Wp e (pure v : StateT σ (Except ε) α) s Q ↔ Q v s := wp_of_ok rfl

@[simp] theorem wp_bind {f : α → StateT σ (Except ε) β} {Q : β → σ → Prop} :
    Wp e (x >>= f) s Q ↔ Wp e x s fun v s' => Wp e (f v) s' Q := by
  have hbind : (x >>= f) s = x s >>= fun p => f p.1 p.2 := rfl
  cases h : x s with
  | error r =>
    rw [wp_of_error h, wp_of_error (r := r)]
    rw [hbind, h]
    rfl
  | ok p =>
    have hrest : (x >>= f) s = f p.1 p.2 := by
      rw [hbind, h]
      rfl
    rw [wp_of_ok h, Wp, Wp, hrest]

@[simp] theorem wp_map {g : α → β} {Q : β → σ → Prop} :
    Wp e (g <$> x) s Q ↔ Wp e x s fun v s' => Q (g v) s' := by
  rw [map_eq_pure_bind, wp_bind]
  simp only [wp_pure]

@[simp] theorem wp_throw {r : ε} : Wp e (throw r : StateT σ (Except ε) α) s Q ↔ e := wp_of_error rfl

@[simp] theorem wp_get {Q : σ → σ → Prop} : Wp e (get : StateT σ (Except ε) σ) s Q ↔ Q s s :=
  wp_of_ok rfl

@[simp] theorem wp_modify {f : σ → σ} {Q : Unit → σ → Prop} :
    Wp e (modify f : StateT σ (Except ε) Unit) s Q ↔ Q () (f s) := wp_of_ok rfl

@[simp] theorem wp_ite {c : Prop} [Decidable c] :
    Wp e (if c then x else y) s Q ↔ if c then Wp e x s Q else Wp e y s Q := by
  split_ifs <;> rfl

end StateExcept
