import Mathlib.Data.List.Basic

/-!
# Runs of a step function

A component that keeps state between its calls is a step function: from a state and an event it gives the
next state and an output, or no result where the step is undefined (a read outside an array, a failed
assertion).
-/

namespace Machine

open List

universe u v w x
variable {σ : Type u} {τ : Type v} {ε : Type w} {ο : Type x}

def run (step : σ → ε → Option (σ × ο)) : σ → List ε → Option (σ × List ο)
  | s, [] => some (s, [])
  | s, e :: es =>
    match step s e with
    | none => none
    | some (s', o) =>
      match run step s' es with
      | none => none
      | some (s'', os) => some (s'', o :: os)

@[simp] theorem run_nil (step : σ → ε → Option (σ × ο)) (s : σ) : run step s [] = some (s, []) :=
  rfl

variable {step : σ → ε → Option (σ × ο)} {s : σ} {es : List ε} {C : σ → ε → Prop} {os : List ο}

theorem run_cons_eq_some {s s'' : σ} {e : ε} :
    run step s (e :: es) = some (s'', os) ↔
      ∃ s' o os', step s e = some (s', o) ∧ run step s' es = some (s'', os') ∧ os = o :: os' := by
  simp only [run]
  constructor
  · intro h
    cases hs : step s e with
    | none => rw [hs] at h; cases h
    | some p =>
      obtain ⟨s', o⟩ := p
      rw [hs] at h
      cases hr : run step s' es with
      | none => simp only [hr] at h; cases h
      | some q =>
        obtain ⟨t, os'⟩ := q
        simp only [hr, Option.some.injEq, Prod.mk.injEq] at h
        exact ⟨s', o, os', rfl, by rw [hr, h.1], h.2.symm⟩
  · rintro ⟨s', o, os', hs, hr, rfl⟩
    simp only [hs, hr]

theorem exists_run_cons {e : ε} :
    (∃ s' os, run step s (e :: es) = some (s', os)) ↔
      ∃ s₁ o, step s e = some (s₁, o) ∧ ∃ s' os, run step s₁ es = some (s', os) := by
  simp only [run_cons_eq_some]
  constructor
  · rintro ⟨s', _, s₁, o, os, hs, hr, -⟩
    exact ⟨s₁, o, hs, s', os, hr⟩
  · rintro ⟨s₁, o, hs, s', os, hr⟩
    exact ⟨s', _, s₁, o, os, hs, hr, rfl⟩

theorem eq_of_run_nil {s s' : σ} (h : run step s [] = some (s', os)) : s = s' :=
  (Prod.mk.inj (Option.some.inj h)).1

def StepsMeet (step : σ → ε → Option (σ × ο)) (C : σ → ε → Prop) : σ → List ε → Prop
  | _, [] => True
  | s, e :: es => C s e ∧ ∀ s' o, step s e = some (s', o) → StepsMeet step C s' es

theorem stepsMeet_cons {s s' : σ} {e : ε} {o : ο} (h : step s e = some (s', o)) :
    StepsMeet step C s (e :: es) ↔ C s e ∧ StepsMeet step C s' es := by
  refine and_congr_right fun _ => ⟨fun hall => hall s' o h, fun hm s'' o' h' => ?_⟩
  cases h.symm.trans h'
  exact hm

instance StepsMeet.instDecidable {step : σ → ε → Option (σ × ο)} {C : σ → ε → Prop}
    [∀ s e, Decidable (C s e)] : ∀ s es, Decidable (StepsMeet step C s es)
  | _, [] => isTrue trivial
  | s, e :: es =>
    match h : step s e with
    | none =>
      decidable_of_iff (C s e)
        ⟨fun hc => ⟨hc, fun _ _ hs => nomatch h.symm.trans hs⟩, fun hm => hm.1⟩
    | some (s', _) =>
      have : Decidable (StepsMeet step C s' es) := StepsMeet.instDecidable s' es
      decidable_of_iff (C s e ∧ StepsMeet step C s' es) (stepsMeet_cons h).symm

theorem stepsMeet_of_forall_mem {P : ε → Prop}
    (h : ∀ e ∈ es, P e) (s : σ) : StepsMeet step (fun _ e => P e) s es := by
  induction es generalizing s with
  | nil => trivial
  | cons e es ih =>
    exact ⟨h e (.head _), fun s' _ _ => ih (fun e' he' => h e' (.tail _ he')) s'⟩

/-- An invariant of the state and of the outputs so far. -/
theorem run_trace_of_stepsMeet (Inv : σ → List ο → Prop)
    (hstep : ∀ s os e s' o, Inv s os → C s e → step s e = some (s', o) → Inv s' (os ++ [o])) (es : List ε)
    {s s' : σ} (hi : Inv s []) (hm : StepsMeet step C s es) (h : run step s es = some (s', os)) : Inv s' os := by
  -- the outputs are split into those shown before and those of the rest of the run
  suffices hrest : ∀ before, Inv s before → Inv s' (before ++ os) from hrest [] hi
  clear hi
  induction es generalizing s os with
  | nil =>
    cases h
    intro before hb
    rwa [append_nil]
  | cons e es ih =>
    obtain ⟨s₁, o, os', hs, hr, rfl⟩ := run_cons_eq_some.1 h
    intro before hb
    rw [append_cons]
    exact ih (hm.2 s₁ o hs) hr _ (hstep s before e s₁ o hb hm.1 hs)

section
variable (Inv : σ → Prop)
include Inv

theorem StepsMeet.imp {C D : σ → ε → Prop}
  (hstep : ∀ s e s' o, Inv s → C s e → step s e = some (s', o) → Inv s') (himp : ∀ s e, Inv s → C s e → D s e)
  (hi : Inv s) (hm : StepsMeet step C s es) : StepsMeet step D s es := by
  induction es generalizing s with
  | nil => trivial
  | cons e es ih =>
    refine ⟨himp s e hi hm.1, fun s' o hs => ?_⟩
    exact ih (hstep s e s' o hi hm.1 hs) (hm.2 s' o hs)

theorem run_invariant_of_stepsMeet (hstep : ∀ s e s' o, Inv s → C s e → step s e = some (s', o) → Inv s')
  (es : List ε) {s s' : σ} (hi : Inv s) (hm : StepsMeet step C s es) (h : run step s es = some (s', os)) : Inv s' :=
  run_trace_of_stepsMeet (fun s _ => Inv s) (fun s _ => hstep s) es hi hm h

theorem run_invariant (hstep : ∀ s e s' o, Inv s → step s e = some (s', o) → Inv s') (es : List ε) {s s' : σ}
  (hi : Inv s) (h : run step s es = some (s', os)) : Inv s' :=
  run_invariant_of_stepsMeet Inv (fun s e s' o hs _ => hstep s e s' o hs) es hi
    (stepsMeet_of_forall_mem (fun _ _ => trivial) s) h

theorem run_outputs_of_stepsMeet (P : ο → Prop)
  (hstep : ∀ s e s' o, Inv s → C s e → step s e = some (s', o) → Inv s' ∧ P o) (es : List ε) {s s' : σ}
  (hi : Inv s) (hm : StepsMeet step C s es) (h : run step s es = some (s', os)) : ∀ o ∈ os, P o := by
  refine (run_trace_of_stepsMeet (fun s os => Inv s ∧ ∀ o ∈ os, P o) (fun s os e s' o hs hc h => ?_) es
    ⟨hi, by simp⟩ hm h).2
  obtain ⟨hi', ho⟩ := hstep s e s' o hs.1 hc h
  exact ⟨hi', forall_mem_append.2 ⟨hs.2, by simpa using ho⟩⟩

theorem forall_prefix_iff_stepsMeet_of_partial
  (hstep : ∀ s e s' o, Inv s → step s e = some (s', o) → (Inv s' ↔ C s e))
  (hnone : ∀ s e, Inv s → step s e = none → C s e) (es : List ε) (hi : Inv s) :
    (∀ pre s' os, pre <+: es → run step s pre = some (s', os) → Inv s') ↔ StepsMeet step C s es := by
  induction es generalizing s with
  | nil =>
    refine iff_of_true (fun pre s' os hpre hrun => ?_) trivial
    obtain rfl := prefix_nil.1 hpre
    exact eq_of_run_nil hrun ▸ hi
  | cons e es ih =>
    constructor
    · intro h
      refine ⟨?_, fun s₁ o hs => ?_⟩
      · cases hs : step s e with
        | none => exact hnone s e hi hs
        | some p =>
          exact (hstep s e p.1 p.2 hi hs).1 (h [e] p.1 [p.2] (prefix_append [e] es)
            (run_cons_eq_some.2 ⟨p.1, p.2, [], hs, rfl, rfl⟩))
      · have hi₁ : Inv s₁ := h [e] s₁ [o] (prefix_append [e] es)
          (run_cons_eq_some.2 ⟨s₁, o, [], hs, rfl, rfl⟩)
        refine (ih hi₁).1 fun pre s' os hpre hrun => ?_
        exact h (e :: pre) s' (o :: os) (cons_prefix_cons.2 ⟨rfl, hpre⟩)
          (run_cons_eq_some.2 ⟨s₁, o, os, hs, hrun, rfl⟩)
    · rintro ⟨hc, hm⟩ pre s' os hpre hrun
      cases pre with
      | nil => exact eq_of_run_nil hrun ▸ hi
      | cons e' pre =>
        obtain ⟨rfl, hrest⟩ := cons_prefix_cons.1 hpre
        obtain ⟨s₁, o, os', hs, hrun', -⟩ := run_cons_eq_some.1 hrun
        exact (ih ((hstep s e' s₁ o hi hs).2 hc)).2 (hm s₁ o hs) pre s' os' hrest hrun'

theorem forall_prefix_iff_stepsMeet
  (hstep : ∀ s e, Inv s → ∃ s' o, step s e = some (s', o) ∧ (Inv s' ↔ C s e)) (es : List ε) (hi : Inv s) :
    (∀ pre s' os, pre <+: es → run step s pre = some (s', os) → Inv s') ↔ StepsMeet step C s es := by
  refine forall_prefix_iff_stepsMeet_of_partial Inv (fun s e s' o hs h => ?_) (fun s e hs h => ?_)
    es hi
  · obtain ⟨s₁, o₁, h₁, hexact⟩ := hstep s e hs
    cases h₁.symm.trans h
    exact hexact
  · obtain ⟨s₁, o₁, h₁, -⟩ := hstep s e hs
    cases h₁.symm.trans h

theorem forall_prefix_iff_stepsMeet_of_inv (Good : σ → Prop) (hgood : ∀ s, Inv s → Good s)
  (hstep : ∀ s e, Inv s → ∃ s' o, step s e = some (s', o) ∧ (C s e → Inv s') ∧ (Good s' → C s e))
  (es : List ε) (hi : Inv s) :
    (∀ pre s' os, pre <+: es → run step s pre = some (s', os) → Good s') ↔ StepsMeet step C s es := by
  constructor
  · intro h
    induction es generalizing s with
    | nil => trivial
    | cons e es ih =>
      obtain ⟨s₁, o, hs, hkeep, hmeet⟩ := hstep s e hi
      have hrun : ∀ pre s' os, run step s₁ pre = some (s', os) →
          run step s (e :: pre) = some (s', o :: os) := fun pre s' os hr =>
        run_cons_eq_some.2 ⟨s₁, o, os, hs, hr, rfl⟩
      have hC : C s e := hmeet (h [e] s₁ [o] (prefix_append [e] es) (hrun [] s₁ [] rfl))
      rw [stepsMeet_cons hs]
      refine ⟨hC, ih (hkeep hC) fun pre s' os hpre hr => ?_⟩
      exact h (e :: pre) s' (o :: os) (cons_prefix_cons.2 ⟨rfl, hpre⟩) (hrun pre s' os hr)
  · intro hm pre s' os hpre hrun
    have hexact := (forall_prefix_iff_stepsMeet Inv (fun s e hs => ?_) es hi).2 hm
    · exact hgood s' (hexact pre s' os hpre hrun)
    · obtain ⟨s₁, o, hs₁, hkeep, hmeet⟩ := hstep s e hs
      exact ⟨s₁, o, hs₁, fun hs' => hmeet (hgood s₁ hs'), hkeep⟩

theorem exists_run_iff_stepsMeet (hstep : ∀ s e, Inv s → C s e → ∃ s' o, step s e = some (s', o) ∧ Inv s')
  (hnone : ∀ s e, Inv s → ¬ C s e → step s e = none) (es : List ε) (hi : Inv s) :
    (∃ s' os, run step s es = some (s', os) ∧ Inv s') ↔ StepsMeet step C s es := by
  induction es generalizing s with
  | nil => exact iff_of_true ⟨s, [], rfl, hi⟩ trivial
  | cons e es ih =>
    by_cases hC : C s e
    · obtain ⟨s₁, o, hs, hi₁⟩ := hstep s e hi hC
      rw [stepsMeet_cons hs, and_iff_right hC, ← ih hi₁]
      constructor
      · rintro ⟨s', os, hrun, hi'⟩
        obtain ⟨s₂, o₂, os', hs₂, hr, -⟩ := run_cons_eq_some.1 hrun
        cases hs.symm.trans hs₂
        exact ⟨s', os', hr, hi'⟩
      · rintro ⟨s', os, hr, hi'⟩
        exact ⟨s', o :: os, run_cons_eq_some.2 ⟨s₁, o, os, hs, hr, rfl⟩, hi'⟩
    · refine iff_of_false ?_ fun hm => hC hm.1
      rintro ⟨s', os, hrun, -⟩
      obtain ⟨s₁, o, os', hs, -, -⟩ := run_cons_eq_some.1 hrun
      rw [hnone s e hi hC] at hs
      cases hs

end

theorem exists_run_of_prefixes (Inv : List ε → σ → Prop) (hstep : ∀ pre e s, pre ++ [e] <+: es → Inv pre s →
      ∃ s' o, step s e = some (s', o) ∧ Inv (pre ++ [e]) s') (hi : Inv [] s) :
    ∃ s' os, run step s es = some (s', os) ∧ Inv es s' := by
  -- the events are split into those done and those to come
  have hrest : ∀ rest pre s, pre ++ rest = es → Inv pre s →
      ∃ s' os, run step s rest = some (s', os) ∧ Inv es s' := by
    intro rest
    induction rest with
    | nil =>
      intro pre s heq hpre
      rw [append_nil] at heq
      exact ⟨s, [], rfl, heq ▸ hpre⟩
    | cons e rest ih =>
      intro pre s heq hpre
      rw [append_cons] at heq
      obtain ⟨s₁, o, hs, hi₁⟩ := hstep pre e s ⟨rest, heq⟩ hpre
      obtain ⟨s', os, hr, hi'⟩ := ih (pre ++ [e]) s₁ heq hi₁
      exact ⟨s', o :: os, run_cons_eq_some.2 ⟨s₁, o, os, hs, hr, rfl⟩, hi'⟩
  exact hrest es [] s rfl hi

def outputs (step : τ → ε → τ × ο) : τ → List ε → List ο
  | _, [] => []
  | t, e :: es => (step t e).2 :: outputs step (step t e).1 es

def after (step : τ → ε → τ × ο) : τ → List ε → τ
  | t, [] => t
  | t, e :: es => after step (step t e).1 es

theorem after_append (step : τ → ε → τ × ο) (es es' : List ε) (t : τ) :
    after step t (es ++ es') = after step (after step t es) es' := by
  induction es generalizing t with
  | nil => rfl
  | cons e es ih => exact ih (step t e).1

theorem after_invariant_of_forall_mem {step : τ → ε → τ × ο} (Inv : τ → Prop) {P : ε → Prop}
    (hstep : ∀ t e, Inv t → P e → Inv (step t e).1) (hP : ∀ e ∈ es, P e) {t : τ}
    (h : Inv t) : Inv (after step t es) := by
  induction es generalizing t with
  | nil => exact h
  | cons e es ih =>
    exact ih (fun e' he' => hP e' (.tail _ he')) (hstep t e h (hP e (.head _)))

theorem after_invariant {step : τ → ε → τ × ο} (Inv : τ → Prop)
    (hstep : ∀ t e, Inv t → Inv (step t e).1) (es : List ε) {t : τ} (h : Inv t) :
    Inv (after step t es) :=
  after_invariant_of_forall_mem Inv (fun t e ht _ => hstep t e ht) (fun _ _ => trivial) h

theorem run_simulates {spec : τ → ε → τ × ο} {R : List ε → σ → τ → Prop}
    (hstep : ∀ e es s t, R (e :: es) s t →
      ∃ s', step s e = some (s', (spec t e).2) ∧ R es s' (spec t e).1) (es : List ε) {t : τ} (h : R es s t) :
    ∃ s', run step s es = some (s', outputs spec t es) ∧ R [] s' (after spec t es) := by
  induction es generalizing s t with
  | nil => exact ⟨s, rfl, h⟩
  | cons e es ih =>
    obtain ⟨s', hs, hR⟩ := hstep e es s t h
    obtain ⟨s'', hs', hR'⟩ := ih hR
    exact ⟨s'', run_cons_eq_some.2 ⟨s', _, _, hs, hs', rfl⟩, hR'⟩

/-! ## Steps without outputs -/

section
variable {α : Type u} {f : τ → α → Option τ} {l : List α} {t t' : τ}

theorem foldlM_cons_eq_some {a : α} :
    (a :: l).foldlM f t = some t' ↔ ∃ t₁, f t a = some t₁ ∧ l.foldlM f t₁ = some t' := by
  rw [foldlM_cons, Option.bind_eq_bind, Option.bind_eq_some_iff]

theorem forall_of_foldlM {P : α → Prop} (h : l.foldlM f t = some t')
    (hf : ∀ t a t', f t a = some t' → P a) : ∀ a ∈ l, P a := by
  induction l generalizing t with
  | nil => simp
  | cons a l ih =>
    obtain ⟨t₁, hstep, h⟩ := foldlM_cons_eq_some.1 h
    exact forall_mem_cons.2 ⟨hf t a t₁ hstep, ih h⟩

theorem exists_foldlM (hf : ∀ a ∈ l, ∀ t, ∃ t', f t a = some t') (t : τ) : ∃ t', l.foldlM f t = some t' := by
  induction l generalizing t with
  | nil => exact ⟨t, rfl⟩
  | cons a l ih =>
    obtain ⟨t₁, hstep⟩ := hf a mem_cons_self t
    obtain ⟨t', h⟩ := ih (fun b hb => hf b (mem_cons_of_mem a hb)) t₁
    exact ⟨t', foldlM_cons_eq_some.2 ⟨t₁, hstep, h⟩⟩

theorem foldlM_project {β : Type x} (h : l.foldlM f t = some t') (g : τ → β) {k : β → α → β}
    (hf : ∀ t a t', f t a = some t' → g t' = k (g t) a) : g t' = l.foldl k (g t) := by
  induction l generalizing t with
  | nil => rw [← Option.some.inj h, foldl_nil]
  | cons a l ih =>
    obtain ⟨t₁, hstep, h⟩ := foldlM_cons_eq_some.1 h
    rw [foldl_cons, ← hf t a t₁ hstep, ih h]

end

end Machine
