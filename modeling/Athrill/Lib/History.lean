import Mathlib.Data.List.Destutter
import Athrill.Lib.Run

/-!
# Histories

What a run has shown so far is a list that grows at its end.
-/

namespace History

open List

variable {α : Type*} {Q : α → Prop} {R : List α → Prop} {x o : α} {h : List α}

/-- Every entry is right, given the entries before it. -/
def Each (P : List α → α → Prop) (h : List α) : Prop :=
  ∀ before x after, h = before ++ x :: after → P before x

def After (Q : α → Prop) (x : α) (R : List α → Prop) (h : List α) : Prop :=
  ∃ before after, h = before ++ x :: after ∧ R before ∧ ∀ o ∈ after, ¬ Q o

/-- `x` is in the history, and no entry after it is in `Q`. -/
def Since (Q : α → Prop) (x : α) (h : List α) : Prop := After Q x (fun _ => True) h

theorem concat_eq_append_cons {before after : List α} : h ++ [o] = before ++ x :: after ↔
    (after = [] ∧ x = o ∧ before = h) ∨ ∃ rest, after = rest ++ [o] ∧ h = before ++ x :: rest := by
  constructor
  · intro heq
    rcases eq_nil_or_concat after with rfl | ⟨rest, y, rfl⟩
    · obtain ⟨rfl, hlast⟩ := append_inj' heq rfl
      exact .inl ⟨rfl, (cons.inj hlast).1.symm, rfl⟩
    · rw [concat_eq_append, ← cons_append, ← append_assoc] at heq
      obtain ⟨rfl, hlast⟩ := append_inj' heq rfl
      obtain rfl := (cons.inj hlast).1
      exact .inr ⟨rest, concat_eq_append, rfl⟩
  · rintro (⟨rfl, rfl, rfl⟩ | ⟨rest, rfl, rfl⟩)
    · rfl
    · rw [append_assoc, cons_append]

theorem each_nil {P : List α → α → Prop} : Each P [] := by
  intro before x after heq
  cases before <;> cases heq

theorem each_concat {P : List α → α → Prop} : Each P (h ++ [o]) ↔ Each P h ∧ P h o := by
  constructor
  · intro heach
    refine ⟨fun before x after heq => ?_, heach h o [] rfl⟩
    exact heach before x (after ++ [o]) (concat_eq_append_cons.2 (.inr ⟨after, rfl, heq⟩))
  · rintro ⟨heach, hlast⟩ before x after heq
    rcases concat_eq_append_cons.1 heq with ⟨-, rfl, rfl⟩ | ⟨rest, -, heq'⟩
    · exact hlast
    · exact heach before x rest heq'

theorem after_concat : After Q x R (h ++ [o]) ↔ (x = o ∧ R h) ∨ (After Q x R h ∧ ¬ Q o) := by
  constructor
  · rintro ⟨before, after, heq, hbefore, hafter⟩
    rcases concat_eq_append_cons.1 heq with ⟨-, rfl, rfl⟩ | ⟨rest, rfl, rfl⟩
    · exact .inl ⟨rfl, hbefore⟩
    · exact .inr ⟨⟨before, rest, rfl, hbefore, fun o' ho' => hafter o' (mem_append_left _ ho')⟩,
        hafter o (mem_append_right _ (.head _))⟩
  · rintro (⟨rfl, hh⟩ | ⟨⟨before, after, rfl, hbefore, hafter⟩, hlast⟩)
    · exact ⟨h, [], rfl, hh, by simp⟩
    · refine ⟨before, after ++ [o], by simp, hbefore, fun o' ho' => ?_⟩
      rcases mem_append.1 ho' with ho' | ho'
      · exact hafter o' ho'
      · rwa [mem_singleton.1 ho']

@[simp] theorem since_concat : Since Q x (h ++ [o]) ↔ x = o ∨ (Since Q x h ∧ ¬ Q o) := by
  simp only [Since, after_concat, and_true]

theorem not_since_nil : ¬ Since Q x [] := by
  rintro ⟨before, after, heq, -⟩
  cases before <;> cases heq

section
variable {r : α → α → Prop} [DecidableRel r]

theorem destutter'_concat (l : List α) (a x : α) : (l ++ [x]).destutter' r a =
    if ∀ y ∈ (l.destutter' r a).getLast?, r y x then l.destutter' r a ++ [x] else l.destutter' r a := by
  induction l generalizing a with
  | nil => simp [destutter'_singleton]
  | cons b l ih =>
    by_cases hab : r a b
    · rw [cons_append, destutter'_cons_pos _ hab, destutter'_cons_pos _ hab, ih b,
        getLast?_cons_of_ne_nil (destutter'_ne_nil l r)]
      split_ifs <;> rfl
    · rw [cons_append, destutter'_cons_neg _ hab, destutter'_cons_neg _ hab]
      exact ih a

theorem destutter_concat (l : List α) (x : α) : (l ++ [x]).destutter r =
    if ∀ y ∈ (l.destutter r).getLast?, r y x then l.destutter r ++ [x] else l.destutter r := by
  cases l with
  | nil => simp
  | cons a l => exact destutter'_concat l a x

end

theorem run_history_of_stepsMeet {σ ε : Type*} {step : σ → ε → Option (σ × List α)}
    {C : σ → ε → Prop} (Inv : σ → List α → Prop)
    (hstep : ∀ s h e s' o, Inv s h → C s e → step s e = some (s', o) → Inv s' (h ++ o)) (es : List ε)
    {s s' : σ} {os : List (List α)} (hi : Inv s h) (hm : Machine.StepsMeet step C s es)
    (hrun : Machine.run step s es = some (s', os)) : Inv s' (h ++ os.flatten) := by
  refine Machine.run_trace_of_stepsMeet (fun s os => Inv s (h ++ os.flatten)) (fun s os e s' o hs hc hs' => ?_) es
    (by simpa using hi) hm hrun
  rw [flatten_append, flatten_singleton, ← append_assoc]
  exact hstep s _ e s' o hs hc hs'

end History
