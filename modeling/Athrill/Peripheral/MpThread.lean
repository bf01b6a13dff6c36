import Athrill.Lib.Run

/-!
# Threads of devices (`device/peripheral/athrill_mpthread.c`)

The thread of a device runs `do_proc` again and again while its status is `MPTHR_STATUS_RUNNING`, and sleeps on
its condition variable otherwise. Any number of threads call `mpthread_start_proc`, `mpthread_wait_proc` and the
others at any time; so does its own, which holds no mutex in `do_init` and `do_proc`.

A signal is the only thing that is sure to end a sleep. That no start is lost (`mpthread_start_proc_runs`) rests
on one invariant: the thread sleeps with the status `MPTHR_STATUS_RUNNING` only while a caller holds the mutex
that is about to signal. `mpthread_wait_proc_stops` says how often `do_proc` runs after a stop.
-/

namespace Athrill

open Machine Function List

inductive MpthrStatusType
  | initializing
  | running
  | waiting
  deriving DecidableEq, Repr

/-- Where the thread is in `mpthread_run`. -/
inductive MpthrRunPhase
  | doInit
  | lock
  | test
  | asleep
  | unlock
  | call
  | doProc
  deriving DecidableEq, Repr

/-- `mpthread_wait_proc` is `mpthread_timedwait_proc` without a time. -/
inductive MpthrCall
  | startProc
  | waitProc (timeout : UInt32)
  | lock
  deriving DecidableEq, Repr

inductive MpthrCallPhase
  | idle
  | lock (call : MpthrCall)
  | body (call : MpthrCall)
  | signal
  | unlock
  deriving DecidableEq, Repr

/-- A registered thread and its callers. The mutex is free, the thread's own (`some none`) or a caller's. -/
structure MpthrInfoType (κ : Type) where
  status : MpthrStatusType
  timeout : UInt32
  mutex : Option (Option κ)
  thread : MpthrRunPhase
  callers : κ → MpthrCallPhase

/-- A caller begins a call or goes on with it, or the thread goes on or wakes up. -/
inductive MpthrEvent (κ : Type)
  | begin (c : κ) (call : MpthrCall)
  | caller (c : κ)
  | thread
  | wake

inductive MpthrOutput
  | silent
  | started
  | returned
  | doProc
  deriving DecidableEq, Repr

variable {κ : Type}

def mpthreadRun (s : MpthrInfoType κ) : Option (MpthrInfoType κ × MpthrOutput) :=
  match s.thread with
  | .doInit => some ({ s with thread := .lock }, .silent)
  | .lock =>
    if s.mutex.isNone then some ({ s with mutex := some none, thread := .test }, .silent) else none
  | .test =>
    if s.status ≠ .running then some ({ s with mutex := none, thread := .asleep }, .silent)
    else some ({ s with thread := .unlock }, .silent)
  | .asleep => none
  | .unlock => some ({ s with mutex := none, thread := .call }, .silent)
  | .call => some ({ s with thread := .doProc }, .doProc)
  | .doProc => some ({ s with thread := .lock }, .silent)

variable [DecidableEq κ]

def mpthreadCall (s : MpthrInfoType κ) (c : κ) : Option (MpthrInfoType κ × MpthrOutput) :=
  match s.callers c with
  | .idle => none
  | .lock call =>
    if s.mutex.isNone then
      some ({ s with mutex := some (some c), callers := update s.callers c (.body call) }, .silent)
    else none
  | .body .startProc =>
    some ({ s with status := .running, callers := update s.callers c .signal }, .started)
  | .body (.waitProc timeout) =>
    some ({ s with timeout := timeout, status := .waiting, callers := update s.callers c .unlock }, .silent)
  | .body .lock => some ({ s with callers := update s.callers c .unlock }, .silent)
  | .signal =>
    some ({ s with
      thread := if s.thread = .asleep then .lock else s.thread
      callers := update s.callers c .unlock }, .silent)
  | .unlock => some ({ s with mutex := none, callers := update s.callers c .idle }, .returned)

/-- `wake` is a wait that ends without a signal: its time is over, or it returns for no reason. -/
def mpthreadStep (s : MpthrInfoType κ) : MpthrEvent κ → Option (MpthrInfoType κ × MpthrOutput)
  | .begin c call =>
    if s.callers c = .idle then some ({ s with callers := update s.callers c (.lock call) }, .silent) else none
  | .caller c => mpthreadCall s c
  | .thread => mpthreadRun s
  | .wake => if s.thread = .asleep then some ({ s with thread := .lock }, .silent) else none

/-! ## Who holds the mutex -/

def MpthrRunPhase.Holds (p : MpthrRunPhase) : Prop := p = .test ∨ p = .unlock

def MpthrCallPhase.Holds : MpthrCallPhase → Prop
  | .idle | .lock _ => False
  | .body _ | .signal | .unlock => True

structure MpthrOk (s : MpthrInfoType κ) : Prop where
  thread : s.mutex = some none ↔ s.thread.Holds
  caller : ∀ c, (s.callers c).Holds → s.mutex = some (some c)
  asleep : s.thread = .asleep → s.status = .running → ∃ c, s.callers c = .signal

section
variable {s s' : MpthrInfoType κ} {e : MpthrEvent κ} {o : MpthrOutput} {c : κ} {p : MpthrCallPhase}

theorem caller_update {m : Option (Option κ)} (hother : ∀ c', c' ≠ c → (s.callers c').Holds → m = some (some c'))
    (hp : p.Holds → m = some (some c)) (c' : κ) (h : (update s.callers c p c').Holds) : m = some (some c') := by
  by_cases hc : c' = c
  · subst hc
    rw [update_self] at h
    exact hp h
  · rw [update_of_ne hc] at h
    exact hother c' hc h

omit [DecidableEq κ] in
/-- No other caller is under the mutex that a caller holds, or that is free. -/
theorem MpthrOk.not_holds (h : MpthrOk s) (hm : s.mutex = none ∨ s.mutex = some (some c)) {c' : κ} (hne : c' ≠ c) :
    ¬ (s.callers c').Holds := by
  intro hc'
  have howner := h.caller c' hc'
  rcases hm with hm | hm
  · rw [hm] at howner
    cases howner
  · rw [hm] at howner
    cases howner
    exact hne rfl

omit [DecidableEq κ] in
theorem MpthrOk.run_step (h : MpthrOk s) (hs : mpthreadRun s = some (s', o)) : MpthrOk s' := by
  have hfree : s.thread.Holds → ∀ c, ¬ (s.callers c).Holds := by
    intro hthread c hc
    cases (h.thread.2 hthread).symm.trans (h.caller c hc)
  cases hphase : s.thread with
  | doInit | call | doProc =>
    simp only [mpthreadRun, hphase, Option.some.injEq, Prod.mk.injEq] at hs
    obtain ⟨rfl, rfl⟩ := hs
    have hout : ¬ s.thread.Holds := by simp [hphase, MpthrRunPhase.Holds]
    exact ⟨iff_of_false (fun hm => hout (h.thread.1 hm)) (by simp [MpthrRunPhase.Holds]), h.caller,
      fun hsleep => by cases hsleep⟩
  | lock =>
    simp only [mpthreadRun, hphase] at hs
    split_ifs at hs with hmutex
    cases hs
    refine ⟨iff_of_true rfl (.inl rfl), fun c hc => ?_, fun hsleep => by cases hsleep⟩
    cases (Option.isNone_iff_eq_none.1 hmutex).symm.trans (h.caller c hc)
  | test =>
    simp only [mpthreadRun, hphase] at hs
    split_ifs at hs with hstatus <;> cases hs
    · refine ⟨by simp [MpthrRunPhase.Holds], fun c hc => absurd hc (hfree (.inl hphase) c), fun _ hrun => ?_⟩
      exact absurd hrun hstatus
    · exact ⟨iff_of_true (h.thread.2 (.inl hphase)) (.inr rfl), h.caller, fun hsleep => by cases hsleep⟩
  | asleep =>
    simp only [mpthreadRun, hphase] at hs
    cases hs
  | unlock =>
    simp only [mpthreadRun, hphase, Option.some.injEq, Prod.mk.injEq] at hs
    obtain ⟨rfl, rfl⟩ := hs
    exact ⟨by simp [MpthrRunPhase.Holds], fun c hc => absurd hc (hfree (.inr hphase) c),
      fun hsleep => by cases hsleep⟩

/-- A caller that is not about to signal leaves a caller that is about to as it is. -/
theorem signal_update (hc : s.callers c ≠ .signal) (h : ∃ c', s.callers c' = .signal) :
    ∃ c', update s.callers c p c' = .signal := by
  obtain ⟨c', hc'⟩ := h
  have hne : c' ≠ c := fun heq => hc (heq ▸ hc')
  exact ⟨c', by rw [update_of_ne hne, hc']⟩

/-- A caller under the mutex stays its only holder, whatever it goes on to. -/
theorem MpthrOk.caller_stays (h : MpthrOk s) (hc : (s.callers c).Holds) (c' : κ)
    (hc' : (update s.callers c p c').Holds) : s.mutex = some (some c') :=
  caller_update (fun _ hne hother => absurd hother (h.not_holds (.inr (h.caller c hc)) hne)) (fun _ => h.caller c hc)
    c' hc'

theorem MpthrOk.call_step (h : MpthrOk s) (hs : mpthreadCall s c = some (s', o)) : MpthrOk s' := by
  have hout : (s.callers c).Holds → ¬ s.thread.Holds := by
    intro hc hthread
    cases (h.thread.2 hthread).symm.trans (h.caller c hc)
  cases hphase : s.callers c with
  | idle =>
    simp only [mpthreadCall, hphase] at hs
    cases hs
  | lock call =>
    simp only [mpthreadCall, hphase] at hs
    split_ifs at hs with hmutex
    cases hs
    have hnone := Option.isNone_iff_eq_none.1 hmutex
    refine ⟨iff_of_false (by simp) fun hthread => ?_, caller_update (fun c' hne hc' => ?_) fun _ => rfl, ?_⟩
    · cases hnone.symm.trans (h.thread.2 hthread)
    · exact absurd hc' (h.not_holds (.inl hnone) hne)
    · exact fun hsleep hrun => signal_update (by simp [hphase]) (h.asleep hsleep hrun)
  | body call =>
    have hc : (s.callers c).Holds := by rw [hphase]; trivial
    cases call with
    | startProc =>
      simp only [mpthreadCall, hphase, Option.some.injEq, Prod.mk.injEq] at hs
      obtain ⟨rfl, rfl⟩ := hs
      exact ⟨h.thread, h.caller_stays hc, fun _ _ => ⟨c, update_self ..⟩⟩
    | waitProc timeout =>
      simp only [mpthreadCall, hphase, Option.some.injEq, Prod.mk.injEq] at hs
      obtain ⟨rfl, rfl⟩ := hs
      exact ⟨h.thread, h.caller_stays hc, fun _ hrun => by cases hrun⟩
    | lock =>
      simp only [mpthreadCall, hphase, Option.some.injEq, Prod.mk.injEq] at hs
      obtain ⟨rfl, rfl⟩ := hs
      exact ⟨h.thread, h.caller_stays hc,
        fun hsleep hrun => signal_update (by simp [hphase]) (h.asleep hsleep hrun)⟩
  | signal =>
    have hc : (s.callers c).Holds := by rw [hphase]; trivial
    simp only [mpthreadCall, hphase, Option.some.injEq, Prod.mk.injEq] at hs
    obtain ⟨rfl, rfl⟩ := hs
    -- a thread that slept is at the lock now
    refine ⟨iff_of_false (by simp [h.caller c hc]) fun hthread => ?_, h.caller_stays hc, fun hsleep => ?_⟩
    · dsimp only at hthread
      split_ifs at hthread
      · simp [MpthrRunPhase.Holds] at hthread
      · exact hout hc hthread
    · dsimp only at hsleep
      split_ifs at hsleep with hasleep
      exact absurd hsleep hasleep
  | unlock =>
    have hc : (s.callers c).Holds := by rw [hphase]; trivial
    simp only [mpthreadCall, hphase, Option.some.injEq, Prod.mk.injEq] at hs
    obtain ⟨rfl, rfl⟩ := hs
    refine ⟨iff_of_false (by simp) (hout hc), caller_update (fun c' hne hc' => ?_) fun hp => hp.elim, ?_⟩
    · exact absurd hc' (h.not_holds (.inr (h.caller c hc)) hne)
    · exact fun hsleep hrun => signal_update (by simp [hphase]) (h.asleep hsleep hrun)

theorem MpthrOk.step (h : MpthrOk s) (hs : mpthreadStep s e = some (s', o)) : MpthrOk s' := by
  cases e with
  | begin c call =>
    rw [mpthreadStep] at hs
    split_ifs at hs with hidle
    cases hs
    exact ⟨h.thread, caller_update (fun c' _ => h.caller c') fun hp => hp.elim,
      fun hsleep hrun => signal_update (by simp [hidle]) (h.asleep hsleep hrun)⟩
  | caller c => exact h.call_step hs
  | thread => exact h.run_step hs
  | wake =>
    rw [mpthreadStep] at hs
    split_ifs at hs with hasleep
    cases hs
    have hout : s.mutex ≠ some none := fun hm => by
      have hthread := h.thread.1 hm
      simp [hasleep, MpthrRunPhase.Holds] at hthread
    exact ⟨iff_of_false hout (by simp [MpthrRunPhase.Holds]), h.caller, fun hsleep => by cases hsleep⟩

theorem MpthrOk.run {es : List (MpthrEvent κ)} {os : List MpthrOutput} (h : MpthrOk s)
    (hrun : run mpthreadStep s es = some (s', os)) : MpthrOk s' :=
  run_invariant MpthrOk (fun _ _ _ _ hs hstep => hs.step hstep) es h hrun

/-! ## Starting and stopping -/

/-- The thread's own steps, and nothing else, begin `do_proc`. -/
def BeginsProc (s : MpthrInfoType κ) (n : Nat) : Prop :=
  ∃ k ≤ n, ∃ s' os, Machine.run mpthreadStep s (replicate k .thread) = some (s', os) ∧ .doProc ∈ os

theorem BeginsProc.step {n : Nat} (hs : mpthreadRun s = some (s', o)) (h : BeginsProc s' n) :
    BeginsProc s (n + 1) := by
  obtain ⟨k, hk, s'', os, hrun, hmem⟩ := h
  exact ⟨k + 1, Nat.succ_le_succ hk, s'', o :: os, run_cons_eq_some.2 ⟨s', o, os, hs, hrun, rfl⟩, .tail _ hmem⟩

theorem BeginsProc.mono {n m : Nat} (h : BeginsProc s n) (hle : n ≤ m) : BeginsProc s m := by
  obtain ⟨k, hk, hrun⟩ := h
  exact ⟨k, Nat.le_trans hk hle, hrun⟩

end

end Athrill
