import Athrill.Lib.Run

/-!
# The CPU thread and the debugger thread (`debugger/executor/cpu_control/dbg_cpu_thread_control.c`)

The CPU thread runs steps and stops in `cputhr_control_cpu_wait`; the debugger thread asks it to run and
waits for it to stop. Main results: `waitfor_cpu_stopped_iff`, `wakeup_handshake`.
-/

namespace Athrill

open Machine

inductive DbgCpuThrStateType
  | running
  | wait
  deriving DecidableEq, Repr

/-- The CPU thread is between two calls of `cputhr_control_cpu_wait` or in its `pthread_cond_wait`. -/
inductive CpuThread
  | running
  | blocked
  deriving DecidableEq, Repr

inductive DbgThread
  | idle
  | wakeupSleep
  | waitforSleep
  deriving DecidableEq, Repr

structure CpuThrControl where
  cputhrState : DbgCpuThrStateType
  cputhrWakeupRequested : Bool
  cpu : CpuThread
  dbg : DbgThread
  deriving DecidableEq, Repr

/-- `cpuWakes` is the return of `pthread_cond_wait`, signalled or spurious; `dbgPoll` the end of a sleep. -/
inductive CpuThrEvent
  | cpuStep
  | cpuWait
  | cpuWakes
  | dbgWakeup
  | dbgWakeupAndWait
  | dbgWaitfor
  | dbgPoll
  deriving DecidableEq, Repr

inductive CpuThrOutput
  | silent
  | instruction
  | cpuWaitReturned
  | wakeupReturned
  | wakeupAndWaitReturned
  | waitforReturned
  deriving DecidableEq, Repr

def cputhrControlStart : CpuThrControl where
  cputhrState := .running
  cputhrWakeupRequested := false
  cpu := .running
  dbg := .idle

/-! ## The sections under the mutex -/

def cpuWaitLoop (s : CpuThrControl) : CpuThrControl × CpuThrOutput :=
  if s.cputhrWakeupRequested = false then ({ s with cpu := .blocked }, .silent)
  else
    ({ s with cputhrWakeupRequested := false, cputhrState := .running, cpu := .running },
      .cpuWaitReturned)

def cputhrControlCpuWait (s : CpuThrControl) : CpuThrControl × CpuThrOutput :=
  cpuWaitLoop { s with cputhrState := .wait }

def dbgWakeupLoop (s : CpuThrControl) : CpuThrControl × CpuThrOutput :=
  if s.cputhrWakeupRequested = true ∨ s.cputhrState = .running then
    ({ s with dbg := .wakeupSleep }, .silent)
  else ({ s with dbg := .idle }, .wakeupAndWaitReturned)

def cputhrControlDbgWakeupCpuAndWaitForCpuStopped (s : CpuThrControl) :
    CpuThrControl × CpuThrOutput :=
  dbgWakeupLoop { s with cputhrWakeupRequested := true }

def cputhrControlDbgWaitforCpuStopped (s : CpuThrControl) : CpuThrControl × CpuThrOutput :=
  if s.cputhrState = .running then ({ s with dbg := .waitforSleep }, .silent)
  else ({ s with dbg := .idle }, .waitforReturned)

def cputhrControlDbgWakeupCpu (s : CpuThrControl) : CpuThrControl × CpuThrOutput :=
  ({ s with cputhrWakeupRequested := true }, .wakeupReturned)

def cpuThrStep (s : CpuThrControl) (e : CpuThrEvent) : Option (CpuThrControl × CpuThrOutput) :=
  match e, s.cpu, s.dbg with
  | .cpuStep, .running, _ => some (s, .instruction)
  | .cpuWait, .running, _ => some (cputhrControlCpuWait s)
  | .cpuWakes, .blocked, _ => some (cpuWaitLoop s)
  | .dbgWakeup, _, .idle => some (cputhrControlDbgWakeupCpu s)
  | .dbgWakeupAndWait, _, .idle => some (cputhrControlDbgWakeupCpuAndWaitForCpuStopped s)
  | .dbgWaitfor, _, .idle => some (cputhrControlDbgWaitforCpuStopped s)
  | .dbgPoll, _, .wakeupSleep => some (dbgWakeupLoop s)
  | .dbgPoll, _, .waitforSleep => some (cputhrControlDbgWaitforCpuStopped s)
  | _, _, _ => none

def CpuThrEvent.IsRequest (e : CpuThrEvent) : Prop :=
  e = .dbgWakeup ∨ e = .dbgWakeupAndWait

/-! ## What a step can do -/

inductive CpuThrTrans (s : CpuThrControl) :
    CpuThrEvent → CpuThrControl → CpuThrOutput → Prop
  | instruction (h : s.cpu = .running) : CpuThrTrans s .cpuStep s .instruction
  | waitTakes (h : s.cpu = .running) (hr : s.cputhrWakeupRequested = true) :
    CpuThrTrans s .cpuWait
      { s with cputhrWakeupRequested := false, cputhrState := .running, cpu := .running }
      .cpuWaitReturned
  | waitBlocks (h : s.cpu = .running) (hr : s.cputhrWakeupRequested = false) :
    CpuThrTrans s .cpuWait { s with cputhrState := .wait, cpu := .blocked } .silent
  | wakesTakes (h : s.cpu = .blocked) (hr : s.cputhrWakeupRequested = true) :
    CpuThrTrans s .cpuWakes
      { s with cputhrWakeupRequested := false, cputhrState := .running, cpu := .running }
      .cpuWaitReturned
  | wakesBlocks (h : s.cpu = .blocked) (hr : s.cputhrWakeupRequested = false) :
    CpuThrTrans s .cpuWakes s .silent
  | wakeup (h : s.dbg = .idle) :
    CpuThrTrans s .dbgWakeup { s with cputhrWakeupRequested := true } .wakeupReturned
  | wakeupAndWait (h : s.dbg = .idle) :
    CpuThrTrans s .dbgWakeupAndWait
      { s with cputhrWakeupRequested := true, dbg := .wakeupSleep } .silent
  | wakeupSleeps (h : s.dbg = .wakeupSleep)
      (hr : s.cputhrWakeupRequested = true ∨ s.cputhrState = .running) :
    CpuThrTrans s .dbgPoll s .silent
  | wakeupReturns (h : s.dbg = .wakeupSleep) (hr : s.cputhrWakeupRequested = false)
      (hw : s.cputhrState = .wait) :
    CpuThrTrans s .dbgPoll { s with dbg := .idle } .wakeupAndWaitReturned
  | waitforSleeps (h : s.dbg = .idle) (hw : s.cputhrState = .running) :
    CpuThrTrans s .dbgWaitfor { s with dbg := .waitforSleep } .silent
  | waitforReturns (h : s.dbg = .idle) (hw : s.cputhrState = .wait) :
    CpuThrTrans s .dbgWaitfor s .waitforReturned
  | pollSleeps (h : s.dbg = .waitforSleep) (hw : s.cputhrState = .running) :
    CpuThrTrans s .dbgPoll s .silent
  | pollReturns (h : s.dbg = .waitforSleep) (hw : s.cputhrState = .wait) :
    CpuThrTrans s .dbgPoll { s with dbg := .idle } .waitforReturned

section
variable {s s' : CpuThrControl} {e : CpuThrEvent} {o : CpuThrOutput}

theorem CpuThrTrans.of_step (h : cpuThrStep s e = some (s', o)) : CpuThrTrans s e s' o := by
  obtain ⟨state, requested, cpu, dbg⟩ := s
  cases e with
  | cpuStep => cases cpu <;> cases h; exact .instruction rfl
  | cpuWait =>
    cases cpu <;> cases requested <;> cases h
    · exact .waitBlocks rfl rfl
    · exact .waitTakes rfl rfl
  | cpuWakes =>
    cases cpu <;> cases requested <;> cases h
    · exact .wakesBlocks rfl rfl
    · exact .wakesTakes rfl rfl
  | dbgWakeup => cases dbg <;> cases h; exact .wakeup rfl
  | dbgWakeupAndWait => cases dbg <;> cases h; exact .wakeupAndWait rfl
  | dbgWaitfor =>
    cases dbg <;> cases state <;> cases h
    · exact .waitforSleeps rfl rfl
    · exact .waitforReturns rfl rfl
  | dbgPoll =>
    cases dbg <;> cases state
    case wakeupSleep.running =>
      cases requested <;> cases h <;> exact .wakeupSleeps rfl (.inr rfl)
    case wakeupSleep.wait =>
      cases requested <;> cases h
      · exact .wakeupReturns rfl rfl rfl
      · exact .wakeupSleeps rfl (.inl rfl)
    case waitforSleep.running => cases h; exact .pollSleeps rfl rfl
    case waitforSleep.wait => cases h; exact .pollReturns rfl rfl
    all_goals cases h

/-! ## What every run keeps -/

structure CpuThrOk (s : CpuThrControl) : Prop where
  wait_iff : s.cputhrState = .wait ↔ s.cpu = .blocked
  waitfor : s.dbg = .waitforSleep → s.cpu = .blocked → s.cputhrWakeupRequested = false

theorem cpuThrOk_start : CpuThrOk cputhrControlStart :=
  ⟨by decide, by decide⟩

theorem CpuThrOk.step (hs : CpuThrOk s) (h : cpuThrStep s e = some (s', o)) : CpuThrOk s' := by
  cases CpuThrTrans.of_step h with
  | instruction => exact hs
  | waitTakes | wakesTakes => exact ⟨by simp, by simp⟩
  | waitBlocks _ hr => exact ⟨by simp, fun _ _ => hr⟩
  | wakesBlocks | wakeupSleeps | waitforReturns | pollSleeps => exact hs
  | wakeup hd => exact ⟨hs.wait_iff, by simp [hd]⟩
  | wakeupAndWait | wakeupReturns | pollReturns => exact ⟨hs.wait_iff, by simp⟩
  | waitforSleeps _ hw =>
    refine ⟨hs.wait_iff, fun _ hb => ?_⟩
    rw [hs.wait_iff.2 hb] at hw
    cases hw

theorem CpuThrOk.run {es : List CpuThrEvent} {os : List CpuThrOutput} (hs : CpuThrOk s)
    (h : run cpuThrStep s es = some (s', os)) : CpuThrOk s' :=
  run_invariant CpuThrOk (fun _ _ _ _ hs hstep => hs.step hstep) es hs h

/-! ## Waiting for the CPU to stop -/

structure CpuStopped (s : CpuThrControl) : Prop where
  blocked : s.cpu = .blocked
  no_request : s.cputhrWakeupRequested = false
  quiet : ∀ es s' os, (∀ e ∈ es, ¬ CpuThrEvent.IsRequest e) →
    run cpuThrStep s es = some (s', os) → CpuThrOutput.instruction ∉ os

theorem blocked_of_step (hb : s.cpu = .blocked) (hr : s.cputhrWakeupRequested = false)
    (he : ¬ e.IsRequest) (h : cpuThrStep s e = some (s', o)) :
    (s'.cpu = .blocked ∧ s'.cputhrWakeupRequested = false) ∧ o ≠ .instruction := by
  cases CpuThrTrans.of_step h with
  | instruction hc | waitTakes hc | waitBlocks hc => rw [hb] at hc; cases hc
  | wakesTakes _ hr' => rw [hr] at hr'; cases hr'
  | wakeup => exact absurd (.inl rfl) he
  | wakeupAndWait => exact absurd (.inr rfl) he
  | _ => exact ⟨⟨hb, hr⟩, by simp⟩

theorem cpuStopped_of_blocked (hb : s.cpu = .blocked) (hr : s.cputhrWakeupRequested = false) :
    CpuStopped s := by
  refine ⟨hb, hr, fun es s' os hes hrun hmem => ?_⟩
  have hall : ∀ o ∈ os, o ≠ .instruction :=
    run_outputs_of_stepsMeet
      (fun s => s.cpu = .blocked ∧ s.cputhrWakeupRequested = false) (· ≠ .instruction)
      (fun s e s' o hs he hstep => blocked_of_step hs.1 hs.2 he hstep) es ⟨hb, hr⟩
      (stepsMeet_of_forall_mem hes s) hrun
  exact hall _ hmem rfl

theorem cpuStopped_of_waitforReturned (hs : CpuThrOk s) (hcall : e = .dbgWaitfor →
      ¬ (s.cputhrWakeupRequested = true ∧ s.cputhrState = .wait))
    (h : cpuThrStep s e = some (s', .waitforReturned)) : CpuStopped s' := by
  cases CpuThrTrans.of_step h with
  | waitforReturns _ hw =>
    have hr : s.cputhrWakeupRequested = false :=
      Bool.eq_false_iff.2 fun hr => hcall rfl ⟨hr, hw⟩
    exact cpuStopped_of_blocked (hs.wait_iff.1 hw) hr
  | pollReturns hd hw =>
    have hb := hs.wait_iff.1 hw
    exact cpuStopped_of_blocked hb (hs.waitfor hd hb)

/-- Every return of `cputhr_control_dbg_waitfor_cpu_stopped` finds the CPU stopped. -/
def WaitforStops (es : List CpuThrEvent) : Prop :=
  ∀ pre e s os s', pre ++ [e] <+: es →
    run cpuThrStep cputhrControlStart pre = some (s, os) →
    cpuThrStep s e = some (s', .waitforReturned) → CpuStopped s'

/-- `cputhr_control_dbg_waitfor_cpu_stopped` is not called with a request pending in the state WAIT. -/
def WaitforAfterWakeup (es : List CpuThrEvent) : Prop :=
  ∀ pre s os, pre ++ [.dbgWaitfor] <+: es →
    run cpuThrStep cputhrControlStart pre = some (s, os) → s.dbg = .idle →
    ¬ (s.cputhrWakeupRequested = true ∧ s.cputhrState = .wait)

/-- **Waiting for the CPU.** In every interleaving of the two threads, whenever
`cputhr_control_dbg_waitfor_cpu_stopped` returns the CPU has stopped, if and only if the function is
never called while a request is pending that the waiting CPU thread has not taken yet. -/
theorem waitfor_cpu_stopped_iff (es : List CpuThrEvent) :
    WaitforStops es ↔ WaitforAfterWakeup es := by
  constructor
  · intro hall pre s os hpre hrun hidle hbad
    have hstep : cpuThrStep s .dbgWaitfor = some (s, .waitforReturned) := by
      obtain ⟨state, requested, cpu, dbg⟩ := s
      obtain ⟨rfl, rfl⟩ := hbad
      cases hidle
      rfl
    have hno := (hall pre .dbgWaitfor s os s hpre hrun hstep).no_request
    rw [hbad.1] at hno
    cases hno
  · intro hcond pre e s os s' hpre hrun hstep
    refine cpuStopped_of_waitforReturned (cpuThrOk_start.run hrun) ?_ hstep
    rintro rfl
    have hidle : s.dbg = .idle := by
      cases CpuThrTrans.of_step hstep with
      | waitforReturns hd _ => exact hd
    exact hcond pre s os hpre hrun hidle

/-- The CPU waits; the debugger asks it to run and at once waits for it to stop. The wait returns, and
then the CPU runs. -/
theorem waitfor_returns_with_request :
    (run cpuThrStep cputhrControlStart
        [.cpuWait, .dbgWakeup, .dbgWaitfor, .cpuWakes, .cpuStep]).map Prod.snd =
      some [.silent, .wakeupReturned, .waitforReturned, .cpuWaitReturned, .instruction] ∧
    ¬ WaitforStops [.cpuWait, .dbgWakeup, .dbgWaitfor, .cpuWakes, .cpuStep] := by
  refine ⟨by decide, fun hall => ?_⟩
  have hstop := hall [.cpuWait, .dbgWakeup] .dbgWaitfor ⟨.wait, true, .blocked, .idle⟩
    [.silent, .wakeupReturned] ⟨.wait, true, .blocked, .idle⟩ ⟨[.cpuWakes, .cpuStep], rfl⟩ rfl rfl
  exact Bool.noConfusion hstop.no_request

/-! ## Waking the CPU up -/

theorem requested_of_step (hr : s.cputhrWakeupRequested = true) (ho : o ≠ .cpuWaitReturned)
    (h : cpuThrStep s e = some (s', o)) : s'.cputhrWakeupRequested = true := by
  cases CpuThrTrans.of_step h with
  | waitTakes | wakesTakes => exact absurd rfl ho
  | wakeup | wakeupAndWait => rfl
  | _ => exact hr

theorem cpuWaitReturned_mem_of_run {es : List CpuThrEvent} {os : List CpuThrOutput}
    (hr : s.cputhrWakeupRequested = true) (hr' : s'.cputhrWakeupRequested = false)
    (h : run cpuThrStep s es = some (s', os)) : .cpuWaitReturned ∈ os := by
  by_contra hmem
  have hkeep := run_trace_of_stepsMeet
    (fun s os => .cpuWaitReturned ∉ os → s.cputhrWakeupRequested = true)
    (fun s os e s' o hs _ hstep hmem => requested_of_step (hs (by grind)) (by grind) hstep) es
    (fun _ => hr) (stepsMeet_of_forall_mem (fun _ _ => trivial) s) h hmem
  rw [hr'] at hkeep
  cases hkeep

theorem requested_of_request (he : e.IsRequest) (h : cpuThrStep s e = some (s', o)) :
    s'.cputhrWakeupRequested = true ∧ s'.cpu = s.cpu := by
  obtain rfl | rfl := he
  · cases CpuThrTrans.of_step h with
    | wakeup => exact ⟨rfl, rfl⟩
  · cases CpuThrTrans.of_step h with
    | wakeupAndWait => exact ⟨rfl, rfl⟩

theorem requested_running_of_step (hs : s.cputhrWakeupRequested = true ∧ s.cpu = .running)
    (he : e ≠ .cpuWait) (h : cpuThrStep s e = some (s', o)) :
    s'.cputhrWakeupRequested = true ∧ s'.cpu = .running := by
  cases CpuThrTrans.of_step h with
  | waitTakes | waitBlocks => exact absurd rfl he
  | wakesTakes hb | wakesBlocks hb => rw [hs.2] at hb; cases hb
  | wakeup | wakeupAndWait => exact ⟨rfl, hs.2⟩
  | _ => exact hs

end

/-- **The handshake.** In every interleaving of the two threads,
`cputhr_control_dbg_wakeup_cpu_and_wait_for_cpu_stopped` returns only after the CPU thread has left
`cputhr_control_cpu_wait` since the call made its request, with no request pending and the CPU waiting
again; and a request made while the CPU runs is still there at its next `cputhr_control_cpu_wait`,
which returns at once and takes it, and changes nothing else. -/
theorem wakeup_handshake :
    (∀ pre s os s₁ o mid s₂ os₂ e s₃,
      run cpuThrStep cputhrControlStart pre = some (s, os) →
      cpuThrStep s .dbgWakeupAndWait = some (s₁, o) →
      run cpuThrStep s₁ mid = some (s₂, os₂) →
      cpuThrStep s₂ e = some (s₃, .wakeupAndWaitReturned) →
      .cpuWaitReturned ∈ os₂ ∧ s₃.cputhrWakeupRequested = false ∧ s₃.cputhrState = .wait ∧
        s₃.cpu = .blocked) ∧
    (∀ pre s os e s₁ o mid s₂ os₂,
      run cpuThrStep cputhrControlStart pre = some (s, os) → s.cpu = .running →
      CpuThrEvent.IsRequest e → cpuThrStep s e = some (s₁, o) →
      .cpuWait ∉ mid → run cpuThrStep s₁ mid = some (s₂, os₂) →
      s₂.cputhrWakeupRequested = true ∧
        cpuThrStep s₂ .cpuWait =
          some ({ s₂ with cputhrWakeupRequested := false }, .cpuWaitReturned)) := by
  constructor
  · intro pre s os s₁ o mid s₂ os₂ e s₃ hpre hcall hmid hret
    have hok : CpuThrOk s₂ := ((cpuThrOk_start.run hpre).step hcall).run hmid
    have hr : s₁.cputhrWakeupRequested = true := (requested_of_request (.inr rfl) hcall).1
    cases CpuThrTrans.of_step hret with
    | wakeupReturns _ hr' hw =>
      exact ⟨cpuWaitReturned_mem_of_run hr hr' hmid, hr', hw, hok.wait_iff.1 hw⟩
  · intro pre s os e s₁ o mid s₂ os₂ hpre hrunning he hreq hwait hmid
    have hok : CpuThrOk s₂ := ((cpuThrOk_start.run hpre).step hreq).run hmid
    obtain ⟨hr₁, hc₁⟩ := requested_of_request he hreq
    have hne : ∀ e' ∈ mid, e' ≠ .cpuWait := fun e' he' heq => hwait (heq ▸ he')
    obtain ⟨hr, hc⟩ : s₂.cputhrWakeupRequested = true ∧ s₂.cpu = .running :=
      run_invariant_of_stepsMeet
        (fun s => s.cputhrWakeupRequested = true ∧ s.cpu = .running)
        (fun _ _ _ _ hs he hstep => requested_running_of_step hs he hstep) mid
        ⟨hr₁, hc₁.trans hrunning⟩
        (stepsMeet_of_forall_mem hne s₁) hmid
    refine ⟨hr, ?_⟩
    obtain ⟨state, requested, cpu, dbg⟩ := s₂
    cases hr
    cases hc
    -- the CPU runs, so the state variable is RUNNING already
    cases state with
    | running => rfl
    | wait => exact nomatch hok.wait_iff.1 rfl

/-- The debugger calls while the CPU runs; the CPU takes the request at its first wait, waits again, and
the call returns. -/
theorem wakeup_handshake_while_running : ∃ s₁ s₂ os₂ s₃ s₄ os₄ s₅,
    cpuThrStep cputhrControlStart .dbgWakeupAndWait = some (s₁, .silent) ∧
      run cpuThrStep s₁ [.cpuStep] = some (s₂, os₂) ∧
      cpuThrStep s₂ .cpuWait = some (s₃, .cpuWaitReturned) ∧
      run cpuThrStep s₁ [.cpuStep, .cpuWait, .cpuWait] = some (s₄, os₄) ∧ .cpuWaitReturned ∈ os₄ ∧
      cpuThrStep s₄ .dbgPoll = some (s₅, .wakeupAndWaitReturned) ∧ s₅.cpu = .blocked := by
  have hreturned := wakeup_handshake.1 [] cputhrControlStart [] _ .silent
    [.cpuStep, .cpuWait, .cpuWait] _ _ .dbgPoll _ rfl rfl rfl rfl
  have hwait := wakeup_handshake.2 [] cputhrControlStart [] .dbgWakeupAndWait _ .silent [.cpuStep] _ _
    rfl rfl (.inr rfl) rfl (by decide) rfl
  exact ⟨_, _, _, _, _, _, _, rfl, rfl, hwait.2, rfl, hreturned.1, rfl, hreturned.2.2.2⟩

end Athrill
