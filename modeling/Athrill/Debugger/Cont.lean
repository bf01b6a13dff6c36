import Athrill.Debugger.BreakPoint

/-!
# Commands that let the CPU run (`executor/cpu_control/dbg_cpu_control.c`, `dbg_cpu_callback.c`)

`cont` with a number of clocks stores a timeout for one core, and every other command that lets the CPU run
clears it. Main result: `plain_command_no_timeout_iff`.
-/

namespace Athrill

open Machine

/-! ## The source -/

inductive DbgCpuctrlDbgModeType
  | none
  | normal
  | force
  deriving DecidableEq, Repr

structure DbgCpuContType where
  isTimeout : Bool
  contClocks : Nat
  deriving DecidableEq, Repr

/-- The debugger mode, and for each of `N` cores the state of `cont`; `dbg_cpu_control.c`. -/
structure DbgCpuCtrl (N : Nat) where
  dbgMode : DbgCpuctrlDbgModeType
  isStopped : Bool
  stoppedCore : Fin N
  cont : Fin N → DbgCpuContType
  isDebugMode : Fin N → Bool
  breaks : BreakState

def DbgCpuCtrl.init (N : Nat) [NeZero N] : DbgCpuCtrl N where
  dbgMode := .normal
  isStopped := false
  stoppedCore := 0
  cont _ := ⟨false, 0⟩
  isDebugMode _ := true
  breaks := .init

section
variable {N : Nat} (s : DbgCpuCtrl N)

def cpuctrlSetContClocks (isTimeout : Bool) (contClocks : Nat) : DbgCpuCtrl N :=
  { s with cont := Function.update s.cont s.stoppedCore ⟨isTimeout, contClocks⟩ }

def cpuctrlIsTimeoutContClocks (core : Fin N) : DbgCpuCtrl N × Bool :=
  if (s.cont core).isTimeout = true then
    if (s.cont core).contClocks > 1 then
      ({ s with cont := Function.update s.cont core ⟨true, (s.cont core).contClocks - 1⟩ }, false)
    else (s, true)
  else (s, false)

def cpuctrlSetCurrentDebuggedCore (core : Fin N) : DbgCpuCtrl N :=
  { s with isStopped := true, stoppedCore := core }

def cpuctrlIsDebugMode : Bool := s.dbgMode ≠ .none

def cpuctrlIsForceDebugMode : Bool := s.dbgMode = .force

def cpuctrlSetDebugMode (on : Bool) : DbgCpuCtrl N :=
  { s with dbgMode := if on = true then .normal else .none }

def cpuctrlSetForceDebugMode : DbgCpuCtrl N := { s with dbgMode := .force }

def dbgCpuDebugModeSet (core : Fin N) (dbgMode : Bool) : DbgCpuCtrl N :=
  { s with isDebugMode := Function.update s.isDebugMode core dbgMode }

structure SupplyStart where
  timeout : Option Bool
  needStop : Bool
  deriving DecidableEq, Repr

def notifyStop (core : Fin N) : DbgCpuCtrl N :=
  let s := cpuctrlSetDebugMode (cpuctrlSetCurrentDebuggedCore s core) true
  { s with breaks := cpuctrlDelAllBreak s.breaks .onlyOnce }

def dbgNotifyCpuClockSupplyStart (core : Fin N) (pc : BitVec 32) : DbgCpuCtrl N × SupplyStart :=
  let isDebugMode := cpuctrlIsDebugMode s
  if cpuctrlIsForceDebugMode s = false ∧ s.isDebugMode core = false then (s, ⟨none, false⟩)
  else
    let r := cpuctrlIsTimeoutContClocks s core
    let needStop := r.2 || cpuctrlIsBreakPoint r.1.breaks pc || isDebugMode
    (if needStop then notifyStop r.1 core else r.1, ⟨some r.2, needStop⟩)

def dbgStdExecutorCont (clocks : Option Nat) : DbgCpuCtrl N :=
  let s := cpuctrlSetDebugMode s false
  match clocks with
  | none => cpuctrlSetContClocks s false 0
  | some n => cpuctrlSetContClocks s true n

def dbgStdExecutorNext : DbgCpuCtrl N :=
  cpuctrlSetDebugMode (cpuctrlSetContClocks s false 0) true

def dbgStdExecutorReturn (retaddr : BitVec 32) : Option (DbgCpuCtrl N) :=
  let s := cpuctrlSetContClocks s false 0
  if s.isStopped = true then
    some (cpuctrlSetDebugMode { s with breaks := (cpuctrlSetBreak s.breaks retaddr .onlyOnce).1 } false)
  else none

def gdbContinue : DbgCpuCtrl N :=
  cpuctrlSetDebugMode (cpuctrlSetContClocks s false 0) false

def dbgStdExecutorCore (core : Fin N) (dbgMode : Bool) : DbgCpuCtrl N :=
  let s' := dbgCpuDebugModeSet s core dbgMode
  if (List.finRange N).any s'.isDebugMode then s' else dbgCpuDebugModeSet s' core true

def dbgStdExecutorCoreAll (dbgMode : Bool) : DbgCpuCtrl N := { s with isDebugMode := fun _ => dbgMode }

end

/-- A core comes to its next instruction, the debugger mode is switched on, or a command is executed. -/
inductive DbgEvent (N : Nat)
  | supplyStart (core : Fin N) (pc : BitVec 32)
  | forceBreak
  | cont (clocks : Option Nat)
  | next
  | ret (retaddr : BitVec 32)
  | gdbContinue
  | gdbStep
  | quit
  | quitStopped
  | core (core : Fin N) (dbgMode : Bool)
  | coreAll (dbgMode : Bool)
  | breaks (op : BreakOp)

def dbgEventStep {N : Nat} (s : DbgCpuCtrl N) : DbgEvent N → Option (DbgCpuCtrl N × Option SupplyStart)
  | .supplyStart core pc =>
    some ((dbgNotifyCpuClockSupplyStart s core pc).1, some (dbgNotifyCpuClockSupplyStart s core pc).2)
  | .forceBreak => some (cpuctrlSetDebugMode s true, none)
  | .cont clocks => some (dbgStdExecutorCont s clocks, none)
  | .next => some (dbgStdExecutorNext s, none)
  | .ret retaddr => (dbgStdExecutorReturn s retaddr).map fun s' => (s', none)
  | .gdbContinue => some (gdbContinue s, none)
  | .gdbStep => some (dbgStdExecutorNext s, none)
  | .quit => some (cpuctrlSetForceDebugMode s, none)
  | .quitStopped => some (cpuctrlSetDebugMode s true, none)
  | .core core dbgMode => some (dbgStdExecutorCore s core dbgMode, none)
  | .coreAll dbgMode => some (dbgStdExecutorCoreAll s dbgMode, none)
  | .breaks op => (breakStep s.breaks op).map fun r => ({ s with breaks := r.1 }, none)

/-! ## Timeouts -/

def DbgEvent.IsPlain {N : Nat} (e : DbgEvent N) : Prop :=
  e = .cont none ∨ e = .next ∨ (∃ retaddr, e = .ret retaddr) ∨ e = .gdbContinue ∨ e = .gdbStep

def DbgEvent.IsCount {N : Nat} (e : DbgEvent N) : Prop := ∃ n, e = .cont (some n)

/-- Until a number of clocks is given, `cpuctrl_is_timeout_cont_clocks` is FALSE on every core. -/
def NoTimeoutFrom {N : Nat} (s : DbgCpuCtrl N) : Prop :=
  ∀ es s' os, (∀ e ∈ es, ¬ e.IsCount) → run dbgEventStep s es = some (s', os) →
    ∀ o ∈ os, ∀ seen, o = some seen → seen.timeout ≠ some true

section
variable {N : Nat} {s s' : DbgCpuCtrl N} {e : DbgEvent N} {o : Option SupplyStart} {core : Fin N}
  {pc : BitVec 32}

theorem isTimeout_isTimeoutContClocks (c : Fin N) :
    ((cpuctrlIsTimeoutContClocks s c).1.cont core).isTimeout = (s.cont core).isTimeout := by
  simp only [cpuctrlIsTimeoutContClocks]
  split_ifs with htimeout hclocks
  · by_cases hc : core = c
    · simp [hc, htimeout]
    · simp [hc]
  · rfl
  · rfl

theorem isTimeout_supplyStart (c : Fin N) :
    ((dbgNotifyCpuClockSupplyStart s c pc).1.cont core).isTimeout = (s.cont core).isTimeout := by
  simp only [dbgNotifyCpuClockSupplyStart]
  split_ifs
  · rfl
  · exact isTimeout_isTimeoutContClocks c
  · exact isTimeout_isTimeoutContClocks c

theorem dbgStdExecutorReturn_eq_some {retaddr : BitVec 32} (h : dbgStdExecutorReturn s retaddr = some s') :
    s'.cont = Function.update s.cont s.stoppedCore ⟨false, 0⟩ := by
  simp only [dbgStdExecutorReturn] at h
  split_ifs at h
  cases h
  rfl

theorem cont_of_plain (he : e.IsPlain) (h : dbgEventStep s e = some (s', o)) :
    s'.cont = Function.update s.cont s.stoppedCore ⟨false, 0⟩ := by
  rcases he with rfl | rfl | ⟨retaddr, rfl⟩ | rfl | rfl
  case inr.inr.inl =>
    obtain ⟨s₁, hret, heq⟩ := Option.map_eq_some_iff.1 h
    cases heq
    exact dbgStdExecutorReturn_eq_some hret
  all_goals
    cases h
    rfl

theorem isTimeout_of_step (he : ¬ e.IsCount) (h : dbgEventStep s e = some (s', o)) (core : Fin N)
    (hset : (s'.cont core).isTimeout = true) : (s.cont core).isTimeout = true := by
  have hplain : e.IsPlain → (s.cont core).isTimeout = true := by
    intro hp
    rw [cont_of_plain hp h] at hset
    by_cases hc : core = s.stoppedCore
    · rw [hc, Function.update_self] at hset
      cases hset
    · rwa [Function.update_of_ne hc] at hset
  cases e with
  | supplyStart c pc =>
    cases h
    rwa [isTimeout_supplyStart] at hset
  | cont clocks =>
    cases clocks with
    | none => exact hplain (.inl rfl)
    | some n => exact absurd ⟨n, rfl⟩ he
  | next => exact hplain (.inr (.inl rfl))
  | ret retaddr => exact hplain (.inr (.inr (.inl ⟨retaddr, rfl⟩)))
  | gdbContinue => exact hplain (.inr (.inr (.inr (.inl rfl))))
  | gdbStep => exact hplain (.inr (.inr (.inr (.inr rfl))))
  | core c dbgMode =>
    cases h
    simp only [dbgStdExecutorCore] at hset
    split_ifs at hset
    · exact hset
    · exact hset
  | breaks op =>
    obtain ⟨r, -, heq⟩ := Option.map_eq_some_iff.1 h
    cases heq
    exact hset
  | forceBreak | quit | quitStopped | coreAll =>
    cases h
    exact hset

theorem timeout_of_isTimeout_false (hs : ∀ core, (s.cont core).isTimeout = false)
    (h : dbgEventStep s e = some (s', o)) : ∀ seen, o = some seen → seen.timeout ≠ some true := by
  rintro seen rfl
  cases e with
  | supplyStart c pc =>
    obtain ⟨-, heq⟩ := Prod.mk.inj (Option.some.inj h)
    cases heq
    have hfalse : (cpuctrlIsTimeoutContClocks s c).2 = false := by
      simp [cpuctrlIsTimeoutContClocks, hs c]
    simp only [dbgNotifyCpuClockSupplyStart, hfalse]
    split_ifs <;> simp
  | ret | breaks =>
    obtain ⟨r, -, heq⟩ := Option.map_eq_some_iff.1 h
    cases (Prod.mk.inj heq).2
  | _ => cases (Prod.mk.inj (Option.some.inj h)).2

theorem supplyStart_of_isTimeout (pc : BitVec 32) (hmode : s.isDebugMode core = true)
    (hset : (s.cont core).isTimeout = true) :
    (dbgNotifyCpuClockSupplyStart s core pc).2.timeout = some (decide ((s.cont core).contClocks ≤ 1)) ∧
      (dbgNotifyCpuClockSupplyStart s core pc).1.isDebugMode core = true ∧
      (1 < (s.cont core).contClocks → (dbgNotifyCpuClockSupplyStart s core pc).1.cont core =
        ⟨true, (s.cont core).contClocks - 1⟩) := by
  by_cases hone : (s.cont core).contClocks > 1
  · simp only [dbgNotifyCpuClockSupplyStart, cpuctrlIsTimeoutContClocks, hmode, hset, hone]
    split_ifs <;> simp_all [notifyStop, cpuctrlSetDebugMode, cpuctrlSetCurrentDebuggedCore]
  · simp only [dbgNotifyCpuClockSupplyStart, cpuctrlIsTimeoutContClocks, hmode, hset, hone]
    split_ifs <;> simp_all [notifyStop, cpuctrlSetDebugMode, cpuctrlSetCurrentDebuggedCore]

theorem exists_timeout (pc : BitVec 32) (n : Nat) (hmode : s.isDebugMode core = true)
    (hset : s.cont core = ⟨true, n⟩) : ∃ k s' os seen,
      run dbgEventStep s (List.replicate k (.supplyStart core pc)) = some (s', os) ∧ some seen ∈ os ∧
        seen.timeout = some true := by
  induction n generalizing s with
  | zero =>
    obtain ⟨htimeout, -⟩ := supplyStart_of_isTimeout pc hmode (by rw [hset])
    rw [hset] at htimeout
    exact ⟨1, _, _, _, rfl, .head _, htimeout⟩
  | succ n ih =>
    obtain ⟨htimeout, hmode', hnext⟩ := supplyStart_of_isTimeout pc hmode (by rw [hset])
    rw [hset] at htimeout hnext
    by_cases hn : 1 < n + 1
    · obtain ⟨k, s', os, seen, hrun, hmem, htrue⟩ := ih hmode' (hnext hn)
      exact ⟨k + 1, s', _, seen, run_cons_eq_some.2 ⟨_, _, _, rfl, hrun, rfl⟩, .tail _ hmem, htrue⟩
    · refine ⟨1, _, _, _, rfl, .head _, ?_⟩
      rw [htimeout]
      simp [Nat.le_of_not_lt hn]

theorem noTimeoutFrom_iff : NoTimeoutFrom s ↔ ∀ core, (s.cont core).isTimeout = false := by
  constructor
  · intro hno core
    by_contra hset
    rw [Bool.not_eq_false] at hset
    -- The core is set to debug mode first, as it is not checked otherwise.
    have hmode : (dbgStdExecutorCore s core true).isDebugMode core = true := by
      simp only [dbgStdExecutorCore]
      split_ifs <;> simp [dbgCpuDebugModeSet]
    have hcont : (dbgStdExecutorCore s core true).cont core = ⟨true, (s.cont core).contClocks⟩ := by
      rw [← hset]
      simp only [dbgStdExecutorCore]
      split_ifs <;> rfl
    obtain ⟨k, s', os, seen, hrun, hmem, htrue⟩ := exists_timeout 0 _ hmode hcont
    refine hno (.core core true :: List.replicate k (.supplyStart core 0)) s' (none :: os) ?_
      (run_cons_eq_some.2 ⟨_, _, _, rfl, hrun, rfl⟩) _ (.tail _ hmem) seen rfl htrue
    rintro e he ⟨n, rfl⟩
    rcases List.mem_cons.1 he with he | he
    · cases he
    · cases List.eq_of_mem_replicate he
  · intro hs es s' os hes hrun
    refine run_outputs_of_stepsMeet (C := fun _ e => ¬ e.IsCount)
      (fun s => ∀ core, (s.cont core).isTimeout = false)
      (fun o => ∀ seen, o = some seen → seen.timeout ≠ some true) (fun s e s' o hs he h => ?_) es hs
      (stepsMeet_of_forall_mem hes s) hrun
    refine ⟨fun core => ?_, timeout_of_isTimeout_false hs h⟩
    have hnot := mt (isTimeout_of_step he h core)
    simpa [hs core] using hnot

end

/-- **Timeouts of plain commands.** For any number of cores and in every state, a plain `cont`, `next`,
`return` or a continue of the GDB server is followed by no timeout on any core before a number of clocks is
given, whatever happens until then, if and only if no core but the one that stopped last has a timeout before
the command. -/
theorem plain_command_no_timeout_iff {N : Nat} {s s' : DbgCpuCtrl N} {e : DbgEvent N}
    {o : Option SupplyStart} (he : e.IsPlain) (h : dbgEventStep s e = some (s', o)) :
    NoTimeoutFrom s' ↔ ∀ core ≠ s.stoppedCore, (s.cont core).isTimeout = false := by
  rw [noTimeoutFrom_iff, cont_of_plain he h]
  refine forall_congr' fun core => ?_
  by_cases hc : core = s.stoppedCore
  · simp [hc]
  · simp [hc]

/-- Core 0 stops and is given two clocks; a plain `cont` then takes its timeout away. -/
theorem plain_cont_no_timeout : ∃ s os,
    run dbgEventStep (DbgCpuCtrl.init 2) [.supplyStart 0 0x100, .cont (some 2)] = some (s, os) ∧
      (s.cont 0).isTimeout = true ∧ NoTimeoutFrom (dbgStdExecutorCont s none) :=
  ⟨_, _, rfl, rfl,
    (plain_command_no_timeout_iff (e := .cont none) (.inl rfl) rfl).2 (by decide +kernel)⟩

/-- Core 0 is given two clocks, core 1 comes to a breakpoint after the first of them, and a plain `cont`
follows. Then core 0 comes to the end of its clocks. -/
theorem plain_cont_stopped_by_timeout :
    (run dbgEventStep (DbgCpuCtrl.init 2) [.breaks (.setBreak 0x200 .forever), .supplyStart 0 0x100,
      .cont (some 2), .supplyStart 1 0x1fc, .supplyStart 0 0x104, .supplyStart 1 0x200, .cont none,
      .supplyStart 0 0x108]).map Prod.snd =
      some [none, some ⟨some false, true⟩, none, some ⟨some false, false⟩, some ⟨some false, false⟩,
        some ⟨some false, true⟩, none, some ⟨some true, true⟩] := by
  decide +kernel

end Athrill
