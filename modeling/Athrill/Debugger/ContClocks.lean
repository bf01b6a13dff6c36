import Athrill.Debugger.Cont
import Athrill.Debugger.CpuThread

/-!
# A number of clocks for one core (`cpuemu_thread_run_dbg`, `dbg_std_executor_cont`)

The loop of the CPU thread supplies the devices with a clock, calls `dbg_notify_cpu_clock_supply_start`,
where a core that stops waits, and then supplies the core with a clock. Main result: `cont_clocks_supplied`.
-/

namespace Athrill

open Machine List Option

/-! ## The source -/

structure DbgTarget where
  Cpu : Type
  pc : Cpu → BitVec 32
  isHalt : Cpu → Bool
  tick : Cpu → Cpu
  supply : Cpu → Cpu
  exception : Cpu → Bool
  watch : Cpu → Bool

inductive CpuPlace
  | tick
  | supply
  deriving DecidableEq, Repr

/-- The debugger and the CPU thread of one core together. -/
structure DbgSystem (T : DbgTarget) where
  ctrl : DbgCpuCtrl 1
  thr : CpuThrControl
  place : CpuPlace
  cpu : T.Cpu

def DbgSystem.init {T : DbgTarget} (cpu : T.Cpu) : DbgSystem T := ⟨.init 1, cputhrControlStart, .tick, cpu⟩

inductive SystemEvent
  | supplyStart
  | supply
  | wakes
  | poll
  | waitfor
  | command (e : DbgEvent 1)

/-- A clock of the CPU, with whether an instruction was executed, or what the debugger did. -/
inductive SystemOutput
  | silent
  | supplied (executed : Bool)
  | dbg (o : CpuThrOutput)
  deriving DecidableEq, Repr

def DbgEvent.threadCall : DbgEvent 1 → Option CpuThrEvent
  | .cont none | .ret _ | .gdbContinue => some .dbgWakeup
  | .cont (some _) | .next | .gdbStep => some .dbgWakeupAndWait
  | .quit => some .dbgWaitfor
  | _ => none

def threadStep {T : DbgTarget} (s : DbgSystem T) (call : CpuThrEvent) :
    Option (DbgSystem T × SystemOutput) :=
  (cpuThrStep s.thr call).map fun r => ({ s with thr := r.1 }, .dbg r.2)

def commandStep {T : DbgTarget} (s : DbgSystem T) (e : DbgEvent 1) : Option (DbgSystem T × SystemOutput) :=
  if s.thr.dbg = .idle then
    (dbgEventStep s.ctrl e).bind fun r =>
      match e.threadCall with
      | some call => threadStep { s with ctrl := r.1 } call
      | none => some ({ s with ctrl := r.1 }, .silent)
  else none

def systemSupplyStart {T : DbgTarget} (s : DbgSystem T) : DbgSystem T :=
  let cpu := T.tick s.cpu
  let r := dbgNotifyCpuClockSupplyStart s.ctrl 0 (T.pc cpu)
  ⟨r.1, if r.2.needStop then (cputhrControlCpuWait s.thr).1 else s.thr, .supply, cpu⟩

def systemSupply {T : DbgTarget} (s : DbgSystem T) : DbgSystem T :=
  let ctrl := if T.exception s.cpu || T.watch s.cpu then cpuctrlSetDebugMode s.ctrl true else s.ctrl
  ⟨ctrl, s.thr, .tick, T.supply s.cpu⟩

def dbgSystemStep (T : DbgTarget) (s : DbgSystem T) : SystemEvent → Option (DbgSystem T × SystemOutput)
  | .supplyStart =>
    if s.thr.cpu = .running ∧ s.place = .tick then some (systemSupplyStart s, .silent) else none
  | .supply =>
    if s.thr.cpu = .running ∧ s.place = .supply then
      some (systemSupply s, .supplied (!T.isHalt s.cpu))
    else none
  | .wakes =>
    if s.thr.cpu = .blocked then some ({ s with thr := (cpuWaitLoop s.thr).1 }, .silent) else none
  | .poll => threadStep s .dbgPoll
  | .waitfor => threadStep s .dbgWaitfor
  | .command (.supplyStart _ _) => none
  | .command e => commandStep s e

def cpuWaiting : CpuThrControl := ⟨.wait, false, .blocked, .idle⟩

def SystemEvent.IsCpu (e : SystemEvent) : Bool :=
  match e with
  | .supplyStart | .supply | .wakes => true
  | _ => false

def SystemEvent.IsCommand (e : SystemEvent) : Prop := ∃ c, e = .command c

def suppliedClocks (os : List SystemOutput) : List Bool :=
  os.filterMap fun o => match o with
    | .supplied executed => some executed
    | _ => none

/-! ## The program -/

def cpuAt {T : DbgTarget} (cpu : T.Cpu) : Nat → T.Cpu
  | 0 => cpu
  | j + 1 => T.tick (T.supply (cpuAt cpu j))

/-- No exception, watch point or breakpoint stops the CPU before the last of `m` clocks. -/
def ContUndisturbed {T : DbgTarget} (breaks : BreakState) (cpu : T.Cpu) (m : Nat) : Prop :=
  ∀ j, j + 1 < m → T.exception (cpuAt cpu j) = false ∧ T.watch (cpuAt cpu j) = false ∧
    cpuctrlIsBreakPoint breaks (T.pc (cpuAt cpu (j + 1))) = false

/-- After `cont n` the CPU gets `max n 1` clocks, stops in debug mode in time, is never stuck, and the command
does not return before. -/
structure ContSupplies {T : DbgTarget} (n : Nat) (cpu : T.Cpu) (es : List SystemEvent)
    (os : List SystemOutput) (s : DbgSystem T) : Prop where
  supplied : s.thr.cpu = .blocked → s.thr.cputhrWakeupRequested = false →
    suppliedClocks os = (range (max n 1)).map (fun j => !T.isHalt (cpuAt cpu j)) ∧
      s.ctrl.dbgMode = .normal
  stops : 2 * max n 1 + 1 ≤ es.countP SystemEvent.IsCpu →
    s.thr.cpu = .blocked ∧ s.thr.cputhrWakeupRequested = false
  goesOn : s.thr.cpu = .running ∨ s.thr.cputhrWakeupRequested = true →
    ∃ e, e.IsCpu = true ∧ (dbgSystemStep T s e).isSome = true
  returned : .dbg .wakeupAndWaitReturned ∈ os → s.thr.cpu = .blocked ∧ s.thr.cputhrWakeupRequested = false

/-! ## From the command to the stop -/

section
variable {T : DbgTarget} {n j k : Nat} {cpu : T.Cpu} {breaks : BreakState} {s s' : DbgSystem T}
  {e : SystemEvent} {o : SystemOutput}

structure ContCounting (breaks : BreakState) (left : Nat) (s : DbgCpuCtrl 1) : Prop where
  cont : s.cont 0 = ⟨true, left⟩
  isDebugMode : s.isDebugMode 0 = true
  breaks : s.breaks = breaks

/-- Where the system is after the command, by the clocks supplied and the steps of the CPU thread. -/
inductive ContPhase (n : Nat) (cpu : T.Cpu) (breaks : BreakState) : Nat → Nat → DbgSystem T → Prop
  | asked {s : DbgSystem T} (hcounting : ContCounting breaks n s.ctrl) (hmode : s.ctrl.dbgMode = .none)
      (hthr : s.thr = ⟨.wait, true, .blocked, .wakeupSleep⟩) (hplace : s.place = .supply)
      (hcpu : s.cpu = cpu) : ContPhase n cpu breaks 0 0 s
  | ready {s : DbgSystem T} {j : Nat} (hj : j < max n 1) (hcounting : ContCounting breaks (n - j) s.ctrl)
      (hmode : s.ctrl.dbgMode = .none) (hthr : s.thr = ⟨.running, false, .running, .wakeupSleep⟩)
      (hplace : s.place = .supply) (hcpu : s.cpu = cpuAt cpu j) : ContPhase n cpu breaks j (2 * j + 1) s
  | supplied {s : DbgSystem T} {j : Nat} (hj : j < max n 1) (hcounting : ContCounting breaks (n - j) s.ctrl)
      (hmode : j + 1 < max n 1 → s.ctrl.dbgMode = .none)
      (hthr : s.thr = ⟨.running, false, .running, .wakeupSleep⟩) (hplace : s.place = .tick)
      (hcpu : s.cpu = T.supply (cpuAt cpu j)) : ContPhase n cpu breaks (j + 1) (2 * j + 2) s
  | stopped {s : DbgSystem T} {k : Nat} (hthr : s.thr = ⟨.wait, false, .blocked, .wakeupSleep⟩ ∨
      s.thr = cpuWaiting) (hmode : s.ctrl.dbgMode = .normal) (hk : 2 * max n 1 + 1 ≤ k) :
      ContPhase n cpu breaks (max n 1) k s

theorem ContCounting.goesOn (hc : ContCounting breaks (n - j) s.ctrl) (hj : j + 1 < max n 1)
    (hmode : s.ctrl.dbgMode = .none) (hbreak : cpuctrlIsBreakPoint breaks (T.pc (T.tick s.cpu)) = false) :
    ContCounting breaks (n - (j + 1)) (systemSupplyStart s).ctrl ∧
      (systemSupplyStart s).ctrl.dbgMode = .none ∧ (systemSupplyStart s).thr = s.thr := by
  have hclocks : (s.ctrl.cont 0).contClocks > 1 := by
    rw [hc.cont]
    show n - j > 1
    omega
  have htimeout : cpuctrlIsTimeoutContClocks s.ctrl 0 =
      ({ s.ctrl with cont := Function.update s.ctrl.cont 0 ⟨true, (s.ctrl.cont 0).contClocks - 1⟩ },
        false) := by
    rw [cpuctrlIsTimeoutContClocks, if_pos (by rw [hc.cont]), if_pos hclocks]
  have hnotify : dbgNotifyCpuClockSupplyStart s.ctrl 0 (T.pc (T.tick s.cpu)) =
      ((cpuctrlIsTimeoutContClocks s.ctrl 0).1, ⟨some false, false⟩) := by
    simp [dbgNotifyCpuClockSupplyStart, htimeout, hc.isDebugMode, hc.breaks, hbreak, cpuctrlIsDebugMode,
      hmode]
  simp only [systemSupplyStart, hnotify, htimeout]
  refine ⟨⟨?_, hc.isDebugMode, hc.breaks⟩, hmode, rfl⟩
  simp only [Function.update_self, hc.cont]
  exact congrArg _ (Nat.sub_sub n j 1)

theorem ContCounting.atEnd (hc : ContCounting breaks (n - j) s.ctrl) (hj : ¬ j + 1 < max n 1)
    (hthr : s.thr = ⟨.running, false, .running, .wakeupSleep⟩) :
    (systemSupplyStart s).ctrl.dbgMode = .normal ∧
      (systemSupplyStart s).thr = ⟨.wait, false, .blocked, .wakeupSleep⟩ := by
  have hclocks : ¬ (s.ctrl.cont 0).contClocks > 1 := by
    rw [hc.cont]
    show ¬ n - j > 1
    omega
  have htimeout : cpuctrlIsTimeoutContClocks s.ctrl 0 = (s.ctrl, true) := by
    rw [cpuctrlIsTimeoutContClocks, if_pos (by rw [hc.cont]), if_neg hclocks]
  have hnotify : dbgNotifyCpuClockSupplyStart s.ctrl 0 (T.pc (T.tick s.cpu)) =
      (notifyStop s.ctrl 0, ⟨some true, true⟩) := by
    simp [dbgNotifyCpuClockSupplyStart, htimeout, hc.isDebugMode]
  simp only [systemSupplyStart, hnotify, hthr]
  exact ⟨rfl, rfl⟩

theorem ContCounting.supply {left : Nat} (hc : ContCounting breaks left s.ctrl) :
    ContCounting breaks left (systemSupply s).ctrl := by
  simp only [systemSupply]
  split_ifs
  · exact ⟨hc.cont, hc.isDebugMode, hc.breaks⟩
  · exact hc

theorem poll_sleeps (hd : s.thr.dbg = .wakeupSleep)
    (hr : s.thr.cputhrWakeupRequested = true ∨ s.thr.cputhrState = .running) :
    dbgSystemStep T s .poll = some (s, .dbg .silent) := by
  obtain ⟨ctrl, ⟨state, requested, c, d⟩, place, cpu⟩ := s
  cases hd
  simp only [dbgSystemStep, threadStep, cpuThrStep, dbgWakeupLoop, if_pos hr]
  rfl

theorem poll_returns (hthr : s.thr = ⟨.wait, false, .blocked, .wakeupSleep⟩) :
    dbgSystemStep T s .poll = some ({ s with thr := cpuWaiting }, .dbg .wakeupAndWaitReturned) := by
  simp only [dbgSystemStep, threadStep, hthr]
  rfl

def ContShows (cpu : T.Cpu) (j j' : Nat) (o : SystemOutput) : Prop :=
  j' = j ∧ suppliedClocks [o] = [] ∨ j' = j + 1 ∧ suppliedClocks [o] = [!T.isHalt (cpuAt cpu j)]

theorem ContPhase.step (hu : ContUndisturbed breaks cpu (max n 1)) (hp : ContPhase n cpu breaks j k s)
    (he : ¬ e.IsCommand) (h : dbgSystemStep T s e = some (s', o)) :
    ∃ j', ContPhase n cpu breaks j' (k + [e].countP SystemEvent.IsCpu) s' ∧ ContShows cpu j j' o ∧
      (o = .dbg .wakeupAndWaitReturned → 2 * max n 1 + 1 ≤ k) := by
  cases hp with
  | asked hc hmode hthr hplace hcpu =>
    cases e with
    | supplyStart | supply | waitfor => simp [dbgSystemStep, threadStep, cpuThrStep, hthr] at h
    | wakes =>
      simp only [dbgSystemStep, hthr, if_true, some.injEq, Prod.mk.injEq] at h
      obtain ⟨rfl, rfl⟩ := h
      exact ⟨0, .ready (by omega) hc hmode rfl hplace hcpu, .inl ⟨rfl, rfl⟩, by simp⟩
    | poll =>
      obtain ⟨rfl, rfl⟩ := Prod.mk.inj (some.inj
        ((poll_sleeps (by rw [hthr]) (.inl (by rw [hthr]))).symm.trans h))
      exact ⟨0, .asked hc hmode hthr hplace hcpu, .inl ⟨rfl, rfl⟩, by simp⟩
    | command c => exact absurd ⟨c, rfl⟩ he
  | ready hj hc hmode hthr hplace hcpu =>
    cases e with
    | supplyStart | wakes | waitfor => simp [dbgSystemStep, threadStep, cpuThrStep, hthr, hplace] at h
    | supply =>
      simp only [dbgSystemStep, hthr, hplace, and_self, if_true, some.injEq, Prod.mk.injEq] at h
      obtain ⟨rfl, rfl⟩ := h
      refine ⟨j + 1, .supplied hj hc.supply (fun hlast => ?_) hthr rfl (congrArg _ hcpu), .inr ⟨rfl, ?_⟩,
        by simp⟩
      · obtain ⟨hexception, hwatch, -⟩ := hu j hlast
        simp [systemSupply, hcpu, hexception, hwatch, hmode]
      · rw [hcpu]
        rfl
    | poll =>
      obtain ⟨rfl, rfl⟩ := Prod.mk.inj (some.inj
        ((poll_sleeps (by rw [hthr]) (.inr (by rw [hthr]))).symm.trans h))
      exact ⟨j, .ready hj hc hmode hthr hplace hcpu, .inl ⟨rfl, rfl⟩, by simp⟩
    | command c => exact absurd ⟨c, rfl⟩ he
  | @supplied _ j hj hc hmode hthr hplace hcpu =>
    cases e with
    | supply | wakes | waitfor => simp [dbgSystemStep, threadStep, cpuThrStep, hthr, hplace] at h
    | supplyStart =>
      simp only [dbgSystemStep, hthr, hplace, and_self, if_true, some.injEq, Prod.mk.injEq] at h
      obtain ⟨rfl, rfl⟩ := h
      by_cases hlast : j + 1 < max n 1
      · have hcpu' : T.tick s.cpu = cpuAt cpu (j + 1) := by rw [hcpu, cpuAt]
        obtain ⟨hc', hmode', hthr'⟩ := hc.goesOn hlast (hmode hlast) (hcpu' ▸ (hu j hlast).2.2)
        exact ⟨j + 1, .ready hlast hc' hmode' (hthr'.trans hthr) rfl hcpu', .inl ⟨rfl, rfl⟩, by simp⟩
      · obtain ⟨hmode', hthr'⟩ := hc.atEnd hlast hthr
        have hj' : j + 1 = max n 1 := by omega
        refine ⟨j + 1, ?_, .inl ⟨rfl, rfl⟩, by simp⟩
        rw [hj']
        exact .stopped (.inl hthr') hmode' (by simp [SystemEvent.IsCpu]; omega)
    | poll =>
      obtain ⟨rfl, rfl⟩ := Prod.mk.inj (some.inj
        ((poll_sleeps (by rw [hthr]) (.inr (by rw [hthr]))).symm.trans h))
      exact ⟨j + 1, .supplied hj hc hmode hthr hplace hcpu, .inl ⟨rfl, rfl⟩, by simp⟩
    | command c => exact absurd ⟨c, rfl⟩ he
  | stopped hthr hmode hk =>
    have hstay : (s'.thr = ⟨.wait, false, .blocked, .wakeupSleep⟩ ∨ s'.thr = cpuWaiting) ∧
        s'.ctrl = s.ctrl ∧ suppliedClocks [o] = [] := by
      cases e with
      | supplyStart | supply =>
        rcases hthr with hthr | hthr <;> simp [dbgSystemStep, hthr, cpuWaiting] at h
      | wakes =>
        rcases hthr with hthr | hthr <;>
          simp only [dbgSystemStep, hthr, cpuWaiting, if_true, some.injEq, Prod.mk.injEq] at h <;>
          obtain ⟨rfl, rfl⟩ := h
        · exact ⟨.inl rfl, rfl, rfl⟩
        · exact ⟨.inr rfl, rfl, rfl⟩
      | poll =>
        rcases hthr with hthr | hthr
        · rw [poll_returns hthr] at h
          cases h
          exact ⟨.inr rfl, rfl, rfl⟩
        · simp [dbgSystemStep, threadStep, hthr, cpuWaiting, cpuThrStep] at h
      | waitfor =>
        rcases hthr with hthr | hthr
        · simp [dbgSystemStep, threadStep, hthr, cpuThrStep] at h
        · simp only [dbgSystemStep, threadStep, hthr] at h
          cases h
          exact ⟨.inr rfl, rfl, rfl⟩
      | command c => exact absurd ⟨c, rfl⟩ he
    obtain ⟨hthr', hctrl, hsilent⟩ := hstay
    exact ⟨max n 1, .stopped hthr' (by rw [hctrl, hmode]) (Nat.le_add_right_of_le hk), .inl ⟨rfl, hsilent⟩,
      fun _ => hk⟩

theorem suppliedClocks_cons (os : List SystemOutput) :
    suppliedClocks (o :: os) = suppliedClocks [o] ++ suppliedClocks os := by
  rw [← singleton_append, suppliedClocks, filterMap_append]
  rfl

theorem ContPhase.run (hu : ContUndisturbed breaks cpu (max n 1)) {es : List SystemEvent}
    {os : List SystemOutput} (hp : ContPhase n cpu breaks j k s) (hes : ∀ e ∈ es, ¬ e.IsCommand)
    (h : Machine.run (dbgSystemStep T) s es = some (s', os)) :
    ∃ m, ContPhase n cpu breaks (j + m) (k + es.countP SystemEvent.IsCpu) s' ∧
      suppliedClocks os = (range' j m).map (fun i => !T.isHalt (cpuAt cpu i)) ∧
      (.dbg .wakeupAndWaitReturned ∈ os → 2 * max n 1 + 1 ≤ k + es.countP SystemEvent.IsCpu) := by
  induction es generalizing s j k os with
  | nil =>
    cases h
    exact ⟨0, hp, rfl, by simp⟩
  | cons e es ih =>
    obtain ⟨s₁, o, os, hs, hr, rfl⟩ := run_cons_eq_some.1 h
    obtain ⟨j₁, hp₁, hshows, hret⟩ := hp.step hu (hes e (.head _)) hs
    obtain ⟨m, hm, hsupplied, hret'⟩ := ih hp₁ (fun e' he' => hes e' (.tail _ he')) hr
    have hcount : k + (e :: es).countP SystemEvent.IsCpu =
        k + [e].countP SystemEvent.IsCpu + es.countP SystemEvent.IsCpu := by
      rw [← singleton_append, countP_append, Nat.add_assoc]
    rw [hcount]
    have hdone : .dbg .wakeupAndWaitReturned ∈ o :: os →
        2 * max n 1 + 1 ≤ k + [e].countP SystemEvent.IsCpu + es.countP SystemEvent.IsCpu := by
      intro hmem
      rcases mem_cons.1 hmem with heq | hmem
      · exact (hret heq.symm).trans (by omega)
      · exact hret' hmem
    rw [suppliedClocks_cons, hsupplied]
    rcases hshows with ⟨rfl, hnone⟩ | ⟨rfl, hone⟩
    · exact ⟨m, hm, by rw [hnone, nil_append], hdone⟩
    · refine ⟨m + 1, ?_, by rw [hone, range'_succ]; rfl, hdone⟩
      rwa [← Nat.add_assoc, Nat.add_right_comm]

theorem ContPhase.stopped_iff (hp : ContPhase n cpu breaks j k s) :
    (s.thr.cpu = .blocked ∧ s.thr.cputhrWakeupRequested = false) ↔ 2 * max n 1 + 1 ≤ k := by
  cases hp with
  | asked _ _ hthr => simp [hthr]
  | ready hj _ _ hthr =>
    simp only [hthr, reduceCtorEq, false_and, false_iff]
    omega
  | supplied hj _ _ hthr =>
    simp only [hthr, reduceCtorEq, false_and, false_iff]
    omega
  | stopped hthr _ hk => rcases hthr with hthr | hthr <;> simp [hthr, cpuWaiting, hk]

theorem ContPhase.goesOn (hp : ContPhase n cpu breaks j k s)
    (hnot : ¬ (s.thr.cpu = .blocked ∧ s.thr.cputhrWakeupRequested = false)) :
    ∃ e, e.IsCpu = true ∧ (dbgSystemStep T s e).isSome = true := by
  cases hp with
  | asked _ _ hthr => exact ⟨.wakes, rfl, by simp [dbgSystemStep, hthr]⟩
  | ready _ _ _ hthr hplace => exact ⟨.supply, rfl, by simp [dbgSystemStep, hthr, hplace]⟩
  | supplied _ _ _ hthr hplace => exact ⟨.supplyStart, rfl, by simp [dbgSystemStep, hthr, hplace]⟩
  | stopped hthr => rcases hthr with hthr | hthr <;> simp [hthr, cpuWaiting] at hnot

theorem ContPhase.atStop (hp : ContPhase n cpu breaks j k s)
    (hstop : s.thr.cpu = .blocked ∧ s.thr.cputhrWakeupRequested = false) :
    j = max n 1 ∧ s.ctrl.dbgMode = .normal := by
  cases hp with
  | asked _ _ hthr => simp [hthr] at hstop
  | ready _ _ _ hthr => simp [hthr] at hstop
  | supplied _ _ _ hthr => simp [hthr] at hstop
  | stopped _ hmode => exact ⟨rfl, hmode⟩

/-! ## Before the command -/

structure SystemOk (s : DbgSystem T) : Prop where
  isDebugMode : s.ctrl.isDebugMode 0 = true
  place : s.thr.cpu = .blocked → s.place = .supply

theorem cpu_of_threadStep {call : CpuThrEvent} (hcall : call ≠ .cpuWait ∧ call ≠ .cpuWakes)
    (h : threadStep s call = some (s', o)) :
    s'.thr.cpu = s.thr.cpu ∧ s'.ctrl = s.ctrl ∧ s'.place = s.place := by
  obtain ⟨⟨thr, out⟩, hstep, heq⟩ := map_eq_some_iff.1 h
  cases heq
  refine ⟨?_, rfl, rfl⟩
  cases CpuThrTrans.of_step hstep with
  | waitTakes | waitBlocks => exact absurd rfl hcall.1
  | wakesTakes | wakesBlocks => exact absurd rfl hcall.2
  | _ => rfl

theorem isDebugMode_supplyStart (c : DbgCpuCtrl 1) (pc : BitVec 32) :
    (dbgNotifyCpuClockSupplyStart c 0 pc).1.isDebugMode = c.isDebugMode := by
  have htimeout : (cpuctrlIsTimeoutContClocks c 0).1.isDebugMode = c.isDebugMode := by
    simp only [cpuctrlIsTimeoutContClocks]
    split_ifs <;> rfl
  simp only [dbgNotifyCpuClockSupplyStart]
  split_ifs
  · rfl
  · exact htimeout
  · exact htimeout

theorem isDebugMode_of_command {c c' : DbgCpuCtrl 1} {e : DbgEvent 1} {o : Option SupplyStart}
    (hc : c.isDebugMode 0 = true) (he : e ≠ .coreAll false) (h : dbgEventStep c e = some (c', o)) :
    c'.isDebugMode 0 = true := by
  cases e with
  | supplyStart core pc =>
    cases h
    rw [Subsingleton.elim core 0, isDebugMode_supplyStart, hc]
  | ret retaddr =>
    obtain ⟨c₁, hret, heq⟩ := map_eq_some_iff.1 h
    cases heq
    simp only [dbgStdExecutorReturn] at hret
    split_ifs at hret
    cases hret
    exact hc
  | core core dbgMode =>
    cases h
    rw [Subsingleton.elim core 0]
    cases dbgMode <;> simp [dbgStdExecutorCore, dbgCpuDebugModeSet, finRange_succ]
  | coreAll dbgMode =>
    cases h
    cases dbgMode with
    | true => rfl
    | false => exact absurd rfl he
  | breaks op =>
    obtain ⟨r, -, heq⟩ := map_eq_some_iff.1 h
    cases heq
    exact hc
  | cont clocks =>
    cases h
    cases clocks <;> exact hc
  | forceBreak | next | gdbContinue | gdbStep | quit | quitStopped =>
    cases h
    exact hc

theorem commandStep_eq_some {c : DbgEvent 1} (h : commandStep s c = some (s', o)) :
    (∃ out, dbgEventStep s.ctrl c = some (s'.ctrl, out)) ∧ s'.thr.cpu = s.thr.cpu ∧ s'.place = s.place := by
  simp only [commandStep] at h
  split_ifs at h with hidle
  obtain ⟨⟨ctrl, out⟩, hctrl, h⟩ := bind_eq_some_iff.1 h
  cases hcall : c.threadCall with
  | none =>
    simp only [hcall] at h
    cases h
    exact ⟨⟨out, hctrl⟩, rfl, rfl⟩
  | some call =>
    simp only [hcall] at h
    have hdbg : call ≠ .cpuWait ∧ call ≠ .cpuWakes := by
      unfold DbgEvent.threadCall at hcall
      split at hcall <;> cases hcall <;> decide
    obtain ⟨hcpu, hctrl', hplace⟩ := cpu_of_threadStep hdbg h
    exact ⟨⟨out, by rw [hctrl', hctrl]⟩, hcpu, hplace⟩

theorem SystemOk.step (hs : SystemOk s) (he : e ≠ .command (.coreAll false))
    (h : dbgSystemStep T s e = some (s', o)) : SystemOk s' := by
  have hdbg : ∀ call, call ≠ .cpuWait ∧ call ≠ .cpuWakes → threadStep s call = some (s', o) →
      SystemOk s' := by
    intro call hcall h
    obtain ⟨hcpu, hctrl, hplace⟩ := cpu_of_threadStep hcall h
    exact ⟨by rw [hctrl, hs.isDebugMode], fun hb => hplace.trans (hs.place (hcpu ▸ hb))⟩
  have hcommand : ∀ c, e = .command c → commandStep s c = some (s', o) → SystemOk s' := by
    rintro c rfl h
    obtain ⟨⟨out, hctrl⟩, hcpu, hplace⟩ := commandStep_eq_some h
    exact ⟨isDebugMode_of_command hs.isDebugMode (fun hc => he (congrArg _ hc)) hctrl,
      fun hb => hplace.trans (hs.place (hcpu ▸ hb))⟩
  cases e with
  | supplyStart =>
    simp only [dbgSystemStep] at h
    split_ifs at h
    cases h
    exact ⟨by simp only [systemSupplyStart, isDebugMode_supplyStart, hs.isDebugMode], fun _ => rfl⟩
  | supply =>
    simp only [dbgSystemStep] at h
    split_ifs at h with hrunning
    cases h
    refine ⟨?_, fun hb => ?_⟩
    · simp only [systemSupply]
      split_ifs <;> exact hs.isDebugMode
    · cases hrunning.1.symm.trans hb
  | wakes =>
    simp only [dbgSystemStep] at h
    split_ifs at h with hblocked
    cases h
    exact ⟨hs.isDebugMode, fun _ => hs.place hblocked⟩
  | poll => exact hdbg _ (by decide) h
  | waitfor => exact hdbg _ (by decide) h
  | command c =>
    cases c with
    | supplyStart => cases h
    | _ => exact hcommand _ rfl h

end

/-- **A number of clocks.** For one core, after every history in which the core is not taken out of debug
mode, `cont` with a number of clocks `n`, given to a waiting CPU, is executed, and then in every interleaving
of the two threads the CPU is supplied with exactly `n` clocks, or with one if `n` is 0, one instruction each
unless the CPU is halted, and stops in debug mode, if none of these clocks but the last one ends in an
exception or hits a watch point and the CPU comes to no breakpoint after them. An earlier number of clocks
that was interrupted makes no difference. -/
theorem cont_clocks_supplied {T : DbgTarget} {start : T.Cpu} {hist : List SystemEvent} {s : DbgSystem T}
    {seen : List SystemOutput} (hrun : run (dbgSystemStep T) (.init start) hist = some (s, seen))
    (hhist : ∀ e ∈ hist, e ≠ .command (.coreAll false)) (hwait : s.thr = cpuWaiting) (n : Nat)
    (hu : ContUndisturbed s.ctrl.breaks s.cpu (max n 1)) :
    ∃ s₁ o, dbgSystemStep T s (.command (.cont (some n))) = some (s₁, o) ∧
      ∀ es s' os, (∀ e ∈ es, ¬ e.IsCommand) → run (dbgSystemStep T) s₁ es = some (s', os) →
        ContSupplies n s.cpu es os s' := by
  have hok : SystemOk s := run_invariant_of_stepsMeet (C := fun _ e => e ≠ .command (.coreAll false)) SystemOk
    (fun _ _ _ _ hs he h => hs.step he h) hist ⟨rfl, fun hb => by cases hb⟩
    (stepsMeet_of_forall_mem hhist _) hrun
  refine ⟨⟨dbgStdExecutorCont s.ctrl (some n), ⟨.wait, true, .blocked, .wakeupSleep⟩, s.place, s.cpu⟩,
    .dbg .silent, ?_, fun es s' os hes h => ?_⟩
  · simp only [dbgSystemStep, commandStep, hwait]
    rfl
  have hasked : ContPhase n s.cpu s.ctrl.breaks 0 0
      (⟨dbgStdExecutorCont s.ctrl (some n), ⟨.wait, true, .blocked, .wakeupSleep⟩, s.place, s.cpu⟩ :
        DbgSystem T) := by
    refine .asked ⟨?_, hok.isDebugMode, rfl⟩ rfl rfl (hok.place (by rw [hwait]; rfl)) rfl
    rw [Subsingleton.elim (0 : Fin 1) (cpuctrlSetDebugMode s.ctrl false).stoppedCore]
    exact Function.update_self ..
  obtain ⟨m, hp, hsupplied, hret⟩ := hasked.run hu hes h
  rw [Nat.zero_add] at hp hret
  refine ⟨fun hb hr => ?_, fun hle => (hp.stopped_iff.2 (by omega)), fun hnot => hp.goesOn ?_,
    fun hmem => hp.stopped_iff.2 (by have := hret hmem; omega)⟩
  · obtain ⟨rfl, hmode⟩ := hp.atStop ⟨hb, hr⟩
    rw [hsupplied, range_eq_range']
    exact ⟨rfl, hmode⟩
  · rintro ⟨hb, hr⟩
    rw [hb, hr] at hnot
    simp at hnot

def countingTarget (exception : Nat → Bool) : DbgTarget where
  Cpu := Nat
  pc c := BitVec.ofNat 32 (4 * c + 4)
  isHalt _ := false
  tick c := c
  supply c := c + 1
  exception := exception
  watch _ := false

theorem cont_clocks_supplied_two : ∃ s₁ o,
    dbgSystemStep (countingTarget fun _ => false) (systemSupplyStart (.init (0 : Nat)))
      (.command (.cont (some 2))) = some (s₁, o) ∧
    ∀ es s' os, (∀ e ∈ es, ¬ e.IsCommand) →
      run (dbgSystemStep (countingTarget fun _ => false)) s₁ es = some (s', os) →
        ContSupplies 2 (T := countingTarget fun _ => false) (0 : Nat) es os s' := by
  have hrun : run (dbgSystemStep (countingTarget fun _ => false)) (.init (0 : Nat)) [.supplyStart] =
      some (systemSupplyStart (.init (0 : Nat)), [.silent]) := rfl
  refine cont_clocks_supplied hrun (by simp) rfl 2 fun j hj => ⟨rfl, rfl, ?_⟩
  obtain rfl : j = 0 := by omega
  decide +kernel

/-- An exception in the first of two clocks: the CPU stops after it. -/
theorem cont_clocks_exception :
    (run (dbgSystemStep (countingTarget (· == 0))) (.init (0 : Nat)) [.supplyStart, .command (.cont (some 2)),
      .wakes, .supply, .supplyStart, .poll]).map Prod.snd =
      some [.silent, .dbg .silent, .silent, .supplied true, .silent, .dbg .wakeupAndWaitReturned] := by
  decide +kernel

end Athrill
