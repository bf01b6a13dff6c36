import Athrill.Lib.ClockedLoop
import Athrill.Main.CpuEmu

/-!
# The main loop with one core (`cpuemu_thread_run`)

The CPU and the devices are code of the target, outside the emulator's core.
-/

namespace Athrill

/-! ## Targets -/

structure Target where
  Cpu : Type
  Dev : Type
  Instr : Type
  Event : Type
  isHalt : Cpu → Bool
  exec : Nat → Cpu → Dev → Instr × Cpu × Dev
  touches : Nat → Cpu → Dev → Bool
  nextEvent : Dev → Option Nat
  fire : Nat → Cpu → Dev → Event × Cpu × Dev
  canSkipClock : Dev → Bool
  exec_dev : ∀ {clock cpu dev}, touches clock cpu dev = false → (exec clock cpu dev).2.2 = dev
  lt_nextEvent_exec : ∀ {clock cpu dev}, (∀ n, nextEvent dev = some n → clock < n) →
    ∀ n, nextEvent (exec clock cpu dev).2.2 = some n → clock < n
  lt_nextEvent_fire : ∀ {clock cpu dev}, ∀ n, nextEvent (fire clock cpu dev).2.2 = some n → clock < n

inductive EmuObs (ε ι : Type)
  | event (clock : Nat) (e : ε)
  | execute (clock : Nat) (i : ι)
  deriving DecidableEq

def EmuObs.clock {ε ι : Type} : EmuObs ε ι → Nat
  | .event clock _ => clock
  | .execute clock _ => clock

variable (T : Target)

/-- The emulator between two iterations. -/
structure EmuState where
  clock : Nat
  cpu : T.Cpu
  dev : T.Dev

abbrev Target.Obs := EmuObs T.Event T.Instr

def deviceSupplyClock (s : EmuState T) : List T.Obs × EmuState T :=
  match T.nextEvent s.dev with
  | some n =>
    if n ≤ s.clock then
      let r := T.fire s.clock s.cpu s.dev
      ([.event s.clock r.1], ⟨s.clock, r.2.1, r.2.2⟩)
    else ([], s)
  | none => ([], s)

def minIntrInterval (s : EmuState T) : Nat :=
  match T.nextEvent s.dev with
  | some n => n - s.clock
  | none => deviceClockMaxInterval

def cpuSupplyClock (s : EmuState T) : List T.Obs × EmuState T :=
  if T.isHalt s.cpu then ([], s)
  else
    let r := T.exec s.clock s.cpu s.dev
    ([.execute s.clock r.1], ⟨s.clock, r.2.1, r.2.2⟩)

def cpuExecNext (s : EmuState T) : T.Instr × EmuState T :=
  let r := T.exec (s.clock + 1) s.cpu s.dev
  (r.1, ⟨s.clock + 1, r.2.1, r.2.2⟩)

def cpuEndsBatch (s : EmuState T) : Bool :=
  T.isHalt (cpuExecNext T s).2.cpu || T.touches (s.clock + 1) s.cpu s.dev

def cpuSupplyClocks : Nat → EmuState T → List T.Obs × EmuState T
  | 0, s => ([], s)
  | maxClocks + 1, s =>
    let r := cpuExecNext T s
    if cpuEndsBatch T s then ([.execute (s.clock + 1) r.1], r.2)
    else
      let rest := cpuSupplyClocks maxClocks r.2
      (.execute (s.clock + 1) r.1 :: rest.1, rest.2)

/-! ## The loop -/

section
variable (cfg : CpuEmuConfig)

structure FirstClock where
  obs : List T.Obs
  minIntrInterval : Nat
  canSkipClock : Bool
  state : EmuState T

def firstClock (s : EmuState T) : FirstClock T :=
  let tick := deviceSupplyClock T s
  let first := cpuSupplyClock T tick.2
  ⟨tick.1 ++ first.1, minIntrInterval T tick.2, T.canSkipClock tick.2.dev, first.2⟩

def cpuemuRunBatch (f : FirstClock T) : List T.Obs × EmuState T :=
  cpuSupplyClocks T (cpuemuBatchBudget cfg f.state.clock f.minIntrInterval - 1) f.state

def emuIteration (s : EmuState T) : List T.Obs × EmuState T :=
  let f := firstClock T s
  let isHalt := T.isHalt f.state.cpu
  if cpuemuRunsBatch cfg isHalt then
    let batch := cpuemuRunBatch T cfg f
    (f.obs ++ batch.1,
      { batch.2 with
        clock := cpuemuNextClock cfg false f.canSkipClock f.minIntrInterval batch.2.clock })
  else
    (f.obs,
      { f.state with
        clock := cpuemuNextClock cfg isHalt f.canSkipClock f.minIntrInterval f.state.clock })

variable {T cfg}

theorem lt_nextEvent_deviceSupplyClock {s : EmuState T} {n : Nat}
    (h : T.nextEvent (deviceSupplyClock T s).2.dev = some n) : s.clock < n := by
  unfold deviceSupplyClock at h
  split at h
  · next m hm =>
    split_ifs at h with hdue
    · exact T.lt_nextEvent_fire n h
    · obtain rfl := Option.some.inj (hm.symm.trans h)
      exact Nat.not_le.1 hdue
  · next hnone =>
    rw [hnone] at h
    cases h

@[simp] theorem deviceSupplyClock_clock (s : EmuState T) :
    (deviceSupplyClock T s).2.clock = s.clock := by
  unfold deviceSupplyClock
  split
  · split_ifs <;> rfl
  · rfl

@[simp] theorem cpuSupplyClock_clock (s : EmuState T) : (cpuSupplyClock T s).2.clock = s.clock := by
  unfold cpuSupplyClock
  split_ifs <;> rfl

@[simp] theorem firstClock_clock (s : EmuState T) : (firstClock T s).state.clock = s.clock := by
  simp [firstClock]

theorem cpuSupplyClocks_clock (k : Nat) (s : EmuState T) :
    s.clock ≤ (cpuSupplyClocks T k s).2.clock ∧ (cpuSupplyClocks T k s).2.clock ≤ s.clock + k := by
  induction k generalizing s with
  | zero => exact ⟨Nat.le_refl _, Nat.le_refl _⟩
  | succ k ih =>
    have hnext : (cpuExecNext T s).2.clock = s.clock + 1 := rfl
    have := ih (cpuExecNext T s).2
    rw [cpuSupplyClocks]
    dsimp only
    split_ifs <;> dsimp only <;> omega

theorem firstClock_minIntrInterval_pos (s : EmuState T) : 0 < (firstClock T s).minIntrInterval := by
  unfold firstClock minIntrInterval
  dsimp only
  split
  · next n hn =>
    have := lt_nextEvent_deviceSupplyClock hn
    rw [deviceSupplyClock_clock]
    omega
  · decide

theorem lt_cpuemuNextClock {isHalt canSkip : Bool} {i : Nat} (hi : 0 < i) (clock : Nat) :
    clock < cpuemuNextClock cfg isHalt canSkip i clock := by
  unfold cpuemuNextClock
  split_ifs <;> omega

theorem emuIteration_of_batch {s : EmuState T}
    (h : cpuemuRunsBatch cfg (T.isHalt (firstClock T s).state.cpu) = true) :
    emuIteration T cfg s =
      ((firstClock T s).obs ++ (cpuemuRunBatch T cfg (firstClock T s)).1,
        { (cpuemuRunBatch T cfg (firstClock T s)).2 with
          clock := (cpuemuRunBatch T cfg (firstClock T s)).2.clock + 1 }) := by
  rw [emuIteration]
  dsimp only
  rw [if_pos h, cpuemuNextClock_false]

theorem emuIteration_of_not_batch {s : EmuState T}
    (h : cpuemuRunsBatch cfg (T.isHalt (firstClock T s).state.cpu) = false) :
    emuIteration T cfg s =
      ((firstClock T s).obs,
        { (firstClock T s).state with
          clock := cpuemuNextClock cfg (T.isHalt (firstClock T s).state.cpu)
            (firstClock T s).canSkipClock (firstClock T s).minIntrInterval s.clock }) := by
  rw [emuIteration]
  dsimp only
  rw [h, if_neg Bool.false_ne_true, firstClock_clock]

theorem cpuemuRunBatch_clock (cfg : CpuEmuConfig) (s : EmuState T) :
    s.clock ≤ (cpuemuRunBatch T cfg (firstClock T s)).2.clock ∧
      (cpuemuRunBatch T cfg (firstClock T s)).2.clock ≤
        s.clock + (cpuemuBatchBudget cfg s.clock (firstClock T s).minIntrInterval - 1) := by
  rw [cpuemuRunBatch, firstClock_clock]
  have := cpuSupplyClocks_clock (cpuemuBatchBudget cfg s.clock (firstClock T s).minIntrInterval - 1)
    (firstClock T s).state
  rwa [firstClock_clock] at this

theorem emuIteration_advances (s : EmuState T) : s.clock < (emuIteration T cfg s).2.clock := by
  cases h : cpuemuRunsBatch cfg (T.isHalt (firstClock T s).state.cpu) with
  | true =>
    rw [emuIteration_of_batch h]
    exact Nat.lt_succ_of_le (cpuemuRunBatch_clock cfg s).1
  | false =>
    rw [emuIteration_of_not_batch h]
    exact lt_cpuemuNextClock (firstClock_minIntrInterval_pos s) s.clock

variable (T cfg)

def emuLoop : ClockedLoop (EmuState T) T.Obs where
  iter := emuIteration T cfg
  clock := EmuState.clock
  stop := cfg.endClock
  advances s _ := emuIteration_advances s

end

end Athrill
