import Athrill.StdTypes

/-!
# The clock of the main loop (`main/cpuemu.cpp`)

`cpuemu_thread_run` ticks the devices, runs the CPU and advances the clock, until the clock reaches the end
clock.
-/

namespace Athrill

def deviceClockMaxInterval : Nat := 2 ^ 64 - 1

/-- What `cpuemu_thread_run` knows before its loop. -/
structure CpuEmuConfig where
  coreIdNum : Nat
  cuiMode : Bool
  targetBatchClocks : Nat
  targetBatchClocks_lt : targetBatchClocks < 2 ^ 32
  debugFuncMaxBatchClocks : Option Nat
  enableSkip : Bool
  cpuFreq : Nat
  endClock : Nat

def cpuemuMaxBatchClocks (cfg : CpuEmuConfig) : Nat :=
  let n := cfg.debugFuncMaxBatchClocks.getD cfg.targetBatchClocks
  if n = 0 ∨ cfg.targetBatchClocks < n then cfg.targetBatchClocks else n

theorem cpuemuMaxBatchClocks_le (cfg : CpuEmuConfig) :
    cpuemuMaxBatchClocks cfg ≤ cfg.targetBatchClocks := by
  unfold cpuemuMaxBatchClocks
  dsimp only
  split_ifs with h
  · exact Nat.le_refl _
  · exact Nat.not_lt.1 fun hlt => h (.inr hlt)

theorem cpuemuMaxBatchClocks_le_param {cfg : CpuEmuConfig} {n : Nat}
    (h : cfg.debugFuncMaxBatchClocks = some n) (hn : 0 < n) : cpuemuMaxBatchClocks cfg ≤ n := by
  rw [cpuemuMaxBatchClocks, h, Option.getD_some]
  split_ifs with hcap <;> omega

def cpuemuRunsBatch (cfg : CpuEmuConfig) (isHalt : Bool) : Bool :=
  !cfg.cuiMode && !isHalt && cfg.coreIdNum == 1 && decide (1 < cpuemuMaxBatchClocks cfg)

def cpuemuBatchBudget (cfg : CpuEmuConfig) (clock minIntrInterval : Nat) : Nat :=
  let budget := cpuemuMaxBatchClocks cfg
  let budget := if minIntrInterval < budget then minIntrInterval else budget
  if cfg.endClock - clock < budget then cfg.endClock - clock else budget

theorem cpuemuBatchBudget_eq (cfg : CpuEmuConfig) (clock minIntrInterval : Nat) :
    cpuemuBatchBudget cfg clock minIntrInterval =
      min (min (cpuemuMaxBatchClocks cfg) minIntrInterval) (cfg.endClock - clock) := by
  unfold cpuemuBatchBudget
  dsimp only
  split_ifs <;> omega

def cpuemuSkips (cfg : CpuEmuConfig) (isHalt canSkipClock : Bool) (minIntrInterval : Nat) : Bool :=
  cfg.enableSkip && isHalt && canSkipClock && minIntrInterval != deviceClockMaxInterval

def cpuemuNextClock (cfg : CpuEmuConfig) (isHalt canSkipClock : Bool) (minIntrInterval clock : Nat) :
    Nat :=
  if cpuemuSkips cfg isHalt canSkipClock minIntrInterval then clock + minIntrInterval else clock + 1

@[simp] theorem cpuemuNextClock_false (cfg : CpuEmuConfig) (canSkipClock : Bool)
    (minIntrInterval clock : Nat) :
    cpuemuNextClock cfg false canSkipClock minIntrInterval clock = clock + 1 := by
  simp [cpuemuNextClock, cpuemuSkips]

def batchConfig : CpuEmuConfig where
  coreIdNum := 1
  cuiMode := false
  targetBatchClocks := 64
  targetBatchClocks_lt := by decide
  debugFuncMaxBatchClocks := none
  enableSkip := true
  cpuFreq := 1
  endClock := 1000

end Athrill
