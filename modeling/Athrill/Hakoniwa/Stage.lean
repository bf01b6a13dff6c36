import Athrill.Lib.Run
import Athrill.Main.CpuEmu

/-!
# Athrill as a Hakoniwa asset (`hakoniwa/athrill_hakoniwa.cpp`)

In Hakoniwa mode the main loop calls `athrill_hakoniwa_stage` between the tick of the devices and the CPU.
The stage lets the CPU run while the clock is below the world time read last, and otherwise waits, polling
the conductor, until the world time has advanced.
-/

namespace Athrill

/-! ## The stage -/

def neverNotified : Nat := 2 ^ 64 - 1

structure HakoniwaState where
  running : Bool
  ready : Bool
  worldTimeUsec : Nat
  worldLimitClock : Nat
  lastNotifiedUsec : Nat
  deriving DecidableEq

def HakoniwaState.init : HakoniwaState := ⟨false, false, 0, 0, neverNotified⟩

inductive HakoEvent
  | none
  | start (worldTime : Nat)
  | stop
  | reset (ok : Bool)
  | error
  deriving DecidableEq

structure HakoniwaPass where
  event : HakoEvent
  isSimulationMode : Bool
  isPduCreated : Bool
  isPduSyncMode : Bool
  worldTime : Nat
  deriving DecidableEq

def handleEvent (h : HakoniwaState) : HakoEvent → Option (HakoniwaState × Bool)
  | .none => some (h, false)
  | .start worldTime =>
    some ({ h with worldTimeUsec := worldTime, running := true, ready := false }, false)
  | .stop => some ({ h with running := false, ready := false }, false)
  | .reset true => some ({ h with running := false, ready := false, worldTimeUsec := 0 }, true)
  | .reset false => none
  | .error => none

def capSkipInterval (interval minIntrInterval : Nat) : Nat :=
  if minIntrInterval ≠ deviceClockMaxInterval ∧ interval < minIntrInterval then interval
  else minIntrInterval

def stageEnter (h : HakoniwaState) (clock minIntrInterval : Nat) : Option Nat :=
  if h.running ∧ clock < h.worldLimitClock then
    some (capSkipInterval (h.worldLimitClock - clock) minIntrInterval)
  else none

def stageNotify (cpuMhz : Nat) (h : HakoniwaState) (clock : Nat) : HakoniwaState × Option Nat :=
  if h.running ∧ cpuMhz ≠ 0 ∧ clock / cpuMhz ≠ h.lastNotifiedUsec then
    ({ h with lastNotifiedUsec := clock / cpuMhz }, some (clock / cpuMhz))
  else (h, none)

def stageReady (cpuMhz : Nat) (h : HakoniwaState) (p : HakoniwaPass) : HakoniwaState :=
  if h.running ∧ cpuMhz ≠ 0 ∧ !h.ready ∧ p.isSimulationMode ∧ p.isPduCreated ∧ !p.isPduSyncMode then
    { h with ready := true }
  else h

def stageEvent (h : HakoniwaState) (clock : Nat) (e : HakoEvent) : Option (HakoniwaState × Nat) :=
  match handleEvent h e with
  | none => none
  | some (h, true) => some ({ h with worldLimitClock := 0, lastNotifiedUsec := neverNotified }, 0)
  | some (h, false) => some (h, clock)

def stageRead (cpuMhz : Nat) (h : HakoniwaState) (clock minIntrInterval worldTime : Nat) :
    HakoniwaState × Option Nat :=
  if h.running ∧ cpuMhz ≠ 0 ∧ h.ready then
    let limit := u64 (worldTime * cpuMhz)
    if clock < limit then
      ({ h with worldTimeUsec := worldTime, worldLimitClock := limit },
        some (capSkipInterval (limit - clock) minIntrInterval))
    else ({ h with worldTimeUsec := worldTime }, none)
  else (h, none)

structure StagePassResult where
  hako : HakoniwaState
  clock : Nat
  returned : Option Nat
  notified : Option Nat
  /-- The checks for `ready` passed in this round. -/
  passed : Bool

def stagePass (cpuMhz : Nat) (h : HakoniwaState) (clock minIntrInterval : Nat) (p : HakoniwaPass) :
    Option StagePassResult :=
  let notified := stageNotify cpuMhz h clock
  (stageEvent notified.1 clock p.event).map fun (h, clock) =>
    let checked := stageReady cpuMhz h p
    let read := stageRead cpuMhz checked clock minIntrInterval p.worldTime
    ⟨read.1, clock, read.2, notified.2, checked.ready && !h.ready⟩

/-! ## The main loop -/

inductive LoopPhase
  | top
  | stage
  | cpu
  deriving DecidableEq

/-- The main loop with the stage between two of its steps. -/
structure LoopState where
  phase : LoopPhase
  clock : Nat
  minIntrInterval : Nat
  canSkipClock : Bool
  hako : HakoniwaState
  deriving DecidableEq

def LoopState.init : LoopState := ⟨.top, 0, 0, false, .init⟩

/-- A tick of the devices, a pass of the waiting loop, or a run of the CPU. -/
inductive LoopEvent
  | tick (minIntrInterval : Nat) (canSkipClock : Bool)
  | pass (p : HakoniwaPass)
  | cpu (isHalt : Bool) (executed : Nat)
  deriving DecidableEq

/-- What the conductor is told, and the clocks in which instructions are executed. -/
inductive LoopObs
  | notify (usec : Nat)
  | execute (clock : Nat)
  deriving DecidableEq

def loopTick (cfg : CpuEmuConfig) (s : LoopState) (minIntrInterval : Nat) (canSkipClock : Bool) :
    Option (LoopState × List LoopObs) :=
  if cfg.endClock ≤ s.clock then none
  else
    match stageEnter s.hako s.clock minIntrInterval with
    | some interval =>
      some ({ s with phase := .cpu, minIntrInterval := interval, canSkipClock := canSkipClock }, [])
    | none =>
      some ({ s with phase := .stage, minIntrInterval := minIntrInterval,
                     canSkipClock := canSkipClock }, [])

def loopPass (cfg : CpuEmuConfig) (s : LoopState) (p : HakoniwaPass) :
    Option (LoopState × List LoopObs) :=
  (stagePass cfg.cpuFreq s.hako s.clock s.minIntrInterval p).map fun r =>
    (⟨if r.returned.isSome then .cpu else .stage, r.clock, r.returned.getD s.minIntrInterval,
        s.canSkipClock, r.hako⟩,
      r.notified.toList.map .notify)

def loopCpu (cfg : CpuEmuConfig) (s : LoopState) (isHalt : Bool) (executed : Nat) :
    Option (LoopState × List LoopObs) :=
  if cpuemuRunsBatch cfg isHalt then
    if executed ≤ cpuemuBatchBudget cfg s.clock s.minIntrInterval - 1 then
      some ({ s with
          phase := .top
          clock := cpuemuNextClock cfg false s.canSkipClock s.minIntrInterval (s.clock + executed) },
        (List.range (executed + 1)).map fun i => .execute (s.clock + i))
    else none
  else
    some ({ s with
        phase := .top
        clock := cpuemuNextClock cfg isHalt s.canSkipClock s.minIntrInterval s.clock },
      [.execute s.clock])

def loopStep (cfg : CpuEmuConfig) (s : LoopState) (e : LoopEvent) :
    Option (LoopState × List LoopObs) :=
  match s.phase, e with
  | .top, .tick minIntrInterval canSkipClock => loopTick cfg s minIntrInterval canSkipClock
  | .stage, .pass p => loopPass cfg s p
  | .cpu, .cpu isHalt executed => loopCpu cfg s isHalt executed
  | _, _ => none

end Athrill
