import Athrill.Hakoniwa.Stage

/-!
# The emulator never runs ahead of the world time

The clock stays at most the world time read last, in clocks, and every instruction is executed below it. Main
result: `hakoniwa_clock_within_world_time`.
-/

namespace Athrill

open Machine

/-! ## The stage -/

structure StageGate (cpuMhz : Nat) (h : HakoniwaState) (clock : Nat) : Prop where
  clock_le : clock ≤ h.worldTimeUsec * cpuMhz
  worldLimitClock_le : h.worldLimitClock ≤ h.worldTimeUsec * cpuMhz

def HakoEvent.worldTimeUsec (last : Nat) : HakoEvent → Nat
  | .start worldTime => worldTime
  | .reset _ => 0
  | _ => last

/-- The world times do not decrease between resets, and the limit fits 64 bits. -/
structure ConductorOk (cpuMhz last : Nat) (p : HakoniwaPass) : Prop where
  start_le : ∀ worldTime, p.event = .start worldTime → last ≤ worldTime
  worldTime_le : p.event.worldTimeUsec last ≤ p.worldTime
  limit_lt : p.worldTime * cpuMhz < 2 ^ 64

section
variable {cpuMhz clock i : Nat} {h : HakoniwaState}

theorem capSkipInterval_le {interval : Nat} (hne : capSkipInterval interval i ≠ deviceClockMaxInterval) :
    capSkipInterval interval i ≤ interval := by
  unfold capSkipInterval at hne ⊢
  split_ifs at hne ⊢ with hcap
  · exact Nat.le_refl _
  · exact Nat.not_lt.1 fun hlt => hcap ⟨hne, hlt⟩

theorem stageNotify_le (hg : StageGate cpuMhz h clock) {usec : Nat}
    (hn : (stageNotify cpuMhz h clock).2 = some usec) : usec ≤ h.worldTimeUsec := by
  unfold stageNotify at hn
  split_ifs at hn
  cases hn
  exact Nat.div_le_of_le_mul (Nat.mul_comm _ _ ▸ hg.clock_le)

theorem StageGate.notify (hg : StageGate cpuMhz h clock) :
    StageGate cpuMhz (stageNotify cpuMhz h clock).1 clock := by
  unfold stageNotify
  split_ifs
  · exact ⟨hg.clock_le, hg.worldLimitClock_le⟩
  · exact hg

theorem stageNotify_worldTimeUsec :
    (stageNotify cpuMhz h clock).1.worldTimeUsec = h.worldTimeUsec := by
  unfold stageNotify
  split_ifs <;> rfl

theorem StageGate.event (hg : StageGate cpuMhz h clock) {e : HakoEvent}
    (hstart : ∀ worldTime, e = .start worldTime → h.worldTimeUsec ≤ worldTime)
    {h' : HakoniwaState} {clock' : Nat} (he : stageEvent h clock e = some (h', clock')) :
    StageGate cpuMhz h' clock' ∧ h'.worldTimeUsec = e.worldTimeUsec h.worldTimeUsec := by
  cases e with
  | none | stop =>
    cases he
    exact ⟨⟨hg.clock_le, hg.worldLimitClock_le⟩, rfl⟩
  | start worldTime =>
    cases he
    have hle := Nat.mul_le_mul_right cpuMhz (hstart worldTime rfl)
    exact ⟨⟨hg.clock_le.trans hle, hg.worldLimitClock_le.trans hle⟩, rfl⟩
  | reset ok =>
    cases ok with
    | false => cases he
    | true =>
      cases he
      exact ⟨⟨Nat.zero_le _, Nat.zero_le _⟩, rfl⟩
  | error => cases he

theorem StageGate.ready (hg : StageGate cpuMhz h clock) (p : HakoniwaPass) :
    StageGate cpuMhz (stageReady cpuMhz h p) clock ∧
      (stageReady cpuMhz h p).worldTimeUsec = h.worldTimeUsec := by
  unfold stageReady
  split_ifs
  · exact ⟨⟨hg.clock_le, hg.worldLimitClock_le⟩, rfl⟩
  · exact ⟨hg, rfl⟩

theorem StageGate.read (hg : StageGate cpuMhz h clock) {worldTime : Nat}
    (hle : h.worldTimeUsec ≤ worldTime) (hlt : worldTime * cpuMhz < 2 ^ 64) :
    StageGate cpuMhz (stageRead cpuMhz h clock i worldTime).1 clock ∧
      ∀ i', (stageRead cpuMhz h clock i worldTime).2 = some i' →
        clock < (stageRead cpuMhz h clock i worldTime).1.worldTimeUsec * cpuMhz ∧
        (i' ≠ deviceClockMaxInterval →
          i' ≤ (stageRead cpuMhz h clock i worldTime).1.worldTimeUsec * cpuMhz - clock) := by
  have hu : u64 (worldTime * cpuMhz) = worldTime * cpuMhz := Nat.mod_eq_of_lt hlt
  have hmul := Nat.mul_le_mul_right cpuMhz hle
  unfold stageRead
  dsimp only
  rw [hu]
  split_ifs with hrun hclock
  · refine ⟨⟨hclock.le, Nat.le_refl _⟩, fun i' hi' => ?_⟩
    cases hi'
    exact ⟨hclock, capSkipInterval_le⟩
  · exact ⟨⟨hg.clock_le.trans hmul, hg.worldLimitClock_le.trans hmul⟩, fun i' hi' => by cases hi'⟩
  · exact ⟨hg, fun i' hi' => by cases hi'⟩

theorem StageGate.pass (hg : StageGate cpuMhz h clock) {p : HakoniwaPass}
    (hp : ConductorOk cpuMhz h.worldTimeUsec p) {r : StagePassResult}
    (hr : stagePass cpuMhz h clock i p = some r) :
    StageGate cpuMhz r.hako r.clock ∧
      (∀ i', r.returned = some i' → r.clock < r.hako.worldTimeUsec * cpuMhz ∧
        (i' ≠ deviceClockMaxInterval → i' ≤ r.hako.worldTimeUsec * cpuMhz - r.clock)) ∧
      ∀ usec, r.notified = some usec → usec ≤ h.worldTimeUsec := by
  obtain ⟨⟨h₁, clock₁⟩, hevent, rfl⟩ := Option.map_eq_some_iff.1 hr
  have hstart : ∀ worldTime, p.event = .start worldTime →
      (stageNotify cpuMhz h clock).1.worldTimeUsec ≤ worldTime := by
    rw [stageNotify_worldTimeUsec]
    exact hp.start_le
  obtain ⟨hg₁, hworld⟩ := hg.notify.event hstart hevent
  obtain ⟨hg₂, hworld₂⟩ := hg₁.ready p
  have hle : (stageReady cpuMhz h₁ p).worldTimeUsec ≤ p.worldTime := by
    rw [hworld₂, hworld, stageNotify_worldTimeUsec]
    exact hp.worldTime_le
  obtain ⟨hg₃, hret⟩ := hg₂.read hle hp.limit_lt
  exact ⟨hg₃, hret, fun usec => stageNotify_le hg⟩

end

/-! ## The main loop -/

def LoopState.limit (cfg : CpuEmuConfig) (s : LoopState) : Nat := s.hako.worldTimeUsec * cfg.cpuFreq

structure WorldGate (cfg : CpuEmuConfig) (s : LoopState) : Prop where
  stage : StageGate cfg.cpuFreq s.hako s.clock
  cpu : s.phase = .cpu → s.clock < s.limit cfg ∧
    (s.minIntrInterval ≠ deviceClockMaxInterval → s.minIntrInterval ≤ s.limit cfg - s.clock)

/-- A batch has a device event, which the stage has capped, or is short enough by itself. -/
def BatchGated (cfg : CpuEmuConfig) (s : LoopState) (isHalt : Bool) : Prop :=
  cpuemuRunsBatch cfg isHalt = true → s.minIntrInterval = deviceClockMaxInterval →
    min (cpuemuMaxBatchClocks cfg) (cfg.endClock - s.clock) ≤ s.limit cfg - s.clock

def StepGated (cfg : CpuEmuConfig) (s : LoopState) : LoopEvent → Prop
  | .tick _ _ => True
  | .pass p => ConductorOk cfg.cpuFreq s.hako.worldTimeUsec p
  | .cpu isHalt _ => BatchGated cfg s isHalt

/-- No instruction is executed at or after the limit, and no time reported is ahead of the world time. -/
structure StepSafe (cfg : CpuEmuConfig) (s s' : LoopState) (obs : List LoopObs) : Prop where
  execute_lt : ∀ clock, .execute clock ∈ obs → clock < s.limit cfg
  notify_le : ∀ usec, .notify usec ∈ obs → usec ≤ s.hako.worldTimeUsec
  clock_le : s'.clock ≤ s'.limit cfg

section
variable {cfg : CpuEmuConfig} {s s' : LoopState} {obs : List LoopObs}

theorem worldGate_init : WorldGate cfg .init :=
  ⟨⟨Nat.zero_le _, Nat.zero_le _⟩, fun h => by cases h⟩

theorem WorldGate.tick (hg : WorldGate cfg s) {i : Nat} {canSkip : Bool}
    (h : loopTick cfg s i canSkip = some (s', obs)) : WorldGate cfg s' ∧ StepSafe cfg s s' obs := by
  unfold loopTick at h
  split_ifs at h
  split at h
  · next i' hi' =>
    cases h
    unfold stageEnter at hi'
    split_ifs at hi' with hrun
    cases hi'
    have hclock : s.clock < s.limit cfg := hrun.2.trans_le hg.stage.worldLimitClock_le
    refine ⟨⟨hg.stage, fun _ => ⟨hclock, fun hne => ?_⟩⟩, by simp, by simp, hg.stage.clock_le⟩
    exact (capSkipInterval_le hne).trans
      (Nat.sub_le_sub_right hg.stage.worldLimitClock_le s.clock)
  · cases h
    exact ⟨⟨hg.stage, fun h => by cases h⟩, by simp, by simp, hg.stage.clock_le⟩

theorem WorldGate.pass (hg : WorldGate cfg s) {p : HakoniwaPass}
    (hp : ConductorOk cfg.cpuFreq s.hako.worldTimeUsec p)
    (h : loopPass cfg s p = some (s', obs)) : WorldGate cfg s' ∧ StepSafe cfg s s' obs := by
  obtain ⟨r, hr, heq⟩ := Option.map_eq_some_iff.1 h
  cases heq
  obtain ⟨hstage, hret, hnotify⟩ := hg.stage.pass hp hr
  refine ⟨⟨hstage, fun hphase => ?_⟩, by simp, fun usec husec => ?_, hstage.clock_le⟩
  · cases hi : r.returned with
    | none => simp [hi] at hphase
    | some i' => exact hret i' hi
  · simp only [List.mem_map, Option.mem_toList, LoopObs.notify.injEq, exists_eq_right] at husec
    exact hnotify usec husec

theorem cpuemuNextClock_le {isHalt canSkip : Bool} {i clock limit : Nat} (hclock : clock < limit)
    (hi : i ≠ deviceClockMaxInterval → i ≤ limit - clock) :
    cpuemuNextClock cfg isHalt canSkip i clock ≤ limit := by
  unfold cpuemuNextClock
  split_ifs with hskip
  · simp only [cpuemuSkips, Bool.and_eq_true, bne_iff_ne] at hskip
    have := hi hskip.2
    omega
  · omega

theorem cpuemuBatchBudget_le_iff (hg : WorldGate cfg s) (hphase : s.phase = .cpu) :
    cpuemuBatchBudget cfg s.clock s.minIntrInterval ≤ s.limit cfg - s.clock ↔
      (s.minIntrInterval = deviceClockMaxInterval →
        min (cpuemuMaxBatchClocks cfg) (cfg.endClock - s.clock) ≤ s.limit cfg - s.clock) := by
  have hmax : cpuemuMaxBatchClocks cfg ≤ deviceClockMaxInterval := by
    have := cpuemuMaxBatchClocks_le cfg
    have := cfg.targetBatchClocks_lt
    unfold deviceClockMaxInterval
    omega
  rw [cpuemuBatchBudget_eq]
  by_cases hnone : s.minIntrInterval = deviceClockMaxInterval
  · rw [hnone, Nat.min_eq_left hmax]
    exact ⟨fun h _ => h, fun h => h rfl⟩
  · have := (hg.cpu hphase).2 hnone
    exact ⟨fun _ h => absurd h hnone, fun _ => by omega⟩

theorem loopCpu_safe_iff (hg : WorldGate cfg s) (hphase : s.phase = .cpu) (isHalt : Bool) :
    (∀ executed s' obs, loopCpu cfg s isHalt executed = some (s', obs) → StepSafe cfg s s' obs) ↔
      BatchGated cfg s isHalt := by
  obtain ⟨hclock, hi⟩ := hg.cpu hphase
  unfold loopCpu BatchGated
  cases hbatch : cpuemuRunsBatch cfg isHalt with
  | false =>
    simp only [Bool.false_eq_true, if_false, false_implies, iff_true]
    intro executed s' obs h
    cases h
    exact ⟨by simp [hclock], by simp, cpuemuNextClock_le hclock hi⟩
  | true =>
    simp only [if_true, true_implies]
    rw [← cpuemuBatchBudget_le_iff hg hphase]
    constructor
    · intro hsafe
      -- the CPU may use the whole budget
      obtain ⟨hlt, -, -⟩ := hsafe (cpuemuBatchBudget cfg s.clock s.minIntrInterval - 1) _ _
        (if_pos (Nat.le_refl _))
      have := hlt (s.clock + (cpuemuBatchBudget cfg s.clock s.minIntrInterval - 1))
        (List.mem_map.2 ⟨_, List.mem_range.2 (Nat.lt_succ_self _), rfl⟩)
      omega
    · intro hbudget executed s' obs h
      split_ifs at h with hexec
      cases h
      refine ⟨fun clock hmem => ?_, by simp, ?_⟩
      · obtain ⟨i, hi', heq⟩ := List.mem_map.1 hmem
        obtain rfl := LoopObs.execute.inj heq
        have := List.mem_range.1 hi'
        omega
      · show cpuemuNextClock cfg false s.canSkipClock s.minIntrInterval (s.clock + executed) ≤
          s.limit cfg
        rw [cpuemuNextClock_false]
        omega

theorem loopCpu_hako {isHalt : Bool} {executed : Nat}
    (h : loopCpu cfg s isHalt executed = some (s', obs)) : s'.hako = s.hako ∧ s'.phase = .top := by
  unfold loopCpu at h
  split_ifs at h <;> obtain ⟨rfl, rfl⟩ := Prod.mk.inj (Option.some.inj h) <;> exact ⟨rfl, rfl⟩

theorem WorldGate.step (hg : WorldGate cfg s) {e : LoopEvent} (he : StepGated cfg s e)
    (h : loopStep cfg s e = some (s', obs)) : WorldGate cfg s' ∧ StepSafe cfg s s' obs := by
  unfold loopStep at h
  split at h
  · exact hg.tick h
  · exact hg.pass he h
  · next hphase =>
    have hsafe := (loopCpu_safe_iff hg hphase _).2 he _ _ _ h
    obtain ⟨hhako, htop⟩ := loopCpu_hako h
    refine ⟨⟨⟨hsafe.clock_le, ?_⟩, fun hp => by rw [htop] at hp; cases hp⟩, hsafe⟩
    rw [hhako]
    exact hg.stage.worldLimitClock_le
  · cases h

end

/-- **The emulator never runs ahead of the world time.** In every run of the main loop in Hakoniwa
mode whose batches are gated, the clock is at most the world time read last, and every next step that
meets the condition executes instructions below it and reports times up to it only. The condition is
exact: before the CPU runs, it holds if and only if no behaviour of the CPU exceeds the world time. -/
theorem hakoniwa_clock_within_world_time {cfg : CpuEmuConfig} {events : List LoopEvent}
    {s : LoopState} {obs : List (List LoopObs)}
    (hrun : run (loopStep cfg) .init events = some (s, obs))
    (hmeet : StepsMeet (loopStep cfg) (StepGated cfg) .init events) :
    s.clock ≤ s.limit cfg ∧
      (∀ e s' obs', StepGated cfg s e → loopStep cfg s e = some (s', obs') →
        StepSafe cfg s s' obs') ∧
      ∀ isHalt, s.phase = .cpu →
        ((∀ executed s' obs', loopStep cfg s (.cpu isHalt executed) = some (s', obs') →
          StepSafe cfg s s' obs') ↔ BatchGated cfg s isHalt) := by
  have hg : WorldGate cfg s := run_invariant_of_stepsMeet (WorldGate cfg)
    (fun _ _ _ _ hg he h => (hg.step he h).1) events worldGate_init hmeet hrun
  refine ⟨hg.stage.clock_le, fun e s' obs' he h => (hg.step he h).2, fun isHalt hphase => ?_⟩
  rw [← loopCpu_safe_iff hg hphase]
  simp only [loopStep, hphase]

def startPass : HakoniwaPass := ⟨.start 0, true, true, false, 10⟩

theorem conductorOk_startPass : ConductorOk 1 0 startPass :=
  ⟨fun _ _ => Nat.zero_le _, by decide, by decide⟩

theorem hakoniwa_clock_within_world_time_batch : ∃ s obs,
    run (loopStep batchConfig) .init [.tick 5 true, .pass startPass, .cpu false 4] = some (s, obs) ∧
      s.clock = 5 ∧ s.clock ≤ s.limit batchConfig := by
  have htick : loopStep batchConfig .init (.tick 5 true) =
      some (⟨.stage, 0, 5, true, .init⟩, []) := rfl
  have hpass : loopStep batchConfig ⟨.stage, 0, 5, true, .init⟩ (.pass startPass) =
      some (⟨.cpu, 0, 5, true, ⟨true, true, 10, 10, neverNotified⟩⟩, []) := rfl
  have hmeet : StepsMeet (loopStep batchConfig) (StepGated batchConfig) .init
      [.tick 5 true, .pass startPass, .cpu false 4] :=
    (stepsMeet_cons htick).2 ⟨trivial, (stepsMeet_cons hpass).2
      ⟨conductorOk_startPass, fun _ h => absurd h (by decide), fun _ _ _ => trivial⟩⟩
  have hrun : run (loopStep batchConfig) .init [.tick 5 true, .pass startPass, .cpu false 4] =
      some (⟨.top, 5, 5, true, ⟨true, true, 10, 10, neverNotified⟩⟩,
        [[], [], [.execute 0, .execute 1, .execute 2, .execute 3, .execute 4]]) := rfl
  exact ⟨_, _, hrun, rfl, (hakoniwa_clock_within_world_time hrun hmeet).1⟩

/-- Without a device event the same batch runs for 64 clocks, past the world time 10. -/
theorem hakoniwa_batch_ahead_of_world_time :
    ConductorOk batchConfig.cpuFreq LoopState.init.hako.worldTimeUsec startPass ∧
      (run (loopStep batchConfig) .init
          [.tick deviceClockMaxInterval true, .pass startPass, .cpu false 63]).map
        (fun r => (r.1.clock, r.1.limit batchConfig, r.2.flatten.contains (.execute 10))) =
      some (64, 10, true) :=
  ⟨conductorOk_startPass, by decide⟩

end Athrill
