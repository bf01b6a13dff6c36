import Athrill.Hakoniwa.Stage

/-!
# The end clock of the main loop (`cpuemu_thread_run`)

In background mode the loop runs until the clock reaches the end clock. Main result:
`cpuemu_thread_run_end_clock`.
-/

namespace Athrill

open Machine

def plainTick (cfg : CpuEmuConfig) (s : LoopState) (minIntrInterval : Nat) (canSkipClock : Bool) :
    Option (LoopState × List LoopObs) :=
  if cfg.endClock ≤ s.clock then none
  else
    some ({ s with phase := .cpu, minIntrInterval := minIntrInterval, canSkipClock := canSkipClock }, [])

def backgroundStep (cfg : CpuEmuConfig) (asset : Bool) (s : LoopState) (e : LoopEvent) :
    Option (LoopState × List LoopObs) :=
  if asset then loopStep cfg s e
  else
    match s.phase, e with
    | .top, .tick minIntrInterval canSkipClock => plainTick cfg s minIntrInterval canSkipClock
    | .cpu, .cpu isHalt executed => loopCpu cfg s isHalt executed
    | _, _ => none

def LoopEvent.Assumed : LoopEvent → Prop
  | .tick minIntrInterval _ => 1 ≤ minIntrInterval
  | .pass p => ∀ ok, p.event ≠ .reset ok
  | .cpu _ _ => True

def LoopEvent.isTick : LoopEvent → Bool
  | .tick _ _ => true
  | _ => false

structure BelowEnd (cfg : CpuEmuConfig) (asset : Bool) (s : LoopState) : Prop where
  clock_lt : s.phase ≠ .top → s.clock < cfg.endClock
  interval_pos : s.phase ≠ .top → 1 ≤ s.minIntrInterval
  no_stage : asset = false → s.phase ≠ .stage

def LoopState.position (s : LoopState) : Nat := s.clock + if s.phase = .top then 0 else 1

section
variable {cfg : CpuEmuConfig} {asset : Bool} {s s' : LoopState} {obs : List LoopObs} {e : LoopEvent}

theorem one_le_capSkipInterval {interval i : Nat} (h : 1 ≤ interval) (hi : 1 ≤ i) :
    1 ≤ capSkipInterval interval i := by
  unfold capSkipInterval
  split_ifs <;> assumption

theorem stagePass_without_reset {cpuMhz clock i : Nat} {h : HakoniwaState} {p : HakoniwaPass}
    {r : StagePassResult} (hreset : ∀ ok, p.event ≠ .reset ok) (hr : stagePass cpuMhz h clock i p = some r) :
    r.clock = clock ∧ ∀ i', r.returned = some i' → 1 ≤ i → 1 ≤ i' := by
  obtain ⟨⟨h₁, clock₁⟩, hevent, rfl⟩ := Option.map_eq_some_iff.1 hr
  have hclock : clock₁ = clock := by
    unfold stageEvent at hevent
    cases he : p.event with
    | reset ok => exact absurd he (hreset ok)
    | error =>
      rw [he] at hevent
      cases hevent
    | none | start worldTime | stop =>
      rw [he] at hevent
      exact (Prod.mk.inj (Option.some.inj hevent)).2.symm
  refine ⟨hclock, fun i' hi' hi => ?_⟩
  simp only [stageRead] at hi'
  split_ifs at hi' with hready hlimit
  cases hi'
  exact one_le_capSkipInterval (by omega) hi

theorem loopCpu_below {isHalt : Bool} {executed : Nat} (hclock : s.clock < cfg.endClock)
    (hinterval : 1 ≤ s.minIntrInterval) (h : loopCpu cfg s isHalt executed = some (s', obs)) :
    s'.phase = .top ∧ s.clock < s'.clock ∧ ∀ clock, .execute clock ∈ obs → clock < cfg.endClock := by
  unfold loopCpu at h
  by_cases hbatch : cpuemuRunsBatch cfg isHalt = true
  · rw [if_pos hbatch] at h
    by_cases hbudget : executed ≤ cpuemuBatchBudget cfg s.clock s.minIntrInterval - 1
    · rw [if_pos hbudget] at h
      cases h
      refine ⟨rfl, ?_, fun clock hmem => ?_⟩
      · rw [cpuemuNextClock_false]
        dsimp only
        omega
      · -- the last instruction of the batch is one before the budget is used up
        obtain ⟨i, hi, heq⟩ := List.mem_map.1 hmem
        obtain rfl := LoopObs.execute.inj heq
        have hlast := List.mem_range.1 hi
        rw [cpuemuBatchBudget_eq] at hbudget
        omega
    · rw [if_neg hbudget] at h
      cases h
  · rw [if_neg hbatch] at h
    cases h
    refine ⟨rfl, ?_, fun clock hmem => ?_⟩
    · unfold cpuemuNextClock
      dsimp only
      split_ifs <;> omega
    · obtain rfl := LoopObs.execute.inj (List.mem_singleton.1 hmem)
      exact hclock

theorem tick_below {i : Nat} {canSkip : Bool} (hi : 1 ≤ i)
    (h : backgroundStep cfg asset s (.tick i canSkip) = some (s', obs)) :
    s.phase = .top ∧ s.clock < cfg.endClock ∧ s'.clock = s.clock ∧ s'.phase ≠ .top ∧
      1 ≤ s'.minIntrInterval ∧ (asset = false → s'.phase ≠ .stage) ∧ obs = [] := by
  obtain ⟨phase, clock, interval, skip, hako⟩ := s
  cases phase with
  | stage | cpu => cases asset <;> cases h
  | top =>
    cases asset with
    | false =>
      simp only [backgroundStep, plainTick, Bool.false_eq_true, if_false] at h
      split_ifs at h with hend
      cases h
      exact ⟨rfl, Nat.not_le.1 hend, rfl, by simp, hi, by simp, rfl⟩
    | true =>
      simp only [backgroundStep, loopStep, loopTick, if_true] at h
      by_cases hend : cfg.endClock ≤ clock
      · rw [if_pos hend] at h
        cases h
      · rw [if_neg hend] at h
        rcases henter : stageEnter hako clock i with _ | i'
        · simp only [henter] at h
          cases h
          exact ⟨rfl, Nat.not_le.1 hend, rfl, by simp, hi, by simp, rfl⟩
        · simp only [henter] at h
          cases h
          unfold stageEnter at henter
          split_ifs at henter with hrun
          cases henter
          exact ⟨rfl, Nat.not_le.1 hend, rfl, by simp, one_le_capSkipInterval (by omega) hi, by simp, rfl⟩

theorem pass_below {p : HakoniwaPass} (hreset : ∀ ok, p.event ≠ .reset ok)
    (h : backgroundStep cfg asset s (.pass p) = some (s', obs)) :
    s.phase = .stage ∧ asset = true ∧ s'.clock = s.clock ∧ s'.phase ≠ .top ∧
      (1 ≤ s.minIntrInterval → 1 ≤ s'.minIntrInterval) ∧ ∀ clock, .execute clock ∉ obs := by
  obtain ⟨phase, clock, interval, skip, hako⟩ := s
  cases asset with
  | false => cases phase <;> cases h
  | true =>
    cases phase with
    | top | cpu => cases h
    | stage =>
      simp only [backgroundStep, loopStep, if_true] at h
      obtain ⟨r, hr, heq⟩ := Option.map_eq_some_iff.1 h
      cases heq
      obtain ⟨hclock, hinterval⟩ := stagePass_without_reset hreset hr
      refine ⟨rfl, rfl, hclock, ?_, fun hi => ?_, by simp⟩
      · dsimp only
        split_ifs <;> simp
      · cases hret : r.returned with
        | none => exact hi
        | some i' => exact hinterval i' hret hi

theorem cpu_phase {isHalt : Bool} {executed : Nat}
    (h : backgroundStep cfg asset s (.cpu isHalt executed) = some (s', obs)) :
    s.phase = .cpu ∧ loopCpu cfg s isHalt executed = some (s', obs) := by
  obtain ⟨phase, clock, interval, skip, hako⟩ := s
  cases asset <;> cases phase <;> first | cases h | exact ⟨rfl, h⟩

theorem BelowEnd.step (hb : BelowEnd cfg asset s) (he : e.Assumed)
    (h : backgroundStep cfg asset s e = some (s', obs)) :
    BelowEnd cfg asset s' ∧ (∀ clock, .execute clock ∈ obs → clock < cfg.endClock) ∧
      s.position + (if e.isTick then 1 else 0) ≤ s'.position ∧
      (e.isTick = true → s.position < cfg.endClock) := by
  cases e with
  | tick i canSkip =>
    obtain ⟨htop, hlt, hclock, hphase, hi, hstage, rfl⟩ := tick_below he h
    refine ⟨⟨fun _ => by rwa [hclock], fun _ => hi, hstage⟩, by simp, ?_, fun _ => ?_⟩
    · simp [LoopState.position, htop, hphase, hclock, LoopEvent.isTick]
    · simpa [LoopState.position, htop] using hlt
  | pass p =>
    obtain ⟨hphase, hasset, hclock, hphase', hi, hnone⟩ := pass_below he h
    have hne : s.phase ≠ .top := by
      rw [hphase]
      decide
    refine ⟨⟨fun _ => hclock ▸ hb.clock_lt hne, fun _ => hi (hb.interval_pos hne),
      fun hfalse => absurd (hasset.symm.trans hfalse) (by decide)⟩,
      fun clock hmem => absurd hmem (hnone clock), ?_, fun htick => by cases htick⟩
    simp [LoopState.position, hne, hphase', hclock, LoopEvent.isTick]
  | cpu isHalt executed =>
    obtain ⟨hphase, hcpu⟩ := cpu_phase h
    have hne : s.phase ≠ .top := by
      rw [hphase]
      decide
    obtain ⟨htop, hlt, hexec⟩ := loopCpu_below (hb.clock_lt hne) (hb.interval_pos hne) hcpu
    refine ⟨⟨fun hn => absurd htop hn, fun hn => absurd htop hn, fun _ => by rw [htop]; decide⟩,
      hexec, ?_, fun htick => by cases htick⟩
    simp [LoopState.position, hne, htop, LoopEvent.isTick]
    omega

theorem BelowEnd.run {events : List LoopEvent} {os : List (List LoopObs)} (hb : BelowEnd cfg asset s)
    (he : ∀ e ∈ events, e.Assumed) (h : run (backgroundStep cfg asset) s events = some (s', os)) :
    BelowEnd cfg asset s' ∧ (∀ obs ∈ os, ∀ clock, .execute clock ∈ obs → clock < cfg.endClock) ∧
      s.position + events.countP LoopEvent.isTick ≤ s'.position ∧
      events.countP LoopEvent.isTick ≤ cfg.endClock - s.position := by
  induction events generalizing s os with
  | nil =>
    cases h
    exact ⟨hb, by simp, by simp, by simp⟩
  | cons e events ih =>
    obtain ⟨s₁, o, os', hs, hr, rfl⟩ := run_cons_eq_some.1 h
    obtain ⟨hb₁, hexec, hpos, hlt⟩ := hb.step (he e (.head _)) hs
    obtain ⟨hb', hexec', hpos', hcount⟩ := ih hb₁ (fun e' he' => he e' (.tail _ he')) hr
    refine ⟨hb', List.forall_mem_cons.2 ⟨hexec, hexec'⟩, ?_, ?_⟩
    · rw [List.countP_cons]
      omega
    · rw [List.countP_cons]
      cases htick : e.isTick with
      | true =>
        have hend := hlt htick
        rw [htick, if_pos rfl] at hpos
        rw [if_pos rfl]
        omega
      | false =>
        rw [htick, if_neg Bool.false_ne_true] at hpos
        rw [if_neg Bool.false_ne_true]
        omega

theorem isTick_of_top (htop : s.phase = .top) (h : backgroundStep cfg asset s e = some (s', obs)) :
    e.isTick = true := by
  obtain ⟨phase, clock, interval, skip, hako⟩ := s
  cases htop
  cases e with
  | tick i canSkip => rfl
  | pass p => cases asset <;> cases h
  | cpu isHalt executed => cases asset <;> cases h

theorem stopped_iff (hb : BelowEnd cfg asset s) :
    (∀ e : LoopEvent, e.Assumed → backgroundStep cfg asset s e = none) ↔
      s.phase = .top ∧ cfg.endClock ≤ s.clock := by
  constructor
  · intro hnone
    obtain ⟨phase, clock, interval, skip, hako⟩ := s
    cases phase with
    | top =>
      refine ⟨rfl, not_lt.1 fun hlt => ?_⟩
      have htick := hnone (.tick 1 false) (Nat.le_refl 1)
      cases asset with
      | false => simp [backgroundStep, plainTick, Nat.not_le.2 hlt] at htick
      | true =>
        simp only [backgroundStep, loopStep, loopTick, if_true, if_neg (Nat.not_le.2 hlt)] at htick
        cases henter : stageEnter hako clock 1 <;> rw [henter] at htick <;> cases htick
    | stage =>
      -- Hakoniwa may always answer that there is no event
      cases asset with
      | false => exact absurd rfl (hb.no_stage rfl)
      | true => cases hnone (.pass ⟨.none, false, false, false, 0⟩) (by intro ok; simp)
    | cpu =>
      have hcpu : backgroundStep cfg asset ⟨.cpu, clock, interval, skip, hako⟩ (.cpu false 0) =
          loopCpu cfg ⟨.cpu, clock, interval, skip, hako⟩ false 0 := by
        cases asset <;> rfl
      have hnone' := hcpu.symm.trans (hnone (.cpu false 0) trivial)
      simp only [loopCpu, Nat.zero_le, if_true] at hnone'
      split_ifs at hnone'
  · rintro ⟨htop, hend⟩ e he
    rcases h : backgroundStep cfg asset s e with _ | ⟨s', obs⟩
    · rfl
    · cases e with
      | tick i canSkip => exact absurd (tick_below he h).2.1 (Nat.not_lt.2 hend)
      | pass p | cpu isHalt executed => cases isTick_of_top htop h

end

/-- **The loop stops at the end clock.** In every run of the main loop whose ticks leave an interval and
that Hakoniwa does not reset, no instruction is executed at the end clock or after it, and every iteration
moves the clock forward. So there are at most as many iterations as clocks up to the end, and the loop
goes on until it has reached it. -/
theorem cpuemu_thread_run_end_clock {cfg : CpuEmuConfig} {asset : Bool} {events : List LoopEvent}
    {s : LoopState} {os : List (List LoopObs)} (he : ∀ e ∈ events, e.Assumed)
    (h : run (backgroundStep cfg asset) .init events = some (s, os)) :
    (∀ obs ∈ os, ∀ clock, .execute clock ∈ obs → clock < cfg.endClock) ∧
      (s.phase = .top → ∀ iteration s' os', iteration ≠ [] → (∀ e ∈ iteration, e.Assumed) →
        run (backgroundStep cfg asset) s iteration = some (s', os') → s'.phase = .top →
        s.clock < s'.clock) ∧
      events.countP LoopEvent.isTick ≤ cfg.endClock ∧
      ((∀ e : LoopEvent, e.Assumed → backgroundStep cfg asset s e = none) ↔
        s.phase = .top ∧ cfg.endClock ≤ s.clock) := by
  have hinit : BelowEnd cfg asset .init :=
    ⟨fun hn => absurd rfl hn, fun hn => absurd rfl hn, fun _ => by decide⟩
  obtain ⟨hb, hexec, -, hcount⟩ := hinit.run he h
  refine ⟨hexec, fun htop iteration s' os' hne he' hrun htop' => ?_, hcount, stopped_iff hb⟩
  obtain ⟨-, -, hpos, -⟩ := hb.run he' hrun
  cases iteration with
  | nil => exact absurd rfl hne
  | cons e iteration =>
    obtain ⟨s₁, o, os₁, hs, -, -⟩ := run_cons_eq_some.1 hrun
    rw [List.countP_cons, if_pos (isTick_of_top htop hs)] at hpos
    simp only [LoopState.position, htop, htop', if_true] at hpos
    omega

theorem cpuemu_thread_run_end_clock_batch : ∃ s os,
    run (backgroundStep batchConfig false) .init [.tick 5 true, .cpu false 4] = some (s, os) ∧
      s.clock = 5 ∧ ∀ obs ∈ os, ∀ clock, LoopObs.execute clock ∈ obs → clock < batchConfig.endClock := by
  have hassumed : ∀ e ∈ [LoopEvent.tick 5 true, .cpu false 4], e.Assumed := by
    simp [LoopEvent.Assumed]
  have hrun : run (backgroundStep batchConfig false) .init [.tick 5 true, .cpu false 4] =
      some (⟨.top, 5, 5, true, .init⟩,
        [[], [.execute 0, .execute 1, .execute 2, .execute 3, .execute 4]]) := rfl
  exact ⟨_, _, hrun, rfl, (cpuemu_thread_run_end_clock hassumed hrun).1⟩

end Athrill
