import Athrill.Hakoniwa.Stage
import Athrill.Lib.History

/-!
# Calls of the stage (`athrill_hakoniwa_stage`)

What the conductor sees of an asset over many calls of the stage: the asset times reported, and when the
stage lets the CPU run. Main result: `hakoniwa_stage_reports`.
-/

namespace Athrill

open Machine History

/-! ## The calls -/

inductive StageObs
  | call (clock : Nat)
  | notify (usec : Nat)
  | start
  | stop
  | reset
  | passed
  | returned
  deriving DecidableEq

def HakoEvent.obs : HakoEvent → List StageObs
  | .start _ => [.start]
  | .stop => [.stop]
  | .reset _ => [.reset]
  | _ => []

/-- The variables of the stage, the parameters of the last call, and whether it is still going on. -/
structure StageCalls where
  hako : HakoniwaState
  clock : Nat
  calling : Bool
  minIntrInterval : Nat

def StageCalls.init : StageCalls := ⟨.init, 0, false, 0⟩

inductive StageCallEvent
  | call (clock minIntrInterval : Nat)
  | pass (p : HakoniwaPass)

def stageCall (s : StageCalls) (clock minIntrInterval : Nat) : StageCalls × List StageObs :=
  match stageEnter s.hako clock minIntrInterval with
  | some interval => (⟨s.hako, clock, false, interval⟩, [.call clock, .returned])
  | none => (⟨s.hako, clock, true, minIntrInterval⟩, [.call clock])

def stageCallPass (cpuMhz : Nat) (s : StageCalls) (p : HakoniwaPass) :
    Option (StageCalls × List StageObs) :=
  (stagePass cpuMhz s.hako s.clock s.minIntrInterval p).map fun r =>
    (⟨r.hako, r.clock, r.returned.isNone, r.returned.getD s.minIntrInterval⟩,
      r.notified.toList.map .notify ++ p.event.obs ++ (if r.passed then [.passed] else []) ++
        if r.returned.isSome then [.returned] else [])

def stageCallStep (cpuMhz : Nat) (s : StageCalls) : StageCallEvent → Option (StageCalls × List StageObs)
  | .call clock minIntrInterval => if s.calling then none else some (stageCall s clock minIntrInterval)
  | .pass p => if s.calling then stageCallPass cpuMhz s p else none

def ClockKept (s : StageCalls) : StageCallEvent → Prop
  | .call clock _ => s.clock ≤ clock
  | .pass _ => True

instance ClockKept.instDecidable (s : StageCalls) : ∀ e, Decidable (ClockKept s e)
  | .call clock _ => inferInstanceAs (Decidable (s.clock ≤ clock))
  | .pass _ => inferInstanceAs (Decidable True)

/-! ## What the conductor sees -/

def StageObs.IsCall : StageObs → Prop
  | .call _ => True
  | _ => False

def StageObs.IsEvent : StageObs → Prop
  | .start => True
  | .stop => True
  | .reset => True
  | _ => False

def StageObs.IsReset : StageObs → Prop
  | .reset => True
  | _ => False

def Running : List StageObs → Prop := Since StageObs.IsEvent .start

def ChecksPassed : List StageObs → Prop :=
  After StageObs.IsEvent .passed Running

def CallClock (clock : Nat) (before : List StageObs) : Prop :=
  Since (fun o => o.IsCall ∨ o.IsReset) (.call clock) before ∨
    Since StageObs.IsCall .reset before ∧ clock = 0

def StageObsOk (cpuMhz : Nat) (before : List StageObs) : StageObs → Prop
  | .notify usec =>
    Running before ∧ (∃ clock, CallClock clock before ∧ usec = clock / cpuMhz) ∧
      ∀ earlier, Since StageObs.IsReset (.notify earlier) before → earlier < usec
  | .returned => Running before ∧ ChecksPassed before
  | _ => True

structure StageKept (cpuMhz : Nat) (h : HakoniwaState) (clock : Nat) (calling : Bool)
    (history : List StageObs) : Prop where
  each : Each (StageObsOk cpuMhz) history
  running : h.running = true → Running history
  ready : h.ready = true → h.running = true ∧ ChecksPassed history
  idle : calling = false → h.running = true → h.ready = true
  clock_of_call : calling = true → CallClock clock history
  notified : ∀ usec, Since StageObs.IsReset (.notify usec) history →
    usec ≤ clock / cpuMhz ∧ (usec = clock / cpuMhz → h.lastNotifiedUsec = usec)

section
variable {cpuMhz clock : Nat} {h : HakoniwaState} {history : List StageObs} {o : StageObs}

/-! ## One step after the other -/

theorem Running.concat (hr : Running history) (ho : ¬ o.IsEvent) : Running (history ++ [o]) :=
  since_concat.2 (.inr ⟨hr, ho⟩)

theorem ChecksPassed.concat (hp : ChecksPassed history) (ho : ¬ o.IsEvent) :
    ChecksPassed (history ++ [o]) :=
  after_concat.2 (.inr ⟨hp, ho⟩)

theorem CallClock.concat (hc : CallClock clock history) (ho : ¬ o.IsCall) (ho' : ¬ o.IsReset) :
    CallClock clock (history ++ [o]) := by
  rcases hc with hc | ⟨hc, hzero⟩
  · exact .inl (since_concat.2 (.inr ⟨hc, not_or.2 ⟨ho, ho'⟩⟩))
  · exact .inr ⟨since_concat.2 (.inr ⟨hc, ho⟩), hzero⟩

theorem since_notify_of_concat {usec : Nat} (ho : .notify usec ≠ o)
    (hs : Since StageObs.IsReset (.notify usec) (history ++ [o])) :
    Since StageObs.IsReset (.notify usec) history := by
  obtain hs | ⟨hs, -⟩ := since_concat.1 hs
  · exact absurd hs ho
  · exact hs

theorem stageKept_init : StageKept cpuMhz .init 0 false [] where
  each := each_nil
  running hr := by cases hr
  ready hr := by cases hr
  idle _ hr := by cases hr
  clock_of_call hc := by cases hc
  notified usec hs := absurd hs not_since_nil

theorem StageKept.returned {calling : Bool} (hk : StageKept cpuMhz h clock calling history)
    (hready : h.ready = true) : StageKept cpuMhz h clock false (history ++ [.returned]) := by
  obtain ⟨hrun, hpassed⟩ := hk.ready hready
  exact {
    each := each_concat.2 ⟨hk.each, hk.running hrun, hpassed⟩
    running := fun hr => (hk.running hr).concat id
    ready := fun _ => ⟨hrun, hpassed.concat id⟩
    idle := fun _ _ => hready
    clock_of_call := fun hc => by cases hc
    notified := fun usec hs => hk.notified usec (since_notify_of_concat (by simp) hs) }

theorem StageKept.call (hk : StageKept cpuMhz h clock false history) {clock' : Nat}
    (hle : clock ≤ clock') : StageKept cpuMhz h clock' true (history ++ [.call clock']) where
  each := each_concat.2 ⟨hk.each, trivial⟩
  running hr := (hk.running hr).concat id
  ready hr := ⟨(hk.ready hr).1, (hk.ready hr).2.concat id⟩
  idle hc := by cases hc
  clock_of_call _ := .inl (since_concat.2 (.inl rfl))
  notified usec hs := by
    obtain ⟨hbound, hlast⟩ := hk.notified usec (since_notify_of_concat (by simp) hs)
    have hdiv : clock / cpuMhz ≤ clock' / cpuMhz := Nat.div_le_div_right hle
    exact ⟨by omega, fun heq => hlast (by omega)⟩

section
variable (hk : StageKept cpuMhz h clock true history)
include hk

theorem StageKept.notify :
    StageKept cpuMhz (stageNotify cpuMhz h clock).1 clock true
      (history ++ (stageNotify cpuMhz h clock).2.toList.map .notify) := by
  unfold stageNotify
  by_cases hreport : h.running ∧ cpuMhz ≠ 0 ∧ clock / cpuMhz ≠ h.lastNotifiedUsec
  · rw [if_pos hreport]
    have hlater : ∀ earlier, Since StageObs.IsReset (.notify earlier) history →
        earlier < clock / cpuMhz := by
      intro earlier hs
      obtain ⟨hbound, hlast⟩ := hk.notified earlier hs
      exact lt_of_le_of_ne hbound fun heq => hreport.2.2 (by rw [hlast heq, heq])
    exact {
      each := each_concat.2
        ⟨hk.each, hk.running hreport.1, ⟨clock, hk.clock_of_call rfl, rfl⟩, hlater⟩
      running := fun hr => (hk.running hr).concat id
      ready := fun hr => ⟨(hk.ready hr).1, (hk.ready hr).2.concat id⟩
      idle := fun hc => by cases hc
      clock_of_call := fun hc => (hk.clock_of_call hc).concat id id
      notified := fun usec hs => by
        obtain hs | ⟨hs, -⟩ := since_concat.1 hs
        · obtain rfl := StageObs.notify.inj hs
          exact ⟨le_rfl, fun _ => rfl⟩
        · exact ⟨(hlater usec hs).le, fun heq => absurd heq (hlater usec hs).ne⟩ }
  · rw [if_neg hreport]
    simpa using hk

theorem StageKept.event {e : HakoEvent} {h' : HakoniwaState} {clock' : Nat}
  (he : stageEvent h clock e = some (h', clock')) :
    StageKept cpuMhz h' clock' true (history ++ e.obs) := by
  cases e with
  | none =>
    cases he
    simpa [HakoEvent.obs] using hk
  | start worldTime =>
    cases he
    exact {
      each := each_concat.2 ⟨hk.each, trivial⟩
      running := fun _ => since_concat.2 (.inl rfl)
      ready := fun hr => by cases hr
      idle := fun hc => by cases hc
      clock_of_call := fun hc => (hk.clock_of_call hc).concat id id
      notified := fun usec hs => hk.notified usec (since_notify_of_concat (by simp) hs) }
  | stop =>
    cases he
    exact {
      each := each_concat.2 ⟨hk.each, trivial⟩
      running := fun hr => by cases hr
      ready := fun hr => by cases hr
      idle := fun hc => by cases hc
      clock_of_call := fun hc => (hk.clock_of_call hc).concat id id
      notified := fun usec hs => hk.notified usec (since_notify_of_concat (by simp) hs) }
  | reset ok =>
    cases ok with
    | false => cases he
    | true =>
      -- what was reported before does not count any more
      cases he
      exact {
        each := each_concat.2 ⟨hk.each, trivial⟩
        running := fun hr => by cases hr
        ready := fun hr => by cases hr
        idle := fun hc => by cases hc
        clock_of_call := fun _ => .inr ⟨since_concat.2 (.inl rfl), rfl⟩
        notified := fun usec hs => by
          obtain hs | ⟨-, hno⟩ := since_concat.1 hs
          · cases hs
          · exact absurd trivial hno }
  | error => cases he

theorem StageKept.checked (p : HakoniwaPass) :
    StageKept cpuMhz (stageReady cpuMhz h p) clock true
      (history ++ if (stageReady cpuMhz h p).ready && !h.ready then [.passed] else []) := by
  unfold stageReady
  by_cases hpass : h.running ∧ cpuMhz ≠ 0 ∧ !h.ready ∧ p.isSimulationMode ∧ p.isPduCreated ∧
      !p.isPduSyncMode
  · rw [if_pos hpass]
    obtain ⟨hrun, -, hnot, -⟩ := hpass
    rw [if_pos (by simpa using hnot)]
    exact {
      each := each_concat.2 ⟨hk.each, trivial⟩
      running := fun hr => (hk.running hr).concat id
      ready := fun _ => ⟨hrun, after_concat.2 (.inl ⟨rfl, hk.running hrun⟩)⟩
      idle := fun hc => by cases hc
      clock_of_call := fun hc => (hk.clock_of_call hc).concat id id
      notified := fun usec hs => hk.notified usec (since_notify_of_concat (by simp) hs) }
  · rw [if_neg hpass]
    simpa using hk

theorem StageKept.read (minIntrInterval worldTime : Nat) :
    StageKept cpuMhz (stageRead cpuMhz h clock minIntrInterval worldTime).1 clock
      (stageRead cpuMhz h clock minIntrInterval worldTime).2.isNone
      (history ++ if (stageRead cpuMhz h clock minIntrInterval worldTime).2.isSome then [.returned]
        else []) := by
  have hworld : ∀ worldTimeUsec worldLimitClock, StageKept cpuMhz
      { h with worldTimeUsec := worldTimeUsec, worldLimitClock := worldLimitClock } clock true
      history := fun _ _ =>
    ⟨hk.each, hk.running, hk.ready, hk.idle, hk.clock_of_call, hk.notified⟩
  unfold stageRead
  by_cases hready : h.running ∧ cpuMhz ≠ 0 ∧ h.ready
  · rw [if_pos hready]
    by_cases hlimit : clock < u64 (worldTime * cpuMhz)
    · simp only [if_pos hlimit]
      exact (hworld _ _).returned hready.2.2
    · simp only [if_neg hlimit]
      simpa using hworld worldTime h.worldLimitClock
  · rw [if_neg hready]
    simpa using hk

end

end

theorem StageKept.step {cpuMhz : Nat} {s s' : StageCalls} {history obs : List StageObs}
    {e : StageCallEvent} (hk : StageKept cpuMhz s.hako s.clock s.calling history) (he : ClockKept s e)
    (h : stageCallStep cpuMhz s e = some (s', obs)) :
    StageKept cpuMhz s'.hako s'.clock s'.calling (history ++ obs) := by
  obtain ⟨hako, clock, calling, interval⟩ := s
  cases e with
  | call clock' i =>
    cases calling with
    | true => cases h
    | false =>
      have hcall := StageKept.call hk he
      simp only [stageCallStep, stageCall, Bool.false_eq_true, if_false] at h
      rcases henter : stageEnter hako clock' i with _ | i'
      · simp only [henter] at h
        cases h
        exact hcall
      · -- the fast path: nothing has happened since the last return
        simp only [henter] at h
        cases h
        unfold stageEnter at henter
        split_ifs at henter with hrun
        have hreturned := hcall.returned (hk.idle rfl hrun.1)
        rwa [List.append_assoc] at hreturned
  | pass p =>
    cases calling with
    | false => cases h
    | true =>
      simp only [stageCallStep, stageCallPass, stagePass, Option.map_map, if_true] at h
      obtain ⟨⟨h₁, clock₁⟩, hevent, heq⟩ := Option.map_eq_some_iff.1 h
      cases heq
      have hpass := ((hk.notify.event hevent).checked p).read interval p.worldTime
      simpa only [List.append_assoc] using hpass

/-- **The reports and the returns of the stage.** Over all calls whose clocks do not decrease between
resets, whatever the conductor answers, every time is reported while the asset is running, is the clock of
the call in microseconds, and is later than those since the last reset. The stage returns only while the
asset is running and after its checks have passed since the last START. -/
theorem hakoniwa_stage_reports {cpuMhz : Nat} {events : List StageCallEvent} {s : StageCalls}
    {os : List (List StageObs)} (hclock : StepsMeet (stageCallStep cpuMhz) ClockKept .init events)
    (hrun : run (stageCallStep cpuMhz) .init events = some (s, os)) :
    Each (StageObsOk cpuMhz) os.flatten :=
  (run_history_of_stepsMeet (fun s history => StageKept cpuMhz s.hako s.clock s.calling history)
    (fun _ _ _ _ _ hk he h => hk.step he h) events stageKept_init hclock hrun).each

def quietPass : HakoniwaPass := ⟨.none, false, false, false, 0⟩

def startCalls : List StageCallEvent :=
  [.call 0 1, .pass ⟨.start 0, true, true, false, 10⟩, .call 10 1, .pass ⟨.none, true, true, false, 20⟩]

theorem hakoniwa_stage_reports_start : ∃ s os,
    run (stageCallStep 1) .init startCalls = some (s, os) ∧
      os.flatten = [.call 0, .start, .passed, .returned, .call 10, .notify 10, .returned] ∧
      Each (StageObsOk 1) os.flatten := by
  have hclock : StepsMeet (stageCallStep 1) ClockKept .init startCalls := by decide
  exact ⟨_, _, rfl, rfl, hakoniwa_stage_reports hclock rfl⟩

def resetCall : List StageCallEvent :=
  [.call 100 1, .pass ⟨.start 0, false, false, false, 0⟩, .pass ⟨.reset true, false, false, false, 0⟩,
    .pass ⟨.start 0, false, false, false, 0⟩, .pass quietPass]

/-- After the reset the call reports the time 0, and not that of the clock it was given. -/
theorem hakoniwa_stage_reset_in_call : ∃ s os,
    StepsMeet (stageCallStep 1) ClockKept .init resetCall ∧
      run (stageCallStep 1) .init resetCall = some (s, os) ∧
      ¬ Each (fun before o => ∀ usec, o = .notify usec →
        ∃ clock, Since StageObs.IsCall (.call clock) before ∧ usec = clock / 1) os.flatten := by
  refine ⟨_, _, by decide, rfl, fun heach => ?_⟩
  obtain ⟨clock, ⟨before, after, heq, -, -⟩, hzero⟩ :=
    heach [.call 100, .start, .notify 100, .reset, .start] (.notify 0) [] rfl 0 rfl
  have hmem : StageObs.call clock ∈ [StageObs.call 100, .start, .notify 100, .reset, .start] := by
    rw [heq]
    exact List.mem_append_right _ (.head _)
  obtain rfl : clock = 100 := by simpa using hmem
  cases hzero

end Athrill
