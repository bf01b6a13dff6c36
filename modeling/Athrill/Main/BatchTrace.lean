import Athrill.Main.Loop

/-!
# Batches and skips do not show

With one device tick per clock and no skips the loop is the reference. Main result:
`batch_trace_eq_reference_iff`.
-/

namespace Athrill

open List

variable {T : Target} {cfg : CpuEmuConfig} {s : EmuState T}

/-! ## The reference -/

def CpuEmuConfig.reference (cfg : CpuEmuConfig) : CpuEmuConfig :=
  { cfg with debugFuncMaxBatchClocks := some 1, enableSkip := false }

def EmuState.atClock (s : EmuState T) (clock : Nat) : EmuState T := { s with clock := clock }

def NotDue (s : EmuState T) : Prop := ∀ n, T.nextEvent s.dev = some n → s.clock < n

theorem cpuemuRunsBatch_reference (isHalt : Bool) : cpuemuRunsBatch cfg.reference isHalt = false := by
  have : cpuemuMaxBatchClocks cfg.reference ≤ 1 := cpuemuMaxBatchClocks_le_param rfl Nat.one_pos
  simp [cpuemuRunsBatch, Nat.not_lt.2 this]

theorem reference_trace_of_lt (h : s.clock < cfg.endClock) :
    (emuLoop T cfg.reference).trace s =
      (firstClock T s).obs ++
        (emuLoop T cfg.reference).trace ((firstClock T s).state.atClock (s.clock + 1)) := by
  have hiter : emuIteration T cfg.reference s =
      ((firstClock T s).obs, (firstClock T s).state.atClock (s.clock + 1)) := by
    rw [emuIteration_of_not_batch (cpuemuRunsBatch_reference _)]
    simp [cpuemuNextClock, cpuemuSkips, CpuEmuConfig.reference, EmuState.atClock]
  have := (emuLoop T cfg.reference).trace_of_lt (s := s) h
  rwa [show (emuLoop T cfg.reference).iter s = _ from hiter] at this

theorem deviceSupplyClock_of_notDue (h : NotDue s) : deviceSupplyClock T s = ([], s) := by
  unfold deviceSupplyClock
  split
  · next n hn => rw [if_neg (Nat.not_le.2 (h n hn))]
  · rfl

theorem firstClock_of_isHalt (h : NotDue s) (hhalt : T.isHalt s.cpu = true) :
    (firstClock T s).obs = [] ∧ (firstClock T s).state = s := by
  simp [firstClock, deviceSupplyClock_of_notDue h, cpuSupplyClock, hhalt]

theorem firstClock_of_running (h : NotDue (s.atClock (s.clock + 1))) (hrun : T.isHalt s.cpu = false) :
    (firstClock T (s.atClock (s.clock + 1))).obs =
        [.execute (s.clock + 1) (cpuExecNext T s).1] ∧
      (firstClock T (s.atClock (s.clock + 1))).state = (cpuExecNext T s).2 := by
  have hrun' : T.isHalt (s.atClock (s.clock + 1)).cpu = false := hrun
  simp only [firstClock, deviceSupplyClock_of_notDue h, cpuSupplyClock, hrun', Bool.false_eq_true,
    if_false, nil_append]
  exact ⟨rfl, rfl⟩

theorem firstClock_of_due {n : Nat} (hn : T.nextEvent s.dev = some n) (hdue : n ≤ s.clock) :
    ∃ e rest, (firstClock T s).obs = .event s.clock e :: rest := by
  simp only [firstClock, deviceSupplyClock, hn, if_pos hdue]
  exact ⟨_, _, rfl⟩

theorem reference_trace_running (h : s.clock + 1 < cfg.endClock)
    (hdue : NotDue (s.atClock (s.clock + 1))) (hrun : T.isHalt s.cpu = false) :
    (emuLoop T cfg.reference).trace (s.atClock (s.clock + 1)) =
      .execute (s.clock + 1) (cpuExecNext T s).1 :: (emuLoop T cfg.reference).trace
        ((cpuExecNext T s).2.atClock ((cpuExecNext T s).2.clock + 1)) := by
  obtain ⟨hobs, hstate⟩ := firstClock_of_running hdue hrun
  rw [reference_trace_of_lt h, hobs, hstate]
  rfl

theorem reference_trace_halted (cfg : CpuEmuConfig) (hhalt : T.isHalt s.cpu = true) (k : Nat)
    (hlate : ∀ n, T.nextEvent s.dev = some n → n < cfg.endClock → s.clock + k ≤ n) :
    (emuLoop T cfg.reference).trace s =
      (emuLoop T cfg.reference).trace (s.atClock (s.clock + k)) := by
  induction k with
  | zero => rfl
  | succ k ih =>
    rw [ih fun n hn hlt => Nat.le_of_succ_le (hlate n hn hlt)]
    rcases Nat.lt_or_ge (s.clock + k) cfg.endClock with hlt | hge
    · have hdue : NotDue (s.atClock (s.clock + k)) := by
        intro n hn
        rcases Nat.lt_or_ge n cfg.endClock with h | h
        · exact hlate n hn h
        · exact Nat.lt_of_lt_of_le hlt h
      obtain ⟨hobs, hstate⟩ := firstClock_of_isHalt hdue hhalt
      rw [reference_trace_of_lt hlt, hobs, hstate]
      rfl
    · rw [(emuLoop T cfg.reference).trace_of_le (s := s.atClock (s.clock + k)) hge,
        (emuLoop T cfg.reference).trace_of_le (s := s.atClock (s.clock + (k + 1)))
          (Nat.le_succ_of_le hge)]

/-! ## Batches -/

theorem cpuSupplyClocks_succ_of_ends {k : Nat} (h : cpuEndsBatch T s = true) :
    cpuSupplyClocks T (k + 1) s =
      ([.execute (s.clock + 1) (cpuExecNext T s).1], (cpuExecNext T s).2) := by
  rw [cpuSupplyClocks]
  exact if_pos h

theorem cpuSupplyClocks_succ_of_not_ends {k : Nat} (h : cpuEndsBatch T s = false) :
    cpuSupplyClocks T (k + 1) s =
      (.execute (s.clock + 1) (cpuExecNext T s).1 :: (cpuSupplyClocks T k (cpuExecNext T s).2).1,
        (cpuSupplyClocks T k (cpuExecNext T s).2).2) := by
  rw [cpuSupplyClocks]
  exact if_neg (by simp [h])

theorem cpuExecNext_of_not_ends (h : cpuEndsBatch T s = false) :
    T.isHalt (cpuExecNext T s).2.cpu = false ∧ (cpuExecNext T s).2.dev = s.dev := by
  simp only [cpuEndsBatch, Bool.or_eq_false_iff] at h
  exact ⟨h.1, T.exec_dev h.2⟩

theorem reference_trace_batch (k : Nat) (hrun : T.isHalt s.cpu = false)
    (hend : (cpuSupplyClocks T k s).2.clock < cfg.endClock)
    (hlate : ∀ n, T.nextEvent s.dev = some n → (cpuSupplyClocks T k s).2.clock < n) :
    (emuLoop T cfg.reference).trace (s.atClock (s.clock + 1)) =
      (cpuSupplyClocks T k s).1 ++ (emuLoop T cfg.reference).trace
        ((cpuSupplyClocks T k s).2.atClock ((cpuSupplyClocks T k s).2.clock + 1)) := by
  induction k generalizing s with
  | zero => rfl
  | succ k ih =>
    cases hends : cpuEndsBatch T s with
    | true =>
      rw [cpuSupplyClocks_succ_of_ends hends] at hend hlate ⊢
      exact reference_trace_running hend hlate hrun
    | false =>
      rw [cpuSupplyClocks_succ_of_not_ends hends] at hend hlate ⊢
      dsimp only at hend hlate
      obtain ⟨hrun', hdev⟩ := cpuExecNext_of_not_ends hends
      have hclock : s.clock + 1 ≤ (cpuSupplyClocks T k (cpuExecNext T s).2).2.clock :=
        (cpuSupplyClocks_clock k (cpuExecNext T s).2).1
      rw [reference_trace_running (Nat.lt_of_le_of_lt hclock hend)
        (fun n hn => Nat.lt_of_le_of_lt hclock (hlate n hn)) hrun,
        ih hrun' hend (hdev ▸ hlate)]
      rfl

theorem reference_trace_ne_batch (k : Nat) (hrun : T.isHalt s.cpu = false)
    (hend : (cpuSupplyClocks T k s).2.clock < cfg.endClock) {n : Nat} (hn : T.nextEvent s.dev = some n)
    (hlt : s.clock < n) (hpast : n ≤ (cpuSupplyClocks T k s).2.clock) (rest : List T.Obs) :
    (emuLoop T cfg.reference).trace (s.atClock (s.clock + 1)) ≠ (cpuSupplyClocks T k s).1 ++ rest := by
  induction k generalizing s with
  | zero => exact absurd hpast (Nat.not_le.2 hlt)
  | succ k ih =>
    have hclock : s.clock + 1 ≤ (cpuSupplyClocks T (k + 1) s).2.clock := Nat.le_trans hlt hpast
    rcases Nat.lt_or_ge (s.clock + 1) n with hlater | hdue
    · -- the event is not due yet: both execute the same instruction
      have hnot : NotDue (s.atClock (s.clock + 1)) := fun m hm => by
        obtain rfl := Option.some.inj (hn.symm.trans hm)
        exact hlater
      rw [reference_trace_running (Nat.lt_of_le_of_lt hclock hend) hnot hrun]
      cases hends : cpuEndsBatch T s with
      | true =>
        rw [cpuSupplyClocks_succ_of_ends hends] at hpast
        exact absurd hpast (Nat.not_le.2 hlater)
      | false =>
        rw [cpuSupplyClocks_succ_of_not_ends hends] at hend hpast ⊢
        obtain ⟨hrun', hdev⟩ := cpuExecNext_of_not_ends hends
        intro heq
        exact ih hrun' hend (hdev ▸ hn) hlater hpast (cons.inj heq).2
    · -- the event is due: the reference observes it, the batch an instruction
      obtain ⟨e, tail, hobs⟩ := firstClock_of_due (s := s.atClock (s.clock + 1)) hn hdue
      rw [reference_trace_of_lt (Nat.lt_of_le_of_lt hclock hend), hobs]
      cases hends : cpuEndsBatch T s with
      | true =>
        rw [cpuSupplyClocks_succ_of_ends hends]
        intro heq
        cases (cons.inj heq).1
      | false =>
        rw [cpuSupplyClocks_succ_of_not_ends hends]
        intro heq
        cases (cons.inj heq).1

/-! ## When batches and skips do not show -/

def cpuExecNexts (T : Target) : Nat → EmuState T → EmuState T
  | 0, s => s
  | j + 1, s => cpuExecNexts T j (cpuExecNext T s).2

theorem lt_cpuSupplyClocks_clock (k : Nat) (s : EmuState T) :
    s.clock < (cpuSupplyClocks T (k + 1) s).2.clock := by
  cases hends : cpuEndsBatch T s with
  | true =>
    rw [cpuSupplyClocks_succ_of_ends hends]
    exact Nat.lt_succ_self _
  | false =>
    rw [cpuSupplyClocks_succ_of_not_ends hends]
    exact (cpuSupplyClocks_clock k (cpuExecNext T s).2).1

theorem cpuSupplyClocks_clock_lt_iff (k : Nat) {n : Nat} (hlt : s.clock < n) :
    (cpuSupplyClocks T k s).2.clock < n ↔
      (n ≤ s.clock + k → ∃ j, s.clock + 1 + j < n ∧ cpuEndsBatch T (cpuExecNexts T j s) = true) := by
  induction k generalizing s with
  | zero => exact iff_of_true hlt fun hle => absurd hle (Nat.not_le.2 hlt)
  | succ k ih =>
    rcases Nat.lt_or_ge (s.clock + 1) n with hlater | hdue
    · cases hends : cpuEndsBatch T s with
      | true =>
        rw [cpuSupplyClocks_succ_of_ends hends]
        exact iff_of_true hlater fun _ => ⟨0, hlater, hends⟩
      | false =>
        rw [cpuSupplyClocks_succ_of_not_ends hends]
        refine (ih (s := (cpuExecNext T s).2) hlater).trans ?_
        have hnext : (cpuExecNext T s).2.clock = s.clock + 1 := rfl
        rw [hnext, Nat.add_right_comm s.clock 1 k]
        -- the instruction at hand does not end the batch, so a later one has to
        refine imp_congr_right fun _ => ⟨?_, ?_⟩
        · rintro ⟨j, hj, hend⟩
          exact ⟨j + 1, by omega, hend⟩
        · rintro ⟨j, hj, hend⟩
          cases j with
          | zero => exact absurd hend (by simp [cpuExecNexts, hends])
          | succ j => exact ⟨j, by omega, hend⟩
    · -- the event is due at the first instruction of the batch
      refine iff_of_false ?_ fun h => ?_
      · have hclock := lt_cpuSupplyClocks_clock k s
        omega
      · obtain ⟨j, hj, -⟩ := h (by omega)
        omega

/-- No device event falls into the batch or the skip of an iteration, unless an instruction ends the batch
before it. -/
structure Undisturbed (T : Target) (cfg : CpuEmuConfig) (s : EmuState T) : Prop where
  batch : cpuemuRunsBatch cfg (T.isHalt (firstClock T s).state.cpu) = true →
    ∀ n, T.nextEvent (firstClock T s).state.dev = some n →
      n < s.clock + cpuemuBatchBudget cfg s.clock (firstClock T s).minIntrInterval →
      ∃ j, s.clock + 1 + j < n ∧
        cpuEndsBatch T (cpuExecNexts T j (firstClock T s).state) = true
  skip : cpuemuSkips cfg (T.isHalt (firstClock T s).state.cpu) (firstClock T s).canSkipClock
      (firstClock T s).minIntrInterval = true →
    ∀ n, T.nextEvent (firstClock T s).state.dev = some n → n < cfg.endClock →
      s.clock + (firstClock T s).minIntrInterval ≤ n

theorem lt_nextEvent_firstClock {n : Nat} (h : T.nextEvent (firstClock T s).state.dev = some n) :
    s.clock < n := by
  have htick : ∀ m, T.nextEvent (deviceSupplyClock T s).2.dev = some m →
      (deviceSupplyClock T s).2.clock < m := by
    intro m hm
    rw [deviceSupplyClock_clock]
    exact lt_nextEvent_deviceSupplyClock hm
  rw [← deviceSupplyClock_clock s]
  simp only [firstClock, cpuSupplyClock] at h
  split_ifs at h
  · exact htick n h
  · exact T.lt_nextEvent_exec htick n h

theorem cpuemuRunBatch_clock_lt_iff {n : Nat} (hn : T.nextEvent (firstClock T s).state.dev = some n) :
    (cpuemuRunBatch T cfg (firstClock T s)).2.clock < n ↔
      (n < s.clock + cpuemuBatchBudget cfg s.clock (firstClock T s).minIntrInterval →
        ∃ j, s.clock + 1 + j < n ∧
          cpuEndsBatch T (cpuExecNexts T j (firstClock T s).state) = true) := by
  have hlt := lt_nextEvent_firstClock hn
  rw [cpuemuRunBatch, cpuSupplyClocks_clock_lt_iff _ ((firstClock_clock s).symm ▸ hlt),
    firstClock_clock]
  exact imp_congr_left (by omega)

theorem cpuemuRunBatch_lt (h : s.clock < cfg.endClock) :
    (cpuemuRunBatch T cfg (firstClock T s)).2.clock < cfg.endClock := by
  have := (cpuemuRunBatch_clock cfg s).2
  rw [cpuemuBatchBudget_eq] at this
  omega

theorem isHalt_of_runsBatch {isHalt : Bool} (h : cpuemuRunsBatch cfg isHalt = true) :
    isHalt = false := by
  cases isHalt with
  | false => rfl
  | true => simp [cpuemuRunsBatch] at h

theorem reference_trace_iteration (h : s.clock < cfg.endClock) (hu : Undisturbed T cfg s) :
    (emuLoop T cfg.reference).trace s =
      (emuIteration T cfg s).1 ++ (emuLoop T cfg.reference).trace (emuIteration T cfg s).2 := by
  rw [reference_trace_of_lt h]
  cases hbatch : cpuemuRunsBatch cfg (T.isHalt (firstClock T s).state.cpu) with
  | true =>
    rw [emuIteration_of_batch hbatch, append_assoc, ← firstClock_clock s]
    congr 1
    exact reference_trace_batch _ (isHalt_of_runsBatch hbatch) (cpuemuRunBatch_lt h)
      fun n hn => (cpuemuRunBatch_clock_lt_iff hn).2 (hu.batch hbatch n hn)
  | false =>
    rw [emuIteration_of_not_batch hbatch, cpuemuNextClock]
    congr 1
    split_ifs with hskip
    · -- the reference passes over the clocks that the skip leaves out
      have hhalt : T.isHalt (firstClock T s).state.cpu = true := by
        simp only [cpuemuSkips, Bool.and_eq_true] at hskip
        exact hskip.1.1.2
      have hpos := firstClock_minIntrInterval_pos s
      have hsum : s.clock + 1 + ((firstClock T s).minIntrInterval - 1) =
          s.clock + (firstClock T s).minIntrInterval := by omega
      rw [reference_trace_halted (s := (firstClock T s).state.atClock (s.clock + 1)) cfg hhalt
        ((firstClock T s).minIntrInterval - 1)]
      · show (emuLoop T cfg.reference).trace ((firstClock T s).state.atClock
          (s.clock + 1 + ((firstClock T s).minIntrInterval - 1))) = _
        rw [hsum]
        rfl
      · intro n hn hlt
        exact hsum ▸ hu.skip hskip n hn hlt
    · rfl

theorem clock_of_mem_firstClock {o : T.Obs} (h : o ∈ (firstClock T s).obs) : o.clock = s.clock := by
  rcases mem_append.1 h with h | h
  · unfold deviceSupplyClock at h
    split at h
    · split_ifs at h
      · obtain rfl := mem_singleton.1 h
        rfl
      · cases h
    · cases h
  · unfold cpuSupplyClock at h
    split_ifs at h
    · cases h
    · obtain rfl := mem_singleton.1 h
      exact deviceSupplyClock_clock s

theorem lt_clock_of_mem_cpuSupplyClocks {k : Nat} {o : T.Obs} (h : o ∈ (cpuSupplyClocks T k s).1) :
    s.clock < o.clock := by
  induction k generalizing s with
  | zero => cases h
  | succ k ih =>
    cases hends : cpuEndsBatch T s with
    | true =>
      rw [cpuSupplyClocks_succ_of_ends hends] at h
      obtain rfl := mem_singleton.1 h
      exact Nat.lt_succ_self _
    | false =>
      rw [cpuSupplyClocks_succ_of_not_ends hends] at h
      rcases mem_cons.1 h with rfl | h
      · exact Nat.lt_succ_self _
      · exact Nat.lt_of_succ_lt (ih h)

theorem clock_le_of_mem_emuIteration (s : EmuState T) :
    ∀ o ∈ (emuIteration T cfg s).1, s.clock ≤ o.clock := by
  intro o ho
  cases hbatch : cpuemuRunsBatch cfg (T.isHalt (firstClock T s).state.cpu) with
  | true =>
    rw [emuIteration_of_batch hbatch] at ho
    rcases mem_append.1 ho with ho | ho
    · exact Nat.le_of_eq (clock_of_mem_firstClock ho).symm
    · have := lt_clock_of_mem_cpuSupplyClocks ho
      rw [firstClock_clock] at this
      exact Nat.le_of_lt this
  | false =>
    rw [emuIteration_of_not_batch hbatch] at ho
    exact Nat.le_of_eq (clock_of_mem_firstClock ho).symm

theorem reference_trace_ne_skip (hhalt : T.isHalt s.cpu = true) {n stop : Nat}
    (hn : T.nextEvent s.dev = some n) (hclock : s.clock ≤ n) (hend : n < cfg.endClock)
    (hstop : n < stop) {rest : List T.Obs} (hrest : ∀ o ∈ rest, stop ≤ o.clock) :
    (emuLoop T cfg.reference).trace s ≠ rest := by
  intro heq
  have hidle := reference_trace_halted cfg hhalt (n - s.clock) fun m hm _ => by
    obtain rfl := Option.some.inj (hn.symm.trans hm)
    omega
  rw [Nat.add_sub_cancel' hclock] at hidle
  obtain ⟨e, tail, hobs⟩ := firstClock_of_due (s := s.atClock n) hn (Nat.le_refl n)
  rw [← heq, hidle, reference_trace_of_lt (s := s.atClock n) hend, hobs] at hrest
  have := hrest (.event n e) mem_cons_self
  exact absurd this (Nat.not_le.2 hstop)

theorem trace_ne_reference (h : s.clock < cfg.endClock) (hu : ¬ Undisturbed T cfg s) :
    (emuLoop T cfg).trace s ≠ (emuLoop T cfg.reference).trace s := by
  intro heq
  rw [(emuLoop T cfg).trace_of_lt h, reference_trace_of_lt h] at heq
  change (emuIteration T cfg s).1 ++ (emuLoop T cfg).trace (emuIteration T cfg s).2 = _ at heq
  refine hu ⟨fun hbatch n hn => (cpuemuRunBatch_clock_lt_iff hn).1 (Nat.not_le.1 fun hpast => ?_),
    fun hskip n hn hend => Nat.not_lt.1 fun hpast => ?_⟩
  · rw [emuIteration_of_batch hbatch, append_assoc, append_cancel_left_eq,
      ← firstClock_clock s] at heq
    exact reference_trace_ne_batch _ (isHalt_of_runsBatch hbatch) (cpuemuRunBatch_lt h) hn
      ((firstClock_clock s).symm ▸ lt_nextEvent_firstClock hn) hpast _ heq.symm
  · have hhalt : T.isHalt (firstClock T s).state.cpu = true := by
      simp only [cpuemuSkips, Bool.and_eq_true] at hskip
      exact hskip.1.1.2
    have hbatch : cpuemuRunsBatch cfg (T.isHalt (firstClock T s).state.cpu) = false := by
      simp [cpuemuRunsBatch, hhalt]
    rw [emuIteration_of_not_batch hbatch, append_cancel_left_eq, cpuemuNextClock,
      if_pos hskip] at heq
    exact reference_trace_ne_skip (s := (firstClock T s).state.atClock (s.clock + 1)) hhalt hn
      (lt_nextEvent_firstClock hn) hend hpast
      ((emuLoop T cfg).clock_le_of_mem_trace clock_le_of_mem_emuIteration _) heq.symm

/-- **When batches and skips do not show.** For every target, every batch limit, with or without
skips, a run of the main loop with one core has the same instructions and device events at the same
clocks as the reference if and only if no event disturbs an iteration of it. -/
theorem batch_trace_eq_reference_iff (T : Target) (cfg : CpuEmuConfig) (s : EmuState T) :
    (emuLoop T cfg).trace s = (emuLoop T cfg.reference).trace s ↔
      (emuLoop T cfg).Always (Undisturbed T cfg) s := by
  induction s using (emuLoop T cfg).induction with
  | stopped s h =>
    rw [(emuLoop T cfg).trace_of_le h, (emuLoop T cfg.reference).trace_of_le h]
    exact iff_of_true rfl ((emuLoop T cfg).always_of_le h)
  | step s h ih =>
    rw [(emuLoop T cfg).always_of_lt h]
    by_cases hu : Undisturbed T cfg s
    · rw [(emuLoop T cfg).trace_of_lt h, reference_trace_iteration h hu]
      show (emuIteration T cfg s).1 ++ _ = _ ↔ _
      rw [append_cancel_left_eq]
      exact ih.trans ⟨fun hrest => ⟨hu, hrest⟩, And.right⟩
    · exact iff_of_false (trace_ne_reference h hu) fun hall => hu hall.1

abbrev timerTarget : Target where
  Cpu := Nat
  Dev := Option Nat
  Instr := Nat
  Event := Unit
  isHalt _ := false
  exec clock pc dev := (pc, pc + 1, if pc = 0 then some (clock + 2) else dev)
  touches _ pc _ := pc == 0
  nextEvent dev := dev
  fire _ pc _ := ((), pc, none)
  canSkipClock _ := true
  exec_dev h := if_neg (by simpa using h)
  lt_nextEvent_exec {clock pc dev} h n hn := by
    dsimp only at hn
    split_ifs at hn
    · cases hn
      omega
    · exact h n hn
  lt_nextEvent_fire n hn := by cases hn

def timerConfig : CpuEmuConfig := { batchConfig with enableSkip := false, endClock := 5 }

/-- The timer is set by the first instruction of a batch, which then runs past its event. -/
theorem batch_trace_ne_reference_timer :
    (emuLoop timerTarget timerConfig).trace ⟨0, 0, none⟩ =
        [.execute 0 0, .execute 1 1, .execute 2 2, .execute 3 3, .execute 4 4] ∧
      (emuLoop timerTarget timerConfig.reference).trace ⟨0, 0, none⟩ =
        [.execute 0 0, .execute 1 1, .event 2 (), .execute 2 2, .execute 3 3, .execute 4 4] :=
  ⟨rfl, rfl⟩

end Athrill
