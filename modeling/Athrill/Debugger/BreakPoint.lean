import Athrill.Lib.Run
import Athrill.StdTypes

/-!
# Breakpoints (`executor/cpu_control/dbg_cpu_control.c`)

The debugger keeps its breakpoints in a table of 128 entries of two kinds: the ones a user sets, and the
ones the `return` command sets for a single stop. Main result: `breakpoint_lookup_exact_iff`.
-/

namespace Athrill

open Machine List Function

/-! ## The source -/

inductive BreakPointEumType
  | forever
  | onlyOnce
  deriving DecidableEq, Repr

structure DbgCpuCtrlBreakPointType where
  isSet : Bool
  type : BreakPointEumType
  addr : BitVec 32
  deriving DecidableEq, Repr

abbrev breakSetsize : Nat := 128

/-- `dbg_cpuctrl_break_points_num` and `dbg_cpuctrl_break_points`. -/
structure BreakState where
  num : Int
  points : Fin breakSetsize → DbgCpuCtrlBreakPointType

def BreakState.init : BreakState where
  num := 0
  points i := if i = 0 then ⟨true, .forever, 0⟩ else ⟨false, .forever, 0⟩

def searchFreeBreakPointSpace (s : BreakState) : Option (Fin breakSetsize) :=
  (finRange breakSetsize).find? fun i => !(s.points i).isSet

def searchBreakPoint (s : BreakState) (addr : BitVec 32) : Option (Fin breakSetsize) :=
  (finRange breakSetsize).find? fun i => (s.points i).isSet && (s.points i).addr == addr

def searchBreakPointWithType (s : BreakState) (addr : BitVec 32) (type : BreakPointEumType) :
    Option (Fin breakSetsize) :=
  (finRange breakSetsize).find? fun i =>
    (s.points i).isSet && (s.points i).type == type && (s.points i).addr == addr

def cpuctrlGetBreak (s : BreakState) (index : BitVec 32) : Option (BitVec 32) :=
  if h : index.toNat < breakSetsize then
    let bp := s.points ⟨index.toNat, h⟩
    if bp.isSet then some bp.addr else none
  else none

def cpuctrlIsBreakPoint (s : BreakState) (addr : BitVec 32) : Bool :=
  if s.num > 0 then (searchBreakPoint s addr).isSome else (s.points 0).addr == addr

def cpuctrlSetBreak (s : BreakState) (addr : BitVec 32) (type : BreakPointEumType) :
    BreakState × Bool :=
  match searchBreakPointWithType s addr type with
  | some _ => (s, true)
  | none =>
    match searchFreeBreakPointSpace s with
    | some i =>
      ({ num := if type ≠ .onlyOnce then s.num + 1 else s.num
         points := update s.points i ⟨true, type, addr⟩ }, true)
    | none => (s, false)

def delBreakAt (s : BreakState) (i : Fin breakSetsize) : BreakState :=
  if i = 0 then s
  else
    { num := if (s.points i).isSet then s.num - 1 else s.num
      points := update s.points i { s.points i with isSet := false } }

def cpuctrlDelBreak (s : BreakState) (index : BitVec 32) : Option (BreakState × Bool) :=
  if index > 0 then
    if h : index.toNat < breakSetsize then some (delBreakAt s ⟨index.toNat, h⟩, true) else none
  else some (s, false)

def delAllBreakLoop (type : BreakPointEumType) : List (Fin breakSetsize) → BreakState → BreakState
  | [], s => s
  | i :: is, s => delAllBreakLoop type is (if (s.points i).type = type then delBreakAt s i else s)

def cpuctrlDelAllBreak (s : BreakState) (type : BreakPointEumType) : BreakState :=
  let s' := delAllBreakLoop type (finRange breakSetsize) s
  if type ≠ .onlyOnce then { s' with num := 0 } else s'

/-- What changes the table: `break` and `return`, `delete`, and a stop. -/
inductive BreakOp
  | setBreak (addr : BitVec 32) (type : BreakPointEumType)
  | delBreak (index : BitVec 32)
  | delAllBreak (type : BreakPointEumType)
  deriving DecidableEq, Repr

def breakStep (s : BreakState) : BreakOp → Option (BreakState × Option Bool)
  | .setBreak addr type => some ((cpuctrlSetBreak s addr type).1, (cpuctrlSetBreak s addr type).2)
  | .delBreak index => (cpuctrlDelBreak s index).map fun r => (r.1, some r.2)
  | .delAllBreak type => some (cpuctrlDelAllBreak s type, none)

/-! ## What a lookup should answer -/

def BreakState.Exact (s : BreakState) : Prop :=
  ∀ addr, cpuctrlIsBreakPoint s addr = true ↔
    ∃ i, (s.points i).isSet = true ∧ (s.points i).addr = addr

def BreakState.entries (s : BreakState) (type : BreakPointEumType) : Finset (Fin breakSetsize) :=
  Finset.univ.filter fun i => i ≠ 0 ∧ (s.points i).isSet = true ∧ (s.points i).type = type

variable {s : BreakState} {d : Nat} {i : Fin breakSetsize}

@[simp] theorem BreakState.mem_entries {type : BreakPointEumType} :
    i ∈ s.entries type ↔ i ≠ 0 ∧ (s.points i).isSet = true ∧ (s.points i).type = type := by
  simp [BreakState.entries]

def onceDeletedStep (s : BreakState) (d : Nat) : BreakOp → Nat
  | .setBreak _ _ => d
  | .delBreak index =>
    if ∃ i : Fin breakSetsize, i.val = index.toNat ∧ i ∈ s.entries .onlyOnce then d + 1 else d
  | .delAllBreak .onlyOnce => d + (s.entries .onlyOnce).card
  | .delAllBreak .forever => 0

def onceDeleted : BreakState → Nat → List BreakOp → Nat
  | _, d, [] => d
  | s, d, op :: ops =>
    match breakStep s op with
    | none => d
    | some (s', _) => onceDeleted s' (onceDeletedStep s d op) ops

/-! ## The searches -/

theorem find?_finRange_isSome {p : Fin breakSetsize → Bool} :
    ((finRange breakSetsize).find? p).isSome = true ↔ ∃ i, p i = true := by
  simp [find?_isSome]

/-- A breakpoint at address 0 in the first entry, set for ever. -/
def BreakState.FirstEntry (s : BreakState) : Prop := s.points 0 = ⟨true, .forever, 0⟩

theorem cpuctrlIsBreakPoint_of_pos (hn : 0 < s.num) (addr : BitVec 32) :
    cpuctrlIsBreakPoint s addr = true ↔
      ∃ i, (s.points i).isSet = true ∧ (s.points i).addr = addr := by
  rw [cpuctrlIsBreakPoint, if_pos hn, searchBreakPoint, find?_finRange_isSome]
  simp only [Bool.and_eq_true, beq_iff_eq]

theorem cpuctrlIsBreakPoint_of_not_pos (h0 : s.FirstEntry) (hn : ¬ 0 < s.num)
    (addr : BitVec 32) : cpuctrlIsBreakPoint s addr = true ↔ addr = 0 := by
  rw [cpuctrlIsBreakPoint, if_neg hn, h0, beq_iff_eq, eq_comm]

theorem BreakState.exact_iff (h0 : s.FirstEntry) :
    s.Exact ↔ 0 < s.num ∨ ∀ i, (s.points i).isSet = true → (s.points i).addr = 0 := by
  by_cases hn : 0 < s.num
  · exact iff_of_true (cpuctrlIsBreakPoint_of_pos hn) (.inl hn)
  simp only [BreakState.Exact, cpuctrlIsBreakPoint_of_not_pos h0 hn, hn, false_or]
  constructor
  · intro h i hi
    exact (h _).2 ⟨i, hi, rfl⟩
  · intro h addr
    constructor
    · rintro rfl
      exact ⟨0, by rw [h0], by rw [h0]⟩
    · rintro ⟨i, hi, rfl⟩
      exact h i hi

/-! ## The counter along a run -/

structure BreakState.Counted (s : BreakState) (d : Nat) : Prop where
  first : s.FirstEntry
  num : s.num = (s.entries .forever).card - d

theorem BreakState.counted_init : BreakState.init.Counted 0 where
  first := rfl
  num := by
    have : BreakState.init.entries .forever = ∅ := by
      ext i
      simp only [mem_entries, BreakState.init, Finset.notMem_empty, iff_false]
      rintro ⟨hi, hs, -⟩
      simp [hi] at hs
    rw [this]; rfl

theorem BreakState.entries_update (hi : i ≠ 0) (hfree : (s.points i).isSet = false) (n : Int)
    (type type' : BreakPointEumType) (addr : BitVec 32) :
    BreakState.entries ⟨n, update s.points i ⟨true, type, addr⟩⟩ type' =
      if type = type' then insert i (s.entries type') else s.entries type' := by
  ext j
  by_cases hj : j = i
  · subst hj
    split <;> simp_all
  · split <;> simp [hj]

theorem BreakState.counted_setBreak (h : s.Counted d)
    (addr : BitVec 32) (type : BreakPointEumType) : (cpuctrlSetBreak s addr type).1.Counted d := by
  unfold cpuctrlSetBreak
  split
  · exact h
  split
  · next i hfind =>
    have hfree : (s.points i).isSet = false := by simpa using find?_some hfind
    have hi : i ≠ 0 := by
      rintro rfl
      rw [h.first] at hfree
      cases hfree
    have hnot : i ∉ s.entries .forever := by simp [hfree]
    refine ⟨?_, ?_⟩
    · show update s.points i _ 0 = _
      rw [update_of_ne hi.symm]
      exact h.first
    · rw [BreakState.entries_update hi hfree]
      have hn := h.num
      cases type with
      | forever =>
        simp only [if_true, Finset.card_insert_of_notMem hnot, ne_eq, reduceCtorEq,
          not_false_eq_true]
        omega
      | onlyOnce => simpa using hn
  · exact h

theorem BreakState.entries_delBreakAt (s : BreakState) (i : Fin breakSetsize)
    (type : BreakPointEumType) : (delBreakAt s i).entries type = (s.entries type).erase i := by
  ext j
  by_cases hi : i = 0
  · subst hi
    simp [delBreakAt]
  · by_cases hj : j = i
    · subst hj; simp [delBreakAt, hi]
    · simp [delBreakAt, hi, hj]

theorem num_delBreakAt (s : BreakState) (hi : i ≠ 0) :
    (delBreakAt s i).num =
      s.num - (if i ∈ s.entries .forever then 1 else 0) -
        (if i ∈ s.entries .onlyOnce then 1 else 0) := by
  simp only [delBreakAt, BreakState.mem_entries, ne_eq, hi, not_false_eq_true, true_and]
  cases hs : (s.points i).isSet <;> cases ht : (s.points i).type <;> simp

theorem BreakState.firstEntry_delBreakAt (h : s.FirstEntry)
    (i : Fin breakSetsize) : (delBreakAt s i).FirstEntry := by
  unfold delBreakAt
  split
  · exact h
  · next hi =>
    show update s.points i _ 0 = _
    rw [update_of_ne (Ne.symm hi)]
    exact h

theorem BreakState.counted_delBreakAt (h : s.Counted d) (i : Fin breakSetsize) :
    (delBreakAt s i).Counted (if i ∈ s.entries .onlyOnce then d + 1 else d) := by
  by_cases hi : i = 0
  · subst hi
    simpa [delBreakAt] using h
  refine ⟨BreakState.firstEntry_delBreakAt h.first i, ?_⟩
  have hn := h.num
  rw [num_delBreakAt s hi, BreakState.entries_delBreakAt s]
  by_cases hf : i ∈ s.entries .forever
  · have hpos := Finset.card_pos.2 ⟨i, hf⟩
    have ho : i ∉ s.entries .onlyOnce := by
      simp only [BreakState.mem_entries] at hf ⊢
      rintro ⟨-, -, ht⟩
      rw [hf.2.2] at ht
      cases ht
    rw [if_pos hf, if_neg ho, if_neg ho, Finset.card_erase_of_mem hf]
    omega
  · rw [if_neg hf, Finset.erase_eq_of_notMem hf]
    split <;> omega

theorem entries_delAllBreakPass (s : BreakState) (type type' : BreakPointEumType) (i : Fin breakSetsize) :
    (if (s.points i).type = type then delBreakAt s i else s).entries type' =
      if type' = type then (s.entries type').erase i else s.entries type' := by
  split_ifs with h h' h'
  · exact s.entries_delBreakAt i type'
  · rw [s.entries_delBreakAt, Finset.erase_eq_of_notMem]
    simp only [BreakState.mem_entries, h, not_and]
    exact fun _ _ ht => h' ht.symm
  · rw [Finset.erase_eq_of_notMem]
    simp only [BreakState.mem_entries, h', not_and]
    exact fun _ _ ht => h ht
  · rfl

theorem delAllBreakLoop_entries (type type' : BreakPointEumType) (is : List (Fin breakSetsize))
    (s : BreakState) :
    (delAllBreakLoop type is s).entries type' =
      if type' = type then s.entries type' \ is.toFinset else s.entries type' := by
  induction is generalizing s with
  | nil => simp [delAllBreakLoop]
  | cons i is ih =>
    rw [delAllBreakLoop, ih, entries_delAllBreakPass]
    split_ifs
    · rw [toFinset_cons, Finset.sdiff_insert, Finset.erase_sdiff_comm]
    · rfl

theorem delAllBreakLoop_finRange (type : BreakPointEumType) (s : BreakState) :
    (delAllBreakLoop type (finRange breakSetsize) s).entries type = ∅ := by
  rw [delAllBreakLoop_entries, if_pos rfl, Finset.sdiff_eq_empty_iff_subset]
  intro i _
  simp

theorem BreakState.counted_delAllBreakLoop (type : BreakPointEumType) (is : List (Fin breakSetsize))
    (h : s.Counted d) :
    ∃ d', (delAllBreakLoop type is s).Counted d' ∧
      d' + ((delAllBreakLoop type is s).entries .onlyOnce).card =
        d + (s.entries .onlyOnce).card := by
  induction is generalizing s d with
  | nil => exact ⟨d, h, rfl⟩
  | cons i is ih =>
    rw [delAllBreakLoop]
    split_ifs with ht
    · obtain ⟨d', hd', hsum⟩ := ih (BreakState.counted_delBreakAt h i)
      refine ⟨d', hd', hsum.trans ?_⟩
      rw [s.entries_delBreakAt]
      split_ifs with hi
      · have hpos := Finset.card_pos.2 ⟨i, hi⟩
        rw [Finset.card_erase_of_mem hi]
        omega
      · rw [Finset.erase_eq_of_notMem hi]
    · exact ih h

theorem toNat_eq_zero_of_not_pos {index : BitVec 32} (h : ¬ index > 0) : index.toNat = 0 := by
  have h' : ¬ (0 : BitVec 32).toNat < index.toNat := h
  simpa using h'

theorem cpuctrlDelAllBreak_forever (s : BreakState) :
    cpuctrlDelAllBreak s .forever =
      { delAllBreakLoop .forever (finRange breakSetsize) s with num := 0 } := by
  simp [cpuctrlDelAllBreak]

theorem cpuctrlDelAllBreak_onlyOnce (s : BreakState) :
    cpuctrlDelAllBreak s .onlyOnce = delAllBreakLoop .onlyOnce (finRange breakSetsize) s := by
  simp [cpuctrlDelAllBreak]

theorem BreakState.counted_delBreak {s s' : BreakState} {index : BitVec 32} {out : Bool}
    (h : s.Counted d) (hdel : cpuctrlDelBreak s index = some (s', out)) :
    s'.Counted (onceDeletedStep s d (.delBreak index)) := by
  unfold cpuctrlDelBreak at hdel
  split_ifs at hdel with hpos hlt
  · cases hdel
    have hmem : (∃ i : Fin breakSetsize, i.val = index.toNat ∧ i ∈ s.entries .onlyOnce) ↔
        (⟨index.toNat, hlt⟩ : Fin breakSetsize) ∈ s.entries .onlyOnce := by
      constructor
      · rintro ⟨i, hi, hmem⟩
        rwa [show (⟨index.toNat, hlt⟩ : Fin breakSetsize) = i from Fin.ext hi.symm]
      · exact fun hmem => ⟨_, rfl, hmem⟩
    simp only [onceDeletedStep, hmem]
    exact BreakState.counted_delBreakAt h _
  · cases hdel
    have hzero := toNat_eq_zero_of_not_pos hpos
    have hmem : ¬ ∃ i : Fin breakSetsize, i.val = index.toNat ∧ i ∈ s.entries .onlyOnce := by
      rintro ⟨i, hi, hmem⟩
      exact (BreakState.mem_entries.1 hmem).1 (Fin.ext (hi.trans hzero))
    rw [onceDeletedStep, if_neg hmem]
    exact h

theorem BreakState.counted_delAllBreak (h : s.Counted d) (type : BreakPointEumType) :
    (cpuctrlDelAllBreak s type).Counted (onceDeletedStep s d (.delAllBreak type)) := by
  obtain ⟨d', hd', hsum⟩ := BreakState.counted_delAllBreakLoop type (finRange breakSetsize) h
  have hempty := delAllBreakLoop_finRange type s
  cases type with
  | forever =>
    rw [cpuctrlDelAllBreak_forever]
    generalize delAllBreakLoop .forever (finRange breakSetsize) s = s' at hd' hempty
    refine ⟨hd'.first, ?_⟩
    show (0 : Int) = (s'.entries .forever).card - (0 : Nat)
    rw [hempty]
    rfl
  | onlyOnce =>
    rw [hempty, Finset.card_empty, Nat.add_zero] at hsum
    rw [cpuctrlDelAllBreak_onlyOnce, onceDeletedStep, ← hsum]
    exact hd'

theorem BreakState.counted_step {s s' : BreakState} {op : BreakOp} {out : Option Bool}
    (h : s.Counted d) (hstep : breakStep s op = some (s', out)) :
    s'.Counted (onceDeletedStep s d op) := by
  cases op with
  | setBreak addr type =>
    cases hstep
    exact BreakState.counted_setBreak h addr type
  | delBreak index =>
    obtain ⟨⟨s₁, ok⟩, hdel, heq⟩ := Option.map_eq_some_iff.1 hstep
    cases heq
    exact BreakState.counted_delBreak h hdel
  | delAllBreak type =>
    cases hstep
    exact BreakState.counted_delAllBreak h type

theorem BreakState.counted_run (ops : List BreakOp) {s s' : BreakState}
    {outs : List (Option Bool)} (h : s.Counted d) (hrun : run breakStep s ops = some (s', outs)) :
    s'.Counted (onceDeleted s d ops) := by
  induction ops generalizing s d outs with
  | nil =>
    obtain rfl := eq_of_run_nil hrun
    exact h
  | cons op ops ih =>
    obtain ⟨s₁, out, outs', hstep, htail, -⟩ := run_cons_eq_some.1 hrun
    rw [onceDeleted, hstep]
    exact ih (BreakState.counted_step h hstep) htail

theorem breakStep_isSome_iff (s : BreakState) (op : BreakOp) :
    (∃ s' out, breakStep s op = some (s', out)) ↔
      ∀ index, op = .delBreak index → index.toNat < breakSetsize := by
  cases op with
  | setBreak addr type => simp [breakStep]
  | delAllBreak type => simp [breakStep]
  | delBreak index =>
    simp only [breakStep, cpuctrlDelBreak, BreakOp.delBreak.injEq, forall_eq']
    split_ifs with hpos hlt
    · simp [hlt]
    · simp [hlt]
    · simp [toNat_eq_zero_of_not_pos hpos]

theorem breakStep_run_isSome (ops : List BreakOp) (s : BreakState) :
    (∃ s' outs, run breakStep s ops = some (s', outs)) ↔
      ∀ index, BreakOp.delBreak index ∈ ops → index.toNat < breakSetsize := by
  induction ops generalizing s with
  | nil => simp [run_nil]
  | cons op ops ih =>
    simp only [exists_run_cons, ih, mem_cons]
    constructor
    · rintro ⟨s₁, out, hstep, hrest⟩ index (rfl | hmem)
      · exact (breakStep_isSome_iff s _).1 ⟨s₁, out, hstep⟩ index rfl
      · exact hrest index hmem
    · intro h
      obtain ⟨s₁, out, hstep⟩ :=
        (breakStep_isSome_iff s op).2 fun index hidx => h index (.inl hidx.symm)
      exact ⟨s₁, out, hstep, fun index hmem => h index (.inr hmem)⟩

/-! ## The lookup in every reachable state -/

/-- **When breakpoints work.** A run of calls has a result in which every lookup answers the table
exactly when each index it deletes is one of the table and, in the table it reaches, either fewer
single-stop entries have been deleted since the last deletion of all others than entries are set for
ever, or every set entry is at address 0. -/
theorem breakpoint_lookup_exact_iff (ops : List BreakOp) :
    (∃ s outs, run breakStep .init ops = some (s, outs) ∧ s.Exact) ↔
      (∀ index, BreakOp.delBreak index ∈ ops → index.toNat < breakSetsize) ∧
      ∀ s outs, run breakStep .init ops = some (s, outs) →
        onceDeleted .init 0 ops < (s.entries .forever).card ∨
        ∀ i, (s.points i).isSet = true → (s.points i).addr = 0 := by
  have hexact : ∀ s outs, run breakStep .init ops = some (s, outs) →
      (s.Exact ↔ onceDeleted .init 0 ops < (s.entries .forever).card ∨
        ∀ i, (s.points i).isSet = true → (s.points i).addr = 0) := by
    intro s outs hrun
    have hc := BreakState.counted_run ops BreakState.counted_init hrun
    have hpos : 0 < s.num ↔ onceDeleted .init 0 ops < (s.entries .forever).card := by
      rw [hc.num]; omega
    rw [BreakState.exact_iff hc.first, hpos]
  rw [← breakStep_run_isSome ops .init]
  constructor
  · rintro ⟨s, outs, hrun, hex⟩
    refine ⟨⟨s, outs, hrun⟩, fun s' outs' hrun' => ?_⟩
    cases hrun.symm.trans hrun'
    exact (hexact s outs hrun).1 hex
  · rintro ⟨⟨s, outs, hrun⟩, h⟩
    exact ⟨s, outs, hrun, (hexact s outs hrun).2 (h s outs hrun)⟩

/-- Three runs in which the debugger does not do what its table says. A `return` sets its entry and
the lookup misses it; a stop deletes such an entry and with it the lookup of an entry set for ever;
and a `delete` of index 128 has no result. -/
theorem breakpoint_lookup_misses :
    (run breakStep .init [.setBreak 0x100 .onlyOnce]).map
        (fun r => (r.1.points 1, cpuctrlIsBreakPoint r.1 0x100)) =
      some (⟨true, .onlyOnce, 0x100⟩, false) ∧
    (run breakStep .init
        [.setBreak 0x100 .forever, .setBreak 0x200 .onlyOnce, .delAllBreak .onlyOnce]).map
        (fun r => (r.1.points 1, cpuctrlIsBreakPoint r.1 0x100)) =
      some (⟨true, .forever, 0x100⟩, false) ∧
    (run breakStep .init [.delBreak 128]).isNone := by
  decide +kernel

end Athrill
