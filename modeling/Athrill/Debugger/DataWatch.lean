import Athrill.Lib.MemoSearch
import Athrill.Lib.Run
import Athrill.StdTypes

/-!
# Data watch points (`executor/cpu_control/dbg_cpu_control.c`)

The debugger keeps its watch points in a table of 128 entries, at most one for an address. Main result:
`cpuctrl_is_break_access_lowest_iff`.
-/

namespace Athrill

open Machine MemoSearch Function

/-! ## The source -/

inductive DataWatchPointEumType
  | read
  | write
  | rw
  deriving DecidableEq, Repr

structure DbgCpuCtrlDataWatchType where
  isSet : Bool
  type : DataWatchPointEumType
  addr : BitVec 32
  size : BitVec 32
  deriving DecidableEq, Repr

abbrev watchDataSetsize : Nat := 128

abbrev DataWatchPoints := Fin watchDataSetsize → DbgCpuCtrlDataWatchType

def DataWatchPoints.init : DataWatchPoints := fun _ => ⟨false, .read, 0, 0⟩

def searchDataWatch (t : DataWatchPoints) (addr : BitVec 32) : Option (Fin watchDataSetsize) :=
  (List.finRange watchDataSetsize).find? fun i => (t i).isSet && (t i).addr == addr

def searchFreeDataWatch (t : DataWatchPoints) : Option (Fin watchDataSetsize) :=
  (List.finRange watchDataSetsize).find? fun i => !(t i).isSet

def cpuctrlSetDataWatch (t : DataWatchPoints) (watchType : DataWatchPointEumType) (addr size : BitVec 32) :
    DataWatchPoints × Bool :=
  match searchDataWatch t addr with
  | some i => (update t i { t i with type := watchType, addr := addr, size := size }, true)
  | none =>
    match searchFreeDataWatch t with
    | some i => (update t i ⟨true, watchType, addr, size⟩, true)
    | none => (t, false)

def delDataWatchAt (t : DataWatchPoints) (i : Fin watchDataSetsize) : DataWatchPoints :=
  update t i { t i with isSet := false }

def cpuctrlDelDataWatchPoint (t : DataWatchPoints) (delno : BitVec 32) : DataWatchPoints × Bool :=
  if h : delno.toNat < watchDataSetsize then (delDataWatchAt t ⟨delno.toNat, h⟩, true) else (t, false)

def cpuctrlDelAllDataWatchPoints (t : DataWatchPoints) : DataWatchPoints :=
  (List.finRange watchDataSetsize).foldl delDataWatchAt t

variable {W : Nat}

def breakAccessAt (skipped : DataWatchPointEumType) (accessAddr : AthrillAddrType W) (size : BitVec 32)
    (w : DbgCpuCtrlDataWatchType) : Bool :=
  let accessEnd : BitVec 32 := (accessAddr + size.setWidth W).setWidth 32
  let watchStart := w.addr
  let watchEnd := watchStart + w.size
  if w.isSet = false then false
  else if w.type = skipped then false
  else if accessEnd ≤ watchStart then false
  else if accessAddr ≥ watchEnd.setWidth W then false
  else true

def isBreakAccess (skipped : DataWatchPointEumType) (t : DataWatchPoints) (accessAddr : AthrillAddrType W)
    (size : BitVec 32) : Int :=
  match (List.finRange watchDataSetsize).find? fun i => breakAccessAt skipped accessAddr size (t i) with
  | some i => i.val
  | none => -1

def cpuctrlIsBreakReadAccess (t : DataWatchPoints) (accessAddr : AthrillAddrType W) (size : BitVec 32) : Int :=
  isBreakAccess .write t accessAddr size

def cpuctrlIsBreakWriteAccess (t : DataWatchPoints) (accessAddr : AthrillAddrType W) (size : BitVec 32) :
    Int :=
  isBreakAccess .read t accessAddr size

inductive WatchOp
  | setDataWatch (watchType : DataWatchPointEumType) (addr size : BitVec 32)
  | delDataWatchPoint (delno : BitVec 32)
  | delAllDataWatchPoints
  deriving DecidableEq, Repr

def watchStep (t : DataWatchPoints) : WatchOp → DataWatchPoints × Option Bool
  | .setDataWatch watchType addr size =>
    ((cpuctrlSetDataWatch t watchType addr size).1, some (cpuctrlSetDataWatch t watchType addr size).2)
  | .delDataWatchPoint delno => ((cpuctrlDelDataWatchPoint t delno).1, some (cpuctrlDelDataWatchPoint t delno).2)
  | .delAllDataWatchPoints => (cpuctrlDelAllDataWatchPoints t, none)

def watchPoints (ops : List WatchOp) : DataWatchPoints := after watchStep .init ops

/-! ## What an access should hit -/

inductive WatchedAccess
  | read
  | write
  deriving DecidableEq, Repr

def isBreakOn (t : DataWatchPoints) (accessAddr : AthrillAddrType W) (size : BitVec 32) : WatchedAccess → Int
  | .read => cpuctrlIsBreakReadAccess t accessAddr size
  | .write => cpuctrlIsBreakWriteAccess t accessAddr size

def WatchedAccess.skipped : WatchedAccess → DataWatchPointEumType
  | .read => .write
  | .write => .read

section
variable (w : DbgCpuCtrlDataWatchType)

def DbgCpuCtrlDataWatchType.WatchesFor : WatchedAccess → Prop
  | .read => w.isSet = true ∧ (w.type = .read ∨ w.type = .rw)
  | .write => w.isSet = true ∧ (w.type = .write ∨ w.type = .rw)

def DbgCpuCtrlDataWatchType.Meets (accessAddr : AthrillAddrType W) (size : BitVec 32) : Prop :=
  ∃ x, (w.addr.toNat ≤ x ∧ x < w.addr.toNat + w.size.toNat) ∧
    accessAddr.toNat ≤ x ∧ x < accessAddr.toNat + size.toNat

def DbgCpuCtrlDataWatchType.Hit (kind : WatchedAccess) (accessAddr : AthrillAddrType W)
    (size : BitVec 32) : Prop :=
  w.WatchesFor kind ∧ w.Meets accessAddr size

/-- `r` is the number of the first watch point that the access hits, and -1 if it hits none. -/
def LowestHit (t : DataWatchPoints) (kind : WatchedAccess) (accessAddr : AthrillAddrType W)
    (size : BitVec 32) (r : Int) : Prop :=
  (∃ i : Fin watchDataSetsize, r = i.val ∧ (t i).Hit kind accessAddr size ∧
      ∀ j < i, ¬ (t j).Hit kind accessAddr size) ∨
    r = -1 ∧ ∀ i, ¬ (t i).Hit kind accessAddr size

/-- The watched range does not wrap in 32 bits. -/
def DbgCpuCtrlDataWatchType.Below : Prop :=
  w.addr.toNat + w.size.toNat ≤ 2 ^ 32

def WatchOp.Below : WatchOp → Prop
  | .setDataWatch _ addr size => addr.toNat + size.toNat ≤ 2 ^ 32
  | _ => True

def DbgCpuCtrlDataWatchType.Seen (accessAddr : AthrillAddrType W) (size : BitVec 32) : Prop :=
  if accessAddr.toNat + size.toNat < 2 ^ 32 then
    accessAddr.toNat + size.toNat ≤ w.addr.toNat ∨
      w.addr.toNat + w.size.toNat < 2 ^ 32 ∧ (w.size ≠ 0 ∨ w.addr.toNat ≤ accessAddr.toNat)
  else
    w.addr.toNat + w.size.toNat ≤ accessAddr.toNat ∨
      w.addr.toNat + w.size.toNat < 2 ^ 32 ∧
        (w.size = 0 ∨ w.addr.toNat + 2 ^ 32 < accessAddr.toNat + size.toNat)

end

/-- The comparison of the code is exact for every watch point of the kind, or for an earlier one that is hit.
-/
def AccessSeen (t : DataWatchPoints) (kind : WatchedAccess) (accessAddr : AthrillAddrType W)
    (size : BitVec 32) : Prop :=
  ∀ i, (t i).WatchesFor kind → (t i).Seen accessAddr size ∨
    ∃ j < i, (t j).Hit kind accessAddr size ∧ (t j).Seen accessAddr size

/-! ## The table -/

structure DataWatchPoints.Ok (t : DataWatchPoints) : Prop where
  below : ∀ i, (t i).isSet = true → (t i).Below
  distinct : ∀ i j, (t i).isSet = true → (t j).isSet = true → (t i).addr = (t j).addr → i = j

section
variable {t : DataWatchPoints} {i : Fin watchDataSetsize}

theorem DataWatchPoints.ok_init : DataWatchPoints.init.Ok where
  below _ h := by cases h
  distinct _ _ h := by cases h

theorem DataWatchPoints.Ok.update (h : t.Ok) {w : DbgCpuCtrlDataWatchType} (hw : w.Below)
    (hnew : ∀ j ≠ i, (t j).isSet = true → (t j).addr ≠ w.addr) :
    DataWatchPoints.Ok (update t i w) where
  below j hj := by
    by_cases hji : j = i
    · subst hji
      rwa [update_self]
    · rw [update_of_ne hji] at hj ⊢
      exact h.below j hj
  distinct j k hj hk heq := by
    by_cases hji : j = i <;> by_cases hki : k = i
    · rw [hji, hki]
    · rw [hji, update_self, update_of_ne hki] at heq
      rw [update_of_ne hki] at hk
      exact absurd heq.symm (hnew k hki hk)
    · rw [hki, update_self, update_of_ne hji] at heq
      rw [update_of_ne hji] at hj
      exact absurd heq (hnew j hji hj)
    · rw [update_of_ne hji] at hj heq
      rw [update_of_ne hki] at hk heq
      exact h.distinct j k hj hk heq

theorem DataWatchPoints.Ok.delAt (h : t.Ok) (i : Fin watchDataSetsize) : (delDataWatchAt t i).Ok := by
  have hset : ∀ j, (delDataWatchAt t i j).isSet = true →
      (t j).isSet = true ∧ delDataWatchAt t i j = t j := by
    intro j hj
    by_cases hji : j = i
    · rw [hji, delDataWatchAt, update_self] at hj
      cases hj
    · rw [delDataWatchAt, update_of_ne hji] at hj ⊢
      exact ⟨hj, rfl⟩
  refine ⟨fun j hj => ?_, fun j k hj hk heq => ?_⟩
  · rw [(hset j hj).2]
    exact h.below j (hset j hj).1
  · rw [(hset j hj).2, (hset k hk).2] at heq
    exact h.distinct j k (hset j hj).1 (hset k hk).1 heq

theorem DataWatchPoints.Ok.set (h : t.Ok) {watchType : DataWatchPointEumType} {addr size : BitVec 32}
    (hb : addr.toNat + size.toNat ≤ 2 ^ 32) : (cpuctrlSetDataWatch t watchType addr size).1.Ok := by
  unfold cpuctrlSetDataWatch
  rcases hfind : searchDataWatch t addr with _ | i
  · have hnone : ∀ j, (t j).isSet = true → (t j).addr ≠ addr := by
      simpa [searchDataWatch] using hfind
    rcases searchFreeDataWatch t with _ | i
    · exact h
    · exact h.update hb fun j _ hj => hnone j hj
  · obtain ⟨hset, haddr⟩ : (t i).isSet = true ∧ (t i).addr = addr := by
      simpa using List.find?_some hfind
    refine h.update hb fun j hji hj heq => hji ?_
    exact h.distinct j i hj hset (heq.trans haddr.symm)

theorem DataWatchPoints.Ok.step (h : t.Ok) {op : WatchOp} (hop : op.Below) : (watchStep t op).1.Ok := by
  cases op with
  | setDataWatch watchType addr size => exact h.set hop
  | delDataWatchPoint delno =>
    simp only [watchStep, cpuctrlDelDataWatchPoint]
    split_ifs
    · exact h.delAt _
    · exact h
  | delAllDataWatchPoints =>
    have hall : ∀ (is : List (Fin watchDataSetsize)) {t : DataWatchPoints}, t.Ok →
        DataWatchPoints.Ok (is.foldl delDataWatchAt t) := by
      intro is
      induction is with
      | nil => exact fun h => h
      | cons i is ih => exact fun h => ih (h.delAt i)
    exact hall _ h

theorem watchPoints_ok {ops : List WatchOp} (hops : ∀ op ∈ ops, op.Below) : (watchPoints ops).Ok :=
  after_invariant_of_forall_mem (P := WatchOp.Below) DataWatchPoints.Ok (fun _ _ h hop => h.step hop) hops
    DataWatchPoints.ok_init

end

/-! ## The search -/

section
variable {w : DbgCpuCtrlDataWatchType} {accessAddr : AthrillAddrType W} {size : BitVec 32}

theorem DbgCpuCtrlDataWatchType.meets_iff (hsize : size ≠ 0) : w.Meets accessAddr size ↔
    w.size ≠ 0 ∧ accessAddr.toNat < w.addr.toNat + w.size.toNat ∧
      w.addr.toNat < accessAddr.toNat + size.toNat := by
  have hn : 0 < size.toNat := Nat.pos_of_ne_zero fun h => hsize (BitVec.eq_of_toNat_eq h)
  have hz : w.size ≠ 0 ↔ 0 < w.size.toNat := by
    rw [Nat.pos_iff_ne_zero, ne_eq, ne_eq, ← BitVec.toNat_inj]
    rfl
  rw [hz]
  constructor
  · rintro ⟨x, hw, ha⟩
    omega
  · intro h
    exact ⟨max w.addr.toNat accessAddr.toNat, by omega, by omega⟩

theorem ends_compared (hW : 32 ≤ W) :
    (¬ (accessAddr + size.setWidth W).setWidth 32 ≤ w.addr ∧
        ¬ accessAddr ≥ (w.addr + w.size).setWidth W) ↔
      w.addr.toNat < (accessAddr.toNat + size.toNat) % 2 ^ 32 ∧
        accessAddr.toNat < (w.addr.toNat + w.size.toNat) % 2 ^ 32 := by
  have hpow : 2 ^ 32 ≤ 2 ^ W := Nat.pow_le_pow_right (by decide) hW
  have hsize : (size.setWidth W).toNat = size.toNat := by
    rw [BitVec.toNat_setWidth, Nat.mod_eq_of_lt (lt_of_lt_of_le size.isLt hpow)]
  have hend : ((accessAddr + size.setWidth W).setWidth 32).toNat =
      (accessAddr.toNat + size.toNat) % 2 ^ 32 := by
    rw [BitVec.toNat_setWidth, BitVec.toNat_add, hsize, Nat.mod_mod_of_dvd _ (Nat.pow_dvd_pow 2 hW)]
  have hwatch : ((w.addr + w.size).setWidth W).toNat = (w.addr.toNat + w.size.toNat) % 2 ^ 32 := by
    rw [BitVec.toNat_setWidth, BitVec.toNat_add, Nat.mod_eq_of_lt]
    exact lt_of_lt_of_le (Nat.mod_lt _ (by decide)) hpow
  rw [ge_iff_le, BitVec.le_def, BitVec.le_def, hend, hwatch, Nat.not_le, Nat.not_le]

theorem breakAccessAt_iff {skipped : DataWatchPointEumType} (hW : 32 ≤ W) :
    breakAccessAt skipped accessAddr size w = true ↔ (w.isSet = true ∧ w.type ≠ skipped) ∧
      w.addr.toNat < (accessAddr.toNat + size.toNat) % 2 ^ 32 ∧
        accessAddr.toNat < (w.addr.toNat + w.size.toNat) % 2 ^ 32 := by
  rw [← ends_compared hW]
  simp only [breakAccessAt]
  split_ifs <;> simp_all

theorem DbgCpuCtrlDataWatchType.Below.compared_iff_seen (hb : w.Below) (hsize : size ≠ 0) :
    ((w.addr.toNat < (accessAddr.toNat + size.toNat) % 2 ^ 32 ∧
        accessAddr.toNat < (w.addr.toNat + w.size.toNat) % 2 ^ 32) ↔ w.Meets accessAddr size) ↔
      w.Seen accessAddr size := by
  have hz : w.size = 0 ↔ w.size.toNat = 0 := by
    rw [← BitVec.toNat_inj]
    rfl
  have hn : 0 < size.toNat := Nat.pos_of_ne_zero fun h => hsize (BitVec.eq_of_toNat_eq h)
  have hlt := size.isLt
  have hw := w.addr.isLt
  have hb : w.addr.toNat + w.size.toNat ≤ 2 ^ 32 := hb
  rw [DbgCpuCtrlDataWatchType.meets_iff hsize, DbgCpuCtrlDataWatchType.Seen, ne_eq, hz]
  generalize w.addr.toNat = s at *
  generalize w.size.toNat = z at *
  generalize accessAddr.toNat = a at *
  generalize size.toNat = n at *
  -- A range that ends at the end of the address space ends at 0.
  have hend : (s + z) % 2 ^ 32 = if s + z < 2 ^ 32 then s + z else 0 := by
    split_ifs with h
    · exact Nat.mod_eq_of_lt h
    · rw [show s + z = 2 ^ 32 by omega, Nat.mod_self]
  rw [hend]
  split_ifs with htop hacc hacc
  · rw [Nat.mod_eq_of_lt hacc]
    omega
  · omega
  · omega
  · omega

variable {t : DataWatchPoints}

theorem DbgCpuCtrlDataWatchType.watchesFor_iff {kind : WatchedAccess} :
    w.WatchesFor kind ↔ w.isSet = true ∧ w.type ≠ kind.skipped := by
  cases kind <;> cases htype : w.type <;> simp [WatchesFor, WatchedAccess.skipped, htype]

theorem isBreakOn_eq {kind : WatchedAccess} :
    isBreakOn t accessAddr size kind = isBreakAccess kind.skipped t accessAddr size := by
  cases kind <;> rfl

theorem lowestHit_isBreakAccess {kind : WatchedAccess} {skipped : DataWatchPointEumType} :
    LowestHit t kind accessAddr size (isBreakAccess skipped t accessAddr size) ↔
      IsLowest (fun i => (t i).Hit kind accessAddr size)
        ((List.finRange watchDataSetsize).find? fun i => breakAccessAt skipped accessAddr size (t i)) := by
  unfold isBreakAccess LowestHit
  cases (List.finRange watchDataSetsize).find? fun i => breakAccessAt skipped accessAddr size (t i) with
  | none =>
    have hne : ∀ i : Fin watchDataSetsize, (-1 : Int) ≠ i.val := fun i => by omega
    simp [IsLowest, hne]
  | some k =>
    have hne : (k.val : Int) ≠ -1 := by omega
    simp only [hne, false_and, or_false, IsLowest, Nat.cast_inj, Fin.val_inj]
    exact exists_eq_left'

end

/-- **Data watch.** After every sequence of calls that set watch points up to the end of the address space
or delete them, and for every access, the index that `cpuctrl_is_break_read_access` or
`cpuctrl_is_break_write_access` returns is the lowest one of a watch point for such accesses whose range has
an address in common with the access, or -1 if there is none, if and only if every watch point for such
accesses is seen, up to one that is seen and hit. -/
theorem cpuctrl_is_break_access_lowest_iff (hW : 32 ≤ W) {ops : List WatchOp} (hops : ∀ op ∈ ops, op.Below)
    (kind : WatchedAccess) (accessAddr : AthrillAddrType W) {size : BitVec 32} (hsize : size ≠ 0) :
    LowestHit (watchPoints ops) kind accessAddr size (isBreakOn (watchPoints ops) accessAddr size kind) ↔
      AccessSeen (watchPoints ops) kind accessAddr size := by
  have hok := watchPoints_ok hops
  generalize watchPoints ops = t at hok ⊢
  have heach : ∀ i, (breakAccessAt kind.skipped accessAddr size (t i) = true ↔
      (t i).Hit kind accessAddr size) ↔ ((t i).WatchesFor kind → (t i).Seen accessAddr size) := by
    intro i
    rw [breakAccessAt_iff hW, ← DbgCpuCtrlDataWatchType.watchesFor_iff, DbgCpuCtrlDataWatchType.Hit,
      and_congr_right_iff]
    refine forall_congr' fun hfor => ?_
    exact (hok.below i (DbgCpuCtrlDataWatchType.watchesFor_iff.1 hfor).1).compared_iff_seen hsize
  have hboth : ∀ j, (breakAccessAt kind.skipped accessAddr size (t j) = true ∧
      (t j).Hit kind accessAddr size) ↔ (t j).Hit kind accessAddr size ∧ (t j).Seen accessAddr size := by
    intro j
    rw [and_comm]
    refine and_congr_right fun hhit => ?_
    rw [← forall_prop_of_true (q := fun _ => (t j).Seen accessAddr size) hhit.1, ← heach j]
    exact (iff_true_right hhit).symm
  rw [isBreakOn_eq, lowestHit_isBreakAccess, lowest_find?_iff]
  refine forall_congr' fun i => ?_
  simp only [heach i, hboth]
  tauto

theorem cpuctrl_is_break_read_access_found :
    LowestHit (watchPoints [.setDataWatch .rw 0x1000 4]) .read (0x1003 : AthrillAddrType 32) 1 0 := by
  have hops : ∀ op ∈ [WatchOp.setDataWatch .rw 0x1000 4], op.Below := by
    simp [WatchOp.Below]
  have htable : watchPoints [.setDataWatch .rw 0x1000 4] =
      update DataWatchPoints.init 0 ⟨true, .rw, 0x1000, 4⟩ := rfl
  have hsize : (1 : BitVec 32) ≠ 0 := by decide
  refine (cpuctrl_is_break_access_lowest_iff (by decide) hops .read 0x1003 hsize).2
    fun i hfor => .inl ?_
  rw [htable] at hfor ⊢
  by_cases hi : i = 0
  · subst hi
    rw [update_self]
    exact .inr (by decide)
  · rw [update_of_ne hi] at hfor
    cases hfor.1

/-- A watch point of the last four bytes of the address space is not found. -/
theorem cpuctrl_is_break_read_access_missed :
    (WatchOp.setDataWatch .rw 0xfffffffc 4).Below ∧
      isBreakOn (watchPoints [.setDataWatch .rw 0xfffffffc 4]) (0xfffffffc : AthrillAddrType 32) 2 .read = -1 ∧
      ¬ LowestHit (watchPoints [.setDataWatch .rw 0xfffffffc 4]) .read (0xfffffffc : AthrillAddrType 32) 2
        (-1) := by
  have hhit : (watchPoints [.setDataWatch .rw 0xfffffffc 4] 0).Hit .read (0xfffffffc : AthrillAddrType 32)
      2 := ⟨⟨rfl, .inr rfl⟩, 0xfffffffc, by decide, by decide⟩
  refine ⟨by simp [WatchOp.Below], rfl, ?_⟩
  rintro (⟨i, hi, -⟩ | ⟨-, hnone⟩)
  · omega
  · exact hnone 0 hhit

end Athrill
