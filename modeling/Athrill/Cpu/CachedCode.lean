import Athrill.Lib.MemoSearch
import Athrill.Lib.Run
import Athrill.StdTypes

/-!
# Cached code (`cpu/cpu.h`)

A target decodes the instructions of the executable ranges once and keeps them. Main result:
`virtual_cpu_cached_code_found_iff`.
-/

namespace Athrill

open Machine MemoSearch

variable {W : Nat}

structure CachedOperationCodeType (W : Nat) where
  codeStartAddr : AthrillAddrType W
  codeSize : UInt32

def CachedOperationCodeType.contains (c : CachedOperationCodeType W) (pc : AthrillAddrType W) : Bool :=
  decide (c.codeStartAddr ≤ pc) && decide (pc < c.codeStartAddr + BitVec.ofNat W c.codeSize.toNat)

/-- The list `cached_code`, and for each unit the entry found last. -/
structure CachedCodes (W : Nat) where
  cachedCode : List (CachedOperationCodeType W)
  last : Nat → Option Nat

def CachedCodes.init : CachedCodes W := ⟨[], fun _ => none⟩

def virtualCpuGetCachedCode (s : CachedCodes W) (unit : Nat) (pc : AthrillAddrType W) :
    Option Nat × CachedCodes W :=
  match (s.last unit).filter fun i => (s.cachedCode[i]?).any (·.contains pc) with
  | some i => (some i, s)
  | none =>
    match s.cachedCode.findIdx? (·.contains pc) with
    | some i => (some i, { s with last := Function.update s.last unit (some i) })
    | none => (none, s)

def virtualCpuAddCachedCode (s : CachedCodes W) (c : CachedOperationCodeType W) : CachedCodes W :=
  { s with cachedCode := s.cachedCode ++ [c] }

def virtualCpuCacheCodeAddWithCheck (s : CachedCodes W) (unit : Nat) (memsz : UInt32)
    (startAddr : AthrillAddrType W) : CachedCodes W :=
  match virtualCpuGetCachedCode s unit startAddr with
  | (some _, s') => s'
  | (none, s') => virtualCpuAddCachedCode s' ⟨startAddr, memsz⟩

/-! ## Requests and lookups -/

structure CodeRange (W : Nat) where
  startAddr : AthrillAddrType W
  memsz : UInt32
  fits : startAddr.toNat + memsz.toNat ≤ 2 ^ W

/-- An address inside the range that a code cache was asked for. -/
def CodeRange.Has (r : CodeRange W) (pc : AthrillAddrType W) : Prop :=
  r.startAddr.toNat ≤ pc.toNat ∧ pc.toNat < r.startAddr.toNat + r.memsz.toNat

inductive CodeCall (W : Nat)
  | add (unit : Nat) (r : CodeRange W)
  | get (unit : Nat) (pc : AthrillAddrType W)

/-- The cached code, with the ranges asked for so far. -/
structure CodeState (W : Nat) where
  codes : CachedCodes W
  requested : List (CodeRange W)

def codeStep (s : CodeState W) : CodeCall W → Option (CodeState W × Option Nat)
  | .add unit r =>
    some (⟨virtualCpuCacheCodeAddWithCheck s.codes unit r.memsz r.startAddr, r :: s.requested⟩, none)
  | .get unit pc =>
    let got := virtualCpuGetCachedCode s.codes unit pc
    some (⟨got.2, s.requested⟩, got.1)

def Finds (s : CachedCodes W) (pc : AthrillAddrType W) : Prop :=
  ∀ unit, ∃ i c, (virtualCpuGetCachedCode s unit pc).1 = some i ∧ s.cachedCode[i]? = some c ∧
    c.codeStartAddr.toNat ≤ pc.toNat ∧ pc.toNat < c.codeStartAddr.toNat + c.codeSize.toNat

/-- Every address of a range that was asked for has cached code. -/
def RequestedFound (s : CodeState W) : Prop :=
  ∀ r ∈ s.requested, ∀ pc, r.Has pc → Finds s.codes pc

def CachedCodes.covers (s : CachedCodes W) (pc : AthrillAddrType W) : Bool :=
  s.cachedCode.any (·.contains pc)

def RequestFits (s : CodeState W) : CodeCall W → Prop
  | .add _ r =>
    (s.codes.covers r.startAddr = false ∧ r.startAddr.toNat + r.memsz.toNat < 2 ^ W) ∨
      ∀ pc, r.Has pc → s.codes.covers pc = true
  | .get _ _ => True

section
variable {s : CachedCodes W} {c : CachedOperationCodeType W} {unit : Nat} {pc : AthrillAddrType W}

theorem contains_iff (hW : 32 ≤ W) : c.contains pc = true ↔
    c.codeStartAddr.toNat ≤ pc.toNat ∧ pc.toNat < c.codeStartAddr.toNat + c.codeSize.toNat ∧
      c.codeStartAddr.toNat + c.codeSize.toNat < 2 ^ W := by
  have hpow : 2 ^ 32 ≤ 2 ^ W := Nat.pow_le_pow_right (by decide) hW
  have hsize : c.codeSize.toNat < 2 ^ 32 := c.codeSize.toNat_lt
  have hstart := c.codeStartAddr.isLt
  simp only [CachedOperationCodeType.contains, Bool.and_eq_true, decide_eq_true_eq, BitVec.le_def,
    BitVec.lt_def, BitVec.toNat_add, BitVec.toNat_ofNat, Nat.mod_eq_of_lt (hsize.trans_le hpow)]
  by_cases hwrap : c.codeStartAddr.toNat + c.codeSize.toNat < 2 ^ W
  · rw [Nat.mod_eq_of_lt hwrap]
    omega
  · rw [Nat.mod_eq_sub_mod (by omega), Nat.mod_eq_of_lt (by omega)]
    omega

theorem virtualCpuGetCachedCode_search (s : CachedCodes W) (unit : Nat) (pc : AthrillAddrType W) :
    ((virtualCpuGetCachedCode s unit pc).1, (virtualCpuGetCachedCode s unit pc).2.last unit) =
      Prod.map Outcome.index id
        (search CachedOperationCodeType.contains (fun _ => true) s.cachedCode (s.last unit) pc) := by
  have hhit : memoHit CachedOperationCodeType.contains (fun _ => true) s.cachedCode (s.last unit) pc =
      (s.last unit).filter fun i => (s.cachedCode[i]?).any (·.contains pc) := rfl
  have hscan := @firstMatch_index _ _ CachedOperationCodeType.contains s.cachedCode pc
  rw [virtualCpuGetCachedCode, search, hhit]
  cases (s.last unit).filter fun i => (s.cachedCode[i]?).any (·.contains pc) with
  | some i => rfl
  | none =>
    rw [← hscan]
    cases firstMatch CachedOperationCodeType.contains (fun _ => true) s.cachedCode pc with
    | found i => simp [Outcome.index]
    | dead | absent => rfl

theorem virtualCpuGetCachedCode_eq (s : CachedCodes W) (unit : Nat) (pc : AthrillAddrType W) :
    (virtualCpuGetCachedCode s unit pc).1 =
      (search CachedOperationCodeType.contains (fun _ => true) s.cachedCode (s.last unit) pc).1.index :=
  congrArg Prod.fst (virtualCpuGetCachedCode_search s unit pc)

theorem cachedCode_get : (virtualCpuGetCachedCode s unit pc).2.cachedCode = s.cachedCode := by
  unfold virtualCpuGetCachedCode
  split
  · rfl
  · split <;> rfl

theorem contains_of_get {i : Nat} (h : (virtualCpuGetCachedCode s unit pc).1 = some i) :
    ∃ c, s.cachedCode[i]? = some c ∧ c.contains pc = true := by
  rw [virtualCpuGetCachedCode_eq, Outcome.index_eq_some] at h
  obtain ⟨c, hc, -, hcontains⟩ := covers_of_search h
  exact ⟨c, hc, hcontains⟩

theorem get_eq_none_iff : (virtualCpuGetCachedCode s unit pc).1 = none ↔ s.covers pc = false := by
  constructor
  · intro h
    unfold virtualCpuGetCachedCode at h
    split at h
    · cases h
    · split at h
      · cases h
      · next hfind =>
        rw [List.findIdx?_eq_none_iff] at hfind
        rw [CachedCodes.covers, List.any_eq_false]
        exact fun c hc => by simp [hfind c hc]
  · intro h
    have hnone : ∀ c ∈ s.cachedCode, c.contains pc = false := by
      simpa [CachedCodes.covers, List.any_eq_false] using h
    rw [virtualCpuGetCachedCode_eq, search_eq_absent hnone]
    rfl

theorem finds_iff (hW : 32 ≤ W) : Finds s pc ↔ s.covers pc = true := by
  constructor
  · intro h
    obtain ⟨i, c, hget, -⟩ := h 0
    rw [← Bool.not_eq_false, ← @get_eq_none_iff W s 0, hget]
    simp
  · intro h unit
    rcases hget : (virtualCpuGetCachedCode s unit pc).1 with _ | i
    · rw [get_eq_none_iff.1 hget] at h
      cases h
    · obtain ⟨c, hc, hcontains⟩ := contains_of_get hget
      obtain ⟨hlow, hhigh, -⟩ := (contains_iff hW).1 hcontains
      exact ⟨i, c, rfl, hc, hlow, hhigh⟩

theorem covers_get : (virtualCpuGetCachedCode s unit pc).2.covers = s.covers := by
  funext pc'
  rw [CachedCodes.covers, CachedCodes.covers, cachedCode_get]

theorem covers_add {memsz : UInt32} {startAddr : AthrillAddrType W} :
    (virtualCpuCacheCodeAddWithCheck s unit memsz startAddr).covers pc =
      (s.covers pc || !s.covers startAddr && CachedOperationCodeType.contains ⟨startAddr, memsz⟩ pc) := by
  unfold virtualCpuCacheCodeAddWithCheck
  rcases hget : virtualCpuGetCachedCode s unit startAddr with ⟨_ | i, s'⟩
  · have hnone : s.covers startAddr = false := get_eq_none_iff.1 (by rw [hget])
    have hcodes : s'.cachedCode = s.cachedCode := by rw [← @cachedCode_get W s unit startAddr, hget]
    rw [hnone]
    simp [virtualCpuAddCachedCode, CachedCodes.covers, hcodes]
  · have hsome : s.covers startAddr = true := by
      rw [← Bool.not_eq_false, ← @get_eq_none_iff W s unit, hget]
      simp
    have hcodes : s'.covers = s.covers := by rw [← @covers_get W s unit startAddr, hget]
    simp [hsome, hcodes]

end

theorem requestedFound_step (hW : 32 ≤ W) {s : CodeState W} (h : RequestedFound s) (e : CodeCall W) :
    ∃ s' o, codeStep s e = some (s', o) ∧ (RequestedFound s' ↔ RequestFits s e) := by
  simp only [RequestedFound, finds_iff hW] at h
  cases e with
  | get unit pc =>
    refine ⟨_, _, rfl, iff_of_true (fun r hr pc' hpc' => ?_) trivial⟩
    rw [finds_iff hW, covers_get]
    exact h r hr pc' hpc'
  | add unit r =>
    refine ⟨_, _, rfl, ?_⟩
    simp only [RequestedFound, finds_iff hW, List.forall_mem_cons, covers_add, RequestFits]
    have hrest : ∀ r' ∈ s.requested, ∀ pc, r'.Has pc → (s.codes.covers pc ||
        !s.codes.covers r.startAddr &&
          CachedOperationCodeType.contains ⟨r.startAddr, r.memsz⟩ pc) = true :=
      fun r' hr' pc hpc => by rw [h r' hr' pc hpc, Bool.true_or]
    rw [and_iff_left hrest]
    by_cases hfirst : s.codes.covers r.startAddr = true
    · simp [hfirst]
    · rw [Bool.not_eq_true] at hfirst
      by_cases hend : r.startAddr.toNat + r.memsz.toNat < 2 ^ W
      · -- the new range contains all its addresses
        refine iff_of_true (fun pc hpc => ?_) (.inl ⟨hfirst, hend⟩)
        have hcontains : CachedOperationCodeType.contains ⟨r.startAddr, r.memsz⟩ pc = true :=
          (contains_iff hW).2 ⟨hpc.1, hpc.2, hend⟩
        rw [hfirst, hcontains]
        simp
      · -- it contains none of them
        have hcontains : ∀ pc, CachedOperationCodeType.contains ⟨r.startAddr, r.memsz⟩ pc = false :=
          fun pc => Bool.eq_false_iff.2 fun htrue => hend ((contains_iff hW).1 htrue).2.2
        simp [hcontains, hend]

/-- **Cached code.** In every sequence of requests and lookups, every address of every range that was
requested is found after each call, in every translation unit, exactly if every request fits: it is one of
a range that ends before the end of the address space and whose first address is not cached yet, or of one
that is cached as a whole. -/
theorem virtual_cpu_cached_code_found_iff (hW : 32 ≤ W) (calls : List (CodeCall W)) :
    (∀ pre s os, pre <+: calls → run codeStep ⟨.init, []⟩ pre = some (s, os) → RequestedFound s) ↔
      StepsMeet codeStep RequestFits ⟨.init, []⟩ calls :=
  forall_prefix_iff_stepsMeet RequestedFound (fun _ e h => requestedFound_step hW h e) calls
    fun _ hr => by cases hr

def lowRange : CodeRange 32 := ⟨256, 16, by decide⟩

def longRange : CodeRange 32 := ⟨256, 64, by decide⟩

theorem virtual_cpu_cached_code_found_once : ∃ s os,
    run codeStep ⟨.init, []⟩ [.add 0 lowRange, .get 1 256] = some (s, os) ∧ RequestedFound s := by
  have hfits : StepsMeet codeStep RequestFits ⟨.init, []⟩ [.add 0 lowRange, .get 1 256] :=
    ⟨.inl ⟨rfl, by decide⟩, fun _ _ _ => ⟨trivial, fun _ _ _ => trivial⟩⟩
  exact ⟨_, _, rfl, (virtual_cpu_cached_code_found_iff (by decide) _).2 hfits _ _ _
    (List.prefix_refl _) rfl⟩

/-- The longer range is not added, since its first address is cached. -/
theorem virtual_cpu_cached_code_lost : ∃ s os,
    run codeStep ⟨.init, []⟩ [.add 0 lowRange, .add 0 longRange] = some (s, os) ∧
      ¬ RequestedFound s := by
  refine ⟨_, _, rfl, fun h => ?_⟩
  obtain ⟨i, -, hget, -⟩ := h longRange (.head _) 300 ⟨by decide, by decide⟩ 0
  cases hget

end Athrill
