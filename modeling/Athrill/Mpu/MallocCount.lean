import Athrill.Mpu.Malloc

/-!
# The counters of the guest allocator

Every unit keeps a counter of its free blocks beside its bitmap. Main result: `malloc_bitfreenum_exact_iff`.
-/

namespace Athrill

open Bitmap Machine List BitVec

variable {W : Nat}

/-! ## Sizes -/

theorem mallocDataInfo (i : MallocSizeType) :
    8 * mallocBitmapsize i = mallocBitmaxnum i ∧
      mallocBitmaxnum i = 64 * (mallocBitmapsize i / 8) ∧
      mallocMemsize i * mallocBitmaxnum i = mpuMallocUnitBytes ∧
      mallocBitmaxnum i < 2 ^ 16 := by
  revert i
  decide

theorem mallocMemsize_pos (i : MallocSizeType) : 0 < mallocMemsize i := by
  revert i
  decide

theorem MallocRegionUnitType.bitmap_length_eq {i : MallocSizeType} (u : MallocRegionUnitType W i) :
    u.bitmap.length = mallocBitmaxnum i :=
  u.bitmap_length.trans (mallocDataInfo i).1

/-! ## The search for a free bit -/

variable {bitmap : List Bool}

theorem exists_setBitInWord {w : Nat} (h : wordFull 64 bitmap w = false) :
    ∃ b, setBitInWord bitmap w = some b ∧ isFree bitmap (64 * w + b) = true := by
  cases hfound : setBitInWord bitmap w with
  | some b =>
    obtain ⟨bit8Off, hbyte, -⟩ := findSome?_finRange_eq_some.1 hfound
    obtain ⟨bit8Mod, hbit, -⟩ := findSome?_finRange_eq_some.1 hbyte
    split_ifs at hbit with hfree
    cases hbit
    exact ⟨_, rfl, hfree⟩
  | none =>
    obtain ⟨b, hb, hfree⟩ := exists_isFree_of_wordFull h
    have hbyte := findSome?_finRange_eq_none.1 hfound ⟨b / 8, by omega⟩
    have hbit := findSome?_finRange_eq_none.1 hbyte ⟨b % 8, by omega⟩
    simp only [Nat.div_add_mod, hfree, if_true] at hbit
    cases hbit

theorem isFree_of_setBit {bitmaxnum bitmapsize k : Nat}
    (h : setBit bitmap bitmaxnum bitmapsize = some k) : isFree bitmap k = true := by
  unfold setBit at h
  split at h
  · cases h
  · next w hw =>
    have hword : wordFull 64 bitmap w = false := by simpa using find?_some hw
    obtain ⟨b, hb, hfree⟩ := exists_setBitInWord hword
    dsimp only at h
    rw [hb, Option.getD_some] at h
    split_ifs at h
    cases h
    exact hfree

theorem not_isFree_of_setBitInWord {w b b' : Nat}
    (h : setBitInWord bitmap w = some b) (hlt : b' < b) : isFree bitmap (64 * w + b') = false := by
  obtain ⟨bit8Off, hbyte, hbytes⟩ := findSome?_finRange_eq_some.1 h
  obtain ⟨bit8Mod, hbit, hbits⟩ := findSome?_finRange_eq_some.1 hbyte
  split_ifs at hbit with hfree
  cases hbit
  have hmod := bit8Mod.isLt
  have hoff := bit8Off.isLt
  -- the bit is in an earlier byte, or earlier in the same byte
  have hnone : ∀ (o m : Fin 8), (if isFree bitmap (64 * w + (8 * o.val + m.val)) = true then
      some (8 * o.val + m.val) else none) = none → isFree bitmap (64 * w + (8 * o.val + m.val)) = false := by
    intro o m hif
    by_contra hne
    rw [if_pos (Bool.not_eq_false _ ▸ hne)] at hif
    cases hif
  rcases Nat.lt_or_ge (b' / 8) bit8Off.val with hlt' | hge
  · have hrow := findSome?_finRange_eq_none.1 (hbytes ⟨b' / 8, by omega⟩ hlt') ⟨b' % 8, by omega⟩
    have := hnone ⟨b' / 8, by omega⟩ ⟨b' % 8, by omega⟩ hrow
    rwa [Nat.div_add_mod] at this
  · have hrow := hbits ⟨b' - 8 * bit8Off.val, by omega⟩ (Fin.lt_def.2 (by dsimp only; omega))
    have := hnone bit8Off ⟨b' - 8 * bit8Off.val, by omega⟩ hrow
    rwa [show 8 * bit8Off.val + (b' - 8 * bit8Off.val) = b' by omega] at this

theorem not_isFree_of_setBit {bitmaxnum bitmapsize k j : Nat}
    (h : setBit bitmap bitmaxnum bitmapsize = some k) (hlt : j < k) : isFree bitmap j = false := by
  unfold setBit at h
  split at h
  · cases h
  · next w hw =>
    obtain ⟨-, -, hfull⟩ := find?_range_eq_some.1 hw
    have hword : wordFull 64 bitmap w = false := by simpa using find?_some hw
    obtain ⟨b, hb, -⟩ := exists_setBitInWord hword
    dsimp only at h
    rw [hb, Option.getD_some] at h
    split_ifs at h
    cases h
    rcases Nat.lt_or_ge (j / 64) w with hlow | hhigh
    · have hbits := hfull (j / 64) hlow
      simp only [Bool.not_not, wordFull, all_eq_true, mem_range, Bool.not_eq_true'] at hbits
      have := hbits (j % 64) (Nat.mod_lt _ (by decide))
      rwa [Nat.div_add_mod] at this
    · have := not_isFree_of_setBitInWord hb (show j - 64 * w < b by omega)
      rwa [show 64 * w + (j - 64 * w) = j by omega] at this

theorem not_mem_of_setBit {bitmaxnum bitmapsize : Nat}
    (hlen : bitmap.length = 64 * (bitmapsize / 8)) (hmax : bitmap.length ≤ bitmaxnum)
    (h : setBit bitmap bitmaxnum bitmapsize = none) : false ∉ bitmap := by
  unfold setBit at h
  split at h
  · next hw =>
    refine not_mem_of_wordFull hlen fun w hlt => ?_
    simpa using find?_eq_none.1 hw w (mem_range.2 hlt)
  · next w hw =>
    have hword : wordFull 64 bitmap w = false := by simpa using find?_some hw
    obtain ⟨b, hb, hfree⟩ := exists_setBitInWord hword
    dsimp only at h
    rw [hb, Option.getD_some] at h
    split_ifs at h with hover
    exact absurd (lt_of_isFree hfree) (by omega)

/-! ## Units -/

def AllUnits (P : (i : MallocSizeType) → MallocRegionUnitType W i → Prop) (s : MallocRegionType W) :
    Prop :=
  ∀ g ∈ s.groups, ∀ i, P i (g.unit i)

section
variable {P : (i : MallocSizeType) → MallocRegionUnitType W i → Prop} {s : MallocRegionType W}

theorem AllUnits.unitAt (h : AllUnits P s) (r : MallocUnitRef s) : P r.size (s.unitAt r) :=
  h _ (get_mem _ _) r.size

theorem allUnits_setUnit (h : AllUnits P s) (r : MallocUnitRef s)
    (u : MallocRegionUnitType W r.size) : AllUnits P (s.setUnit r u) ↔ P r.size u := by
  constructor
  · intro hall
    have := hall _ (mem_set r.group.isLt _) r.size
    dsimp only at this
    rwa [Function.update_self] at this
  · intro hu g hg i
    rcases mem_or_eq_of_mem_set hg with hg | rfl
    · exact h g hg i
    · dsimp only
      by_cases hi : i = r.size
      · subst hi
        rwa [Function.update_self]
      · rw [Function.update_of_ne hi]
        exact h _ (get_mem _ _) i

theorem findUnit_eq_some {first : Nat} {p : (i : MallocSizeType) → MallocRegionUnitType W i → Bool}
    {r : MallocUnitRef s} (h : s.findUnit first p = some r) :
    p r.size (s.unitAt r) = true ∧ first ≤ r.size.val ∧
      (∀ g ∈ s.groups, ∀ i < r.size, first ≤ i.val → p i (g.unit i) = false) ∧
      ∀ j < r.group, p r.size ((s.groups.get j).unit r.size) = false := by
  obtain ⟨i, hi, hsmaller⟩ := findSome?_finRange_eq_some.1 h
  split_ifs at hi with hfirst
  obtain ⟨j, hj, rfl⟩ := Option.map_eq_some_iff.1 hi
  obtain ⟨hp, hbefore⟩ := findFinIdx?_eq_some_iff.1 hj
  refine ⟨hp, Nat.not_lt.1 hfirst, fun g hg i' hlt hle => ?_, fun j' hlt => ?_⟩
  · have hnone := hsmaller i' hlt
    rw [if_neg (Nat.not_lt.2 hle), Option.map_eq_none_iff, findFinIdx?_eq_none_iff] at hnone
    simpa using hnone g hg
  · simpa using hbefore j' hlt

theorem findUnit_eq_none {first : Nat} {p : (i : MallocSizeType) → MallocRegionUnitType W i → Bool}
    (h : s.findUnit first p = none) {g : MallocRegionGroupType W} (hg : g ∈ s.groups)
    {i : MallocSizeType} (hi : first ≤ i.val) : p i (g.unit i) = false := by
  have hnone := findSome?_finRange_eq_none.1 h i
  rw [if_neg (Nat.not_lt.2 hi), Option.map_eq_none_iff, findFinIdx?_eq_none_iff] at hnone
  simpa using hnone g hg

end

/-! ## Counters -/

def Counted (s : MallocRegionType W) : Prop :=
  AllUnits (fun _ u => u.bitfreenum = freeCount u.bitmap) s

def BlocksNonzero (s : MallocRegionType W) : Prop :=
  AllUnits (fun i u => ∀ k < mallocBitmaxnum i, mallocBlockAddr u.region.start i k ≠ 0) s

def releaseOk (s : MallocRegionType W) : MallocCall → Bool
  | .getMemory _ => true
  | .relMemory addr => (searchUnit s addr).all fun r =>
    (s.unitAt r).bitmap[mallocBlockBit (s.unitAt r).region.start r.size addr]? == some true

/-- The size is too large, or no unit of its size or a larger one has a free block. -/
def Exhausted (s : MallocRegionType W) (size : BitVec 32) : Prop :=
  16384 < size.toNat ∨ AllUnits (fun i u => size.toNat ≤ mallocMemsize i → false ∉ u.bitmap) s

theorem counted_addRegions (starts : List (MallocSizeType → AthrillAddrType W)) :
    Counted (mpuMallocAddRegions starts) := by
  intro g hg i
  obtain ⟨start, -, rfl⟩ := mem_map.1 hg
  show mallocBitmaxnum i = freeCount (replicate (8 * mallocBitmapsize i) false)
  rw [freeCount, count_replicate_self, (mallocDataInfo i).1]

theorem le_mallocMemsize_candidate {size : BitVec 32} {candidate : MallocSizeType}
    (h : mallocCandidate size = some candidate) : size.toNat ≤ mallocMemsize candidate := by
  simpa using find?_some h

theorem mallocMemsize_mono : StrictMono mallocMemsize := by
  decide

theorem mallocCandidate_le {size : BitVec 32} {candidate i : MallocSizeType}
    (h : mallocCandidate size = some candidate) (hi : size.toNat ≤ mallocMemsize i) :
    candidate.val ≤ i.val := by
  rw [mallocCandidate, ← Fin.find?_eq_find?_finRange, Fin.find?_eq_some_iff] at h
  refine Nat.not_lt.1 fun hlt => ?_
  have := h.2 i hlt
  simp [hi] at this

theorem MallocRegionUnitType.not_mem_of_setBit {i : MallocSizeType} (u : MallocRegionUnitType W i)
    (h : setBit u.bitmap (mallocBitmaxnum i) (mallocBitmapsize i) = none) : false ∉ u.bitmap :=
  Athrill.not_mem_of_setBit (u.bitmap_length_eq.trans (mallocDataInfo i).2.1)
    u.bitmap_length_eq.le h

section
variable {s : MallocRegionType W} {junk : Nat → UInt8}

theorem mpuMallocGetMemory_cases (junk : Nat → UInt8) (s : MallocRegionType W) (size : BitVec 32) :
    (mpuMallocGetMemory junk s size = (0, s) ∧ mallocTaken s size = none ∧
        (Counted s → Exhausted s size)) ∨
      ∃ (r : MallocUnitRef s) (k : Nat), mallocTaken s size = some r ∧
        isFree (s.unitAt r).bitmap k = true ∧ size.toNat ≤ mallocMemsize r.size ∧
        (Counted s → (∀ g ∈ s.groups, ∀ i < r.size, size.toNat ≤ mallocMemsize i →
            false ∉ (g.unit i).bitmap) ∧
          (∀ j < r.group, false ∉ ((s.groups.get j).unit r.size).bitmap) ∧
          ∀ k' < k, isFree (s.unitAt r).bitmap k' = false) ∧
        mpuMallocGetMemory junk s size =
          (mallocBlockAddr (s.unitAt r).region.start r.size k,
            s.setUnit r (((s.unitAt r).withData junk).setBlock k true
              ((s.unitAt r).bitfreenum - 1))) := by
  unfold mpuMallocGetMemory mallocTaken
  split
  · next hnone =>
    refine .inl ⟨rfl, by rw [hnone]; rfl, fun _ => .inl ?_⟩
    have hlarge := find?_eq_none.1 hnone 9 (mem_finRange 9)
    simp only [decide_eq_true_eq, Nat.not_le] at hlarge
    exact hlarge
  · next candidate hcand =>
    split
    · next hnone =>
      refine .inl ⟨rfl, by rw [hcand, Option.bind_some, hnone]; rfl,
        fun hc => .inr fun g hg i hle => ?_⟩
      have hfirst : candidate.val ≤ i.val := mallocCandidate_le hcand hle
      have hzero := findUnit_eq_none hnone hg hfirst
      rw [decide_eq_false_iff_not, hc g hg i, freeCount_pos_iff] at hzero
      exact hzero
    · next r hr =>
      dsimp only
      obtain ⟨hpos, hfirst, hsmaller, hbefore⟩ := findUnit_eq_some hr
      rw [decide_eq_true_eq] at hpos
      split
      · next hset =>
        -- a counter that is right chooses a unit with a free block
        refine .inl ⟨rfl, ?_, fun hc => absurd ?_ ((s.unitAt r).not_mem_of_setBit hset)⟩
        · rw [hcand, Option.bind_some, hr, Option.filter_some, hset]
          rfl
        · rw [hc.unitAt r] at hpos
          exact freeCount_pos_iff.1 hpos
      · next k hk =>
        refine .inr ⟨r, k, ?_, isFree_of_setBit hk, ?_, fun hc => ⟨fun g hg i hlt hle => ?_,
          fun j hlt => ?_, fun k' hlt => not_isFree_of_setBit hk hlt⟩, rfl⟩
        · rw [hcand, Option.bind_some, hr, Option.filter_some, hk]
          rfl
        · exact (le_mallocMemsize_candidate hcand).trans (mallocMemsize_mono.monotone hfirst)
        · have hzero := hsmaller g hg i hlt (mallocCandidate_le hcand hle)
          rwa [decide_eq_false_iff_not, hc g hg i, freeCount_pos_iff] at hzero
        · have hzero := hbefore j hlt
          rwa [decide_eq_false_iff_not, hc _ (get_mem _ _), freeCount_pos_iff] at hzero

theorem Counted.getMemory (hc : Counted s) (size : BitVec 32) :
    Counted (mpuMallocGetMemory junk s size).2 := by
  rcases mpuMallocGetMemory_cases junk s size with ⟨heq, -, -⟩ | ⟨r, k, -, hfree, -, -, heq⟩
  · rw [heq]
    exact hc
  · rw [heq]
    refine (allUnits_setUnit hc r _).2 ?_
    show (s.unitAt r).bitfreenum - 1 = freeCount ((s.unitAt r).bitmap.set k true)
    rw [freeCount_set_true hfree, hc.unitAt r]

theorem mallocBlockBit_lt {addr : BitVec 32} {r : MallocUnitRef s} (h : searchUnit s addr = some r) :
    mallocBlockBit (s.unitAt r).region.start r.size addr < (s.unitAt r).bitmap.length := by
  have hin := (findUnit_eq_some h).1
  simp only [Bool.and_eq_true, decide_eq_true_eq, (s.unitAt r).region_size] at hin
  obtain ⟨hlow, hhigh⟩ := hin
  have hsub := BitVec.toNat_sub_of_le hlow
  have hend := BitVec.toNat_add_cases (s.unitAt r).region.start (BitVec.ofNat W mpuMallocUnitBytes)
  have hsize : (BitVec.ofNat W mpuMallocUnitBytes).toNat ≤ mpuMallocUnitBytes := by
    rw [BitVec.toNat_ofNat]
    exact Nat.mod_le _ _
  have hlt := (BitVec.ofNat W mpuMallocUnitBytes).isLt
  rw [BitVec.le_def] at hlow
  rw [lt_def] at hhigh
  have hoff : (addr.setWidth W - (s.unitAt r).region.start).toNat < mpuMallocUnitBytes := by omega
  rw [(s.unitAt r).bitmap_length_eq]
  refine Nat.lt_of_le_of_lt (Nat.mod_le _ _) (Nat.div_lt_of_lt_mul ?_)
  rw [(mallocDataInfo r.size).2.2.1]
  exact hoff

theorem counted_relMemory_iff (hc : Counted s) (addr : BitVec 32) :
    Counted (mpuMallocRelMemory s addr) ↔ releaseOk s (.relMemory addr) = true := by
  unfold mpuMallocRelMemory
  show _ ↔ (searchUnit s addr).all _ = true
  cases hr : searchUnit s addr with
  | none => exact iff_of_true hc rfl
  | some r =>
    have hlt := mallocBlockBit_lt hr
    have hcount := hc.unitAt r
    -- a counter of a bitmap does not wrap
    have hle : freeCount (s.unitAt r).bitmap < 2 ^ 16 := by
      have := (mallocDataInfo r.size).2.2.2
      rw [← (s.unitAt r).bitmap_length_eq] at this
      exact Nat.lt_of_le_of_lt freeCount_le this
    have hwrap : u32 ((s.unitAt r).bitfreenum + 1) = freeCount (s.unitAt r).bitmap + 1 := by
      rw [hcount]
      exact Nat.mod_eq_of_lt (by omega)
    refine (allUnits_setUnit hc r _).trans ?_
    show u32 ((s.unitAt r).bitfreenum + 1) = freeCount ((s.unitAt r).bitmap.set _ false) ↔ _
    rw [hwrap, Option.all_some, beq_iff_eq]
    cases hbit : (s.unitAt r).bitmap[mallocBlockBit (s.unitAt r).region.start r.size addr]? with
    | none => exact absurd hlt (Nat.not_lt.2 (getElem?_eq_none_iff.1 hbit))
    | some bit =>
      cases bit with
      | true => exact iff_of_true (freeCount_set_false hbit).symm rfl
      | false =>
        rw [set_false_of_isFree (isFree_iff.2 hbit)]
        exact iff_of_false (by omega) (by simp)

theorem BlocksNonzero.step (hz : BlocksNonzero s) {call : MallocCall} {s' : MallocRegionType W}
    {result : Option (BitVec 32)} (h : mallocStep junk s call = some (s', result)) :
    BlocksNonzero s' := by
  cases call with
  | getMemory size =>
    cases h
    rcases mpuMallocGetMemory_cases junk s size with ⟨heq, -, -⟩ | ⟨r, k, -, -, -, -, heq⟩
    · rw [heq]
      exact hz
    · rw [heq]
      exact (allUnits_setUnit hz r _).2 (hz.unitAt r)
  | relMemory addr =>
    cases h
    unfold mpuMallocRelMemory
    split
    · exact hz
    · next r _ => exact (allUnits_setUnit hz r _).2 (hz.unitAt r)

theorem exhausted_of_getMemory_eq_zero (hc : Counted s) (hz : BlocksNonzero s) {size : BitVec 32}
    (h : (mpuMallocGetMemory junk s size).1 = 0) : Exhausted s size := by
  rcases mpuMallocGetMemory_cases junk s size with ⟨-, -, hex⟩ | ⟨r, k, -, hfree, -, -, heq⟩
  · exact hex hc
  · rw [heq] at h
    have hk := lt_of_isFree hfree
    rw [(s.unitAt r).bitmap_length_eq] at hk
    exact absurd h (hz.unitAt r k hk)

theorem counted_step_iff (junk : Nat → UInt8) (hc : Counted s) (call : MallocCall) :
    ∃ s' o, mallocStep junk s call = some (s', o) ∧
      (Counted s' ↔ releaseOk s call = true) := by
  cases call with
  | getMemory size => exact ⟨_, _, rfl, iff_of_true (hc.getMemory size) rfl⟩
  | relMemory addr => exact ⟨_, _, rfl, counted_relMemory_iff hc addr⟩

end

/-- **The counters of the guest allocator.** After every call of a run the counters are right if and
only if every release of the run is of an address outside all units or of a block in use. Then, in units
none of whose blocks has the address 0, a request fails only if it cannot be served. -/
theorem malloc_bitfreenum_exact_iff (starts : List (MallocSizeType → AthrillAddrType W))
    (junk : Nat → UInt8) (calls : List MallocCall) :
    ((∀ pre s results, pre <+: calls →
        run (mallocStep junk) (mpuMallocAddRegions starts) pre = some (s, results) → Counted s) ↔
      StepsMeet (mallocStep junk) (fun s call => releaseOk s call = true)
        (mpuMallocAddRegions starts) calls) ∧
    ((∀ start ∈ starts, ∀ i, ∀ k < mallocBitmaxnum i, mallocBlockAddr (start i) i k ≠ 0) →
      StepsMeet (mallocStep junk) (fun s call => releaseOk s call = true)
        (mpuMallocAddRegions starts) calls →
      ∀ pre s results, pre <+: calls →
        run (mallocStep junk) (mpuMallocAddRegions starts) pre = some (s, results) →
        ∀ size, (mpuMallocGetMemory junk s size).1 = 0 → Exhausted s size) := by
  have hcounted := forall_prefix_iff_stepsMeet Counted
    (fun s call h => counted_step_iff junk h call) calls (counted_addRegions starts)
  refine ⟨hcounted, fun hzero hmeet pre s results hpre hrun size => ?_⟩
  have hz : BlocksNonzero (mpuMallocAddRegions starts) := by
    intro g hg i
    obtain ⟨start, hmem, rfl⟩ := mem_map.1 hg
    exact hzero start hmem i
  exact exhausted_of_getMemory_eq_zero (hcounted.2 hmeet pre s results hpre hrun)
    (run_invariant BlocksNonzero (fun _ _ _ _ hz hs => hz.step hs) pre hz hrun)

def groupStarts (base : BitVec 32) : MallocSizeType → BitVec 32 :=
  fun i => base + BitVec.ofNat 32 (i * mpuMallocUnitBytes)

theorem mallocBlockAddr_groupStarts_ne_zero {base : BitVec 32} (hbase : 0 < base.toNat)
    (htop : base.toNat + 10 * mpuMallocUnitBytes ≤ 2 ^ 32) (i : MallocSizeType) {k : Nat}
    (hk : k < mallocBitmaxnum i) : mallocBlockAddr (groupStarts base i) i k ≠ 0 := by
  have hunit : i.val * mpuMallocUnitBytes ≤ 9 * mpuMallocUnitBytes :=
    Nat.mul_le_mul_right _ (Nat.le_of_lt_succ i.isLt)
  have hblock : k * mallocMemsize i < mpuMallocUnitBytes := by
    rw [← (mallocDataInfo i).2.2.1, Nat.mul_comm]
    exact Nat.mul_lt_mul_of_pos_left hk (mallocMemsize_pos i)
  intro h
  have hnat : (mallocBlockAddr (groupStarts base i) i k).toNat = 0 := by
    rw [h]
    rfl
  rw [mallocBlockAddr, groupStarts, setWidth_eq, toNat_add, toNat_add,
    toNat_ofNat, toNat_ofNat] at hnat
  generalize mpuMallocUnitBytes = bytes at *
  omega

def unitCount (s : MallocRegionType 32) (j : Nat) (i : MallocSizeType) : Option (Nat × Nat) :=
  s.groups[j]?.map fun g => ((g.unit i).bitfreenum, freeCount (g.unit i).bitmap)

theorem malloc_bitfreenum_exact_roundtrip : ∃ s results,
    run (mallocStep fun _ => 0) (mpuMallocAddRegions [groupStarts 0x10000000])
      [.getMemory 16384, .relMemory 0x10900000] = some (s, results) ∧ Counted s ∧
      ∀ size, (mpuMallocGetMemory (fun _ => 0) s size).1 = 0 → Exhausted s size := by
  have hzero : ∀ start ∈ [groupStarts 0x10000000], ∀ i, ∀ k < mallocBitmaxnum i,
      mallocBlockAddr (start i) i k ≠ 0 := by
    intro start hstart i k hk
    obtain rfl := mem_singleton.1 hstart
    exact mallocBlockAddr_groupStarts_ne_zero (by decide) (by decide) i hk
  let s₀ := mpuMallocAddRegions [groupStarts 0x10000000]
  let s₁ := (mpuMallocGetMemory (fun _ => 0) s₀ 16384).2
  have hget : mallocStep (fun _ => 0) s₀ (.getMemory 16384) =
      some (s₁, some (mpuMallocGetMemory (fun _ => 0) s₀ 16384).1) := rfl
  have hrel : mallocStep (fun _ => 0) s₁ (.relMemory 0x10900000) =
      some (mpuMallocRelMemory s₁ 0x10900000, none) := rfl
  have hok : releaseOk s₁ (.relMemory 0x10900000) = true := by decide +kernel
  have hmeet : StepsMeet (mallocStep fun _ => 0) (fun s call => releaseOk s call = true) s₀
      [.getMemory 16384, .relMemory 0x10900000] :=
    (stepsMeet_cons hget).2 ⟨rfl, (stepsMeet_cons hrel).2 ⟨hok, trivial⟩⟩
  have hrun := run_cons_eq_some.2
    ⟨_, _, _, hget, run_cons_eq_some.2 ⟨_, _, _, hrel, run_nil _ _, rfl⟩, rfl⟩
  obtain ⟨hcounted, hserved⟩ := malloc_bitfreenum_exact_iff [groupStarts 0x10000000] (fun _ => 0)
    [.getMemory 16384, .relMemory 0x10900000]
  exact ⟨_, _, hrun, hcounted.2 hmeet _ _ _ (prefix_refl _) hrun,
    hserved hzero hmeet _ _ _ (prefix_refl _) hrun⟩

/-- The release of a block that was never taken makes the counter too high; after all blocks of the
unit are taken the next request fails, although the unit of the other group is free. -/
theorem malloc_bitfreenum_too_high :
    (run (mallocStep fun _ => 0) (mpuMallocAddRegions [groupStarts 0x10000000, groupStarts 0x20000000])
        [.relMemory 0x10900000]).map (fun r => unitCount r.1 0 9) = some (some (65, 64)) ∧
      (run (mallocStep fun _ => 0)
          (mpuMallocAddRegions [groupStarts 0x10000000, groupStarts 0x20000000])
          (.relMemory 0x10900000 :: replicate 65 (.getMemory 16384))).map
        (fun r => (r.2.getLast?, unitCount r.1 1 9)) = some (some (some 0), some (64, 64)) := by
  decide +kernel

end Athrill
