import Athrill.Mpu.FlatBus

/-!
# The last byte of a region

Every test of `mpu.c` compares with the end `start + size` of a region, which wraps to 0 if the region ends
at the top of the address space. Main result: `region_reachable_iff`.
-/

namespace Athrill

open Bytes FlatMemory List BitVec

variable {W : Nat}

/-! ## One region -/

def Reachable (m : MpuAddressMapType W) (region : MpuAddressRegionType W) (p q : Int)
    (addr : AthrillAddrType W) : Prop :=
  (∃ s', mpuGetData8 ⟨m, p, q⟩ addr = some (.ok (byteAt m.dynamicMap addr.toNat).toNat, s')) ∧
    mpuAddressRegionTypeGet m addr = (region.type, some region.isMalloc) ∧
    ∃ s', mpuGetHostMemory ⟨m, p, q⟩ addr 1 false =
      (.ok (some (.dynamicMap 0, addr.toNat - region.start.toNat)), s')

/-- The three searches of the bus find no region at the address. -/
def Rejected (m : MpuAddressMapType W) (p q : Int) (addr : AthrillAddrType W) : Prop :=
  (∃ s', mpuGetData8 ⟨m, p, q⟩ addr = some (.error .segv, s')) ∧
    mpuAddressRegionTypeGet m addr = (.regionUnknown, none) ∧
    ∃ s', mpuGetHostMemory ⟨m, p, q⟩ addr 1 false = (.error .segv, s')

section
variable {region : MpuAddressRegionType W} {p q : Int} {addr : AthrillAddrType W}

theorem PlainRegion.regionHasAddr_iff (h : PlainRegion region) :
    regionHasAddr region addr = true ↔ region.Has addr.toNat := by
  have hend : (region.start + region.size).toNat = region.start.toNat + region.size.toNat :=
    toNat_add_of_lt h.below
  simp only [regionHasAddr, h.mask, and_allOnes, Bool.and_eq_true, decide_eq_true_eq,
    le_def, lt_def, hend, MpuAddressRegionType.Has]

theorem PlainRegion.isMemoryWindow (h : PlainRegion region) : isMemoryWindow region = true := by
  obtain ⟨buf, hbuf, -⟩ := h.data
  rcases h.type with htype | htype <;>
    simp [Athrill.isMemoryWindow, h.mask, h.ops, hbuf, htype, defaultMemoryOperation,
      MpuAddressRegionOperationType.isDefault]

theorem reachable_of_has (h : PlainRegion region) (ha : region.Has addr.toNat) :
    Reachable ⟨[], [region]⟩ region p q addr := by
  have hplain : PlainRegions [region] := plainRegions_nil.append h (by simp)
  have hregion : [region][0]? = some region := rfl
  refine ⟨⟨_, mpuGetData8_of_has (m := ⟨[], [region]⟩) hplain hregion ha p q⟩, ?_, ?_⟩
  · have hfind : [region].find? (regionHasAddr · addr) = some region := by
      simp [h.regionHasAddr_iff.2 ha]
    simp only [mpuAddressRegionTypeGet, hfind]
  · have hcov : regionCovers region addr 1 = true := (regionCovers_one_iff h.mask h.below).2 ha
    have hone := toNat_one_of_regionCovers hcov
    have hsel := (selects_dynamicMap (m := ⟨[], [region]⟩) hplain hregion hcov p).select
    have hlow := ha.1
    have hhigh := ha.2
    have hbelow := h.below
    have hoff : (addr - region.start).toNat = addr.toNat - region.start.toNat :=
      toNat_sub_of_le (le_def.2 hlow)
    have hzero : (1 : BitVec W) ≠ 0 := fun h0 => by simp [h0] at hone
    have hnowrap : ¬ addr + 1 < addr := by
      rw [lt_def, toNat_add_of_lt (by omega)]
      omega
    rw [mpuGetHostMemory, if_neg hzero, if_neg hnowrap]
    simp only [searchRegion, hsel, regionAt, hregion, h.isMemoryWindow, hoff]
    exact ⟨_, rfl⟩

theorem regionCovers_of_end_eq_zero (h : region.start + region.size = 0) (n : AthrillAddrType W) :
    regionCovers region addr n = false := by
  simp only [regionCovers, h]
  simp

theorem start_add_kib_eq_zero {start size : AthrillAddrType W}
    (htop : start.toNat + 1024 * size.toNat = 2 ^ W) : start + size * 1024 = 0 := by
  apply eq_of_toNat_eq
  rw [toNat_add, toNat_kib, Nat.add_mod_mod, htop, Nat.mod_self]
  rfl

theorem rejected_of_not_covers {m : MpuAddressMapType W}
    (hcov : ∀ region ∈ m.regions, regionCovers region addr 1 = false)
    (hhas : ∀ region ∈ m.regions, regionHasAddr region addr = false)
    (hone : (1 : BitVec W) ≠ 0) : Rejected m p q addr := by
  refine ⟨⟨_, mpuGetData_of_not_covers (w := .data8) hcov⟩, ?_, ?_⟩
  · have hdyn : m.dynamicMap.find? (regionHasAddr · addr) = none :=
      find?_eq_none.2 fun x hx => by simp [hhas x (mem_append_left _ hx)]
    have hmap : m.map.find? (regionHasAddr · addr) = none :=
      find?_eq_none.2 fun x hx => by simp [hhas x (mem_append_right _ hx)]
    simp only [mpuAddressRegionTypeGet, hdyn, hmap]
  · have hsel := searchRegionFrom_eq_none hcov p
    rw [mpuGetHostMemory, if_neg hone]
    split_ifs
    · exact ⟨_, rfl⟩
    · simp only [searchRegion, hsel]
      exact ⟨_, rfl⟩

end

/-- **When a region is reachable.** A memory region of whole KiB inside the address space, alone in the
map, is reachable at each of its addresses and rejected at every other one, after every history, exactly
when it does not end at the top of the address space. -/
theorem region_reachable_iff {junk : Nat → UInt8} {getType : MpuAddressGetType}
    {start size : AthrillAddrType W} {mmapAddr : Option HostBuffer} {m : MpuAddressMapType W}
    {buf : HostBuffer}
    (hmmap : ∀ file, mmapAddr = some file → file.length = (size * 1024).toNat)
    (hset : mpuAddressSetRomRam junk ⟨[], []⟩ getType start (size * 1024) mmapAddr =
      some (m, some buf))
    (hn : 1 ≤ size.toNat) (hfit : start.toNat + 1024 * size.toNat ≤ 2 ^ W) :
    (∀ (p q : Int) (addr : AthrillAddrType W),
      (start.toNat ≤ addr.toNat ∧ addr.toNat < start.toNat + 1024 * size.toNat →
        Reachable m (romRamRegion junk getType start (size * 1024) mmapAddr) p q addr) ∧
      (¬ (start.toNat ≤ addr.toNat ∧ addr.toNat < start.toNat + 1024 * size.toNat) →
        Rejected m p q addr)) ↔
    start.toNat + 1024 * size.toNat < 2 ^ W := by
  let region := romRamRegion junk getType start (size * 1024) mmapAddr
  have hone : (1 : BitVec W) ≠ 0 := by
    cases W with
    | zero => omega
    | succ W => simp
  -- the map holds the region alone, which has a buffer
  obtain ⟨rfl, hdata⟩ : m = ⟨[], [region]⟩ ∧ region.data = some buf := by
    simp only [mpuAddressSetRomRam, mpuAddressSearchRegion, findIdx?_nil] at hset
    split_ifs at hset
    obtain ⟨hm, hd⟩ := Prod.mk.inj (Option.some.inj hset)
    exact ⟨hm.symm, hd⟩
  constructor
  · intro h
    by_contra hlt
    have htop : start.toNat + 1024 * size.toNat = 2 ^ W := by omega
    have hzero : region.start + region.size = 0 := start_add_kib_eq_zero htop
    obtain ⟨⟨s', hget⟩, -⟩ := (h (-1) (-1) start).1 ⟨le_refl _, by omega⟩
    have hnone : ∀ x ∈ (⟨[], [region]⟩ : MpuAddressMapType W).regions,
        regionCovers x start (BitVec.ofNat W BusWidth.data8.bytes) = false := by
      intro x hx
      obtain rfl := mem_singleton.1 hx
      exact regionCovers_of_end_eq_zero hzero _
    rw [mpuGetData8, mpuGetData_of_not_covers hnone] at hget
    cases hget
  · intro hlt p q addr
    have hsize : region.size.toNat = 1024 * size.toNat :=
      (toNat_kib size).trans (Nat.mod_eq_of_lt (by omega))
    have hplain : PlainRegion region := by
      refine plainRegion_romRam (by rw [toNat_kib, Nat.mod_eq_of_lt (by omega)]; exact hlt) ?_ ?_
      · rintro rfl
        cases hdata
      · rintro rfl
        exact ⟨buf, hdata, hmmap buf hdata⟩
    have hhas : region.Has addr.toNat ↔
        start.toNat ≤ addr.toNat ∧ addr.toNat < start.toNat + 1024 * size.toNat := by
      rw [MpuAddressRegionType.Has, hsize]
      rfl
    refine ⟨fun hin => reachable_of_has hplain (hhas.2 hin), fun hout => ?_⟩
    refine rejected_of_not_covers ?_ ?_ hone
    · intro x hx
      obtain rfl := mem_singleton.1 hx
      refine Bool.eq_false_iff.2 fun hcov => hout (hhas.1 ?_)
      exact (regionCovers_one_iff hplain.mask hplain.below).1 hcov
    · intro x hx
      obtain rfl := mem_singleton.1 hx
      exact Bool.eq_false_iff.2 fun hcov => hout (hhas.1 (hplain.regionHasAddr_iff.1 hcov))

theorem region_reachable_below_top : (0xfffff800 : BitVec 32).toNat + 1024 * 1 < 2 ^ 32 ∧
    ∀ (p q : Int) (addr : BitVec 32),
      (0xfffff800 ≤ addr.toNat ∧ addr.toNat < 0xfffff800 + 1024 * 1 →
        Reachable ⟨[], [romRamRegion (fun _ => 0) .ram 0xfffff800 (1 * 1024) none]⟩
          (romRamRegion (fun _ => 0) .ram 0xfffff800 (1 * 1024) none) p q addr) ∧
      (¬ (0xfffff800 ≤ addr.toNat ∧ addr.toNat < 0xfffff800 + 1024 * 1) →
        Rejected ⟨[], [romRamRegion (fun _ => 0) .ram 0xfffff800 (1 * 1024) none]⟩ p q addr) :=
  ⟨by decide, (@region_reachable_iff 32 (fun _ => 0) .ram 0xfffff800 1 none _ _ (by simp) rfl
    (by decide) (by decide)).2 (by decide)⟩

/-- The last KiB of a 32-bit bus: the region is added, and its first byte is rejected by all three. -/
theorem region_at_top_not_reachable :
    ∃ m : MpuAddressMapType 32,
      (mpuAddressSetRomRam (fun _ => 0) ⟨[], []⟩ .ram 0xfffffc00 (1 * 1024) none).map (·.1) = some m ∧
      (0xfffffc00 : BitVec 32).toNat + 1024 * 1 = 2 ^ 32 ∧ Rejected m (-1) (-1) 0xfffffc00 := by
  refine ⟨⟨[], [romRamRegion (fun _ => 0) .ram 0xfffffc00 (1 * 1024) none]⟩, rfl, by decide, ?_⟩
  refine rejected_of_not_covers (fun x hx => ?_) (fun x hx => ?_) (by decide)
  · obtain rfl := mem_singleton.1 hx
    decide
  · obtain rfl := mem_singleton.1 hx
    decide

end Athrill
