import Athrill.Mpu.Plain

/-!
# The bus as a flat memory

Over ROM and RAM regions that do not overlap and end below the top of the address space, the bus answers as
a flat memory with those ranges, after every history of accesses. Main result: `bus_refines_flat_memory_iff`.
-/

namespace Athrill

open Bytes FlatMemory Machine List

variable {W : Nat}

/-! ## The specification -/

def flatMemory (rs : List (MpuAddressRegionType W)) : Memory where
  ranges := rs.map fun region =>
    ⟨region.start.toNat, region.start.toNat + region.size.toNat, region.type == .globalMemory⟩
  byte := byteAt rs

def flatStep (f : Memory) : BusAccess W → Memory × BusAnswer
  | .getData w addr =>
    if f.Readable addr.toNat w.bytes then
      (f, .got (.ok (leValue (load f.byte addr.toNat w.bytes))))
    else (f, .got (.error .segv))
  | .putData w addr data =>
    if f.Writable addr.toNat w.bytes then
      ({ f with byte := store f.byte addr.toNat (Bytes.leBytes w.bytes data.toNat) }, .put .ok)
    else (f, .put .segv)
  | .getPointer _ | .getMemoryWindow _ | .getHostMemory _ _ _ => (f, .pointer)

/-! ## The test of the searches -/

def NoWrap (rs : List (MpuAddressRegionType W)) : Prop :=
  ∀ region ∈ rs, region.size.toNat + 3 ≤ 2 ^ W

section
variable {region : MpuAddressRegionType W}

theorem BusWidth.bytes_le (w : BusWidth) : 0 < w.bytes ∧ w.bytes ≤ 4 := by
  cases w <;> decide

theorem toNat_bytes (hW : 2 < W) (w : BusWidth) : (BitVec.ofNat W w.bytes).toNat = w.bytes := by
  have hpow : 2 ^ 3 ≤ 2 ^ W := Nat.pow_le_pow_right (by decide) hW
  have := w.bytes_le
  exact Nat.mod_eq_of_lt (by omega)

theorem PlainRegion.covers_data_iff (h : PlainRegion region) (hW : 2 < W)
    (hsize : region.size.toNat + 3 ≤ 2 ^ W) (w : BusWidth) (addr : AthrillAddrType W) :
    regionCovers region addr (BitVec.ofNat W w.bytes) = true ↔
      region.start.toNat ≤ addr.toNat ∧
        addr.toNat + w.bytes ≤ region.start.toNat + region.size.toNat := by
  rw [regionCovers_iff h.mask h.below, MpuAddressRegionType.Has]
  have hbelow := h.below
  have hw := w.bytes_le
  have hn := toNat_bytes hW w
  have hsum := BitVec.toNat_add_cases addr (BitVec.ofNat W w.bytes)
  rw [hn] at hsum
  omega

theorem PlainRegion.covers_last (h : PlainRegion region) (hW : 2 < W)
    (hsize : 2 ^ W < region.size.toNat + 3) :
    ∃ addr : AthrillAddrType W, addr.toNat + 1 = region.start.toNat + region.size.toNat ∧
      region.start ≤ addr ∧ regionCovers region addr (BitVec.ofNat W BusWidth.data32.bytes) = true := by
  have hpow : 2 ^ 3 ≤ 2 ^ W := Nat.pow_le_pow_right (by decide) hW
  have hbelow := h.below
  let addr := BitVec.ofNat W (region.start.toNat + region.size.toNat - 1)
  have haddr : addr.toNat = region.start.toNat + region.size.toNat - 1 :=
    Nat.mod_eq_of_lt (by omega)
  have hsum := BitVec.toNat_add_cases addr (BitVec.ofNat W BusWidth.data32.bytes)
  rw [toNat_bytes hW, haddr] at hsum
  refine ⟨addr, by omega, by rw [BitVec.le_def]; omega, ?_⟩
  rw [regionCovers_iff h.mask h.below, MpuAddressRegionType.Has, haddr]
  have hfour : BusWidth.data32.bytes = 4 := rfl
  omega

end

/-! ## Data accesses -/

theorem load_byteAt {rs : List (MpuAddressRegionType W)} (h : PlainRegions rs) {i : Nat}
    {region : MpuAddressRegionType W} (hregion : rs[i]? = some region) {buf : HostBuffer}
    (hbuf : region.data = some buf) (hlen : buf.length = region.size.toNat) {a n : Nat}
    (hlow : region.start.toNat ≤ a) (hhigh : a + n ≤ region.start.toNat + region.size.toNat) :
    load (byteAt rs) a n = slice buf (a - region.start.toNat) n := by
  apply ext_getElem?
  intro k
  by_cases hk : k < n
  · have hlt : a - region.start.toNat + k < buf.length := by omega
    rw [getElem?_slice hk, load, getElem?_map, getElem?_range hk, Option.map_some,
      byteAt_of_has h hregion ⟨by omega, by omega⟩ hbuf,
      show a + k - region.start.toNat = a - region.start.toNat + k by omega,
      getElem?_eq_getElem hlt, Option.getD_some]
  · rw [getElem?_eq_none (by simp [load]; omega),
      getElem?_eq_none (by rw [length_slice (by omega)]; omega)]

section
variable {m : MpuAddressMapType W} {p q : Int} {i : Nat} {region : MpuAddressRegionType W}
  {addr : AthrillAddrType W} {w : BusWidth}

theorem mpuGetData_of_not_covers
    (hnone : ∀ region ∈ m.regions, regionCovers region addr (BitVec.ofNat W w.bytes) = false) :
    mpuGetData w ⟨m, p, q⟩ addr =
      some (.error .segv, (searchRegionR ⟨m, p, q⟩ addr (BitVec.ofNat W w.bytes)).2) := by
  have hsel : (searchRegionR ⟨m, p, q⟩ addr (BitVec.ofNat W w.bytes)).1 = none :=
    searchRegionFrom_eq_none hnone q
  simp only [mpuGetData, hsel, Option.bind_none]

theorem mpuPutData_of_not_covers
    (hnone : ∀ region ∈ m.regions, regionCovers region addr (BitVec.ofNat W w.bytes) = false)
    (data : BitVec (8 * w.bytes)) :
    mpuPutData w ⟨m, p, q⟩ addr data =
      some (.segv, (searchRegion ⟨m, p, q⟩ addr (BitVec.ofNat W w.bytes)).2) := by
  have hsel : (searchRegion ⟨m, p, q⟩ addr (BitVec.ofNat W w.bytes)).1 = none :=
    searchRegionFrom_eq_none hnone p
  simp only [mpuPutData, hsel]

end

/-! ## One access -/

theorem regions_setRegionData (m : MpuAddressMapType W) (i : Nat) (buf : HostBuffer) :
    (setRegionData m (refAt m i) buf).regions = m.regions.modify i (·.withData (some buf)) := by
  apply ext_getElem?
  intro j
  unfold refAt
  split_ifs with hi
  · by_cases hj : j < m.dynamicMap.length
    · simp only [setRegionData, MpuAddressMapType.regions, getElem?_modify,
        getElem?_append_left, hj, length_modify]
    · simp [setRegionData, MpuAddressMapType.regions, getElem?_append, hj,
        show i ≠ j by omega]
  · by_cases hj : j < m.dynamicMap.length
    · simp [setRegionData, MpuAddressMapType.regions, getElem?_append, hj,
        show i ≠ j by omega]
    · have hij : i - m.dynamicMap.length = j - m.dynamicMap.length ↔ i = j := by omega
      simp only [setRegionData, MpuAddressMapType.regions, getElem?_modify,
        getElem?_append_right (Nat.not_lt.1 hj), hij]

theorem flatMemory_ranges_of_shape {rs rs' : List (MpuAddressRegionType W)}
    (hshape : rs'.map (·.shape) = rs.map (·.shape)) :
    (flatMemory rs').ranges = (flatMemory rs).ranges := by
  have key : ∀ rs : List (MpuAddressRegionType W), (flatMemory rs).ranges =
      (rs.map (·.shape)).map fun region =>
        ⟨region.start.toNat, region.start.toNat + region.size.toNat,
          region.type == .globalMemory⟩ := by
    intro rs
    rw [map_map]
    rfl
  rw [key, hshape, key]

theorem readable_flatMemory {rs : List (MpuAddressRegionType W)} {a n : Nat} :
    (flatMemory rs).Readable a n ↔ ∃ region ∈ rs, region.start.toNat ≤ a ∧
      a + n ≤ region.start.toNat + region.size.toNat := by
  simp [Memory.Readable, flatMemory]

theorem writable_flatMemory {rs : List (MpuAddressRegionType W)} {a n : Nat} :
    (flatMemory rs).Writable a n ↔ ∃ region ∈ rs, region.type = .globalMemory ∧
      region.start.toNat ≤ a ∧ a + n ≤ region.start.toNat + region.size.toNat := by
  simp [Memory.Writable, flatMemory]

structure FlatSim (s : MpuState W) (f : Memory) : Prop where
  plain : PlainRegions s.addressMap.regions
  noWrap : NoWrap s.addressMap.regions
  memory : f = flatMemory s.addressMap.regions

section
variable {m : MpuAddressMapType W} {p q : Int} {w : BusWidth} {addr : AthrillAddrType W}

section
variable (hW : 2 < W) (hplain : PlainRegions m.regions) (hwrap : NoWrap m.regions)
include hW hplain hwrap

theorem not_covers_of_not_readable (h : ¬ (flatMemory m.regions).Readable addr.toNat w.bytes) :
    ∀ region ∈ m.regions, regionCovers region addr (BitVec.ofNat W w.bytes) = false := by
  intro region hmem
  refine Bool.eq_false_iff.2 fun hcov => h (readable_flatMemory.2 ⟨region, hmem, ?_⟩)
  exact ((hplain.plain region hmem).covers_data_iff hW (hwrap region hmem) w addr).1 hcov

theorem exists_covers_of_readable (h : (flatMemory m.regions).Readable addr.toNat w.bytes) :
    ∃ (i : Nat) (region : MpuAddressRegionType W) (buf : HostBuffer),
      m.regions[i]? = some region ∧ region.data = some buf ∧ buf.length = region.size.toNat ∧
      regionCovers region addr (BitVec.ofNat W w.bytes) = true ∧ region.start.toNat ≤ addr.toNat ∧
      addr.toNat + w.bytes ≤ region.start.toNat + region.size.toNat := by
  obtain ⟨region, hmem, hin⟩ := readable_flatMemory.1 h
  obtain ⟨i, hregion⟩ := mem_iff_getElem?.1 hmem
  have hp := hplain.plain region hmem
  obtain ⟨buf, hbuf, hlen⟩ := hp.data
  exact ⟨i, region, buf, hregion, hbuf, hlen, (hp.covers_data_iff hW (hwrap region hmem) w addr).2 hin,
    hin⟩

theorem mpuGetData_simulates (w : BusWidth) (addr : AthrillAddrType W) :
    ∃ s', mpuGetData w ⟨m, p, q⟩ addr =
        some (if (flatMemory m.regions).Readable addr.toNat w.bytes then
          .ok (leValue (load (byteAt m.regions) addr.toNat w.bytes)) else .error .segv, s') ∧
      s'.addressMap = m := by
  split_ifs with h
  · obtain ⟨i, region, buf, hregion, hbuf, hlen, hcov, hlow, hhigh⟩ :=
      exists_covers_of_readable hW hplain hwrap h
    rw [(selects_refAt hplain hregion hcov q).getData hbuf, hostRead, if_pos (by omega),
      load_byteAt hplain hregion hbuf hlen hlow hhigh]
    exact ⟨_, rfl, rfl⟩
  · rw [mpuGetData_of_not_covers (not_covers_of_not_readable hW hplain hwrap h)]
    exact ⟨_, rfl, rfl⟩

theorem mpuPutData_simulates (w : BusWidth) (addr : AthrillAddrType W) (data : BitVec (8 * w.bytes)) :
    ∃ s', mpuPutData w ⟨m, p, q⟩ addr data =
        some (if (flatMemory m.regions).Writable addr.toNat w.bytes then .ok else .segv, s') ∧
      s'.addressMap.regions.map (·.shape) = m.regions.map (·.shape) ∧
      byteAt s'.addressMap.regions = if (flatMemory m.regions).Writable addr.toNat w.bytes then
        store (byteAt m.regions) addr.toNat (Bytes.leBytes w.bytes data.toNat)
      else byteAt m.regions := by
  by_cases h : (flatMemory m.regions).Readable addr.toNat w.bytes
  · obtain ⟨i, region, buf, hregion, hbuf, hlen, hcov, hlow, hhigh⟩ :=
      exists_covers_of_readable hW hplain hwrap h
    have hp := hplain.plain region (mem_of_getElem? hregion)
    -- the region is the only one that contains the bytes, so its type decides
    have honly : (flatMemory m.regions).Writable addr.toNat w.bytes ↔ region.type = .globalMemory := by
      rw [writable_flatMemory]
      constructor
      · rintro ⟨x, hx, htype, hxlow, hxhigh⟩
        obtain ⟨j, hj⟩ := mem_iff_getElem?.1 hx
        have hw := w.bytes_le
        obtain rfl := hplain.disjoint (a := addr.toNat) hj hregion ⟨hxlow, by omega⟩
          ⟨hlow, by omega⟩
        obtain rfl := Option.some.inj (hj.symm.trans hregion)
        exact htype
      · exact fun htype => ⟨region, mem_of_getElem? hregion, htype, hlow, hhigh⟩
    rw [(selects_refAt hplain hregion hcov p).putData hbuf, if_congr honly rfl rfl,
      if_congr honly rfl rfl]
    rcases hp.type with htype | htype
    · obtain ⟨buf', hwrite⟩ : ∃ buf', hostWrite buf (addr.toNat - region.start.toNat : Nat)
          (Bytes.leBytes w.bytes data.toNat) = some buf' :=
        hostWrite_isSome_iff.2 (.inr ⟨by omega, by rw [length_leBytes]; omega⟩)
      rw [hwrite, if_neg (by rw [htype]; decide), if_pos htype, if_pos htype]
      refine ⟨_, rfl, ?_, ?_⟩
      · show (setRegionData m (refAt m i) buf').regions.map _ = _
        rw [regions_setRegionData]
        exact modify_withData_shape hregion hbuf (length_hostWrite hwrite)
      · show byteAt (setRegionData m (refAt m i) buf').regions = _
        rw [regions_setRegionData, byteAt_modify hplain hregion hbuf (by omega) hwrite]
        congr 1
        omega
    · rw [if_pos htype, if_neg (by rw [htype]; decide), if_neg (by rw [htype]; decide)]
      exact ⟨_, rfl, rfl, rfl⟩
  · have hnot : ¬ (flatMemory m.regions).Writable addr.toNat w.bytes := fun hw => h hw.readable
    rw [mpuPutData_of_not_covers (not_covers_of_not_readable hW hplain hwrap h), if_neg hnot,
      if_neg hnot]
    exact ⟨_, rfl, rfl, rfl⟩

end

end

theorem busStep_simulates (hW : 2 < W) (e : BusAccess W) (s : MpuState W) (f : Memory) (h : FlatSim s f) :
    ∃ s', busStep s e = some (s', (flatStep f e).2) ∧ FlatSim s' (flatStep f e).1 := by
  obtain ⟨hplain, hwrap, rfl⟩ := h
  obtain ⟨m, p, q⟩ := s
  have hsame : ∀ s' : MpuState W, s'.addressMap = m → FlatSim s' (flatMemory m.regions) := by
    rintro s' rfl
    exact ⟨hplain, hwrap, rfl⟩
  cases e with
  | getData w addr =>
    obtain ⟨s', hget, hmap⟩ := mpuGetData_simulates (p := p) (q := q) hW hplain hwrap w addr
    refine ⟨s', ?_, ?_⟩
    · rw [busStep, hget, flatStep]
      split_ifs <;> rfl
    · rw [flatStep]
      split_ifs <;> exact hsame s' hmap
  | putData w addr data =>
    obtain ⟨s', hput, hshape, hbyte⟩ := mpuPutData_simulates (p := p) (q := q) hW hplain
      hwrap w addr data
    have hwrap' : NoWrap s'.addressMap.regions := by
      intro x hx
      obtain ⟨i, hi⟩ := mem_iff_getElem?.1 hx
      obtain ⟨y, hy, hs⟩ := getElem?_of_shape hshape hi
      rw [(MpuAddressRegionType.fields_of_shape hs).2.2.2.1]
      exact hwrap y (mem_of_getElem? hy)
    refine ⟨s', ?_, hplain.of_shape hshape, hwrap', ?_⟩
    · rw [busStep, hput, flatStep]
      split_ifs <;> rfl
    · have hranges := flatMemory_ranges_of_shape hshape
      rw [flatStep]
      split_ifs with hw
      · rw [if_pos hw] at hbyte
        exact (congrArg₂ Memory.mk hranges hbyte).symm
      · rw [if_neg hw] at hbyte
        exact (congrArg₂ Memory.mk hranges hbyte).symm
  | getPointer addr => exact ⟨_, rfl, hsame _ rfl⟩
  | getMemoryWindow addr => exact ⟨_, rfl, hsame _ (mpuGetMemoryWindow_addressMap _ _)⟩
  | getHostMemory addr size write => exact ⟨_, rfl, hsame _ (mpuGetHostMemory_addressMap _ _ _ _)⟩

/-! ## Histories -/

theorem after_flatStep_byte (f : Memory) (es : List (BusAccess W)) {a : Nat}
    (ha : ∀ r ∈ f.ranges, r.writable = true → ¬ (r.lo ≤ a ∧ a < r.hi)) :
    (after flatStep f es).byte a = f.byte a := by
  have hinv : (after flatStep f es).ranges = f.ranges ∧ (after flatStep f es).byte a = f.byte a :=
    after_invariant (fun g : Memory => g.ranges = f.ranges ∧ g.byte a = f.byte a) (fun g e hg => ?_) es
      ⟨rfl, rfl⟩
  · exact hinv.2
  · cases e with
    | getData w addr =>
      rw [flatStep]
      split_ifs <;> exact hg
    | putData w addr data =>
      rw [flatStep]
      split_ifs with hw
      · refine ⟨hg.1, Eq.trans (store_of_not_mem fun hin => ?_) hg.2⟩
        obtain ⟨r, hr, hwr, hlow, hhigh⟩ := hw
        rw [length_leBytes] at hin
        exact ha r (hg.1 ▸ hr) hwr ⟨by omega, by omega⟩
      · exact hg
    | getPointer addr => exact hg
    | getMemoryWindow addr => exact hg
    | getHostMemory addr size write => exact hg

theorem not_writable_of_readonly {rs : List (MpuAddressRegionType W)} (h : PlainRegions rs)
    {region : MpuAddressRegionType W} (hmem : region ∈ rs) (htype : region.type = .readonlyMemory)
    {a : Nat} (ha : region.Has a) :
    ∀ r ∈ (flatMemory rs).ranges, r.writable = true → ¬ (r.lo ≤ a ∧ a < r.hi) := by
  intro r hr hwr hin
  obtain ⟨x, hx, rfl⟩ := mem_map.1 hr
  obtain ⟨i, hi⟩ := mem_iff_getElem?.1 hmem
  obtain ⟨j, hj⟩ := mem_iff_getElem?.1 hx
  obtain rfl := h.disjoint hi hj ha hin
  obtain rfl := Option.some.inj (hi.symm.trans hj)
  simp [htype] at hwr

theorem exists_wrapping_access (hW : 2 < W) {m : MpuAddressMapType W} (h : PlainRegions m.regions)
    {region : MpuAddressRegionType W} (hmem : region ∈ m.regions)
    (hsize : 2 ^ W < region.size.toNat + 3) (p q : Int) :
    ∃ addr, busStep ⟨m, p, q⟩ (.getData .data32 addr) = none := by
  have hp := h.plain region hmem
  obtain ⟨i, hregion⟩ := mem_iff_getElem?.1 hmem
  obtain ⟨buf, hbuf, hlen⟩ := hp.data
  obtain ⟨addr, hlast, -, hcov⟩ := hp.covers_last hW hsize
  refine ⟨addr, ?_⟩
  have hfour : BusWidth.data32.bytes = 4 := rfl
  rw [busStep, (selects_refAt h hregion hcov q).getData hbuf, hostRead, if_neg (by omega)]
  rfl

/-- **When the bus is a flat memory.** Over ROM and RAM regions that do not overlap and end below the top
of the address space, the bus answers every history of accesses as the flat memory of the regions and
ends with its bytes, ROM unchanged, exactly when no region leaves fewer than three addresses outside. -/
theorem bus_refines_flat_memory_iff (hW : 2 < W) {m : MpuAddressMapType W}
    (hm : PlainRegions m.regions) :
    (∀ (p q : Int) (es : List (BusAccess W)), ∃ s',
      run busStep ⟨m, p, q⟩ es = some (s', outputs flatStep (flatMemory m.regions) es) ∧
      flatMemory s'.addressMap.regions = after flatStep (flatMemory m.regions) es ∧
      ∀ region ∈ m.regions, region.type = .readonlyMemory → ∀ a, region.Has a →
        byteAt s'.addressMap.regions a = byteAt m.regions a) ↔
    ∀ region ∈ m.regions, region.size.toNat + 3 ≤ 2 ^ W := by
  constructor
  · intro h region hmem
    by_contra hsize
    obtain ⟨addr, hnone⟩ := exists_wrapping_access hW hm hmem (Nat.lt_of_not_le hsize) (-1) (-1)
    obtain ⟨s', hrun, -⟩ := h (-1) (-1) [.getData .data32 addr]
    obtain ⟨s₁, o, -, hstep, -⟩ := run_cons_eq_some.1 hrun
    rw [hnone] at hstep
    cases hstep
  · intro hwrap p q es
    obtain ⟨s', hrun, hsim⟩ := run_simulates (R := fun _ => FlatSim)
      (fun e _ s f h => busStep_simulates hW e s f h) es (s := (⟨m, p, q⟩ : MpuState W)) ⟨hm, hwrap, rfl⟩
    refine ⟨s', hrun, hsim.memory.symm, fun region hmem htype a ha => ?_⟩
    have hbyte : byteAt s'.addressMap.regions a =
        (after flatStep (flatMemory m.regions) es).byte a := by
      rw [hsim.memory]
      rfl
    rw [hbyte, after_flatStep_byte _ es (not_writable_of_readonly hm hmem htype ha)]
    rfl

def romRamMap : MpuAddressMapType 32 :=
  ⟨[], [romRamRegion (fun _ => 0) .rom 0 0x400 none,
    romRamRegion (fun _ => 0) .ram 0x1000 0x400 none]⟩

theorem plainRegions_romRamMap : PlainRegions romRamMap.regions := by
  have hrom : PlainRegion (romRamRegion (fun _ => 0) .rom (0 : BitVec 32) 0x400 none) :=
    plainRegion_romRam (by decide) (by decide) (by decide)
  have hram : PlainRegion (romRamRegion (fun _ => 0) .ram (0x1000 : BitVec 32) 0x400 none) :=
    plainRegion_romRam (by decide) (by decide) (by decide)
  have hone := plainRegions_nil.append hrom (by simp)
  refine hone.append hram fun x hx a hxa hya => ?_
  rw [nil_append, mem_singleton] at hx
  subst hx
  have hhigh : a < 0 + 0x400 := hxa.2
  have hlow : 0x1000 ≤ a := hya.1
  omega

theorem bus_refines_flat_memory_rom_ram :
    romRamMap.regions.length = 2 ∧ ∀ (p q : Int) (es : List (BusAccess 32)), ∃ s',
      run busStep ⟨romRamMap, p, q⟩ es =
        some (s', outputs flatStep (flatMemory romRamMap.regions) es) ∧
      flatMemory s'.addressMap.regions = after flatStep (flatMemory romRamMap.regions) es ∧
      ∀ region ∈ romRamMap.regions, region.type = .readonlyMemory → ∀ a, region.Has a →
        byteAt s'.addressMap.regions a = byteAt romRamMap.regions a := by
  refine ⟨rfl, (bus_refines_flat_memory_iff (by decide) plainRegions_romRamMap).2 ?_⟩
  intro region hmem
  rcases mem_cons.1 hmem with rfl | hmem
  · decide
  · obtain rfl := mem_singleton.1 hmem
    decide

def wideRam : MpuAddressRegionType 32 := romRamRegion (fun _ => 0) .ram 0 0xffffffff none

/-- A write of four bytes near the end of the wide region wraps, passes the test of the search and leaves
the buffer; the flat memory refuses it. -/
theorem bus_not_flat_memory_wrap :
    (mpuAddressSetRomRam (fun _ => 0) ⟨[], []⟩ .ram 0 0xffffffff none).map (·.1) =
        some ⟨[], [wideRam]⟩ ∧
      busStep ⟨⟨[], [wideRam]⟩, -1, -1⟩ (.putData .data32 0xfffffffe 0) = none ∧
      (flatStep (flatMemory [wideRam]) (.putData .data32 (0xfffffffe : BitVec 32) 0)).2 =
        .put .segv := by
  let m : MpuAddressMapType 32 := ⟨[], [wideRam]⟩
  have hplain : PlainRegions m.regions :=
    plainRegions_nil.append (plainRegion_romRam (by decide) (by decide) (by decide)) (by simp)
  have hregion : m.regions[0]? = some wideRam := rfl
  refine ⟨rfl, ?_, ?_⟩
  · have hcov : regionCovers wideRam 0xfffffffe (BitVec.ofNat 32 BusWidth.data32.bytes) = true := by
      decide
    have hput := (selects_refAt hplain hregion hcov (-1)).putData (q := -1) rfl 0
    have hout : hostWrite (hostCalloc 0xffffffff) (0xfffffffe : Nat) (Bytes.leBytes 4 0) = none := by
      rw [hostWrite, if_neg (by decide), if_neg]
      rw [length_leBytes, hostCalloc, length_replicate]
      decide
    rw [busStep, hput, if_neg (by decide)]
    show ((hostWrite (hostCalloc 0xffffffff) (0xfffffffe : Nat) (Bytes.leBytes 4 0)).map _).map _ = none
    rw [hout]
    rfl
  · have hnot : ¬ (flatMemory [wideRam]).Writable (0xfffffffe : BitVec 32).toNat
        BusWidth.data32.bytes := by
      rw [writable_flatMemory]
      rintro ⟨x, hx, -, -, hhigh⟩
      obtain rfl := mem_singleton.1 hx
      exact absurd hhigh (by decide)
    rw [flatStep, if_neg hnot]

end Athrill
