import Athrill.Mpu.MallocBlocks
import Athrill.Mpu.Window

/-!
# The guest heap

The allocator hands out addresses; the bytes behind them are on the bus.
-/

namespace Athrill

open Bitmap Bytes Machine Option

variable {W : Nat}

/-! ## The heap -/

structure Heap (W : Nat) where
  bus : MpuState W
  malloc : MallocRegionType W
  regionIndex : Nat → MallocSizeType → Nat

def heapGetMemory (junk : Nat → UInt8) (h : Heap W) (size : BitVec 32) : BitVec 32 × Heap W :=
  let r := mpuMallocGetMemory junk h.malloc size
  let m := match mallocTaken h.malloc size with
    | none => h.bus.addressMap
    | some unit =>
      mpuMallocRegionData junk h.bus.addressMap (h.regionIndex unit.group unit.size)
  (r.1, { h with bus := { h.bus with addressMap := m }, malloc := r.2 })

def heapRelMemory (h : Heap W) (addr : BitVec 32) : Heap W :=
  { h with malloc := mpuMallocRelMemory h.malloc addr }

def Heap.buffer (h : Heap W) (group : Nat) (size : MallocSizeType) : Option HostBuffer :=
  (h.bus.addressMap.dynamicMap[h.regionIndex group size]?).bind (·.data)

/-- The region of the unit of a block. -/
def Heap.ref (h : Heap W) (b : MallocBlock) : MpuRegionRef :=
  .dynamicMap (h.regionIndex b.group b.size)

/-! ## Units on the bus -/

def unitRegion (start : AthrillAddrType W) : MpuAddressRegionType W :=
  romRamRegion (fun _ => 0) .malloc start (BitVec.ofNat W mpuMallocUnitBytes) none

structure UnitMapped (m : MpuAddressMapType W) (start index : Nat) (region : MpuAddressRegionType W) :
    Prop where
  region_eq : m.dynamicMap[index]? = some region
  start_eq : region.start.toNat = start
  size_eq : region.size.toNat = mpuMallocUnitBytes
  mask : region.mask = BitVec.allOnes W
  ops : region.ops = defaultMemoryOperation
  type : region.type = .globalMemory
  length : ∀ buf, region.data = some buf → buf.length = mpuMallocUnitBytes
  alone : ∀ (j : Nat) (x : MpuAddressRegionType W), j ≠ index → m.dynamicMap[j]? = some x →
    ∀ a : AthrillAddrType W, region.Has a.toNat → regionCovers x a 1 = false

section
variable {m m' : MpuAddressMapType W} {start index : Nat} {region : MpuAddressRegionType W}

theorem UnitMapped.of_shape (hshape : m'.shape = m.shape) (h : UnitMapped m start index region) :
    ∃ region', UnitMapped m' start index region' ∧ region'.shape = region.shape := by
  have hat : regionAt m (.dynamicMap index) = some region := h.region_eq
  obtain ⟨region', hat', hs⟩ := exists_regionAt_of_shape hshape.symm hat
  obtain ⟨htype, -, hstart, hsize, hmask, hops, hlen⟩ := MpuAddressRegionType.fields_of_shape hs
  refine ⟨region', ⟨hat', hstart ▸ h.start_eq, hsize ▸ h.size_eq, hmask ▸ h.mask, hops ▸ h.ops,
    htype ▸ h.type, fun buf hbuf => ?_, fun j x' hj hx' a ha => ?_⟩, hs.symm⟩
  · rw [hbuf] at hlen
    obtain ⟨buf₀, hbuf₀, heq⟩ := map_eq_some_iff.1 hlen
    exact heq ▸ h.length buf₀ hbuf₀
  · have hatx : regionAt m' (.dynamicMap j) = some x' := hx'
    obtain ⟨x, hx, hxs⟩ := exists_regionAt_of_shape hshape hatx
    rw [regionCovers_of_shape hxs]
    exact h.alone j x hj hx a ((MpuAddressRegionType.has_of_shape hs).2 ha)

theorem getElem?_mallocRegionData (junk : Nat → UInt8) (m : MpuAddressMapType W) (i j : Nat) :
    (mpuMallocRegionData junk m i).dynamicMap[j]? = (m.dynamicMap[j]?).map fun region =>
      if i = j then
        { region with data := some (region.data.getD (hostMalloc junk mpuMallocUnitBytes)) }
      else region := by
  rw [mpuMallocRegionData, List.getElem?_modify]
  rfl

theorem UnitMapped.mallocData (h : UnitMapped m start index region) (junk : Nat → UInt8) (i : Nat) :
    ∃ region', UnitMapped (mpuMallocRegionData junk m i) start index region' ∧
      region'.data = if i = index then some (region.data.getD (hostMalloc junk mpuMallocUnitBytes))
        else region.data := by
  have hat := getElem?_mallocRegionData junk m i index
  rw [h.region_eq, map_some] at hat
  have halone : ∀ (j : Nat) (x : MpuAddressRegionType W), j ≠ index →
      (mpuMallocRegionData junk m i).dynamicMap[j]? = some x →
      ∀ a : AthrillAddrType W, region.Has a.toNat → regionCovers x a 1 = false := by
    intro j x hj hx a ha
    rw [getElem?_mallocRegionData] at hx
    obtain ⟨x₀, hx₀, rfl⟩ := map_eq_some_iff.1 hx
    have := h.alone j x₀ hj hx₀ a ha
    split_ifs
    · exact this
    · exact this
  by_cases hi : i = index
  · rw [if_pos hi] at hat
    refine ⟨_, ⟨hat, h.start_eq, h.size_eq, h.mask, h.ops, h.type, fun buf hbuf => ?_, halone⟩, ?_⟩
    · cases hbuf
      cases hdata : region.data with
      | none =>
        rw [getD_none, length_hostMalloc]
      | some buf₀ =>
        rw [getD_some]
        exact h.length buf₀ hdata
    · rw [if_pos hi]
  · rw [if_neg hi] at hat
    exact ⟨_, ⟨hat, h.start_eq, h.size_eq, h.mask, h.ops, h.type, h.length, halone⟩,
      (if_neg hi).symm⟩

end

/-! ## The invariant -/

structure HeapOk (starts : List (MallocSizeType → AthrillAddrType W)) (h : Heap W)
    (live : List (BitVec 32)) : Prop where
  inv : HeapInv starts h.malloc live
  mapped : ∀ g < starts.length, ∀ i, ∃ region,
    UnitMapped h.bus.addressMap (mallocUnitStart starts g i) (h.regionIndex g i) region
  buffer : ∀ b : MallocBlock, b.Of starts → b.addr starts ∈ live →
    ∃ buf, h.buffer b.group b.size = some buf

section
variable {starts : List (MallocSizeType → AthrillAddrType W)} {h : Heap W} {live : List (BitVec 32)}

theorem HeapOk.of_shape (hok : HeapOk starts h live) {s : MpuState W}
    (hshape : s.addressMap.shape = h.bus.addressMap.shape) : HeapOk starts { h with bus := s } live where
  inv := hok.inv
  mapped g hg i := by
    obtain ⟨region, hmap⟩ := hok.mapped g hg i
    obtain ⟨region', hmap', -⟩ := hmap.of_shape hshape
    exact ⟨region', hmap'⟩
  buffer b hb hlive := by
    obtain ⟨buf, hbuf⟩ := hok.buffer b hb hlive
    obtain ⟨region, hregion, hdata⟩ := bind_eq_some_iff.1 hbuf
    have hat : regionAt h.bus.addressMap (h.ref b) = some region := hregion
    obtain ⟨region', hat', hs⟩ := exists_regionAt_of_shape hshape.symm hat
    obtain ⟨-, -, -, -, -, -, hlen⟩ := MpuAddressRegionType.fields_of_shape hs
    rw [hdata] at hlen
    obtain ⟨buf', hbuf', -⟩ := map_eq_some_iff.1 hlen.symm
    exact ⟨buf', bind_eq_some_iff.2 ⟨region', hat', hbuf'⟩⟩

theorem HeapOk.regionIndex_inj (hok : HeapOk starts h live) (hd : UnitsDisjoint starts) {g g' : Nat}
    {i i' : MallocSizeType} (hg : g < starts.length) (hg' : g' < starts.length)
    (heq : h.regionIndex g i = h.regionIndex g' i') : (g, i) = (g', i') := by
  by_contra hne
  obtain ⟨region, hmap⟩ := hok.mapped g hg i
  obtain ⟨region', hmap'⟩ := hok.mapped g' hg' i'
  have hsame : region = region' :=
    some.inj (hmap.region_eq.symm.trans (heq ▸ hmap'.region_eq))
  have hstart := hmap.start_eq
  rw [hsame, hmap'.start_eq] at hstart
  have hpos : 0 < mpuMallocUnitBytes := by decide
  have := hd g hg g' hg' i i' hne
  omega

theorem buffer_heapGetMemory (hd : UnitsDisjoint starts) (hok : HeapOk starts h live)
    (junk : Nat → UInt8) (size : BitVec 32) {g : Nat} (hg : g < starts.length) (i : MallocSizeType) :
    (heapGetMemory junk h size).2.buffer g i =
      if (mallocTaken h.malloc size).map (fun r => (r.group.val, r.size)) = some (g, i) then
        some ((h.buffer g i).getD (hostMalloc junk mpuMallocUnitBytes)) else h.buffer g i := by
  cases htaken : mallocTaken h.malloc size with
  | none => simp [heapGetMemory, htaken, Heap.buffer]
  | some r =>
    obtain ⟨region, hmap⟩ := hok.mapped g hg i
    have hgr : r.group.val < starts.length := by
      rw [← hok.inv.starts_eq]
      exact MallocRegionType.group_lt r
    simp only [heapGetMemory, htaken, Heap.buffer, getElem?_mallocRegionData, hmap.region_eq,
      map_some, bind_some, some.injEq]
    by_cases hsame : (r.group.val, r.size) = (g, i)
    · cases hsame
      rw [if_pos rfl, if_pos rfl]
    · rw [if_neg hsame, if_neg fun heq => hsame (hok.regionIndex_inj hd hgr hg heq)]

theorem HeapOk.getMemory (hok : HeapOk starts h live) (hd : UnitsDisjoint starts)
    (ha : MallocAddressable starts) (junk : Nat → UInt8) (size : BitVec 32) :
    (heapGetMemory junk h size = (0, h) ∧
        (16384 < size.toNat ∨ ∀ b : MallocBlock, b.Of starts → size.toNat ≤ mallocMemsize b.size →
          b.addr starts ∈ live)) ∨
      ∃ b : MallocBlock, FirstFree starts live size b ∧
        (heapGetMemory junk h size).1 = b.addr starts ∧
        HeapOk starts (heapGetMemory junk h size).2 (b.addr starts :: live) := by
  rcases hok.inv.getMemory hd ha junk size with
    ⟨heq, htaken, hex⟩ | ⟨b, hfirst, hget, htaken, hinv⟩
  · refine .inl ⟨?_, hex⟩
    simp only [heapGetMemory, htaken, heq]
  · refine .inr ⟨b, hfirst, hget, hinv, fun g hg i => ?_, fun b' hb' hlive => ?_⟩
    · obtain ⟨region, hmap⟩ := hok.mapped g hg i
      obtain ⟨r, hr, -⟩ := map_eq_some_iff.1 htaken
      obtain ⟨region', hmap', -⟩ := hmap.mallocData junk (h.regionIndex r.group r.size)
      refine ⟨region', ?_⟩
      simp only [heapGetMemory, hr]
      exact hmap'
    · rw [buffer_heapGetMemory hd hok junk size hb'.group, htaken]
      split_ifs with hunit
      · exact ⟨_, rfl⟩
      · refine hok.buffer b' hb' ((List.mem_cons.1 hlive).resolve_left fun haddr => hunit ?_)
        rw [hb'.addr_inj hd ha hfirst.of haddr]

variable {b : MallocBlock} {j : Nat}

theorem HeapOk.getMemory_of_firstFree (hok : HeapOk starts h live) (hd : UnitsDisjoint starts)
    (ha : MallocAddressable starts) (junk : Nat → UInt8) {size : BitVec 32}
    (hfirst : FirstFree starts live size b) :
    (heapGetMemory junk h size).1 = b.addr starts ∧
      HeapOk starts (heapGetMemory junk h size).2 (b.addr starts :: live) := by
  rcases hok.getMemory hd ha junk size with ⟨-, hex⟩ | ⟨b', hfirst', hget, hok'⟩
  · exact absurd hex hfirst.not_exhausted
  · rw [hfirst.unique hfirst']
    exact ⟨hget, hok'⟩

theorem HeapOk.relMemory (hok : HeapOk starts h live) (hd : UnitsDisjoint starts)
    (ha : MallocAddressable starts) (hb : b.Of starts) (htop : b.BelowTop starts)
    (hlive : b.addr starts ∈ live) :
    HeapOk starts (heapRelMemory h (b.addr starts)) (live.erase (b.addr starts)) where
  inv := (hok.inv.relMemory hd ha hb htop hlive).1
  mapped := hok.mapped
  buffer b' hb' hlive' := hok.buffer b' hb' (List.mem_of_mem_erase hlive')

/-! ## The bytes of a block -/

def MallocBlock.busAddr (starts : List (MallocSizeType → AthrillAddrType W)) (b : MallocBlock)
    (j : Nat) : AthrillAddrType W :=
  (b.addr starts).setWidth W + BitVec.ofNat W j

theorem MallocBlock.Of.toNat_busAddr (hb : b.Of starts)
    (ha : MallocAddressable starts) (hj : j < mallocMemsize b.size) :
    (b.busAddr starts j).toNat = b.start starts + j := by
  have hin := hb.inside
  have hfit := ha _ hb.group b.size
  have haddr : ((b.addr starts).setWidth W).toNat = b.start starts := by
    rw [BitVec.toNat_setWidth, hb.toNat_addr ha]
    exact Nat.mod_eq_of_lt (by omega)
  have hoff : (BitVec.ofNat W j).toNat = j := Nat.mod_eq_of_lt (by omega)
  rw [MallocBlock.busAddr, BitVec.toNat_add_of_lt (by omega), haddr, hoff]

def Heap.window (h : Heap W) (starts : List (MallocSizeType → AthrillAddrType W)) (b : MallocBlock) :
    MemoryWindow W :=
  ⟨(starts.getD b.group fun _ => 0) b.size, BitVec.ofNat W mpuMallocUnitBytes,
    .dynamicMap (h.regionIndex b.group b.size), true⟩

theorem UnitMapped.has {m : MpuAddressMapType W} {index : Nat} {region : MpuAddressRegionType W}
    (hmap : UnitMapped m (mallocUnitStart starts b.group b.size) index region) (hb : b.Of starts)
    (ha : MallocAddressable starts) (hj : j < mallocMemsize b.size) :
    region.Has (b.busAddr starts j).toNat := by
  have hin := hb.inside
  have hlow : mallocUnitStart starts b.group b.size ≤ b.start starts := Nat.le_add_right _ _
  rw [MpuAddressRegionType.Has, hb.toNat_busAddr ha hj, hmap.start_eq, hmap.size_eq]
  omega

theorem UnitMapped.notShadowed {m : MpuAddressMapType W} {start index : Nat}
    {region : MpuAddressRegionType W} (hmap : UnitMapped m start index region) {a : AthrillAddrType W}
    (ha : region.Has a.toNat) : NotShadowed m (.dynamicMap index) a := by
  intro ref x hs hx
  cases ref with
  | map i => exact hs.elim
  | dynamicMap i =>
    refine hmap.alone i x ?_ hx _ ha
    rcases hs with hlt | ⟨hne, -⟩
    · exact Nat.ne_of_lt hlt
    · exact hne

theorem HeapOk.exists_plain (hok : HeapOk starts h live) (hb : b.Of starts) (htop : b.BelowTop starts)
    (hlive : b.addr starts ∈ live) :
    ∃ region, UnitMapped h.bus.addressMap (mallocUnitStart starts b.group b.size)
      (h.regionIndex b.group b.size) region ∧ PlainRegion region := by
  obtain ⟨region, hmap⟩ := hok.mapped _ hb.group b.size
  obtain ⟨buf, hbuf⟩ := hok.buffer b hb hlive
  rw [Heap.buffer, hmap.region_eq, bind_some] at hbuf
  refine ⟨region, hmap, hmap.mask, hmap.ops, .inl hmap.type, ⟨buf, hbuf, ?_⟩, ?_⟩
  · rw [hmap.size_eq]
    exact hmap.length buf hbuf
  · rw [hmap.start_eq, hmap.size_eq]
    exact htop

theorem HeapOk.windowAgrees (hok : HeapOk starts h live) (ha : MallocAddressable starts) (hb : b.Of starts)
    (htop : b.BelowTop starts) (hlive : b.addr starts ∈ live) (hj : j < mallocMemsize b.size) :
    WindowAgrees h.bus (h.window starts b) (b.busAddr starts j) := by
  obtain ⟨region, hmap, hplain⟩ := hok.exists_plain hb htop hlive
  have hhas := hmap.has hb ha hj
  have hat : regionAt h.bus.addressMap (h.window starts b).data = some region := hmap.region_eq
  refine windowAgrees_of_notShadowed hat hplain ?_ ?_ hhas (hmap.notShadowed hhas)
  · exact BitVec.eq_of_toNat_eq hmap.start_eq.symm
  · rw [hmap.type]
    rfl

theorem HeapOk.write_read (hok : HeapOk starts h live) (hf : MallocFits starts) (hb : b.Of starts)
    (hlive : b.addr starts ∈ live) (hj : j < mallocMemsize b.size) (data : BitVec 8) :
    ∃ s₁ s₂, mpuPutData8 h.bus (b.busAddr starts j) data = some (.ok, s₁) ∧
      mpuGetData8 s₁ (b.busAddr starts j) = some (.ok data.toNat, s₂) := by
  obtain ⟨buf, -, hlt, -, hput⟩ := hok.windowAgrees hf.addressable hb (hf.belowTop hb) hlive hj
  obtain ⟨ret, s₁, hret, hok₁, hdata⟩ := hput data
  obtain rfl : ret = .ok := hok₁.2 rfl
  have hshape : s₁.addressMap.shape = h.bus.addressMap.shape := mpuPutData_shape hret
  have hagrees : WindowAgrees s₁ (h.window starts b) (b.busAddr starts j) :=
    (hok.of_shape hshape).windowAgrees hf.addressable hb (hf.belowTop hb) hlive hj
  obtain ⟨buf₁, hbuf₁, -, ⟨s₂, hget⟩, -⟩ := hagrees
  rw [if_pos (by rfl)] at hdata
  obtain rfl := some.inj (hdata.symm.trans hbuf₁)
  refine ⟨s₁, s₂, hret, ?_⟩
  rw [hget, List.getD_eq_getElem?_getD, List.getElem?_set_self hlt, getD_some,
    UInt8.toNat_ofNat_of_lt' data.isLt]

end

/-! ## Histories -/

inductive HeapEvent (W : Nat)
  | access (e : BusAccess W)
  | call (c : MallocCall)

/-- The allocator with its memory, and the blocks handed out and not released. -/
structure HeapState (W : Nat) where
  heap : Heap W
  live : List (BitVec 32)

def heapStep (junk : Nat → UInt8) (s : HeapState W) :
    HeapEvent W → Option (HeapState W × Option (BitVec 32))
  | .access e => (busStep s.heap.bus e).map fun r => (⟨{ s.heap with bus := r.1 }, s.live⟩, none)
  | .call (.getMemory size) =>
    let r := heapGetMemory junk s.heap size
    some (⟨r.2, if r.1 = 0 then s.live else r.1 :: s.live⟩, some r.1)
  | .call (.relMemory addr) =>
    if s.live.contains addr then some (⟨heapRelMemory s.heap addr, s.live.erase addr⟩, none) else none

def GuestOk (starts : List (MallocSizeType → AthrillAddrType W)) (s : HeapState W) : Prop :=
  ∃ taken, HeapOk starts s.heap taken ∧ s.live ⊆ taken ∧ s.live.Nodup

section
variable {starts : List (MallocSizeType → AthrillAddrType W)} {junk : Nat → UInt8}

section
variable {s s' : HeapState W} (hok : GuestOk starts s) (hd : UnitsDisjoint starts) (hf : MallocFits starts)
include hok hd hf

theorem GuestOk.step {e : HeapEvent W} {result : Option (BitVec 32)}
  (hstep : heapStep junk s e = some (s', result)) : GuestOk starts s' := by
  obtain ⟨taken, hheap, hsub, hnodup⟩ := hok
  match e, hstep with
  | .access e, hstep =>
    obtain ⟨⟨bus, o⟩, hbus, heq⟩ := map_eq_some_iff.1 hstep
    cases heq
    exact ⟨taken, hheap.of_shape (busStep_shape hbus), hsub, hnodup⟩
  | .call (.getMemory size), hstep =>
    cases hstep
    rcases hheap.getMemory hd hf.addressable junk size with ⟨heq, -⟩ | ⟨b, hfirst, hget, hok'⟩
    · rw [heq]
      exact ⟨taken, hheap, hsub, hnodup⟩
    · refine ⟨b.addr starts :: taken, hok', ?_⟩
      dsimp only
      rw [hget]
      split_ifs
      · exact ⟨fun a ha => .tail _ (hsub ha), hnodup⟩
      · exact ⟨List.cons_subset_cons _ hsub, hnodup.cons fun hmem => hfirst.free (hsub hmem)⟩
  | .call (.relMemory addr), hstep =>
    rw [heapStep] at hstep
    split_ifs at hstep with hcontains
    have hlive : addr ∈ s.live := List.contains_iff_mem.1 hcontains
    cases hstep
    obtain ⟨b, hb, rfl⟩ := hheap.inv.exists_block addr (hsub hlive)
    refine ⟨_, hheap.relMemory hd hf.addressable hb (hf.belowTop hb) (hsub hlive), fun a ha => ?_,
      hnodup.erase _⟩
    obtain ⟨hne, hmem⟩ := hnodup.mem_erase_iff.1 ha
    exact hheap.inv.nodup.mem_erase_iff.2 ⟨hne, hsub hmem⟩

theorem GuestOk.run {es : List (HeapEvent W)} {results : List (Option (BitVec 32))}
  (hrun : Machine.run (heapStep junk) s es = some (s', results)) : GuestOk starts s' :=
  run_invariant (GuestOk starts) (fun _ _ _ _ hinv hstep => hinv.step hd hf hstep) es hok hrun

end

theorem GuestOk.write_read {s : HeapState W} (hok : GuestOk starts s) (hf : MallocFits starts)
    {a : BitVec 32} (ha : a ∈ s.live) :
    ∃ b : MallocBlock, b.Of starts ∧ b.addr starts = a ∧
      ∀ j < mallocMemsize b.size, ∀ data : BitVec 8, ∃ s₁ s₂,
        mpuPutData8 s.heap.bus (b.busAddr starts j) data = some (.ok, s₁) ∧
        mpuGetData8 s₁ (b.busAddr starts j) = some (.ok data.toNat, s₂) := by
  obtain ⟨taken, hheap, hsub, -⟩ := hok
  obtain ⟨b, hb, rfl⟩ := hheap.inv.exists_block a (hsub ha)
  exact ⟨b, hb, rfl, fun j hj data => hheap.write_read hf hb (hsub ha) hj data⟩

end

end Athrill
