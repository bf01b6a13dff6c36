import Athrill.Loader.SegmentSafe
import Athrill.Mpu.Heap

/-!
# Pointers to regions

Two parts of the emulator keep pointers into `dynamic_map`: every MALLOC unit to its region, and every
external device to its region. Main result: `region_pointers_current_iff`.
-/

namespace Athrill

open Machine List

variable {W : Nat}

/-! ## Pointers -/

structure RegionPointer where
  entries : Nat
  index : Nat
  deriving DecidableEq

def RegionPointer.deref (m : MpuAddressMapType W) (p : RegionPointer) :
    Option (MpuAddressRegionType W) :=
  if p.entries = m.dynamicMap.length then m.dynamicMap[p.index]? else none

/-- The pointers to regions kept by the allocator and by the devices. -/
structure KeptPointers where
  malloc : List (Option RegionPointer)
  dev : List RegionPointer

def mpuAddressSetMallocRegion (m : MpuAddressMapType W) (addr size : AthrillAddrType W) :
    Option RegionPointer :=
  (mpuAddressSearchRegion m addr size).map fun i => ⟨m.dynamicMap.length, i⟩

def unitStarts : Nat → AthrillAddrType W → List (AthrillAddrType W)
  | 0, _ => []
  | n + 1, start => start :: unitStarts n (start + BitVec.ofNat W mpuMallocUnitBytes)

def mallocUnits (ram : List (MemoryAddressType W)) : List (AthrillAddrType W) :=
  ram.flatMap fun r =>
    if r.type = .malloc then unitStarts (r.size.toNat / 1024 % 2 ^ 32) r.start else []

def setMallocRegions (m : MpuAddressMapType W) (ram : List (MemoryAddressType W)) :
    List (Option RegionPointer) :=
  (mallocUnits ram).map fun start =>
    mpuAddressSetMallocRegion m start (BitVec.ofNat W mpuMallocUnitBytes)

def devPointers : List (MemoryAddressType W) → MpuAddressMapType W → List RegionPointer
  | [], _ => []
  | r :: rs, m =>
    let m' := (mpuAddressSetDev m r.start r.size r.extdev).1
    ⟨m'.dynamicMap.length, m'.dynamicMap.length - 1⟩ :: devPointers rs m'

def elfMapMemoryPointers (junk : Nat → UInt8) (memap : MemoryAddressMapType W)
    (m : MpuAddressMapType W) : Option (MpuAddressMapType W × KeptPointers) := do
  let m ← mapRom junk memap.rom m
  let m ← mapRam junk memap.ram m
  let m' ← mapDev memap.dev m
  some (m', ⟨setMallocRegions m memap.ram, devPointers memap.dev m⟩)

/-- The kept pointers still point to the regions they were taken for. -/
structure KeptPointers.Current (kept : KeptPointers) (memap : MemoryAddressMapType W)
    (m : MpuAddressMapType W) : Prop where
  malloc : List.Forall₂ (fun start p => ∃ ptr region, p = some ptr ∧ ptr.deref m = some region ∧
    region.start = start ∧ region.isMalloc = true) (mallocUnits memap.ram) kept.malloc
  dev : List.Forall₂ (fun r ptr => ∃ region, RegionPointer.deref m ptr = some region ∧
    region.start = r.start ∧ region.type = .device) memap.dev kept.dev

/-! ## Disjoint configurations -/

def InRange (r : AthrillAddrType W × AthrillAddrType W) (a : AthrillAddrType W) : Prop :=
  (a - r.1).toNat < r.2.toNat

def RangesDisjoint (r r' : AthrillAddrType W × AthrillAddrType W) : Prop :=
  ∀ a, ¬ (InRange r a ∧ InRange r' a)

theorem RangesDisjoint.symm {r r' : AthrillAddrType W × AthrillAddrType W} (h : RangesDisjoint r r') :
    RangesDisjoint r' r := fun a ha => h a ⟨ha.2, ha.1⟩

def ramRanges (r : MemoryAddressType W) : List (AthrillAddrType W × AthrillAddrType W) :=
  if r.type ≠ .malloc then [(r.start, r.size * 1024)]
  else (unitStarts (r.size.toNat / 1024 % 2 ^ 32) r.start).map fun start =>
    (start, BitVec.ofNat W mpuMallocUnitBytes)

def configRanges (memap : MemoryAddressMapType W) : List (AthrillAddrType W × AthrillAddrType W) :=
  memap.rom.map (fun r => (r.start, r.size * 1024)) ++
    (memap.ram.flatMap ramRanges ++ memap.dev.map fun r => (r.start, r.size))

def MpuAddressRegionType.range (region : MpuAddressRegionType W) :
    AthrillAddrType W × AthrillAddrType W :=
  (region.start, region.size)

theorem inRange_of_regionCovers {region : MpuAddressRegionType W} {addr n : AthrillAddrType W}
    (hmask : region.mask = BitVec.allOnes W) (h : regionCovers region addr n = true) :
    InRange region.range addr := by
  have hbelow := below_of_regionCovers h
  have hhas := ((regionCovers_iff hmask hbelow).1 h).1
  have hlow : region.start.toNat ≤ addr.toNat := hhas.1
  have hhigh : addr.toNat < region.start.toNat + region.size.toNat := hhas.2
  rw [InRange, MpuAddressRegionType.range, BitVec.toNat_sub_of_le (BitVec.le_def.2 hlow)]
  dsimp only
  omega

structure Laid (m : MpuAddressMapType W) (todo : List (AthrillAddrType W × AthrillAddrType W)) :
    Prop where
  mask : ∀ x ∈ m.dynamicMap, x.mask = BitVec.allOnes W
  disjoint : m.dynamicMap.Pairwise fun x y => RangesDisjoint x.range y.range
  apart : ∀ x ∈ m.dynamicMap, ∀ t ∈ todo, RangesDisjoint x.range t
  pairwise : todo.Pairwise RangesDisjoint

section
variable {m m' : MpuAddressMapType W} {t : AthrillAddrType W × AthrillAddrType W}
  {todo : List (AthrillAddrType W × AthrillAddrType W)} {region : MpuAddressRegionType W}
  {junk : Nat → UInt8}

theorem Laid.tail (h : Laid m (t :: todo)) : Laid m todo where
  mask := h.mask
  disjoint := h.disjoint
  apart x hx r hr := h.apart x hx r (.tail _ hr)
  pairwise := (pairwise_cons.1 h.pairwise).2

theorem Laid.add (h : Laid m (region.range :: todo)) (hmask : region.mask = BitVec.allOnes W) :
    Laid (m.addRegion region) todo where
  mask x hx := by
    rcases mem_append.1 hx with hx | hx
    · exact h.mask x hx
    · rw [mem_singleton.1 hx, hmask]
  disjoint := by
    refine pairwise_append.2 ⟨h.disjoint, pairwise_singleton _ _, fun x hx y hy => ?_⟩
    obtain rfl := mem_singleton.1 hy
    exact h.apart x hx _ (.head _)
  apart x hx r hr := by
    rcases mem_append.1 hx with hx | hx
    · exact h.apart x hx r (.tail _ hr)
    · rw [mem_singleton.1 hx]
      exact (pairwise_cons.1 h.pairwise).1 r hr
  pairwise := (pairwise_cons.1 h.pairwise).2

theorem Laid.disjoint_of_ne (h : Laid m todo) {i j : Nat} (hne : i ≠ j)
    {x y : MpuAddressRegionType W} (hi : m.dynamicMap[i]? = some x) (hj : m.dynamicMap[j]? = some y) :
    RangesDisjoint x.range y.range := by
  obtain ⟨hi', rfl⟩ := List.getElem?_eq_some_iff.1 hi
  obtain ⟨hj', rfl⟩ := List.getElem?_eq_some_iff.1 hj
  have hpair := pairwise_iff_getElem.1 h.disjoint
  rcases Nat.lt_or_gt_of_ne hne with hlt | hlt
  · exact hpair i j hi' hj' hlt
  · exact (hpair j i hj' hi' hlt).symm

theorem Laid.search_eq_none (h : Laid m (t :: todo)) (hpos : 0 < t.2.toNat) (n : AthrillAddrType W) :
    mpuAddressSearchRegion m t.1 n = none := by
  refine findIdx?_eq_none_iff.2 fun x hx => Bool.eq_false_iff.2 fun hcov => ?_
  refine h.apart x hx t (.head _) t.1 ⟨inRange_of_regionCovers (h.mask x hx) hcov, ?_⟩
  rw [InRange, BitVec.sub_self]
  exact hpos

theorem Laid.setRomRam {getType : MpuAddressGetType} {addr size : AthrillAddrType W}
    {mmapAddr buf : Option HostBuffer} (h : Laid m ((addr, size) :: todo))
    (hset : mpuAddressSetRomRam junk m getType addr size mmapAddr = some (m', buf)) :
    Laid m' todo ∧ m.dynamicMap <+: m'.dynamicMap := by
  rcases mpuAddressSetRomRam_cases hset with ⟨-, rfl⟩ | ⟨-, rfl⟩
  · exact ⟨h.tail, prefix_refl _⟩
  · exact ⟨Laid.add h rfl, prefix_append _ _⟩

variable {rs : List (MemoryAddressType W)}

theorem Laid.mapRom (h : Laid m (rs.map (fun r => (r.start, r.size * 1024)) ++ todo))
    (hmap : mapRom junk rs m = some m') : Laid m' todo ∧ m.dynamicMap <+: m'.dynamicMap := by
  induction rs generalizing m with
  | nil =>
    cases hmap
    exact ⟨h, prefix_refl _⟩
  | cons r rs ih =>
    rw [Athrill.mapRom] at hmap
    split at hmap
    · next m₁ _ hset =>
      obtain ⟨h₁, hpre⟩ := Laid.setRomRam h hset
      obtain ⟨h₂, hpre'⟩ := ih h₁ hmap
      exact ⟨h₂, hpre.trans hpre'⟩
    · cases hmap

theorem Laid.mapMallocUnits (hunit : 0 < (BitVec.ofNat W mpuMallocUnitBytes).toNat) {n : Nat}
    {start : AthrillAddrType W}
    (h : Laid m ((unitStarts n start).map (fun st => (st, BitVec.ofNat W mpuMallocUnitBytes)) ++ todo))
    (hmap : mapMallocUnits junk n start m = some m') :
    Laid m' todo ∧ m.dynamicMap <+: m'.dynamicMap ∧
      ∀ st ∈ unitStarts n start, unitRegion st ∈ m'.dynamicMap := by
  induction n generalizing start m with
  | zero =>
    cases hmap
    exact ⟨h, prefix_refl _, fun st hst => by cases hst⟩
  | succ n ih =>
    rw [Athrill.mapMallocUnits] at hmap
    have hadd : mpuAddressSetRomRam junk m .malloc start (BitVec.ofNat W mpuMallocUnitBytes) none =
        some (m.addRegion (unitRegion start), none) := by
      rw [mpuAddressSetRomRam, Laid.search_eq_none h hunit]
      rfl
    rw [hadd] at hmap
    obtain ⟨h', hpre, hmem⟩ := ih (Laid.add h rfl) hmap
    refine ⟨h', (prefix_append _ _).trans hpre, fun st hst => ?_⟩
    rcases mem_cons.1 hst with rfl | hst
    · exact hpre.subset (mem_append_right _ (.head _))
    · exact hmem st hst

theorem Laid.mapRam (hunit : 0 < (BitVec.ofNat W mpuMallocUnitBytes).toNat)
    (h : Laid m (rs.flatMap ramRanges ++ todo)) (hmap : mapRam junk rs m = some m') :
    Laid m' todo ∧ m.dynamicMap <+: m'.dynamicMap ∧
      ∀ st ∈ mallocUnits rs, unitRegion st ∈ m'.dynamicMap := by
  induction rs generalizing m with
  | nil =>
    cases hmap
    exact ⟨h, prefix_refl _, fun st hst => by cases hst⟩
  | cons r rs ih =>
    rw [Athrill.mapRam] at hmap
    rw [flatMap_cons, append_assoc, ramRanges] at h
    by_cases htype : r.type = .malloc
    · rw [if_neg (not_not.2 htype)] at hmap h
      split at hmap
      · next m₁ hunits =>
        obtain ⟨h₁, hpre, hmem₁⟩ := Laid.mapMallocUnits hunit h hunits
        obtain ⟨h₂, hpre', hmem₂⟩ := ih h₁ hmap
        refine ⟨h₂, hpre.trans hpre', fun st hst => ?_⟩
        rw [mallocUnits, flatMap_cons, if_pos htype] at hst
        rcases mem_append.1 hst with hst | hst
        · exact hpre'.subset (hmem₁ st hst)
        · exact hmem₂ st hst
      · cases hmap
    · rw [if_pos htype] at hmap h
      split at hmap
      · next m₁ _ hset =>
        obtain ⟨h₁, hpre⟩ := Laid.setRomRam h hset
        obtain ⟨h₂, hpre', hmem⟩ := ih h₁ hmap
        refine ⟨h₂, hpre.trans hpre', fun st hst => ?_⟩
        rw [mallocUnits, flatMap_cons, if_neg htype] at hst
        exact hmem st hst
      · cases hmap

theorem mpuAddressSetDev_eq_some {addr size : AthrillAddrType W} {exdev : Option (AthrillExDeviceType W)}
    {buf : HostBuffer} (h : mpuAddressSetDev m addr size exdev = (m', some buf)) :
    ∃ dev, m' = m.addRegion (devRegion addr size dev) := by
  unfold mpuAddressSetDev at h
  split at h
  · cases h
  · split at h
    · cases h
    · next dev =>
      split_ifs at h
      · cases h
      · cases h
      · exact ⟨dev, (Prod.mk.inj h).1.symm⟩

theorem Laid.mapDev
    (h : Laid m (rs.map (fun r => (r.start, r.size)) ++ todo)) (hmap : mapDev rs m = some m') :
    Laid m' todo ∧ ∃ devs, m'.dynamicMap = m.dynamicMap ++ devs ∧
      List.Forall₂ (fun r x => x.start = r.start ∧ x.type = .device) rs devs ∧
      devPointers rs m = (range rs.length).map fun k =>
        ⟨m.dynamicMap.length + k + 1, m.dynamicMap.length + k⟩ := by
  induction rs generalizing m with
  | nil =>
    cases hmap
    exact ⟨h, [], (append_nil _).symm, .nil, rfl⟩
  | cons r rs ih =>
    rw [Athrill.mapDev] at hmap
    split at hmap
    · next m₁ buf hset =>
      obtain ⟨dev, rfl⟩ := mpuAddressSetDev_eq_some hset
      obtain ⟨h', devs, hdevs, hall, hptrs⟩ := ih (Laid.add h rfl) hmap
      have hlen : (m.addRegion (devRegion r.start r.size dev)).dynamicMap.length =
          m.dynamicMap.length + 1 := length_append
      refine ⟨h', devRegion r.start r.size dev :: devs, ?_, .cons ⟨rfl, rfl⟩ hall, ?_⟩
      · rw [hdevs, MpuAddressMapType.addRegion, append_assoc]
        rfl
      · rw [devPointers, hset]
        dsimp only
        rw [hptrs, length_cons, range_succ_eq_map, map_cons, map_map, hlen]
        refine congrArg _ (map_congr_left fun k _ => ?_)
        simp only [Function.comp_apply, RegionPointer.mk.injEq]
        omega
    · cases hmap

theorem Laid.search_unit (h : Laid m todo) (hunit : 0 < (BitVec.ofNat W mpuMallocUnitBytes).toNat)
    {start : AthrillAddrType W} {i : Nat} (hi : m.dynamicMap[i]? = some (unitRegion start)) :
    mpuAddressSearchRegion m start (BitVec.ofNat W mpuMallocUnitBytes) =
      if start.toNat + (BitVec.ofNat W mpuMallocUnitBytes).toNat < 2 ^ W then some i else none := by
  have hstart : InRange (unitRegion start).range start := by
    rw [InRange, MpuAddressRegionType.range]
    show (start - start).toNat < _
    rw [BitVec.sub_self]
    exact hunit
  -- a region that covers the unit has its start, so that it is the unit's own
  have honly : ∀ (j : Nat) (x : MpuAddressRegionType W), m.dynamicMap[j]? = some x →
      regionCovers x start (BitVec.ofNat W mpuMallocUnitBytes) = true → j = i := by
    intro j x hj hcov
    by_contra hne
    have hin := inRange_of_regionCovers (h.mask x (mem_of_getElem? hj)) hcov
    exact h.disjoint_of_ne hne hj hi start ⟨hin, hstart⟩
  split_ifs with hbelow
  · refine findIdx?_regionCovers_eq_some.2 ⟨⟨_, hi, ?_⟩, fun j hj x hx => ?_⟩
    · refine (regionCovers_iff rfl hbelow).2 ?_
      rw [MpuAddressRegionType.Has, BitVec.toNat_add_of_lt hbelow]
      exact ⟨⟨le_refl _, Nat.lt_add_of_pos_right hunit⟩, Nat.lt_add_of_pos_right hunit, le_refl _⟩
    · exact Bool.eq_false_iff.2 fun hcov => Nat.ne_of_lt hj (honly j x hx hcov)
  · refine findIdx?_eq_none_iff.2 fun x hx => Bool.eq_false_iff.2 fun hcov => hbelow ?_
    obtain ⟨j, hj⟩ := mem_iff_getElem?.1 hx
    obtain rfl := honly j x hj hcov
    cases hi.symm.trans hj
    exact below_of_regionCovers hcov

end

/-! ## The pointers after a load -/

theorem toNat_unitBytes (hW : W = 32 ∨ W = 64) :
    (BitVec.ofNat W mpuMallocUnitBytes).toNat = mpuMallocUnitBytes := by
  rcases hW with rfl | rfl <;> rfl

structure MappedConfig (memap : MemoryAddressMapType W) (m m₂ : MpuAddressMapType W)
    (devs : List (MpuAddressRegionType W)) (kept : KeptPointers) : Prop where
  laid : Laid m []
  laid_ram : Laid m₂ []
  units : ∀ st ∈ mallocUnits memap.ram, unitRegion st ∈ m₂.dynamicMap
  dynamicMap_eq : m.dynamicMap = m₂.dynamicMap ++ devs
  devices : List.Forall₂ (fun r x => x.start = r.start ∧ x.type = .device) memap.dev devs
  malloc_eq : kept.malloc = setMallocRegions m₂ memap.ram
  dev_eq : kept.dev = (range memap.dev.length).map fun k =>
    ⟨m₂.dynamicMap.length + k + 1, m₂.dynamicMap.length + k⟩

section
variable {memap : MemoryAddressMapType W} {junk : Nat → UInt8} {map : List (MpuAddressRegionType W)}
  {m m₂ : MpuAddressMapType W} {devs : List (MpuAddressRegionType W)} {kept : KeptPointers}

theorem mappedConfig (hunit : 0 < (BitVec.ofNat W mpuMallocUnitBytes).toNat)
    (hdisj : (configRanges memap).Pairwise RangesDisjoint)
    (hmap : elfMapMemoryPointers junk memap ⟨map, []⟩ = some (m, kept)) :
    ∃ m₂ devs, MappedConfig memap m m₂ devs kept := by
  obtain ⟨m₁, hrom, hmap⟩ := Option.bind_eq_some_iff.1 hmap
  obtain ⟨m₂, hram, hmap⟩ := Option.bind_eq_some_iff.1 hmap
  obtain ⟨m₃, hdev, hmap⟩ := Option.bind_eq_some_iff.1 hmap
  cases hmap
  have h₀ : Laid (⟨map, []⟩ : MpuAddressMapType W) (configRanges memap) :=
    ⟨by simp, .nil, by simp, hdisj⟩
  obtain ⟨h₁, -⟩ := Laid.mapRom h₀ hrom
  obtain ⟨h₂, -, hunits⟩ := Laid.mapRam hunit h₁ hram
  rw [← append_nil (memap.dev.map _)] at h₂
  obtain ⟨h₃, devs, hdevs, hall, hptrs⟩ := Laid.mapDev h₂ hdev
  refine ⟨m₂, devs, h₃, ⟨h₂.mask, h₂.disjoint, by simp, .nil⟩, hunits, hdevs, hall, rfl, hptrs⟩

section
variable (h : MappedConfig memap m m₂ devs kept)
include h

theorem MappedConfig.unit_pointer (hunit : 0 < (BitVec.ofNat W mpuMallocUnitBytes).toNat)
    {st : AthrillAddrType W} (hst : st ∈ mallocUnits memap.ram) :
    ∃ i, m₂.dynamicMap[i]? = some (unitRegion st) ∧
      mpuAddressSetMallocRegion m₂ st (BitVec.ofNat W mpuMallocUnitBytes) =
        if st.toNat + (BitVec.ofNat W mpuMallocUnitBytes).toNat < 2 ^ W then
          some ⟨m₂.dynamicMap.length, i⟩ else none := by
  obtain ⟨i, hi⟩ := mem_iff_getElem?.1 (h.units st hst)
  refine ⟨i, hi, ?_⟩
  rw [mpuAddressSetMallocRegion, h.laid_ram.search_unit hunit hi]
  split_ifs <;> rfl

theorem MappedConfig.length_devs :
    devs.length = memap.dev.length := h.devices.length_eq.symm

theorem MappedConfig.current_iff (hunit : 0 < (BitVec.ofNat W mpuMallocUnitBytes).toNat) :
    kept.Current memap m ↔
      (mallocUnits memap.ram = [] ∨ memap.dev = []) ∧ memap.dev.length ≤ 1 ∧
        ∀ st ∈ mallocUnits memap.ram,
          st.toNat + (BitVec.ofNat W mpuMallocUnitBytes).toNat < 2 ^ W := by
  have hlen : m.dynamicMap.length = m₂.dynamicMap.length + memap.dev.length := by
    rw [h.dynamicMap_eq, length_append, h.length_devs]
  constructor
  · rintro ⟨hmalloc, hdev⟩
    rw [h.malloc_eq, setMallocRegions, forall₂_map_right_iff, forall₂_same] at hmalloc
    have hunits : ∀ st ∈ mallocUnits memap.ram, memap.dev.length = 0 ∧
        st.toNat + (BitVec.ofNat W mpuMallocUnitBytes).toNat < 2 ^ W := by
      intro st hst
      obtain ⟨ptr, region, hptr, hderef, -, -⟩ := hmalloc st hst
      obtain ⟨i, -, heq⟩ := h.unit_pointer hunit hst
      rw [heq] at hptr
      split_ifs at hptr with hbelow
      cases hptr
      rw [RegionPointer.deref] at hderef
      split_ifs at hderef with hentries
      dsimp only at hentries
      exact ⟨by omega, hbelow⟩
    refine ⟨?_, ?_, fun st hst => (hunits st hst).2⟩
    · cases hnil : mallocUnits memap.ram with
      | nil => exact .inl rfl
      | cons st rest =>
        exact .inr (length_eq_zero_iff.1 (hunits st (hnil ▸ .head _)).1)
    · rw [h.dev_eq] at hdev
      by_contra hmany
      obtain ⟨-, hget⟩ := forall₂_iff_get.1 hdev
      obtain ⟨region, hderef, -⟩ := hget 0 (by omega) (by simp; omega)
      simp only [get_eq_getElem, getElem_map, getElem_range, RegionPointer.deref] at hderef
      split_ifs at hderef with hentries
      omega
  · rintro ⟨hor, hdev, hbelow⟩
    refine ⟨?_, ?_⟩
    · rw [h.malloc_eq, setMallocRegions, forall₂_map_right_iff, forall₂_same]
      intro st hst
      have hnodev : memap.dev = [] := hor.resolve_left fun hnil => by rw [hnil] at hst; cases hst
      rw [hnodev, length_nil, Nat.add_zero] at hlen
      obtain ⟨i, hi, heq⟩ := h.unit_pointer hunit hst
      rw [if_pos (hbelow st hst)] at heq
      refine ⟨_, unitRegion st, heq, ?_, rfl, rfl⟩
      rw [RegionPointer.deref, if_pos hlen.symm, h.dynamicMap_eq,
        List.getElem?_append_left (List.getElem?_eq_some_iff.1 hi).1]
      exact hi
    · rw [h.dev_eq]
      have hdevs := h.devices
      match hd : memap.dev, hdev with
      | [], _ => exact .nil
      | [r], _ =>
        rw [hd] at hdevs hlen
        obtain ⟨x, rest, hx, hnil, rfl⟩ := forall₂_cons_left_iff.1 hdevs
        obtain rfl := forall₂_nil_left_iff.1 hnil
        refine .cons ⟨x, ?_, hx⟩ .nil
        rw [RegionPointer.deref, if_pos (by simpa using hlen.symm), h.dynamicMap_eq]
        simp

end

theorem RegionPointer.deref_of_shape {m m' : MpuAddressMapType W} (hshape : m'.shape = m.shape)
    {p : RegionPointer} {x' : MpuAddressRegionType W} (h : p.deref m' = some x') :
    ∃ x, p.deref m = some x ∧ x'.shape = x.shape := by
  have hlen : m'.dynamicMap.length = m.dynamicMap.length := by
    have := congrArg (fun m : MpuAddressMapType W => m.dynamicMap.length) hshape
    simpa [MpuAddressMapType.shape] using this
  rw [RegionPointer.deref] at h
  split_ifs at h with hentries
  have hat : regionAt m' (.dynamicMap p.index) = some x' := h
  obtain ⟨x, hx, hs⟩ := exists_regionAt_of_shape hshape hat
  exact ⟨x, by rw [RegionPointer.deref, if_pos (hentries.trans hlen)]; exact hx, hs⟩

theorem KeptPointers.Current.of_shape {m m' : MpuAddressMapType W} (hshape : m'.shape = m.shape)
    (h : kept.Current memap m') : kept.Current memap m where
  malloc := h.malloc.imp fun start p ⟨ptr, x', hp, hderef, hstart, hmalloc⟩ => by
    obtain ⟨x, hx, hs⟩ := RegionPointer.deref_of_shape hshape hderef
    obtain ⟨-, hm, hst, -⟩ := MpuAddressRegionType.fields_of_shape hs
    exact ⟨ptr, x, hp, hx, hst ▸ hstart, hm ▸ hmalloc⟩
  dev := h.dev.imp fun r ptr ⟨x', hderef, hstart, htype⟩ => by
    obtain ⟨x, hx, hs⟩ := RegionPointer.deref_of_shape hshape hderef
    obtain ⟨ht, -, hst, -⟩ := MpuAddressRegionType.fields_of_shape hs
    exact ⟨x, hx, hst ▸ hstart, ht ▸ htype⟩

end

/-! ## The heap after a load -/

def mallocGroups (units : List (AthrillAddrType W)) : List (MallocSizeType → AthrillAddrType W) :=
  (range (units.length / 10)).map fun g i => units.getD (10 * g + i) 0

def loadedHeap (memap : MemoryAddressMapType W) (kept : KeptPointers) (bus : MpuState W) : Heap W where
  bus := bus
  malloc := mpuMallocAddRegions (mallocGroups (mallocUnits memap.ram))
  regionIndex g i := ((kept.malloc.getD (10 * g + i) none).map (·.index)).getD 0

theorem length_mallocGroups (units : List (AthrillAddrType W)) :
    (mallocGroups units).length = units.length / 10 := by
  rw [mallocGroups, length_map, length_range]

theorem exists_unit_of_group {units : List (AthrillAddrType W)} {g : Nat}
    (hg : g < (mallocGroups units).length) (i : MallocSizeType) :
    ∃ st, units[10 * g + i.val]? = some st ∧ mallocUnitStart (mallocGroups units) g i = st.toNat := by
  rw [length_mallocGroups] at hg
  have hlt : 10 * g + i.val < units.length := by
    have := i.isLt
    omega
  refine ⟨units[10 * g + i.val], getElem?_eq_getElem hlt, ?_⟩
  rw [mallocUnitStart, mallocGroups, getD_eq_getElem?_getD, getElem?_map,
    getElem?_range hg, Option.map_some, Option.getD_some, getD_eq_getElem?_getD,
    getElem?_eq_getElem hlt, Option.getD_some]

theorem units_sublist (ram : List (MemoryAddressType W)) :
    ((mallocUnits ram).map fun st => (st, BitVec.ofNat W mpuMallocUnitBytes)).Sublist
      (ram.flatMap ramRanges) := by
  induction ram with
  | nil => exact .slnil
  | cons r rs ih =>
    rw [mallocUnits, flatMap_cons, flatMap_cons, map_append]
    refine List.Sublist.append ?_ ih
    rw [ramRanges]
    by_cases htype : r.type = .malloc
    · rw [if_pos htype, if_neg (not_not.2 htype)]
    · rw [if_neg htype]
      exact nil_sublist _

theorem inRange_of_le {a n x : AthrillAddrType W} (hlow : a.toNat ≤ x.toNat)
    (hhigh : x.toNat < a.toNat + n.toNat) : InRange (a, n) x := by
  rw [InRange, BitVec.toNat_sub_of_le (BitVec.le_def.2 hlow)]
  dsimp only
  omega

theorem le_or_le_of_rangesDisjoint {a b n : AthrillAddrType W} (h : RangesDisjoint (a, n) (b, n)) :
    a.toNat + n.toNat ≤ b.toNat ∨ b.toNat + n.toNat ≤ a.toNat := by
  by_contra hno
  obtain ⟨hab, hba⟩ := not_or.1 hno
  rcases Nat.le_total a.toNat b.toNat with hle | hle
  · exact h b ⟨inRange_of_le hle (by omega), inRange_of_le (le_refl _) (by omega)⟩
  · exact h a ⟨inRange_of_le (le_refl _) (by omega), inRange_of_le hle (by omega)⟩

section
variable {memap : MemoryAddressMapType W} {m m₂ : MpuAddressMapType W}
  {devs : List (MpuAddressRegionType W)} {kept : KeptPointers}

theorem unitsDisjoint_mallocGroups (hW : W = 32 ∨ W = 64)
    (hdisj : (configRanges memap).Pairwise RangesDisjoint) :
    UnitsDisjoint (mallocGroups (mallocUnits memap.ram)) := by
  have hsub : ((mallocUnits memap.ram).map fun st => (st, BitVec.ofNat W mpuMallocUnitBytes)).Sublist
      (configRanges memap) :=
    (units_sublist memap.ram).trans
      ((sublist_append_left _ _).trans (sublist_append_right _ _))
  have hpair := pairwise_map.1 (hdisj.sublist hsub)
  have hnum : ∀ {j k : Nat} {a b : AthrillAddrType W}, j ≠ k → (mallocUnits memap.ram)[j]? = some a →
      (mallocUnits memap.ram)[k]? = some b →
      a.toNat + mpuMallocUnitBytes ≤ b.toNat ∨ b.toNat + mpuMallocUnitBytes ≤ a.toNat := by
    intro j k a b hne hj hk
    obtain ⟨hj', rfl⟩ := List.getElem?_eq_some_iff.1 hj
    obtain ⟨hk', rfl⟩ := List.getElem?_eq_some_iff.1 hk
    rw [← toNat_unitBytes hW]
    rcases Nat.lt_or_gt_of_ne hne with hlt | hlt
    · exact le_or_le_of_rangesDisjoint (pairwise_iff_getElem.1 hpair j k hj' hk' hlt)
    · exact (le_or_le_of_rangesDisjoint (pairwise_iff_getElem.1 hpair k j hk' hj' hlt)).symm
  intro g hg g' hg' i i' hne
  obtain ⟨a, ha, hstart⟩ := exists_unit_of_group hg i
  obtain ⟨b, hb, hstart'⟩ := exists_unit_of_group hg' i'
  rw [hstart, hstart']
  refine hnum (fun heq => hne ?_) ha hb
  have hi := i.isLt
  have hi' := i'.isLt
  have hgroup : g = g' := by omega
  have hsize : i = i' := Fin.ext (by omega)
  rw [hgroup, hsize]

theorem MappedConfig.heapOk (h : MappedConfig memap m m₂ devs kept) (hW : W = 32 ∨ W = 64)
    (hcur : kept.Current memap m) {s : MpuState W} (hshape : s.addressMap.shape = m.shape) :
    HeapOk (mallocGroups (mallocUnits memap.ram)) (loadedHeap memap kept s) [] := by
  have hbytes := toNat_unitBytes hW
  have hunit : 0 < (BitVec.ofNat W mpuMallocUnitBytes).toNat := by
    rw [hbytes]
    decide
  obtain ⟨hor, -, hbelow⟩ := (h.current_iff hunit).1 hcur
  refine ⟨heapInv_addRegions _, fun g hg i => ?_, fun b _ hlive => by cases hlive⟩
  obtain ⟨st, hst, hstart⟩ := exists_unit_of_group hg i
  have hmem := mem_of_getElem? hst
  obtain ⟨j, hj, hptr⟩ := h.unit_pointer hunit hmem
  rw [if_pos (hbelow st hmem)] at hptr
  have hindex : (loadedHeap memap kept s).regionIndex g i = j := by
    show ((kept.malloc.getD (10 * g + i) none).map (·.index)).getD 0 = j
    rw [h.malloc_eq, setMallocRegions, getD_eq_getElem?_getD, getElem?_map, hst,
      Option.map_some, Option.getD_some, hptr]
    rfl
  have hjm : m.dynamicMap[j]? = some (unitRegion st) := by
    rw [h.dynamicMap_eq, List.getElem?_append_left (List.getElem?_eq_some_iff.1 hj).1]
    exact hj
  have hmapped : UnitMapped m st.toNat j (unitRegion st) := by
    refine ⟨hjm, rfl, hbytes, rfl, rfl, rfl, fun buf hbuf => (by cases hbuf), fun k x hne hx a ha => ?_⟩
    refine Bool.eq_false_iff.2 fun hcov => ?_
    exact h.laid.disjoint_of_ne hne hx hjm a
      ⟨inRange_of_regionCovers (h.laid.mask x (mem_of_getElem? hx)) hcov, inRange_of_le ha.1 ha.2⟩
  obtain ⟨region, hregion, -⟩ := hmapped.of_shape hshape
  rw [hstart, hindex]
  exact ⟨region, hregion⟩

end

/-- **Pointers to regions.** After a program is loaded, every pointer to a region that is kept outside the
map refers to the current entry of its region if and only if the configuration has no MALLOC units or no
devices, has at most one device, and every unit ends below the top of the address space. If it also lies
below 2³², then in every state of the guest every byte of a live block can be written and read back. -/
theorem region_pointers_current_iff (hW : W = 32 ∨ W = 64) {memap : MemoryAddressMapType W}
    (hdisj : (configRanges memap).Pairwise RangesDisjoint) {junk : Nat → UInt8}
    {map : List (MpuAddressRegionType W)} {m : MpuAddressMapType W} {kept : KeptPointers}
    (hmap : elfMapMemoryPointers junk memap ⟨map, []⟩ = some (m, kept)) {segs : List (ElfSegment W)}
    {s : MpuState W} (hload : loadSegments memap (.mapped m) segs = some (.ok, s)) :
    (kept.Current memap s.addressMap ↔
      (mallocUnits memap.ram = [] ∨ memap.dev = []) ∧ memap.dev.length ≤ 1 ∧
        ∀ st ∈ mallocUnits memap.ram, st.toNat + mpuMallocUnitBytes < 2 ^ W) ∧
    ((mallocUnits memap.ram = [] ∨ memap.dev = []) → memap.dev.length ≤ 1 →
      (∀ st ∈ mallocUnits memap.ram, st.toNat + mpuMallocUnitBytes < 2 ^ W ∧
        st.toNat + mpuMallocUnitBytes ≤ 2 ^ 32) →
      ∀ (junk' : Nat → UInt8) (es : List (HeapEvent W)) (t : HeapState W)
        (results : List (Option (BitVec 32))),
        run (heapStep junk') ⟨loadedHeap memap kept s, []⟩ es = some (t, results) →
        ∀ a ∈ t.live, ∃ b : MallocBlock, b.Of (mallocGroups (mallocUnits memap.ram)) ∧
          b.addr (mallocGroups (mallocUnits memap.ram)) = a ∧
          ∀ j < mallocMemsize b.size, ∀ data : BitVec 8, ∃ s₁ s₂,
            mpuPutData8 t.heap.bus (b.busAddr (mallocGroups (mallocUnits memap.ram)) j) data =
              some (.ok, s₁) ∧
            mpuGetData8 s₁ (b.busAddr (mallocGroups (mallocUnits memap.ram)) j) =
              some (.ok data.toNat, s₂)) := by
  have hbytes := toNat_unitBytes hW
  have hunit : 0 < (BitVec.ofNat W mpuMallocUnitBytes).toNat := by
    rw [hbytes]
    decide
  obtain ⟨m₂, devs, hconfig⟩ := mappedConfig hunit hdisj hmap
  have hloading : Loading m (.mapped m) := ⟨rfl, fun j hj => by cases hj⟩
  have hshape : s.addressMap.shape = m.shape := (hloading.loadSegments segs hload).shape
  have hiff := hconfig.current_iff hunit
  rw [hbytes] at hiff
  refine ⟨⟨fun hcur => hiff.1 (hcur.of_shape hshape), fun hcond => (hiff.2 hcond).of_shape hshape.symm⟩,
    fun hor hdev hbelow junk' es t results hrun a ha => ?_⟩
  have hcur : kept.Current memap m := hiff.2 ⟨hor, hdev, fun st hst => (hbelow st hst).1⟩
  have hfits : MallocFits (mallocGroups (mallocUnits memap.ram)) := by
    intro g hg i
    obtain ⟨st, hst, hstart⟩ := exists_unit_of_group hg i
    rw [hstart]
    exact (hbelow st (mem_of_getElem? hst)).symm
  have hd := unitsDisjoint_mallocGroups hW hdisj
  have hok : GuestOk (mallocGroups (mallocUnits memap.ram)) ⟨loadedHeap memap kept s, []⟩ :=
    ⟨[], hconfig.heapOk hW hcur hshape, List.Subset.refl _, .nil⟩
  exact (hok.run hd hfits hrun).write_read hfits ha

/-! ## Two configurations -/

theorem rangesDisjoint_of_le {r r' : AthrillAddrType W × AthrillAddrType W}
    (h : r.1.toNat + r.2.toNat ≤ r'.1.toNat ∧ r'.1.toNat + r'.2.toNat ≤ 2 ^ W) :
    RangesDisjoint r r' := by
  rintro a ⟨hin, hin'⟩
  rw [InRange, BitVec.toNat_sub] at hin hin'
  have ha := a.isLt
  have hr := r.1.isLt
  have hr' := r'.1.isLt
  -- an address below the start of a range would be in it only by wrapping around
  have hlow' : r'.1.toNat ≤ a.toNat := by
    by_contra hlt
    rw [Nat.mod_eq_of_lt (by omega)] at hin'
    omega
  rw [Nat.mod_eq_sub_mod (by omega), Nat.mod_eq_of_lt (by omega)] at hin
  omega

def mallocConfig (dev : List (MemoryAddressType 32)) : MemoryAddressMapType 32 where
  rom := []
  ram := [⟨.ram, 0, 1, none, none⟩, ⟨.malloc, 0x10000000, 10240, none, none⟩]
  dev := dev

def memoryDevice (start : BitVec 32) : MemoryAddressType 32 :=
  ⟨.ram, start, 16, none, some ⟨none, none, true, true⟩⟩

theorem region_pointers_current_malloc : ∃ m kept s,
    elfMapMemoryPointers (fun _ => 0) (mallocConfig []) ⟨[], []⟩ = some (m, kept) ∧
      loadSegments (mallocConfig []) (.mapped m) [] = some (.ok, s) ∧
      kept.Current (mallocConfig []) s.addressMap := by
  have hsome : (elfMapMemoryPointers (fun _ => 0) (mallocConfig []) ⟨[], []⟩).isSome = true := by
    decide +kernel
  obtain ⟨⟨m, kept⟩, hmap⟩ := Option.isSome_iff_exists.1 hsome
  have hdisj : (configRanges (mallocConfig [])).Pairwise RangesDisjoint := by
    refine List.Pairwise.imp rangesDisjoint_of_le ?_
    decide +kernel
  have hunits : (mallocUnits (mallocConfig []).ram).all
      (fun st => decide (st.toNat + mpuMallocUnitBytes < 2 ^ 32)) = true := by
    decide +kernel
  have hload : loadSegments (mallocConfig []) (.mapped m) [] = some (.ok, .mapped m) := rfl
  exact ⟨m, kept, .mapped m, hmap, hload,
    (region_pointers_current_iff (.inl rfl) hdisj hmap hload).1.2 ⟨.inr rfl, Nat.zero_le _,
      fun st hst => of_decide_eq_true (all_eq_true.1 hunits st hst)⟩⟩

/-- With a device after them, the pointers of the MALLOC units are into the array of 11 entries, which
the device has made one of 12; of two devices the first has the same fault. -/
theorem region_pointers_stale :
    (elfMapMemoryPointers (fun _ => 0) (mallocConfig [memoryDevice 0x20000000]) ⟨[], []⟩).map
        (fun r => (r.2.malloc.head?, r.1.dynamicMap.length)) = some (some (some ⟨11, 1⟩), 12) ∧
      ∀ m kept, elfMapMemoryPointers (fun _ => 0) (mallocConfig [memoryDevice 0x20000000]) ⟨[], []⟩ =
        some (m, kept) → ¬ kept.Current (mallocConfig [memoryDevice 0x20000000]) m := by
  have hfacts : (elfMapMemoryPointers (fun _ => 0) (mallocConfig [memoryDevice 0x20000000])
      ⟨[], []⟩).map (fun r => (r.2.malloc.head?, r.1.dynamicMap.length)) =
        some (some (some ⟨11, 1⟩), 12) := by
    decide +kernel
  refine ⟨hfacts, fun m kept hmap hcur => ?_⟩
  rw [hmap, Option.map_some] at hfacts
  obtain ⟨hhead, hlen⟩ := Prod.mk.inj (Option.some.inj hfacts)
  obtain ⟨start, units, hstart⟩ : ∃ start units, mallocUnits
      (mallocConfig [memoryDevice 0x20000000]).ram = start :: units := ⟨_, _, rfl⟩
  obtain ⟨p, rest, hp⟩ : ∃ p rest, kept.malloc = p :: rest := exists_cons_of_ne_nil fun hnil => by
    rw [hnil] at hhead
    cases hhead
  have hmalloc := hcur.malloc
  rw [hstart, hp] at hmalloc
  obtain ⟨⟨ptr, region, hptr, hderef, -⟩, -⟩ := forall₂_cons.1 hmalloc
  rw [hp, head?_cons, hptr] at hhead
  cases hhead
  rw [RegionPointer.deref, hlen] at hderef
  cases hderef

end Athrill
