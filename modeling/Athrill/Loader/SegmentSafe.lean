import Athrill.Loader.Load

/-!
# Where segments are written

A segment that the configuration covers is written through the pointer the bus gives for its first byte. Main
result: `load_segment_safe_iff`.
-/

namespace Athrill

open MemoSearch List BitVec

variable {W : Nat}

/-! ## Pointers and buffers up to contents -/

section
variable (m : MpuAddressMapType W) (ref : MpuRegionRef) (addr : AthrillAddrType W)

def pointerAt : Option Int :=
  (regionAt m ref).bind fun region => region.ops.getPointer.bind fun getPointer =>
    (getPointer region.start (addr &&& region.mask)).toOption

def bufferLength : Option Nat :=
  ((regionAt m ref).bind (·.data)).map length

/-- The region gives a pointer for the address with `n` bytes of its buffer behind it. -/
def Room (n : Nat) : Prop :=
  ∃ off len, pointerAt m ref addr = some off ∧ bufferLength m ref = some len ∧ 0 ≤ off ∧
    off + n ≤ len

end

variable {m : MpuAddressMapType W} {ref : MpuRegionRef} {addr : AthrillAddrType W}
  {memap : MemoryAddressMapType W} {region : MpuAddressRegionType W} {j : Nat}

theorem Room.mono {n k : Nat} (h : Room m ref addr n) (hk : k ≤ n) : Room m ref addr k := by
  obtain ⟨off, len, hptr, hlen, hpos, hle⟩ := h
  exact ⟨off, len, hptr, hlen, hpos, by omega⟩

theorem room_defaultMemoryOperation {n : Nat} {data : HostBuffer}
    (hregion : regionAt m ref = some region) (hops : region.ops = defaultMemoryOperation)
    (hdata : region.data = some data) (hstart : region.start ≤ addr &&& region.mask) :
    Room m ref addr n ↔
      (addr &&& region.mask).toNat + n ≤ region.start.toNat + data.length := by
  have hptr : pointerAt m ref addr = some ((addr &&& region.mask) - region.start).toNat := by
    simp [pointerAt, hregion, hops, defaultMemoryOperation,
      MpuAddressRegionOperationType.getPointer, memoryGetPointer, Except.toOption]
  have hlen : bufferLength m ref = some data.length := by
    simp [bufferLength, hregion, hdata]
  have hoff := toNat_sub_of_le hstart
  rw [le_def] at hstart
  constructor
  · rintro ⟨off, len, hptr', hlen', -, hle⟩
    cases hptr.symm.trans hptr'
    cases hlen.symm.trans hlen'
    omega
  · intro hle
    exact ⟨_, _, hptr, hlen, by omega, by omega⟩

section
variable {m m' : MpuAddressMapType W} (h : m'.shape = m.shape) (ref : MpuRegionRef)
include h

theorem bufferLength_congr : bufferLength m' ref = bufferLength m ref := by
  simp only [bufferLength, Option.map_bind]
  exact bind_regionAt_congr h (fun region => by simp [MpuAddressRegionType.shape,
    MpuAddressRegionType.withData, Function.comp_def]) ref

theorem pointerAt_congr (addr : AthrillAddrType W) : pointerAt m' ref addr = pointerAt m ref addr :=
  bind_regionAt_congr h (fun _ => rfl) ref

theorem room_congr (addr : AthrillAddrType W) (n : Nat) :
    Room m' ref addr n ↔ Room m ref addr n := by
  simp only [Room, pointerAt_congr h, bufferLength_congr h]

end

/-! ## The parts of `load_segment` -/

theorem pointerInRegion_eq_ok {sel : Option MpuRegionRef} {off : Int} :
    pointerInRegion m addr sel = .ok (ref, off) ↔
      sel = some ref ∧ pointerAt m ref addr = some off := by
  cases sel with
  | none => simp [pointerInRegion]
  | some ref' =>
    have hval : ∀ off, pointerInRegion m addr (some ref') = .ok (ref', off) ↔
        pointerAt m ref' addr = some off := by
      intro off
      simp only [pointerInRegion, pointerAt]
      cases regionAt m ref' with
      | none => simp
      | some region =>
        simp only [Option.bind_some]
        cases region.ops.getPointer with
        | none => simp
        | some getPointer =>
          simp only [Option.bind_some]
          cases getPointer region.start (addr &&& region.mask) <;> simp [Except.toOption]
    have href : ∀ r, pointerInRegion m addr (some ref') = .ok r → r.1 = ref' := by
      intro r hr
      simp only [pointerInRegion] at hr
      split at hr
      · cases hr
      split at hr
      · cases hr
      split at hr
      · cases hr
      · exact (congrArg Prod.fst (Except.ok.inj hr)).symm
    constructor
    · intro h
      obtain rfl : ref = ref' := href _ h
      exact ⟨rfl, (hval off).1 h⟩
    · rintro ⟨h, hptr⟩
      cases h
      exact (hval off).2 hptr

theorem pointerWrite_isSome_iff {off : Int} {bytes : List UInt8} :
    (∃ m', pointerWrite m ref off bytes = some m') ↔
      ∃ len, bufferLength m ref = some len ∧ (bytes = [] ∨ 0 ≤ off ∧ off + bytes.length ≤ len) := by
  unfold pointerWrite bufferLength
  cases (regionAt m ref).bind (·.data) with
  | none => simp
  | some buf =>
    simp only [Option.map_some, Option.some.injEq, exists_eq_left', Option.map_eq_some_iff]
    rw [← hostWrite_isSome_iff]
    exact ⟨fun ⟨_, buf', h, _⟩ => ⟨buf', h⟩, fun ⟨buf', h⟩ => ⟨_, buf', h, rfl⟩⟩

theorem segmentWrite_isSome_iff {off : Int}
    {contents : List UInt8} {n : Nat} (hle : contents.length ≤ n) (hpos : 0 < n) :
    (∃ m₁ m₂, pointerWrite m ref off contents = some m₁ ∧
      pointerWrite m₁ ref (off + contents.length) (replicate (n - contents.length) 0) =
        some m₂) ↔
      ∃ len, bufferLength m ref = some len ∧ 0 ≤ off ∧ off + n ≤ len := by
  constructor
  · rintro ⟨m₁, m₂, h₁, h₂⟩
    obtain ⟨len, hlen, hin⟩ := pointerWrite_isSome_iff.1 ⟨m₁, h₁⟩
    obtain ⟨len', hlen', hin'⟩ := pointerWrite_isSome_iff.1 ⟨m₂, h₂⟩
    rw [bufferLength_congr (pointerWrite_shape h₁), hlen] at hlen'
    cases hlen'
    refine ⟨len, hlen, ?_⟩
    simp only [replicate_eq_nil_iff, length_replicate] at hin'
    rcases hin with rfl | hin
    · simp only [length_nil] at *
      omega
    · omega
  · rintro ⟨len, hlen, hoff, hroom⟩
    have hcopy : off + contents.length ≤ len := by omega
    obtain ⟨m₁, h₁⟩ := pointerWrite_isSome_iff.2 ⟨len, hlen, .inr ⟨hoff, hcopy⟩⟩
    have hlen₁ : bufferLength m₁ ref = some len := by
      rw [bufferLength_congr (pointerWrite_shape h₁), hlen]
    have hfill : off + contents.length +
        (replicate (n - contents.length) (0 : UInt8)).length ≤ len := by
      rw [length_replicate]
      omega
    obtain ⟨m₂, h₂⟩ := pointerWrite_isSome_iff.2 ⟨len, hlen₁, .inr ⟨by omega, hfill⟩⟩
    exact ⟨m₁, m₂, h₁, h₂⟩

section
variable {memap : MemoryAddressMapType W} {s s' : MpuState W} {seg : ElfSegment W}

theorem loadSegment_not_covered (hcov : memoryMapCovers memap seg.loadAddr seg.memorySize = false) :
    loadSegment memap s seg = some (.noent, s) :=
  if_pos (.inr hcov)

theorem loadSegment_empty (hcov : memoryMapCovers memap seg.loadAddr seg.memorySize = true)
    (hzero : seg.memorySize.toNat = 0) : loadSegment memap s seg = some (.ok, s) := by
  have hle := seg.fileSize_le
  rw [loadSegment, if_neg (by simp [hcov]; omega), if_pos hzero]

theorem loadSegment_eq (hcov : memoryMapCovers memap seg.loadAddr seg.memorySize = true)
    (hpos : seg.memorySize.toNat ≠ 0) :
    loadSegment memap s seg =
      match pointerInRegion s.addressMap seg.loadAddr (searchRegion s seg.loadAddr 1).1 with
      | .error _ => some (.invalid, (searchRegion s seg.loadAddr 1).2)
      | .ok (ref, off) =>
        (pointerWrite s.addressMap ref off seg.contents).bind fun m =>
          (pointerWrite m ref (off + seg.contents.length)
            (replicate (seg.memorySize.toNat - seg.contents.length) 0)).bind fun m =>
              some (.ok, ⟨m, (searchRegion s seg.loadAddr 1).2.previousIndex,
                (searchRegion s seg.loadAddr 1).2.previousIndexR⟩) := by
  have hle := seg.fileSize_le
  rw [loadSegment, if_neg (by simp [hcov]; omega), if_neg hpos, mpuGetPointer]
  cases pointerInRegion s.addressMap seg.loadAddr (searchRegion s seg.loadAddr 1).1 <;> rfl

theorem exists_room_iff {m : MpuAddressMapType W} {sel : Option MpuRegionRef} {ref : MpuRegionRef}
    {addr : AthrillAddrType W} {off : Int} {n : Nat} (hsel : sel = some ref)
    (hoff : pointerAt m ref addr = some off) :
    (∃ ref', sel = some ref' ∧ Room m ref' addr n) ↔
      ∃ len, bufferLength m ref = some len ∧ 0 ≤ off ∧ off + n ≤ len := by
  constructor
  · rintro ⟨ref', hsel', off', len, hoff', hrest⟩
    cases hsel.symm.trans hsel'
    cases hoff.symm.trans hoff'
    exact ⟨len, hrest⟩
  · rintro ⟨len, hrest⟩
    exact ⟨ref, hsel, off, len, hoff, hrest⟩

theorem loadSegment_covered (hcov : memoryMapCovers memap seg.loadAddr seg.memorySize = true)
    (hpos : seg.memorySize.toNat ≠ 0) :
    ((∃ s', loadSegment memap s seg = some (.ok, s')) ↔
      ∃ ref, (searchRegion s seg.loadAddr 1).1 = some ref ∧
        Room s.addressMap ref seg.loadAddr seg.memorySize.toNat) ∧
    (∀ s', loadSegment memap s seg = some (.ok, s') →
      s'.previousIndex = (searchRegion s seg.loadAddr 1).2.previousIndex ∧
        s'.addressMap.shape = s.addressMap.shape) ∧
    ∀ s', loadSegment memap s seg ≠ some (.noent, s') := by
  rw [loadSegment_eq hcov hpos]
  cases hptr : pointerInRegion s.addressMap seg.loadAddr (searchRegion s seg.loadAddr 1).1 with
  | error err =>
    refine ⟨⟨fun ⟨s', h⟩ => (by simp at h), fun ⟨ref, hsel, off, _, hoff, _⟩ => ?_⟩,
      fun s' h => (by simp at h), fun s' h => (by simp at h)⟩
    rw [pointerInRegion_eq_ok.2 ⟨hsel, hoff⟩] at hptr
    cases hptr
  | ok p =>
    obtain ⟨ref, off⟩ := p
    obtain ⟨hsel, hoff⟩ := pointerInRegion_eq_ok.1 hptr
    rw [exists_room_iff hsel hoff,
      ← segmentWrite_isSome_iff seg.fileSize_le (Nat.pos_of_ne_zero hpos)]
    simp only [Option.bind_eq_some_iff, Option.some.injEq, Prod.mk.injEq]
    refine ⟨⟨?_, ?_⟩, ?_, ?_⟩
    · rintro ⟨s', m₁, h₁, m₂, h₂, -⟩
      exact ⟨m₁, m₂, h₁, h₂⟩
    · rintro ⟨m₁, m₂, h₁, h₂⟩
      exact ⟨_, m₁, h₁, m₂, h₂, trivial, rfl⟩
    · rintro s' ⟨m₁, h₁, m₂, h₂, -, rfl⟩
      exact ⟨rfl, (pointerWrite_shape h₂).trans (pointerWrite_shape h₁)⟩
    · intro s' h
      simp [Option.bind_eq_some_iff] at h

end

/-! ## Segments loaded before -/

def Rememberable (m : MpuAddressMapType W) (j : Nat) : Prop :=
  ∃ addr, searchRegionUnoptimized m addr 1 = some (.dynamicMap j) ∧ Room m (.dynamicMap j) addr 1

structure Loading (m : MpuAddressMapType W) (s : MpuState W) : Prop where
  shape : s.addressMap.shape = m.shape
  memo : ∀ j, memoOf s.previousIndex = some j → Rememberable m j

theorem searchRegionFrom_cases (m : MpuAddressMapType W) (previous : Int) (addr size : AthrillAddrType W) :
    (∃ j region, memoOf previous = some j ∧ m.dynamicMap[j]? = some region ∧
        regionCovers region addr size = true ∧
        (searchRegionFrom m previous addr size).1 = some (.dynamicMap j) ∧
        memoOf (searchRegionFrom m previous addr size).2 = memoOf previous) ∨
      (searchRegionFrom m previous addr size).1 = searchRegionUnoptimized m addr size ∧
        (memoOf (searchRegionFrom m previous addr size).2 = memoOf previous ∨
          ∃ j, memoOf (searchRegionFrom m previous addr size).2 = some j ∧
            searchRegionUnoptimized m addr size = some (.dynamicMap j)) := by
  obtain ⟨hres, hmemo⟩ := searchRegionFrom_eq m previous addr size
  cases hm : memoHit coversAccess hasData m.dynamicMap (memoOf previous) (addr, size) with
  | some j =>
    obtain ⟨hj, region, hregion, -, hcov⟩ := memoHit_eq_some.1 hm
    rw [search_of_memoHit hm] at hres hmemo
    exact .inl ⟨j, region, hj, hregion, hcov, hres, hmemo.trans hj.symm⟩
  | none =>
    refine .inr ⟨?_, ?_⟩
    · exact (searchRegionFrom_eq_unoptimized_iff m previous addr size).2 (search_of_memoHit_none hm)
    · rw [hmemo, searchRegionUnoptimized_eq]
      rcases search_memo_cases coversAccess hasData m.dynamicMap (memoOf previous) (addr, size) with
        h | ⟨j, hj, hfirst⟩
      · exact .inl h
      · exact .inr ⟨j, hj, by rw [hfirst]; rfl⟩

theorem Loading.loadSegment {s s' : MpuState W} {seg : ElfSegment W} {ret : StdReturnType} (h : Loading m s)
    (hload : loadSegment memap s seg = some (ret, s')) (hret : ret = .ok ∨ ret = .noent) :
    Loading m s' := by
  cases hcov : memoryMapCovers memap seg.loadAddr seg.memorySize with
  | false =>
    rw [loadSegment_not_covered hcov] at hload
    cases hload
    exact h
  | true =>
    by_cases hzero : seg.memorySize.toNat = 0
    · rw [loadSegment_empty hcov hzero] at hload
      cases hload
      exact h
    obtain ⟨hok, hafter, hnot⟩ := loadSegment_covered (s := s) hcov hzero
    rcases hret with rfl | rfl
    · obtain ⟨hprev, hshape⟩ := hafter s' hload
      obtain ⟨ref, hsel, hroom⟩ := hok.1 ⟨s', hload⟩
      refine ⟨hshape.trans h.shape, fun j hj => ?_⟩
      rw [hprev] at hj
      simp only [searchRegion, searchRegionFrom_congr h.shape] at hj hsel
      rcases searchRegionFrom_cases m s.previousIndex seg.loadAddr 1 with
        ⟨j', _, hj', _, _, _, hmemo⟩ | ⟨hres, hmemo | ⟨j', hj', hfirst⟩⟩
      · exact h.memo j (hmemo ▸ hj)
      · exact h.memo j (hmemo ▸ hj)
      · -- a first match that was not remembered before: the segment itself shows its room
        cases hj'.symm.trans hj
        cases hfirst.symm.trans (hres.symm.trans hsel)
        exact ⟨seg.loadAddr, hfirst,
          ((room_congr h.shape _ _ _).1 hroom).mono (Nat.pos_of_ne_zero hzero)⟩
    · exact absurd hload (hnot s')

theorem Loading.loadSegments (segs : List (ElfSegment W)) {s s' : MpuState W} (h : Loading m s)
    (hload : loadSegments memap s segs = some (.ok, s')) : Loading m s' := by
  induction segs generalizing s with
  | nil =>
    cases hload
    exact h
  | cons seg segs ih =>
    rw [Athrill.loadSegments] at hload
    split at hload
    · cases hload
    · next s₁ hseg => exact ih (h.loadSegment hseg (.inl rfl)) hload
    · next s₁ hseg => exact ih (h.loadSegment hseg (.inr rfl)) hload
    · cases hload

/-! ## The map of a configuration -/

def Backed (memap : MemoryAddressMapType W) (m : MpuAddressMapType W) : Prop :=
  ∀ region ∈ m.dynamicMap, region.data.isSome = true →
    ∀ addr, regionCovers region addr 1 = true → memoryMapCovers memap addr 1 = true

theorem memoryRegionCovers_of_regionCovers (r : MemoryAddressType W) (sizeIsKb : Bool)
    (hstart : region.start = r.start) (hsize : region.size = if sizeIsKb then r.size * 1024 else r.size)
    (hmask : region.mask = allOnes W) (h : regionCovers region addr 1 = true) :
    memoryRegionCovers r addr 1 sizeIsKb = true := by
  simp only [regionCovers, hmask, and_allOnes, Bool.and_eq_true, decide_eq_true_eq] at h
  obtain ⟨⟨hlow, hhigh⟩, -⟩ := h
  unfold memoryRegionCovers
  rw [← hsize, ← hstart]
  have hsub : (addr - region.start).toNat = addr.toNat - region.start.toNat :=
    toNat_sub_of_le hlow
  -- the end of a region that covers a byte does not wrap
  have hend := toNat_add_cases region.start region.size
  have hlt := region.size.isLt
  have hone : (1 : BitVec W).toNat ≤ 1 := Nat.mod_le _ _
  rw [le_def] at hlow
  rw [lt_def] at hhigh
  have hoff : addr - region.start ≤ region.size := by
    rw [le_def, hsub]; omega
  rw [if_neg (by rw [lt_def]; omega), Bool.and_eq_true, decide_eq_true_eq,
    decide_eq_true_eq]
  refine ⟨hoff, ?_⟩
  rw [le_def, toNat_sub_of_le hoff, hsub]
  omega

theorem Backed.append (h : Backed memap m)
    (hregion : region.data.isSome = true → ∀ addr, regionCovers region addr 1 = true →
      memoryMapCovers memap addr 1 = true) :
    Backed memap (m.addRegion region) := by
  intro x hx hdata
  rcases mem_append.1 hx with hx | hx
  · exact h x hx hdata
  · obtain rfl := mem_singleton.1 hx
    exact hregion hdata

theorem Backed.setRomRam {m m' : MpuAddressMapType W} (h : Backed memap m) {junk : Nat → UInt8}
    {getType : MpuAddressGetType} {addr size : AthrillAddrType W} {mmapAddr buf : Option HostBuffer}
    (hrange : getType ≠ .malloc → ∀ a,
      regionCovers (romRamRegion junk getType addr size mmapAddr) a 1 = true →
        memoryMapCovers memap a 1 = true)
    (hset : mpuAddressSetRomRam junk m getType addr size mmapAddr = some (m', buf)) :
    Backed memap m' := by
  rcases mpuAddressSetRomRam_cases hset with ⟨-, rfl⟩ | ⟨-, rfl⟩
  · exact h
  · -- a MALLOC unit has no buffer yet
    refine h.append fun hdata => hrange fun hmalloc => ?_
    rw [hmalloc] at hdata
    cases hdata

section
variable {memap : MemoryAddressMapType W} {junk : Nat → UInt8} {m m' : MpuAddressMapType W}

variable {rs : List (MemoryAddressType W)}

theorem Backed.mapRom (hrs : ∀ r ∈ rs, r ∈ memap.rom)
    (h : Backed memap m) (hmap : mapRom junk rs m = some m') : Backed memap m' := by
  induction rs generalizing m with
  | nil =>
    cases hmap
    exact h
  | cons r rs ih =>
    rw [Athrill.mapRom] at hmap
    split at hmap
    · next m₁ buf hset =>
      refine ih (fun x hx => hrs x (mem_cons_of_mem _ hx))
        (h.setRomRam (fun _ a ha => ?_) hset) hmap
      have hcov := memoryRegionCovers_of_regionCovers r true rfl rfl rfl ha
      simp only [memoryMapCovers, Bool.or_eq_true, any_eq_true]
      exact .inl (.inl ⟨r, hrs r mem_cons_self, hcov⟩)
    · cases hmap

theorem Backed.mapMallocUnits {n : Nat} {start : AthrillAddrType W} (h : Backed memap m)
    (hmap : mapMallocUnits junk n start m = some m') : Backed memap m' := by
  induction n generalizing start m with
  | zero =>
    cases hmap
    exact h
  | succ n ih =>
    rw [Athrill.mapMallocUnits] at hmap
    split at hmap
    · next m₁ buf hset => exact ih (h.setRomRam (fun hne => absurd rfl hne) hset) hmap
    · cases hmap

theorem Backed.mapRam (hrs : ∀ r ∈ rs, r ∈ memap.ram)
    (h : Backed memap m) (hmap : mapRam junk rs m = some m') : Backed memap m' := by
  induction rs generalizing m with
  | nil =>
    cases hmap
    exact h
  | cons r rs ih =>
    have hrs' : ∀ x ∈ rs, x ∈ memap.ram := fun x hx => hrs x (mem_cons_of_mem _ hx)
    rw [Athrill.mapRam] at hmap
    split_ifs at hmap with htype
    · split at hmap
      · next m₁ buf hset =>
        refine ih hrs' (h.setRomRam (fun _ a ha => ?_) hset) hmap
        have hcov := memoryRegionCovers_of_regionCovers r true rfl rfl rfl ha
        simp only [memoryMapCovers, Bool.or_eq_true, any_eq_true, Bool.and_eq_true, bne_iff_ne]
        exact .inl (.inr ⟨r, hrs r mem_cons_self, htype, hcov⟩)
      · cases hmap
    · split at hmap
      · next m₁ hunits => exact ih hrs' (h.mapMallocUnits hunits) hmap
      · cases hmap

theorem Backed.setDev {r : MemoryAddressType W} (hr : r ∈ memap.dev) (h : Backed memap m) :
    Backed memap (mpuAddressSetDev m r.start r.size r.extdev).1 := by
  rcases mpuAddressSetDev_cases m r.start r.size r.extdev with heq | ⟨dev, -, heq⟩
  · rwa [heq]
  · rw [heq]
    refine h.append fun _ a ha => ?_
    have hcov := memoryRegionCovers_of_regionCovers r false rfl rfl rfl ha
    simp only [memoryMapCovers, Bool.or_eq_true, any_eq_true]
    exact .inr ⟨r, hr, hcov⟩

theorem Backed.mapDev (hrs : ∀ r ∈ rs, r ∈ memap.dev)
    (h : Backed memap m) (hmap : mapDev rs m = some m') : Backed memap m' := by
  induction rs generalizing m with
  | nil =>
    cases hmap
    exact h
  | cons r rs ih =>
    have hset := h.setDev (hrs r mem_cons_self)
    rw [Athrill.mapDev] at hmap
    split at hmap
    · next m₁ buf heq =>
      rw [heq] at hset
      exact ih (fun x hx => hrs x (mem_cons_of_mem _ hx)) hset hmap
    · cases hmap

end

theorem backed_elfMapMemory {junk : Nat → UInt8} {map : List (MpuAddressRegionType W)}
    (hmap : elfMapMemory junk memap ⟨map, []⟩ = some m) : Backed memap m := by
  obtain ⟨m₁, hrom, hmap⟩ := Option.bind_eq_some_iff.1 hmap
  obtain ⟨m₂, hram, hdev⟩ := Option.bind_eq_some_iff.1 hmap
  have h₀ : Backed memap ⟨map, []⟩ := fun x hx => by cases hx
  have h₁ : Backed memap m₁ := Backed.mapRom (fun _ h => h) h₀ hrom
  have h₂ : Backed memap m₂ := Backed.mapRam (fun _ h => h) h₁ hram
  exact Backed.mapDev (fun _ h => h) h₂ hdev

/-! ## When segments are loaded safely -/

def SegmentLoads (memap : MemoryAddressMapType W) (s : MpuState W) (seg : ElfSegment W) : Prop :=
  ∃ ret s', loadSegment memap s seg = some (ret, s') ∧
    (memoryMapCovers memap seg.loadAddr seg.memorySize = true → seg.memorySize.toNat ≠ 0 →
      ret = .ok)

def MpuState.mapped (m : MpuAddressMapType W) : MpuState W := ⟨m, -1, -1⟩

theorem searchRegionFrom_memo {previous : Int} {addr size : AthrillAddrType W}
    (h : (searchRegionFrom m previous addr size).1 = some (.dynamicMap j)) :
    memoOf (searchRegionFrom m previous addr size).2 = some j := by
  obtain ⟨hres, hmemo⟩ := searchRegionFrom_eq m previous addr size
  rw [hmemo]
  exact search_memo (ofOutcome_eq_dynamicMap.1 (hres.symm.trans h))

theorem searchRegionUnoptimized_eq_dynamicMap {addr size : AthrillAddrType W}
    (h : searchRegionUnoptimized m addr size = some (.dynamicMap j)) :
    ∃ region, m.dynamicMap[j]? = some region ∧ region.data.isSome = true ∧
      regionCovers region addr size = true := by
  rw [searchRegionUnoptimized_eq] at h
  exact (firstMatch_eq_found.1 (ofOutcome_eq_dynamicMap.1 h)).1

theorem searchRegion_mapped (m : MpuAddressMapType W) (addr size : AthrillAddrType W) :
    (searchRegion (.mapped m) addr size).1 = searchRegionUnoptimized m addr size := by
  rcases searchRegionFrom_cases m (-1) addr size with ⟨j, _, hj, _⟩ | ⟨hres, _⟩
  · cases hj
  · exact hres

theorem exists_loading_memo (hbacked : Backed memap m) (hj : Rememberable m j) :
    ∃ segs s, loadSegments memap (.mapped m) segs = some (.ok, s) ∧
      s.addressMap.shape = m.shape ∧ memoOf s.previousIndex = some j := by
  obtain ⟨addr, hfirst, hroom⟩ := hj
  obtain ⟨region, hregion, hdata, hcov⟩ := searchRegionUnoptimized_eq_dynamicMap hfirst
  have hone := toNat_one_of_regionCovers hcov
  let seg : ElfSegment W := ⟨addr, [], 1, Nat.zero_le _⟩
  have hmapcov : memoryMapCovers memap seg.loadAddr seg.memorySize = true :=
    hbacked region (mem_of_getElem? hregion) hdata addr hcov
  have hpos : seg.memorySize.toNat ≠ 0 := by
    show (1 : BitVec W).toNat ≠ 0
    omega
  have hsel := (searchRegion_mapped m addr 1).trans hfirst
  obtain ⟨hok, hafter, -⟩ := loadSegment_covered (s := .mapped m) hmapcov hpos
  obtain ⟨s, hload⟩ := hok.2 ⟨_, hsel, by
    show Room m (.dynamicMap j) addr (1 : BitVec W).toNat
    rwa [hone]⟩
  obtain ⟨hprev, hshape⟩ := hafter s hload
  refine ⟨[seg], s, by rw [loadSegments, hload]; rfl, hshape, ?_⟩
  rw [hprev]
  exact searchRegionFrom_memo hsel

theorem searchRegion_of_memo {s : MpuState W} (hshape : s.addressMap.shape = m.shape)
    (hmemo : memoOf s.previousIndex = some j) (hregion : m.dynamicMap[j]? = some region)
    (hdata : region.data.isSome = true) (hcov : regionCovers region addr 1 = true) :
    (searchRegion s addr 1).1 = some (.dynamicMap j) := by
  have hhit : memoHit coversAccess hasData m.dynamicMap (memoOf s.previousIndex) (addr, 1) =
      some j := memoHit_eq_some.2 ⟨hmemo, region, hregion, hdata, hcov⟩
  simp only [searchRegion, searchRegionFrom_congr hshape]
  rw [(searchRegionFrom_eq _ _ _ _).1, search_of_memoHit hhit]
  rfl

theorem Loading.exists_room {s : MpuState W} {n : Nat} (hl : Loading m s)
    (hfirst : searchRegionUnoptimized m addr 1 = some ref) (hroom : Room m ref addr n)
    (hothers : ∀ j region, Rememberable m j → m.dynamicMap[j]? = some region →
      regionCovers region addr 1 = true → Room m (.dynamicMap j) addr n) :
    ∃ ref, (searchRegion s addr 1).1 = some ref ∧ Room s.addressMap ref addr n := by
  simp only [searchRegion, searchRegionFrom_congr hl.shape, room_congr hl.shape]
  rcases searchRegionFrom_cases m s.previousIndex addr 1 with
    ⟨j, region, hj, hregion, hregcov, hres, _⟩ | ⟨hres, _⟩
  · exact ⟨_, hres, hothers j region (hl.memo j hj) hregion hregcov⟩
  · exact ⟨ref, hres.trans hfirst, hroom⟩

/-- **When segments are loaded safely.** In the map of a configuration, a segment is written inside
one buffer, and loaded if it is covered and has bytes, after every list of other segments, exactly
when it is not covered, has no bytes, or: the bus finds a region for its first byte by first match,
and that region, and every other one that covers this byte and that an earlier segment can leave in
the memo, has room for the whole segment. -/
theorem load_segment_safe_iff {memap : MemoryAddressMapType W} {junk : Nat → UInt8}
    {map : List (MpuAddressRegionType W)} {m : MpuAddressMapType W}
    (hmap : elfMapMemory junk memap ⟨map, []⟩ = some m) (seg : ElfSegment W) :
    (∀ segs s, loadSegments memap (.mapped m) segs = some (.ok, s) → SegmentLoads memap s seg) ↔
      (memoryMapCovers memap seg.loadAddr seg.memorySize = true → seg.memorySize.toNat ≠ 0 →
        (∃ ref, searchRegionUnoptimized m seg.loadAddr 1 = some ref ∧
          Room m ref seg.loadAddr seg.memorySize.toNat) ∧
        ∀ j region, Rememberable m j → m.dynamicMap[j]? = some region →
          regionCovers region seg.loadAddr 1 = true →
          Room m (.dynamicMap j) seg.loadAddr seg.memorySize.toNat) := by
  constructor
  · intro h hcov hpos
    have hloads : ∀ segs s, loadSegments memap (.mapped m) segs = some (.ok, s) →
        ∃ ref, (searchRegion s seg.loadAddr 1).1 = some ref ∧
          Room s.addressMap ref seg.loadAddr seg.memorySize.toNat := by
      intro segs s hsegs
      obtain ⟨ret, s', hload, hret⟩ := h segs s hsegs
      obtain rfl := hret hcov hpos
      exact (loadSegment_covered hcov hpos).1.1 ⟨s', hload⟩
    constructor
    · obtain ⟨ref, hsel, hroom⟩ := hloads [] (.mapped m) rfl
      exact ⟨ref, (searchRegion_mapped m _ _).symm.trans hsel, hroom⟩
    · intro j region hj hregion hregcov
      have ⟨_, hfirst, _⟩ := hj
      obtain ⟨region', hregion', hdata, -⟩ := searchRegionUnoptimized_eq_dynamicMap hfirst
      cases hregion.symm.trans hregion'
      obtain ⟨segs, s, hsegs, hshape, hmemo⟩ :=
        exists_loading_memo (backed_elfMapMemory hmap) hj
      obtain ⟨ref, hsel, hroom⟩ := hloads segs s hsegs
      rw [searchRegion_of_memo hshape hmemo hregion hdata hregcov] at hsel
      cases hsel
      exact (room_congr hshape _ _ _).1 hroom
  · intro h segs s hsegs
    have hl : Loading m s := Loading.loadSegments segs
      ⟨rfl, fun j hj => by cases hj⟩ hsegs
    cases hcov : memoryMapCovers memap seg.loadAddr seg.memorySize with
    | false => exact ⟨_, _, loadSegment_not_covered hcov, fun h' => by rw [hcov] at h'; cases h'⟩
    | true =>
      by_cases hzero : seg.memorySize.toNat = 0
      · exact ⟨_, _, loadSegment_empty hcov hzero, fun _ hpos => absurd hzero hpos⟩
      obtain ⟨⟨ref, hfirst, hroom⟩, hothers⟩ := h hcov hzero
      obtain ⟨s', hload⟩ :=
        (loadSegment_covered hcov hzero).1.2 (hl.exists_room hfirst hroom hothers)
      exact ⟨_, s', hload, fun _ _ => rfl⟩

def ramConfig (rs : List (BitVec 32 × BitVec 32)) : MemoryAddressMapType 32 :=
  ⟨[], rs.map fun r => ⟨.ram, r.1, r.2, none, none⟩, []⟩

theorem load_segment_safe_single : ∃ m,
    elfMapMemory (fun _ => 0) (ramConfig [(0x1000, 1)]) ⟨[], []⟩ = some m ∧
      ∀ segs s, loadSegments (ramConfig [(0x1000, 1)]) (.mapped m) segs = some (.ok, s) →
        SegmentLoads (ramConfig [(0x1000, 1)]) s ⟨0x1200, [1, 2, 3], 0x100, by decide⟩ := by
  let region : MpuAddressRegionType 32 := romRamRegion (fun _ => 0) .ram 0x1000 0x400 none
  have hmap : elfMapMemory (fun _ => 0) (ramConfig [(0x1000, 1)]) ⟨[], []⟩ =
      some ⟨[], [region]⟩ := rfl
  have hroom : Room ⟨[], [region]⟩ (.dynamicMap 0) 0x1200 (0x100 : BitVec 32).toNat := by
    have hregion : regionAt ⟨[], [region]⟩ (.dynamicMap 0) = some region := rfl
    refine (room_defaultMemoryOperation hregion rfl rfl (by decide)).2 ?_
    rw [hostCalloc, length_replicate]
    decide
  refine ⟨_, hmap, (load_segment_safe_iff hmap _).2 fun _ _ =>
    ⟨⟨.dynamicMap 0, by decide +kernel, hroom⟩, fun j _ _ hregion _ => ?_⟩⟩
  cases j with
  | zero => exact hroom
  | succ j => simp at hregion

def firstLoad (memap : MemoryAddressMapType 32) (seg : ElfSegment 32) :
    Option (Option StdReturnType) :=
  (elfMapMemory (fun _ => 0) memap ⟨[], []⟩).map fun m =>
    (loadSegment memap (.mapped m) seg).map (·.1)

/-- A segment that the second of two overlapping regions covers is written through the first one,
past the end of its buffer; a segment in a region that ends at the top of the address space is
covered, and not loaded. -/
theorem load_segment_unsafe :
    (memoryMapCovers (ramConfig [(0x1000, 1), (0xc00, 3)]) 0x1000 0x600 = true ∧
      firstLoad (ramConfig [(0x1000, 1), (0xc00, 3)]) ⟨0x1000, [1], 0x600, by decide⟩ =
        some none) ∧
    (memoryMapCovers (ramConfig [(0xfffffc00, 1)]) 0xfffffc00 0x100 = true ∧
      firstLoad (ramConfig [(0xfffffc00, 1)]) ⟨0xfffffc00, [1], 0x100, by decide⟩ =
        some (some .invalid)) := by
  decide +kernel

end Athrill
