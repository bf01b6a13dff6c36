import Athrill.Lib.Run
import Athrill.StdTypes

/-!
# The memory map of the bus (`device/mpu/mpu.c`)

The bus finds the region of an access by a linear search: first over the regions added at start-up
(`dynamic_map`), then over the regions compiled into the target (`map`).
-/

namespace Athrill

open List

variable {W : Nat}

/-! ## Regions -/

inductive MpuAddressRegionEnumType
  | readonlyMemory
  | globalMemory
  | localMemory
  | privateMemory
  | device
  | regionUnknown
  deriving DecidableEq, Repr

abbrev HostBuffer := List UInt8

def hostMalloc (junk : Nat → UInt8) (size : Nat) : HostBuffer := (range size).map junk

def hostCalloc (size : Nat) : HostBuffer := replicate size 0

@[simp] theorem length_hostMalloc (junk : Nat → UInt8) (size : Nat) :
    (hostMalloc junk size).length = size := by
  rw [hostMalloc, length_map, length_range]

@[simp] theorem length_hostCalloc (size : Nat) : (hostCalloc size).length = size :=
  length_replicate

def memoryGetPointer (start addr : AthrillAddrType W) : Except StdReturnType Int :=
  .ok (addr - start).toNat

inductive MpuAddressRegionOperationType (W : Nat)
  | defaultMemory
  | device (getPointer : Option (AthrillAddrType W → AthrillAddrType W → Except StdReturnType Int))

def defaultMemoryOperation : MpuAddressRegionOperationType W := .defaultMemory

def MpuAddressRegionOperationType.getPointer : MpuAddressRegionOperationType W →
    Option (AthrillAddrType W → AthrillAddrType W → Except StdReturnType Int)
  | .defaultMemory => some memoryGetPointer
  | .device getPointer => getPointer

def MpuAddressRegionOperationType.isDefault : MpuAddressRegionOperationType W → Bool
  | .defaultMemory => true
  | .device _ => false

structure MpuAddressRegionType (W : Nat) where
  type : MpuAddressRegionEnumType
  isMalloc : Bool
  start : AthrillAddrType W
  size : AthrillAddrType W
  mask : AthrillAddrType W
  data : Option HostBuffer
  ops : MpuAddressRegionOperationType W

def regionCovers (region : MpuAddressRegionType W) (addr searchSize : AthrillAddrType W) : Bool :=
  let start := region.start
  let stop := start + region.size
  let paddrStr := addr &&& region.mask
  let paddrEnd := paddrStr + searchSize
  (decide (start ≤ paddrStr) && decide (paddrStr < stop)) &&
    (decide (start < paddrEnd) && decide (paddrEnd ≤ stop))

structure MpuAddressMapType (W : Nat) where
  map : List (MpuAddressRegionType W)
  dynamicMap : List (MpuAddressRegionType W)

/-- A region by its table and its place there. -/
inductive MpuRegionRef
  | dynamicMap (i : Nat)
  | map (i : Nat)
  deriving DecidableEq, Repr

/-! ## The searches -/

structure MpuState (W : Nat) where
  addressMap : MpuAddressMapType W
  previousIndex : Int
  previousIndexR : Int

def previousRegionCovers (m : MpuAddressMapType W) (previous : Int)
    (addr searchSize : AthrillAddrType W) : Option Nat :=
  if previous < 0 ∨ m.dynamicMap.length ≤ previous.toNat then none
  else
    match m.dynamicMap[previous.toNat]? with
    | none => none
    | some region =>
      if region.data.isNone || !regionCovers region addr searchSize then none
      else some previous.toNat

def searchRegionFrom (m : MpuAddressMapType W) (previous : Int)
    (addr searchSize : AthrillAddrType W) : Option MpuRegionRef × Int :=
  match previousRegionCovers m previous addr searchSize with
  | some i => (some (.dynamicMap i), previous)
  | none =>
    match m.dynamicMap.findIdx? (regionCovers · addr searchSize) with
    | some i =>
      -- a MALLOC region that has no buffer yet ends the search
      if (m.dynamicMap[i]?).any (·.data.isSome) then (some (.dynamicMap i), i) else (none, previous)
    | none => ((m.map.findIdx? (regionCovers · addr searchSize)).map .map, previous)

def searchRegion (s : MpuState W) (addr searchSize : AthrillAddrType W) :
    Option MpuRegionRef × MpuState W :=
  let r := searchRegionFrom s.addressMap s.previousIndex addr searchSize
  (r.1, { s with previousIndex := r.2 })

def searchRegionR (s : MpuState W) (addr searchSize : AthrillAddrType W) :
    Option MpuRegionRef × MpuState W :=
  let r := searchRegionFrom s.addressMap s.previousIndexR addr searchSize
  (r.1, { s with previousIndexR := r.2 })

def searchRegionUnoptimized (m : MpuAddressMapType W) (addr searchSize : AthrillAddrType W) :
    Option MpuRegionRef :=
  match m.dynamicMap.findIdx? (regionCovers · addr searchSize) with
  | some i => if (m.dynamicMap[i]?).any (·.data.isSome) then some (.dynamicMap i) else none
  | none => (m.map.findIdx? (regionCovers · addr searchSize)).map .map

/-! ## Building the map -/

inductive MpuAddressGetType
  | rom
  | ram
  | mmap
  | malloc
  deriving DecidableEq, Repr

def mpuAddressSearchRegion (m : MpuAddressMapType W) (addr size : AthrillAddrType W) : Option Nat :=
  m.dynamicMap.findIdx? (regionCovers · addr size)

def romRamRegion (junk : Nat → UInt8) (getType : MpuAddressGetType) (addr size : AthrillAddrType W)
    (mmapAddr : Option HostBuffer) : MpuAddressRegionType W where
  type := match getType with
    | .rom => .readonlyMemory
    | .ram | .mmap | .malloc => .globalMemory
  isMalloc := getType == .malloc
  start := addr
  size := size
  mask := BitVec.allOnes W
  data := match getType with
    | .rom => some (hostMalloc junk size.toNat)
    | .ram => some (hostCalloc size.toNat)
    | .mmap => mmapAddr
    | .malloc => none
  ops := defaultMemoryOperation

def mpuAddressSetRomRam (junk : Nat → UInt8) (m : MpuAddressMapType W) (getType : MpuAddressGetType)
    (addr size : AthrillAddrType W) (mmapAddr : Option HostBuffer) :
    Option (MpuAddressMapType W × Option HostBuffer) :=
  match mpuAddressSearchRegion m addr size with
  | none =>
    let region := romRamRegion junk getType addr size mmapAddr
    if getType ≠ .malloc ∧ region.data.isNone then none
    else some ({ m with dynamicMap := m.dynamicMap ++ [region] }, region.data)
  | some i => some (m, (m.dynamicMap[i]?).bind (·.data))

structure AthrillExDeviceType (W : Nat) where
  datap : Option HostBuffer
  ops : Option (MpuAddressRegionOperationType W)
  devinit : Bool
  supplyClock : Bool

def AthrillExDeviceType.withDefaults (exdev : AthrillExDeviceType W) (size : AthrillAddrType W) :
    AthrillExDeviceType W :=
  { exdev with
    ops := some (exdev.ops.getD defaultMemoryOperation)
    datap := some (exdev.datap.getD (replicate size.toNat 0)) }

def devRegion (addr size : AthrillAddrType W) (exdev : AthrillExDeviceType W) :
    MpuAddressRegionType W where
  type := .device
  isMalloc := false
  start := addr
  size := size
  mask := BitVec.allOnes W
  data := (exdev.withDefaults size).datap
  ops := exdev.ops.getD defaultMemoryOperation

def mpuAddressSetDev (m : MpuAddressMapType W) (addr size : AthrillAddrType W)
    (exdev : Option (AthrillExDeviceType W)) : MpuAddressMapType W × Option HostBuffer :=
  match mpuAddressSearchRegion m addr size with
  | some _ => (m, none)
  | none =>
    match exdev with
    | none => (m, none)
    | some exdev =>
      if !exdev.devinit then (m, none)
      else if !exdev.supplyClock then (m, none)
      else
        let region := devRegion addr size exdev
        ({ m with dynamicMap := m.dynamicMap ++ [region] }, region.data)

def MpuAddressMapType.addRegion (m : MpuAddressMapType W) (region : MpuAddressRegionType W) :
    MpuAddressMapType W :=
  { m with dynamicMap := m.dynamicMap ++ [region] }

theorem mpuAddressSetRomRam_cases {junk : Nat → UInt8} {m m' : MpuAddressMapType W}
    {getType : MpuAddressGetType} {addr size : AthrillAddrType W} {mmapAddr buf : Option HostBuffer}
    (h : mpuAddressSetRomRam junk m getType addr size mmapAddr = some (m', buf)) :
    ((∃ x ∈ m.dynamicMap, regionCovers x addr size = true) ∧ m' = m) ∨
      mpuAddressSearchRegion m addr size = none ∧
        m' = m.addRegion (romRamRegion junk getType addr size mmapAddr) := by
  unfold mpuAddressSetRomRam at h
  split at h
  · next hnone =>
    dsimp only at h
    split_ifs at h
    cases h
    exact .inr ⟨hnone, rfl⟩
  · next i hfound =>
    cases h
    obtain ⟨hi, hcov, -⟩ := findIdx?_eq_some_iff_getElem.1 hfound
    exact .inl ⟨⟨_, getElem_mem hi, hcov⟩, rfl⟩

theorem mpuAddressSetDev_cases (m : MpuAddressMapType W) (addr size : AthrillAddrType W)
    (exdev : Option (AthrillExDeviceType W)) :
    (mpuAddressSetDev m addr size exdev).1 = m ∨
      ∃ dev, mpuAddressSearchRegion m addr size = none ∧
        (mpuAddressSetDev m addr size exdev).1 = m.addRegion (devRegion addr size dev) := by
  unfold mpuAddressSetDev
  split
  · exact .inl rfl
  · next hnone =>
    split
    · exact .inl rfl
    · next dev =>
      split_ifs
      · exact .inl rfl
      · exact .inl rfl
      · exact .inr ⟨dev, hnone, rfl⟩

abbrev mpuMallocUnitBytes : Nat := 1024 * 1024

def mpuMallocRegionData (junk : Nat → UInt8) (m : MpuAddressMapType W) (i : Nat) :
    MpuAddressMapType W :=
  { m with
    dynamicMap := m.dynamicMap.modify i fun region =>
      { region with data := some (region.data.getD (hostMalloc junk mpuMallocUnitBytes)) } }

/-! ## The bus as a state machine -/

inductive MpuAccess (W : Nat)
  | write (addr size : AthrillAddrType W)
  | read (addr size : AthrillAddrType W)
  deriving DecidableEq

/-- What changes the map: a region is added, a malloc region gets its memory, or memory is accessed. -/
inductive MpuEvent (W : Nat)
  | setRomRam (junk : Nat → UInt8) (getType : MpuAddressGetType) (addr size : AthrillAddrType W)
      (mmapAddr : Option HostBuffer)
  | setDev (addr size : AthrillAddrType W) (exdev : Option (AthrillExDeviceType W))
  | mallocData (junk : Nat → UInt8) (i : Nat)
  | access (a : MpuAccess W)

def MpuState.init (map : List (MpuAddressRegionType W)) : MpuState W :=
  ⟨⟨map, []⟩, -1, -1⟩

def mpuAccess (s : MpuState W) : MpuAccess W → Option MpuRegionRef × MpuState W
  | .write addr size => searchRegion s addr size
  | .read addr size => searchRegionR s addr size

def mpuStep (s : MpuState W) : MpuEvent W → Option (MpuState W × Option MpuRegionRef)
  | .setRomRam junk getType addr size mmapAddr =>
    (mpuAddressSetRomRam junk s.addressMap getType addr size mmapAddr).map fun r =>
      ({ s with addressMap := r.1 }, none)
  | .setDev addr size exdev =>
    some ({ s with addressMap := (mpuAddressSetDev s.addressMap addr size exdev).1 }, none)
  | .mallocData junk i =>
    some ({ s with addressMap := mpuMallocRegionData junk s.addressMap i }, none)
  | .access a => some ((mpuAccess s a).2, (mpuAccess s a).1)

def mpuAccesses : MpuState W → List (MpuAccess W) → MpuState W
  | s, [] => s
  | s, a :: as => mpuAccesses (mpuAccess s a).2 as

end Athrill
