import Athrill.Mpu.Pointer

/-!
# Loading a program (`device/mpu/loader/loader.c`)

The loader first adds the regions of the memory configuration to the map of the bus, then copies each
segment of the program.
-/

namespace Athrill

variable {W : Nat}

/-! ## The memory configuration -/

structure MemoryAddressType (W : Nat) where
  type : MpuAddressGetType
  start : AthrillAddrType W
  size : AthrillAddrType W
  mmapAddr : Option HostBuffer
  extdev : Option (AthrillExDeviceType W)

structure MemoryAddressMapType (W : Nat) where
  rom : List (MemoryAddressType W)
  ram : List (MemoryAddressType W)
  dev : List (MemoryAddressType W)

def memoryRegionCovers (region : MemoryAddressType W) (addr size : AthrillAddrType W)
    (sizeIsKb : Bool) : Bool :=
  let regionSize := if sizeIsKb then region.size * 1024 else region.size
  if addr < region.start then false
  else
    let offset := addr - region.start
    decide (offset ≤ regionSize) && decide (size ≤ regionSize - offset)

def memoryMapCovers (memap : MemoryAddressMapType W) (addr size : AthrillAddrType W) : Bool :=
  memap.rom.any (memoryRegionCovers · addr size true) ||
    memap.ram.any (fun r => r.type != .malloc && memoryRegionCovers r addr size true) ||
    memap.dev.any (memoryRegionCovers · addr size false)

/-! ## Mapping

The three loops at the start of `Elf_LoadProgram` and `Elf64_LoadProgram`. There is no result where
the loader gives up: a region without a buffer, or a failed assertion. -/

def mapRom (junk : Nat → UInt8) :
    List (MemoryAddressType W) → MpuAddressMapType W → Option (MpuAddressMapType W)
  | [], m => some m
  | r :: rs, m =>
    match mpuAddressSetRomRam junk m r.type r.start (r.size * 1024) none with
    | some (m', some _) => mapRom junk rs m'
    | _ => none

def mapMallocUnits (junk : Nat → UInt8) :
    Nat → AthrillAddrType W → MpuAddressMapType W → Option (MpuAddressMapType W)
  | 0, _, m => some m
  | n + 1, start, m =>
    match mpuAddressSetRomRam junk m .malloc start (BitVec.ofNat W mpuMallocUnitBytes) none with
    | some (m', _) => mapMallocUnits junk n (start + BitVec.ofNat W mpuMallocUnitBytes) m'
    | none => none

def mapRam (junk : Nat → UInt8) :
    List (MemoryAddressType W) → MpuAddressMapType W → Option (MpuAddressMapType W)
  | [], m => some m
  | r :: rs, m =>
    if r.type ≠ .malloc then
      match mpuAddressSetRomRam junk m r.type r.start (r.size * 1024) r.mmapAddr with
      | some (m', some _) => mapRam junk rs m'
      | _ => none
    else
      match mapMallocUnits junk (r.size.toNat / 1024 % 2 ^ 32) r.start m with
      | some m' => mapRam junk rs m'
      | none => none

def mapDev : List (MemoryAddressType W) → MpuAddressMapType W → Option (MpuAddressMapType W)
  | [], m => some m
  | r :: rs, m =>
    match mpuAddressSetDev m r.start r.size r.extdev with
    | (m', some _) => mapDev rs m'
    | (_, none) => none

def elfMapMemory (junk : Nat → UInt8) (memap : MemoryAddressMapType W) (m : MpuAddressMapType W) :
    Option (MpuAddressMapType W) := do
  let m ← mapRom junk memap.rom m
  let m ← mapRam junk memap.ram m
  mapDev memap.dev m

/-! ## Segments -/

structure ElfSegment (W : Nat) where
  loadAddr : AthrillAddrType W
  contents : List UInt8
  memorySize : AthrillAddrType W
  fileSize_le : contents.length ≤ memorySize.toNat

def loadSegment (memap : MemoryAddressMapType W) (s : MpuState W) (seg : ElfSegment W) :
    Option (StdReturnType × MpuState W) :=
  if seg.memorySize.toNat < seg.contents.length ∨
      memoryMapCovers memap seg.loadAddr seg.memorySize = false then some (.noent, s)
  else if seg.memorySize.toNat = 0 then some (.ok, s)
  else
    match mpuGetPointer s seg.loadAddr with
    | (.error _, s') => some (.invalid, s')
    | (.ok (ref, off), s') => do
      let m ← pointerWrite s'.addressMap ref off seg.contents
      let m ← pointerWrite m ref (off + seg.contents.length)
        (List.replicate (seg.memorySize.toNat - seg.contents.length) 0)
      some (.ok, { s' with addressMap := m })

def loadSegments (memap : MemoryAddressMapType W) :
    MpuState W → List (ElfSegment W) → Option (StdReturnType × MpuState W)
  | s, [] => some (.ok, s)
  | s, seg :: segs =>
    match loadSegment memap s seg with
    | none => none
    | some (.ok, s') | some (.noent, s') => loadSegments memap s' segs
    | some (_, s') => some (.invalid, s')

end Athrill
