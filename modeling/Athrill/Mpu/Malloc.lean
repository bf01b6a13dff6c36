import Athrill.Lib.Bitmap
import Athrill.Mpu.Map
import Mathlib.Data.Fin.VecNotation

/-!
# The guest allocator (`device/mpu/mpu_malloc.c`)

MALLOC memory comes in groups of ten units of 1 MiB, one for each size of blocks.
-/

namespace Athrill

open Bitmap List

variable {W : Nat}

/-! ## Sizes -/

abbrev MallocSizeType := Fin 10

def mallocMemsize : MallocSizeType → Nat :=
  ![32, 64, 128, 256, 512, 1024, 2048, 4096, 8192, 16384]

def mallocBitmaxnum (i : MallocSizeType) : Nat := mpuMallocUnitBytes / mallocMemsize i

def mallocBitmapsize (i : MallocSizeType) : Nat := (mallocBitmaxnum i + 63) / 64 * 8

/-! ## Units -/

structure MallocRegionUnitType (W : Nat) (i : MallocSizeType) where
  region : MpuAddressRegionType W
  region_size : region.size = BitVec.ofNat W mpuMallocUnitBytes
  bitmap : List Bool
  bitmap_length : bitmap.length = 8 * mallocBitmapsize i
  bitfreenum : Nat

def setBitInWord (bitmap : List Bool) (bit64Off : Nat) : Option Nat :=
  (finRange 8).findSome? fun bit8Off => (finRange 8).findSome? fun bit8Mod =>
    if isFree bitmap (64 * bit64Off + (8 * bit8Off.val + bit8Mod.val)) then
      some (8 * bit8Off.val + bit8Mod.val)
    else none

def setBit (bitmap : List Bool) (bitmaxnum bitmapsize : Nat) : Option Nat :=
  match (range (bitmapsize / 8)).find? fun bit64Off => !wordFull 64 bitmap bit64Off with
  | none => none
  | some bit64Off =>
    let ret := 64 * bit64Off + (setBitInWord bitmap bit64Off).getD (8 * 8 + 8)
    if bitmaxnum ≤ ret then none else some ret

def MallocRegionUnitType.setBlock {i : MallocSizeType} (u : MallocRegionUnitType W i) (k : Nat)
    (bit : Bool) (bitfreenum : Nat) : MallocRegionUnitType W i :=
  { u with
    bitmap := u.bitmap.set k bit
    bitmap_length := (length_set).trans u.bitmap_length
    bitfreenum := bitfreenum }

def MallocRegionUnitType.withData {i : MallocSizeType} (u : MallocRegionUnitType W i)
    (junk : Nat → UInt8) : MallocRegionUnitType W i :=
  { u with
    region := { u.region with
      data := some (u.region.data.getD (hostMalloc junk mpuMallocUnitBytes)) }
    region_size := u.region_size }

def mallocBlockAddr (start : AthrillAddrType W) (i : MallocSizeType) (index : Nat) : BitVec 32 :=
  (start + BitVec.ofNat W (index * mallocMemsize i)).setWidth 32

/-! ## Groups -/

structure MallocRegionGroupType (W : Nat) where
  unit : (i : MallocSizeType) → MallocRegionUnitType W i

structure MallocRegionType (W : Nat) where
  groups : List (MallocRegionGroupType W)

structure MallocUnitRef (s : MallocRegionType W) where
  size : MallocSizeType
  group : Fin s.groups.length

def MallocRegionType.unitAt (s : MallocRegionType W) (r : MallocUnitRef s) :
    MallocRegionUnitType W r.size :=
  (s.groups.get r.group).unit r.size

def MallocRegionType.setUnit (s : MallocRegionType W) (r : MallocUnitRef s)
    (u : MallocRegionUnitType W r.size) : MallocRegionType W :=
  ⟨s.groups.set r.group ⟨Function.update (s.groups.get r.group).unit r.size u⟩⟩

def groupAddRegion (i : MallocSizeType) (start : AthrillAddrType W) : MallocRegionUnitType W i where
  region := romRamRegion (fun _ => 0) .malloc start (BitVec.ofNat W mpuMallocUnitBytes) none
  region_size := rfl
  bitmap := replicate (8 * mallocBitmapsize i) false
  bitmap_length := length_replicate
  bitfreenum := mallocBitmaxnum i

def mpuMallocAddRegions (starts : List (MallocSizeType → AthrillAddrType W)) : MallocRegionType W :=
  ⟨starts.map fun start => ⟨fun i => groupAddRegion i (start i)⟩⟩

def MallocRegionType.findUnit (s : MallocRegionType W) (first : Nat)
    (p : (i : MallocSizeType) → MallocRegionUnitType W i → Bool) : Option (MallocUnitRef s) :=
  (finRange 10).findSome? fun i =>
    if i.val < first then none
    else (s.groups.findFinIdx? fun g => p i (g.unit i)).map fun j => ⟨i, j⟩

/-! ## Calls -/

def mallocCandidate (size : BitVec 32) : Option MallocSizeType :=
  (finRange 10).find? fun i => decide (size.toNat ≤ mallocMemsize i)

def mpuMallocGetMemory (junk : Nat → UInt8) (s : MallocRegionType W) (size : BitVec 32) :
    BitVec 32 × MallocRegionType W :=
  match mallocCandidate size with
  | none => (0, s)
  | some candidate =>
    match s.findUnit candidate fun _ u => decide (0 < u.bitfreenum) with
    | none => (0, s)
    | some r =>
      let unit := s.unitAt r
      match setBit unit.bitmap (mallocBitmaxnum r.size) (mallocBitmapsize r.size) with
      | none => (0, s)
      | some index =>
        (mallocBlockAddr unit.region.start r.size index,
          s.setUnit r ((unit.withData junk).setBlock index true (unit.bitfreenum - 1)))

def mallocTaken (s : MallocRegionType W) (size : BitVec 32) : Option (MallocUnitRef s) :=
  ((mallocCandidate size).bind fun candidate =>
      s.findUnit candidate fun _ u => decide (0 < u.bitfreenum)).filter fun r =>
    (setBit (s.unitAt r).bitmap (mallocBitmaxnum r.size) (mallocBitmapsize r.size)).isSome

def searchUnit (s : MallocRegionType W) (addr : BitVec 32) : Option (MallocUnitRef s) :=
  s.findUnit 0 fun _ u =>
    decide (u.region.start ≤ addr.setWidth W) &&
      decide (addr.setWidth W < u.region.start + u.region.size)

def mallocBlockBit (start : AthrillAddrType W) (i : MallocSizeType) (addr : BitVec 32) : Nat :=
  u32 ((addr.setWidth W - start).toNat / mallocMemsize i)

def mpuMallocRelMemory (s : MallocRegionType W) (addr : BitVec 32) : MallocRegionType W :=
  match searchUnit s addr with
  | none => s
  | some r =>
    let unit := s.unitAt r
    s.setUnit r (unit.setBlock (mallocBlockBit unit.region.start r.size addr) false
      (u32 (unit.bitfreenum + 1)))

inductive MallocCall
  | getMemory (size : BitVec 32)
  | relMemory (addr : BitVec 32)
  deriving DecidableEq

def mallocStep (junk : Nat → UInt8) (s : MallocRegionType W) :
    MallocCall → Option (MallocRegionType W × Option (BitVec 32))
  | .getMemory size =>
    let r := mpuMallocGetMemory junk s size
    some (r.2, some r.1)
  | .relMemory addr => some (mpuMallocRelMemory s addr, none)

end Athrill
