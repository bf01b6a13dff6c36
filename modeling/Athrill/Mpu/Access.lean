import Athrill.Lib.Bytes
import Athrill.Mpu.Pointer

/-!
# Accesses of the bus (`device/mpu/mpu.c`)

The data accesses of 8, 16 and 32 bits, the classification of an address, and the two functions that give
out host memory.
-/

namespace Athrill

open Bytes BitVec

variable {W : Nat}

/-! ## Data -/

inductive BusWidth
  | data8
  | data16
  | data32
  deriving DecidableEq, Repr

def BusWidth.bytes : BusWidth → Nat
  | .data8 => 1
  | .data16 => 2
  | .data32 => 4

def hostRead (buf : HostBuffer) (off n : Nat) : Option (List UInt8) :=
  if off + n ≤ buf.length then some (slice buf off n) else none

def memoryGetData (w : BusWidth) (region : MpuAddressRegionType W) (addr : AthrillAddrType W) :
    Option Nat :=
  let off := addr - region.start
  region.data.bind fun buf => (hostRead buf off.toNat w.bytes).map leValue

def mpuGetData (w : BusWidth) (s : MpuState W) (addr : AthrillAddrType W) :
    Option (Except StdReturnType Nat × MpuState W) :=
  let r := searchRegionR s addr (BitVec.ofNat W w.bytes)
  match r.1.bind (regionAt s.addressMap) with
  | none => some (.error .segv, r.2)
  | some region =>
    match region.ops with
    | .device _ => none
    | .defaultMemory =>
      (memoryGetData w region (addr &&& region.mask)).map fun data => (.ok data, r.2)

def mpuGetData8 (s : MpuState W) (addr : AthrillAddrType W) :
    Option (Except StdReturnType Nat × MpuState W) :=
  mpuGetData .data8 s addr

def mpuGetData16 (s : MpuState W) (addr : AthrillAddrType W) :
    Option (Except StdReturnType Nat × MpuState W) :=
  mpuGetData .data16 s addr

def mpuGetData32 (s : MpuState W) (addr : AthrillAddrType W) :
    Option (Except StdReturnType Nat × MpuState W) :=
  mpuGetData .data32 s addr

def memoryPutData (w : BusWidth) (m : MpuAddressMapType W) (ref : MpuRegionRef)
    (region : MpuAddressRegionType W) (addr : AthrillAddrType W) (data : BitVec (8 * w.bytes)) :
    Option (MpuAddressMapType W) :=
  let off := addr - region.start
  pointerWrite m ref off.toNat (Bytes.leBytes w.bytes data.toNat)

def mpuPutData (w : BusWidth) (s : MpuState W) (addr : AthrillAddrType W)
    (data : BitVec (8 * w.bytes)) : Option (StdReturnType × MpuState W) :=
  let r := searchRegion s addr (BitVec.ofNat W w.bytes)
  match r.1 with
  | none => some (.segv, r.2)
  | some ref =>
    match regionAt s.addressMap ref with
    | none => some (.segv, r.2)
    | some region =>
      if region.type = .readonlyMemory then some (.segv, r.2)
      else
        match region.ops with
        | .device _ => none
        | .defaultMemory =>
          (memoryPutData w s.addressMap ref region (addr &&& region.mask) data).map fun m =>
            (.ok, { r.2 with addressMap := m })

def mpuPutData8 (s : MpuState W) (addr : AthrillAddrType W) (data : BitVec 8) :
    Option (StdReturnType × MpuState W) :=
  mpuPutData .data8 s addr data

def mpuPutData16 (s : MpuState W) (addr : AthrillAddrType W) (data : BitVec 16) :
    Option (StdReturnType × MpuState W) :=
  mpuPutData .data16 s addr data

def mpuPutData32 (s : MpuState W) (addr : AthrillAddrType W) (data : BitVec 32) :
    Option (StdReturnType × MpuState W) :=
  mpuPutData .data32 s addr data

/-! ## Classification -/

def regionHasAddr (region : MpuAddressRegionType W) (addr : AthrillAddrType W) : Bool :=
  let start := region.start
  let stop := start + region.size
  let paddrStr := addr &&& region.mask
  decide (start ≤ paddrStr) && decide (paddrStr < stop)

def mpuAddressRegionTypeGet (m : MpuAddressMapType W) (addr : AthrillAddrType W) :
    MpuAddressRegionEnumType × Option Bool :=
  match m.dynamicMap.find? (regionHasAddr · addr) with
  | some region => (region.type, some region.isMalloc)
  | none =>
    match m.map.find? (regionHasAddr · addr) with
    | some region => (region.type, some false)
    | none => (.regionUnknown, none)

/-! ## Host memory -/

def isMemoryWindow (region : MpuAddressRegionType W) : Bool :=
  region.data.isSome && region.ops.isDefault && region.mask == allOnes W &&
    (region.type == .globalMemory || region.type == .readonlyMemory)

/-- The range of a region, the region whose `data` it points to, and whether it is writable. -/
structure MemoryWindow (W : Nat) where
  start : AthrillAddrType W
  size : AthrillAddrType W
  data : MpuRegionRef
  writable : Bool
  deriving DecidableEq

def mpuGetMemoryWindow (s : MpuState W) (addr : AthrillAddrType W) :
    Except StdReturnType (MemoryWindow W) × MpuState W :=
  let r := searchRegion s addr 1
  match r.1 with
  | none => (.error .noent, r.2)
  | some ref =>
    match regionAt s.addressMap ref with
    | none => (.error .noent, r.2)
    | some region =>
      if isMemoryWindow region then
        (.ok ⟨region.start, region.size, ref, region.type == .globalMemory⟩, r.2)
      else (.error .noent, r.2)

def mpuGetHostMemory (s : MpuState W) (addr size : AthrillAddrType W) (write : Bool) :
    Except StdReturnType (Option (MpuRegionRef × Nat)) × MpuState W :=
  if size = 0 then (.ok none, s)
  else if addr + size < addr then (.error .segv, s)
  else
    let r := searchRegion s addr size
    match r.1 with
    | none => (.error .segv, r.2)
    | some ref =>
      match regionAt s.addressMap ref with
      | none => (.error .segv, r.2)
      | some region =>
        if isMemoryWindow region && !(write && region.type != .globalMemory) then
          (.ok (some (ref, (addr - region.start).toNat)), r.2)
        else (.error .segv, r.2)

/-! ## The bus as a state machine -/

inductive BusAccess (W : Nat)
  | getData (w : BusWidth) (addr : AthrillAddrType W)
  | putData (w : BusWidth) (addr : AthrillAddrType W) (data : BitVec (8 * w.bytes))
  | getPointer (addr : AthrillAddrType W)
  | getMemoryWindow (addr : AthrillAddrType W)
  | getHostMemory (addr size : AthrillAddrType W) (write : Bool)

inductive BusAnswer
  | got (data : Except StdReturnType Nat)
  | put (ret : StdReturnType)
  | pointer

def busStep (s : MpuState W) : BusAccess W → Option (MpuState W × BusAnswer)
  | .getData w addr => (mpuGetData w s addr).map fun r => (r.2, .got r.1)
  | .putData w addr data => (mpuPutData w s addr data).map fun r => (r.2, .put r.1)
  | .getPointer addr => some ((mpuGetPointer s addr).2, .pointer)
  | .getMemoryWindow addr => some ((mpuGetMemoryWindow s addr).2, .pointer)
  | .getHostMemory addr size write => some ((mpuGetHostMemory s addr size write).2, .pointer)

@[simp] theorem mpuGetMemoryWindow_addressMap (s : MpuState W) (addr : AthrillAddrType W) :
    (mpuGetMemoryWindow s addr).2.addressMap = s.addressMap := by
  unfold mpuGetMemoryWindow
  dsimp only
  split
  · rfl
  · split
    · rfl
    · split_ifs <;> rfl

@[simp] theorem mpuGetHostMemory_addressMap (s : MpuState W) (addr size : AthrillAddrType W)
    (write : Bool) : (mpuGetHostMemory s addr size write).2.addressMap = s.addressMap := by
  unfold mpuGetHostMemory
  dsimp only
  split_ifs
  · rfl
  · rfl
  · split
    · rfl
    · split
      · rfl
      · split_ifs <;> rfl

/-! ## Data accesses to plain memory -/

/-- The search finds a region with the default operations that begins at the address or before it. -/
structure Selects (m : MpuAddressMapType W) (previous : Int) (addr n : AthrillAddrType W)
    (ref : MpuRegionRef) (region : MpuAddressRegionType W) : Prop where
  select : (searchRegionFrom m previous addr n).1 = some ref
  found : regionAt m ref = some region
  mask : region.mask = allOnes W
  ops : region.ops = defaultMemoryOperation
  low : region.start.toNat ≤ addr.toNat

namespace Selects

variable {m : MpuAddressMapType W} {p q : Int} {ref : MpuRegionRef} {region : MpuAddressRegionType W}
  {addr n : AthrillAddrType W} {w : BusWidth} {buf : HostBuffer}

theorem offset (h : Selects m p addr n ref region) :
    ((addr &&& region.mask) - region.start).toNat = addr.toNat - region.start.toNat := by
  rw [h.mask, and_allOnes, toNat_sub_of_le (le_def.2 h.low)]

theorem getData (h : Selects m q addr (BitVec.ofNat W w.bytes) ref region)
    (hbuf : region.data = some buf) :
    mpuGetData w ⟨m, p, q⟩ addr =
      (hostRead buf (addr.toNat - region.start.toNat) w.bytes).map fun bytes =>
        (.ok (leValue bytes), (searchRegionR ⟨m, p, q⟩ addr (BitVec.ofNat W w.bytes)).2) := by
  simp only [mpuGetData, searchRegionR, h.select, Option.bind_some, h.found, h.ops,
    defaultMemoryOperation, memoryGetData, h.offset, hbuf, Option.map_map, Function.comp_def]

theorem putData (h : Selects m p addr (BitVec.ofNat W w.bytes) ref region)
    (hbuf : region.data = some buf) (data : BitVec (8 * w.bytes)) :
    mpuPutData w ⟨m, p, q⟩ addr data =
      if region.type = .readonlyMemory then
        some (.segv, (searchRegion ⟨m, p, q⟩ addr (BitVec.ofNat W w.bytes)).2)
      else
        (hostWrite buf (addr.toNat - region.start.toNat : Nat) (Bytes.leBytes w.bytes data.toNat)).map
          fun buf' => (.ok, { (searchRegion ⟨m, p, q⟩ addr (BitVec.ofNat W w.bytes)).2 with
            addressMap := setRegionData m ref buf' }) := by
  simp only [mpuPutData, searchRegion, h.select, h.found, h.ops, defaultMemoryOperation, memoryPutData,
    pointerWrite, h.offset, Option.bind_some, hbuf, Option.map_map, Function.comp_def]

theorem getData8 (h : Selects m q addr 1 ref region) (hbuf : region.data = some buf)
    (hin : addr.toNat - region.start.toNat < buf.length) :
    mpuGetData8 ⟨m, p, q⟩ addr =
      some (.ok (buf[addr.toNat - region.start.toNat]).toNat, (searchRegionR ⟨m, p, q⟩ addr 1).2) := by
  have hslice : slice buf (addr.toNat - region.start.toNat) 1 =
      [buf[addr.toNat - region.start.toNat]] := by
    rw [slice, List.drop_eq_getElem_cons hin, List.take_succ_cons, List.take_zero]
  have hread : hostRead buf (addr.toNat - region.start.toNat) BusWidth.data8.bytes =
      some (slice buf (addr.toNat - region.start.toNat) 1) := if_pos hin
  rw [mpuGetData8, getData (w := .data8) h hbuf, hread, hslice, Option.map_some, leValue, leValue]
  rfl

section
variable (h : Selects m p addr 1 ref region)
include h

theorem putData8 (hbuf : region.data = some buf) (data : BitVec 8) :
    mpuPutData8 ⟨m, p, q⟩ addr data =
      if region.type = .readonlyMemory then some (.segv, (searchRegion ⟨m, p, q⟩ addr 1).2)
      else
        (hostWrite buf (addr.toNat - region.start.toNat : Nat) [UInt8.ofNat data.toNat]).map
          fun buf' => (.ok, { (searchRegion ⟨m, p, q⟩ addr 1).2 with
            addressMap := setRegionData m ref buf' }) :=
  putData (w := .data8) h hbuf data

theorem getPointer :
    mpuGetPointer ⟨m, p, q⟩ addr =
      (.ok (ref, ((addr.toNat - region.start.toNat : Nat) : Int)),
        (searchRegion ⟨m, p, q⟩ addr 1).2) := by
  rw [mpuGetPointer, searchRegion, h.select, pointerInRegion, h.found]
  dsimp only
  rw [h.ops]
  show (Except.ok (_, (((addr &&& region.mask) - region.start).toNat : Int)), _) = _
  rw [h.offset]

end

end Selects

end Athrill
