import Athrill.Loader.Load

/-!
# The memory configuration file (`main/cpuemu.cpp`)

`cpuemu_load_memmap` reads the regions of the configuration.
-/

namespace Athrill

variable {W : Nat}

/-! ## Flags -/

structure MemmapFlags where
  regionExecutable : Bool
  regionElfLoadFromVaddr : Bool
  deriving DecidableEq, Repr

def analizeMemmapArguments : Option (List UInt8) → MemmapFlags
  | none => ⟨false, false⟩
  | some str => (List.range 2).foldl
      (fun flags i =>
        if (str.getD i 0).toNat = 'X'.toNat then { flags with regionExecutable := true }
        else if (str.getD i 0).toNat = 'V'.toNat then { flags with regionElfLoadFromVaddr := true }
        else flags)
      ⟨false, false⟩

/-! ## Lines -/

structure MemmapEntry (W : Nat) extends MemoryAddressType W, MemmapFlags

structure MemmapConfig (W : Nat) where
  rom : List (MemmapEntry W)
  ram : List (MemmapEntry W)
  dev : List (MemoryAddressType W)

def MemmapConfig.addressMap (c : MemmapConfig W) : MemoryAddressMapType W where
  rom := c.rom.map (·.toMemoryAddressType)
  ram := c.ram.map (·.toMemoryAddressType)
  dev := c.dev

/-- A line by its tokens; an MMAP line with the contents of its file, a DEV line with its region. -/
inductive MemmapLine (W : Nat)
  | rom (start : AthrillAddrType W) (size : UInt32) (opt : Option (List UInt8))
  | ram (start : AthrillAddrType W) (size : UInt32) (opt : Option (List UInt8))
  | mmap (start : AthrillAddrType W) (file : HostBuffer) (opt : Option (List UInt8))
  | malloc (start : AthrillAddrType W) (size : UInt32) (opt : Option (List UInt8))
  | dev (region : MemoryAddressType W)
  | skipped

def memmapEntry (type : MpuAddressGetType) (start : AthrillAddrType W) (size : Nat)
    (mmapAddr : Option HostBuffer) (opt : Option (List UInt8)) : MemmapEntry W where
  toMemoryAddressType := ⟨type, start, BitVec.ofNat W size, mmapAddr, none⟩
  toMemmapFlags := analizeMemmapArguments opt

def mmapSize (fileSize : Nat) : Nat :=
  if (fileSize + 8191) / 8192 * 8 % 2 ^ 32 = 0 then 8 else (fileSize + 8191) / 8192 * 8 % 2 ^ 32

def memmapLine (map : MemmapConfig W) : MemmapLine W → Except StdReturnType (MemmapConfig W)
  | .rom start size opt =>
    .ok { map with rom := map.rom ++ [memmapEntry .rom start size.toNat none opt] }
  | .ram start size opt =>
    .ok { map with ram := map.ram ++ [memmapEntry .ram start size.toNat none opt] }
  | .mmap start file opt =>
    .ok { map with ram := map.ram ++ [memmapEntry .mmap start (mmapSize file.length) (some file) opt] }
  | .malloc start size opt =>
    if size.toNat % 10240 ≠ 0 then .error .invalid
    else .ok { map with ram := map.ram ++ [memmapEntry .malloc start size.toNat none opt] }
  | .dev region => .ok { map with dev := map.dev ++ [region] }
  | .skipped => .ok map

def cpuemuLoadMemmap (lines : List (MemmapLine W)) : Except StdReturnType (MemmapConfig W) :=
  lines.foldlM memmapLine ⟨[], [], []⟩

end Athrill
