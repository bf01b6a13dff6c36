import Athrill.Elf.Section
import Athrill.Loader.Load

/-!
# ELF files and raw files (`device/mpu/loader/loader.c`)

`elf_load` creates the regions of the memory configuration and copies the segments of a program into them;
`elf_reload` restores the memory of a running program.
-/

namespace Athrill

open Bytes

variable {W : Nat}

/-! ## Headers -/

structure ElfPhdr extends ElfProgramView where
  vaddr : Nat
  paddr : Nat
  deriving DecidableEq, Repr

def elfPhdr (is64 : Bool) (b : List UInt8) : ElfPhdr :=
  if is64 then { elf64Phdr b with vaddr := leAt b 16 8, paddr := leAt b 24 8 }
  else { elf32Phdr b with vaddr := leAt b 8 4, paddr := leAt b 12 4 }

def elfPhdrAt (img : ElfImage) (h : ElfHeaderView) (i : Nat) : ElfM ElfPhdr := do
  let entry ← img.memcpy (h.phoff + h.phentsize * i) (phdrSize h.is64)
  .ok (elfPhdr h.is64 entry)

def elfEntry (is64 : Bool) (b : List UInt8) : Nat := if is64 then leAt b 24 8 else leAt b 24 4

def elfHeaderCheck (cls : UInt8) (machine : Nat) (b : List UInt8) : Bool :=
  slice b 0 4 == elfmag && b.getD eiClass 0 == cls && b.getD eiData 0 == elfdata2lsb &&
    b.getD 6 0 == 1 && b.getD 7 0 == 0 && b.getD 8 0 == 0 && leAt b 16 2 == 2 &&
    leAt b 18 2 == machine && leAt b 20 4 == 1

def elfCheck : Nat → List UInt8 → Bool := elfHeaderCheck elfclass32

def elf64Check : Nat → List UInt8 → Bool := elfHeaderCheck elfclass64

/-! ## Segments -/

def loadSegmentAt (img : ElfImage) (offset loadAddr fileSize memorySize : Nat)
    (memap : MemoryAddressMapType W) (s : MpuState W) : Option (StdReturnType × MpuState W) :=
  if memorySize < fileSize ∨
      memoryMapCovers memap (BitVec.ofNat W loadAddr) (BitVec.ofNat W memorySize) = false then
    some (.noent, s)
  else if memorySize = 0 then some (.ok, s)
  else
    match mpuGetPointer s (BitVec.ofNat W loadAddr) with
    | (.error _, s') => some (.invalid, s')
    | (.ok (ref, off), s') => do
      let contents ← (img.memcpy offset fileSize).toOption
      let m ← pointerWrite s'.addressMap ref off contents
      let m ← pointerWrite m ref (off + fileSize) (List.replicate (memorySize - fileSize) 0)
      some (.ok, { s' with addressMap := m })

structure SegmentCall where
  offset : Nat
  loadAddr : Nat
  fileSize : Nat
  memorySize : Nat
  deriving DecidableEq, Repr

def loadLoop {σ : Type} (loadSegment : SegmentCall → σ → Option (StdReturnType × σ))
    (refused : ElfPhdr → Bool) (img : ElfImage) (h : ElfHeaderView) :
    List Nat → σ → Option (StdReturnType × σ)
  | [], s => some (.ok, s)
  | i :: is, s =>
    match elfPhdrAt img h i with
    | .error _ => none
    | .ok p =>
      if p.type ≠ ptLoad then loadLoop loadSegment refused img h is s
      else if refused p then some (.invalid, s)
      else
        match loadSegment ⟨p.offset, p.paddr, p.filesz, p.memsz⟩ s with
        | none => none
        | some (.ok, s') | some (.noent, s') => loadLoop loadSegment refused img h is s'
        | some (_, s') => some (.invalid, s')

def loadPrograms (refused : ElfPhdr → Bool) (img : ElfImage) (h : ElfHeaderView)
    (memap : MemoryAddressMapType W) : List Nat → MpuState W → Option (StdReturnType × MpuState W) :=
  loadLoop (fun c => loadSegmentAt img c.offset c.loadAddr c.fileSize c.memorySize memap) refused img h

def above32 (p : ElfPhdr) : Bool :=
  decide (p.paddr > 0xffffffff) || decide (p.vaddr > 0xffffffff) || decide (p.filesz > 0xffffffff) ||
    decide (p.memsz > 0xffffffff) || decide (p.memsz > 0xffffffffffffffff - p.paddr) ||
    decide (u64 (p.paddr + p.memsz) > 0x100000000)

def elfLoadProgram (junk : Nat → UInt8) (img : ElfImage) (h : ElfHeaderView)
    (memap : MemoryAddressMapType W) (s : MpuState W) : Option (StdReturnType × MpuState W) := do
  let m ← elfMapMemory junk memap s.addressMap
  loadPrograms (fun _ => false) img h memap (List.range h.phnum) { s with addressMap := m }

def elf64LoadProgram (junk : Nat → UInt8) (img : ElfImage) (h : ElfHeaderView)
    (memap : MemoryAddressMapType W) (s : MpuState W) : Option (StdReturnType × MpuState W) := do
  let m ← elfMapMemory junk memap s.addressMap
  loadPrograms (fun p => decide (W = 32) && above32 p) img h memap (List.range h.phnum)
    { s with addressMap := m }

/-! ## Loading -/

structure ElfLoaderState (W : Nat) where
  mpu : MpuState W
  symbols : ElfSectionState

def elfClassCheck (machine : Nat) (h : ElfHeaderView) (ehdr : List UInt8) : Bool :=
  if h.is64 then elf64Check machine ehdr else elfCheck machine ehdr

def elfClassLoadProgram (junk : Nat → UInt8) (img : ElfImage) (h : ElfHeaderView)
    (memap : MemoryAddressMapType W) (s : MpuState W) : Option (StdReturnType × MpuState W) :=
  if h.is64 then elf64LoadProgram junk img h memap s else elfLoadProgram junk img h memap s

def elfLoad (machine : Nat) (junk : Nat → UInt8) (img : ElfImage) (memap : MemoryAddressMapType W)
    (st : ElfLoaderState W) :
    Option (Except StdReturnType (AthrillAddrType W) × ElfLoaderState W) := do
  let ret ← elfImageCheck img
  if ret ≠ .ok then some (.error ret, st)
  else
    let h ← (readEhdr img).toOption
    let ehdr ← (img.memcpy 0 (ehdrSize h.is64)).toOption
    let entry := elfEntry h.is64 ehdr
    if elfClassCheck machine h ehdr = false then some (.error .invalid, st)
    else if h.is64 ∧ W = 32 ∧ entry > 0xffffffff then some (.error .invalid, st)
    else
      let (ret, mpu) ← elfClassLoadProgram junk img h memap st.mpu
      if ret ≠ .ok then some (.error ret, { st with mpu := mpu })
      else
        let (ret, symbols) ← (elfSymbolLoad img st.symbols).toOption
        if ret ≠ .ok then some (.error ret, ⟨mpu, symbols⟩)
        else some (.ok (BitVec.ofNat W entry), ⟨mpu, symbols⟩)

def binaryLoad (data : List UInt8) (loadAddr : AthrillAddrType W) (s : MpuState W) :
    Option (StdReturnType × MpuState W) :=
  match mpuGetPointer s loadAddr with
  | (.error err, s') => some (err, s')
  | (.ok (ref, off), s') => do
    let m ← pointerWrite s'.addressMap ref off data
    some (.ok, { s' with addressMap := m })

/-! ## Reloading -/

def clearRegions : List (MemoryAddressType W) → MpuState W → Option (StdReturnType × MpuState W)
  | [], s => some (.ok, s)
  | r :: rs, s =>
    match mpuGetPointer s r.start with
    | (.error _, s') => some (.invalid, s')
    | (.ok (ref, off), s') => do
      let m ← pointerWrite s'.addressMap ref off (List.replicate (r.size * 1024).toNat 0)
      clearRegions rs { s' with addressMap := m }

def reloadPrograms (img : ElfImage) (h : ElfHeaderView) (memap : MemoryAddressMapType W)
    (s : MpuState W) : Option (StdReturnType × MpuState W) := do
  let (ret, s) ← clearRegions memap.rom s
  if ret ≠ .ok then some (ret, s)
  else
    let (ret, s) ← clearRegions (memap.ram.filter (·.type != .malloc)) s
    if ret ≠ .ok then some (ret, s)
    else loadPrograms (fun _ => false) img h memap (List.range h.phnum) s

def elfReload (machine : Nat) (img : ElfImage) (memap : MemoryAddressMapType W) (s : MpuState W) :
    Option (StdReturnType × MpuState W) := do
  let ret ← elfImageCheck img
  if ret ≠ .ok then some (.invalid, s)
  else
    let h ← (readEhdr img).toOption
    let ehdr ← (img.memcpy 0 (ehdrSize h.is64)).toOption
    if elfClassCheck machine h ehdr = false then some (.invalid, s)
    else reloadPrograms img h memap s

end Athrill
