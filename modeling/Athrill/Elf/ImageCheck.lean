import Athrill.Elf.Image

/-!
# The checker of ELF images (`lib/loader/elf_image_check.c`)

`elf_image_check` decides whether a file may be loaded, before anything else follows its offsets.
-/

namespace Athrill

open Bytes Checker

def rangeIsInside (offset size elfSize : Nat) : Bool :=
  if offset > elfSize then false else size ≤ elfSize - offset

def tableIsInside (offset count entrySize elfSize : Nat) : Bool :=
  if count = 0 then true
  else if entrySize > elfSize / count then false
  else rangeIsInside offset (u64 (count * entrySize)) elfSize

def readHeader (img : ElfImage) : ElfM ElfHeaderView := do
  reject (img.size < eiNident) ⟨"file is shorter than the ELF identification", img.size⟩
  let magic ← img.memcpy 0 4
  reject (magic ≠ elfmag) ⟨"no ELF magic number", 0⟩
  let data ← img.byte eiData
  reject (data ≠ elfdata2lsb) ⟨"not little endian", data.toNat⟩
  let cls ← img.byte eiClass
  if cls = elfclass32 then do
    reject (img.size < ehdrSize false) ⟨"file is shorter than the ELF32 header", img.size⟩
    let ehdr ← img.memcpy 0 (ehdrSize false)
    .ok (elf32Ehdr ehdr)
  else if cls = elfclass64 then do
    reject (img.size < ehdrSize true) ⟨"file is shorter than the ELF64 header", img.size⟩
    let ehdr ← img.memcpy 0 (ehdrSize true)
    .ok (elf64Ehdr ehdr)
  else .error (.rejected ⟨"unknown ELF class", cls.toNat⟩)

def readProgram (img : ElfImage) (header : ElfHeaderView) (index : Nat) : ElfM ElfProgramView := do
  let entry ← img.memcpy (header.phoff + u64 (index * header.phentsize)) (phdrSize header.is64)
  .ok (phdr header.is64 entry)

def readSection (img : ElfImage) (header : ElfHeaderView) (index : Nat) : ElfM ElfSectionView := do
  let entry ← img.memcpy (header.shoff + u64 (index * header.shentsize)) (shdrSize header.is64)
  .ok (shdr header.is64 entry)

def readSymbolName (img : ElfImage) (header : ElfHeaderView) (offset : Nat) : ElfM Nat := do
  let entry ← img.memcpy offset (symSize header.is64)
  .ok (sym header.is64 entry).name

def checkPrograms (img : ElfImage) (header : ElfHeaderView) : ElfM PUnit :=
  if header.phnum = 0 then .ok ⟨⟩
  else do
    reject (header.phentsize < phdrSize header.is64)
      ⟨"program header entry size too small", header.phentsize⟩
    reject (tableIsInside header.phoff header.phnum header.phentsize img.size = false)
      ⟨"program header table outside the file", header.phoff⟩
    (List.range header.phnum).forM fun i => do
      let program ← readProgram img header i
      if program.type ≠ ptLoad then .ok ⟨⟩
      else do
        reject (rangeIsInside program.offset program.filesz img.size = false)
          ⟨"PT_LOAD contents outside the file", program.offset⟩
        reject (program.filesz > program.memsz)
          ⟨"PT_LOAD file size larger than memory size", program.filesz⟩

def stringTableIsValid (img : ElfImage) (sect : ElfSectionView) : ElfM Bool :=
  if sect.type ≠ shtStrtab then .ok false
  else if sect.size = 0 then .ok false
  else do
    let last ← img.byte (u64 (u64 (sect.offset + sect.size) + 2 ^ 64 - 1))
    .ok (last == 0)

def checkSymbolTable (img : ElfImage) (header : ElfHeaderView) (symtab : ElfSectionView) :
    ElfM PUnit := do
  reject (symtab.entsize ≠ 0 ∧ symtab.entsize ≠ symSize header.is64)
    ⟨"symbol table entry size", symtab.entsize⟩
  reject (symtab.link ≥ header.shnum) ⟨"symbol table string table index", symtab.link⟩
  let strtab ← readSection img header symtab.link
  let valid ← stringTableIsValid img strtab
  reject (valid = false)
    ⟨"symbol string table is not a NUL-terminated string table", symtab.link⟩
  (List.range (symtab.size / symSize header.is64)).forM fun i => do
    let name ← readSymbolName img header (u64 (symtab.offset + u64 (i * symSize header.is64)))
    reject (name ≥ strtab.size) ⟨"symbol name outside the string table", name⟩

def checkSections (img : ElfImage) (header : ElfHeaderView) : ElfM PUnit :=
  if header.shnum = 0 then .ok ⟨⟩
  else do
    reject (header.shentsize < shdrSize header.is64)
      ⟨"section header entry size too small", header.shentsize⟩
    reject (tableIsInside header.shoff header.shnum header.shentsize img.size = false)
      ⟨"section header table outside the file", header.shoff⟩
    (List.range header.shnum).forM fun i => do
      let sect ← readSection img header i
      if sect.type = shtNull ∨ sect.type = shtNobits then .ok ⟨⟩
      else do
        reject (rangeIsInside sect.offset sect.size img.size = false)
          ⟨"section contents outside the file", i⟩
    reject (header.shstrndx ≥ header.shnum) ⟨"section name table index", header.shstrndx⟩
    let names ← readSection img header header.shstrndx
    let valid ← stringTableIsValid img names
    reject (valid = false)
      ⟨"section name table is not a NUL-terminated string table", header.shstrndx⟩
    (List.range header.shnum).forM fun i => do
      let sect ← readSection img header i
      reject (sect.name ≥ names.size) ⟨"section name outside the section name table", i⟩
      if sect.type ≠ shtSymtab then .ok ⟨⟩
      else checkSymbolTable img header sect

def checkImage (img : ElfImage) : ElfM PUnit := do
  let header ← readHeader img
  checkPrograms img header
  checkSections img header

def elfImageCheck (img : ElfImage) : Option StdReturnType :=
  match checkImage img with
  | .ok _ => some .ok
  | .error (.rejected _) => some .invalid
  | .error .fault => none

end Athrill
