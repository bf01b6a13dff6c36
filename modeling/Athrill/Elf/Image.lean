import Athrill.File
import Athrill.Lib.Bytes
import Athrill.Lib.Checker

/-!
# ELF images (`lib/loader/elf.h`)

The bytes of a file and the class-neutral views of its structures.
-/

namespace Athrill

open Bytes Checker

structure ElfImage where
  bytes : List UInt8
  size_lt : bytes.length < 2 ^ 64

def ElfImage.size (img : ElfImage) : Nat := img.bytes.length

/-- A refused image, with the text and the number that the source prints. -/
structure ElfInvalid where
  reason : String
  value : Nat
  deriving DecidableEq, Repr

abbrev ElfM := Except (Failure ElfInvalid)

def ElfImage.memcpy (img : ElfImage) (off n : Nat) : ElfM (List UInt8) :=
  if off + n ≤ img.size then .ok (slice img.bytes off n) else .error .fault

def ElfImage.byte (img : ElfImage) (off : Nat) : ElfM UInt8 :=
  match img.bytes[off]? with
  | some b => .ok b
  | none => .error .fault

theorem ElfImage.memcpy_ok {img : ElfImage} {off n : Nat} (h : off + n ≤ img.size) :
    img.memcpy off n = .ok (slice img.bytes off n) := if_pos h

theorem ElfImage.byte_ok {img : ElfImage} {off : Nat} (h : off < img.size) :
    img.byte off = .ok (img.bytes.getD off 0) := by
  have h' : off < img.bytes.length := h
  simp [ElfImage.byte, List.getElem?_eq_getElem h', List.getD_eq_getElem?_getD]

/-! ## Constants -/

abbrev eiClass : Nat := 4

abbrev eiData : Nat := 5

abbrev eiNident : Nat := 16

abbrev elfmag : List UInt8 := [0x7f, 0x45, 0x4c, 0x46]

abbrev elfclass32 : UInt8 := 1

abbrev elfclass64 : UInt8 := 2

abbrev elfdata2lsb : UInt8 := 1

abbrev ptLoad : Nat := 1

abbrev shtNull : Nat := 0

abbrev shtSymtab : Nat := 2

abbrev shtStrtab : Nat := 3

abbrev shtNobits : Nat := 8

/-! ## Structures -/

structure ElfHeaderView where
  is64 : Bool
  phoff : Nat
  shoff : Nat
  phentsize : Nat
  phnum : Nat
  shentsize : Nat
  shnum : Nat
  shstrndx : Nat
  deriving DecidableEq, Repr

def elf32Ehdr (b : List UInt8) : ElfHeaderView where
  is64 := false
  phoff := leAt b 28 4
  shoff := leAt b 32 4
  phentsize := leAt b 42 2
  phnum := leAt b 44 2
  shentsize := leAt b 46 2
  shnum := leAt b 48 2
  shstrndx := leAt b 50 2

def elf64Ehdr (b : List UInt8) : ElfHeaderView where
  is64 := true
  phoff := leAt b 32 8
  shoff := leAt b 40 8
  phentsize := leAt b 54 2
  phnum := leAt b 56 2
  shentsize := leAt b 58 2
  shnum := leAt b 60 2
  shstrndx := leAt b 62 2

def ehdrSize (is64 : Bool) : Nat := if is64 then 64 else 52

structure ElfProgramView where
  type : Nat
  offset : Nat
  filesz : Nat
  memsz : Nat
  deriving DecidableEq, Repr

def elf32Phdr (b : List UInt8) : ElfProgramView where
  type := leAt b 0 4
  offset := leAt b 4 4
  filesz := leAt b 16 4
  memsz := leAt b 20 4

def elf64Phdr (b : List UInt8) : ElfProgramView where
  type := leAt b 0 4
  offset := leAt b 8 8
  filesz := leAt b 32 8
  memsz := leAt b 40 8

def phdrSize (is64 : Bool) : Nat := if is64 then 56 else 32

def phdr (is64 : Bool) (b : List UInt8) : ElfProgramView := if is64 then elf64Phdr b else elf32Phdr b

structure ElfSectionView where
  name : Nat
  type : Nat
  offset : Nat
  size : Nat
  link : Nat
  entsize : Nat
  deriving DecidableEq, Repr

def elf32Shdr (b : List UInt8) : ElfSectionView where
  name := leAt b 0 4
  type := leAt b 4 4
  offset := leAt b 16 4
  size := leAt b 20 4
  link := leAt b 24 4
  entsize := leAt b 36 4

def elf64Shdr (b : List UInt8) : ElfSectionView where
  name := leAt b 0 4
  type := leAt b 4 4
  offset := leAt b 24 8
  size := leAt b 32 8
  link := leAt b 40 4
  entsize := leAt b 56 8

def shdrSize (is64 : Bool) : Nat := if is64 then 64 else 40

def shdr (is64 : Bool) (b : List UInt8) : ElfSectionView := if is64 then elf64Shdr b else elf32Shdr b

structure ElfSymView where
  name : Nat
  value : Nat
  size : Nat
  info : Nat
  deriving DecidableEq, Repr

def elf32Sym (b : List UInt8) : ElfSymView where
  name := leAt b 0 4
  value := leAt b 4 4
  size := leAt b 8 4
  info := leAt b 12 1

def elf64Sym (b : List UInt8) : ElfSymView where
  name := leAt b 0 4
  value := leAt b 8 8
  size := leAt b 16 8
  info := leAt b 4 1

def symSize (is64 : Bool) : Nat := if is64 then 24 else 16

def sym (is64 : Bool) (b : List UInt8) : ElfSymView := if is64 then elf64Sym b else elf32Sym b

end Athrill
