import Athrill.Elf.ImageCheck

/-!
# Sections and symbols of an ELF image (`lib/dwarf/elf_section.c`)

After an image has been checked and loaded, `elf_symbol_load` chooses its symbol table and the readers of
symbols and debug information follow its offsets without checks of their own.
-/

namespace Athrill

open Bytes Checker

def ElfImage.cstr (img : ElfImage) (off : Nat) : ElfM (List UInt8) :=
  match cstrAt img.bytes off with
  | some name => .ok name
  | none => .error .fault

inductive ElfSymbolEnumType
  | object
  | func
  | notype
  | nosup
  deriving DecidableEq, Repr

structure ElfSymbolType (W : Nat) where
  name : Nat
  size : Nat
  addr : AthrillAddrType W
  type : ElfSymbolEnumType
  deriving DecidableEq, Repr

/-- The statics of `elf_section.c`; a null `shdr` is `none`. -/
structure ElfSectionState where
  elfIs64 : Bool
  symbolShdr : Option ElfSectionView
  sym : Nat
  symbolNum : Nat
  stringShdr : Option ElfSectionView
  stringData : Nat
  sectionName : Option Nat
  elf64Symbols : Option Nat
  elf64SymbolNum : Nat
  elf64StringData : Nat
  deriving DecidableEq, Repr

def ElfSectionState.init : ElfSectionState :=
  ⟨false, none, 0, 0, none, 0, none, none, 0, 0⟩

def readEhdr (img : ElfImage) : ElfM ElfHeaderView := do
  let cls ← img.byte eiClass
  if cls = elfclass64 then do
    let ehdr ← img.memcpy 0 (ehdrSize true)
    .ok (elf64Ehdr ehdr)
  else do
    let ehdr ← img.memcpy 0 (ehdrSize false)
    .ok (elf32Ehdr ehdr)

def elf32SectionHeader (img : ElfImage) (h : ElfHeaderView) (i : Nat) : ElfM ElfSectionView := do
  let entry ← img.memcpy (u32 (h.shoff + u32 (i * h.shentsize))) (shdrSize false)
  .ok (elf32Shdr entry)

def findSection (read : Nat → ElfM ElfSectionView) (test : Nat → ElfSectionView → ElfM Bool) :
    List Nat → ElfM (Option ElfSectionView)
  | [] => .ok none
  | i :: is => do
    let s ← read i
    let hit ← test i s
    if hit then .ok (some s) else findSection read test is

/-! ## `elf_symbol_load` -/

def elf64SymbolLoad (img : ElfImage) (h : ElfHeaderView) (st : ElfSectionState) :
    ElfM (StdReturnType × ElfSectionState) :=
  if h.shnum = 0 ∨ h.shentsize < shdrSize true then .ok (.invalid, st)
  else do
    let symhdr ← findSection (readSection img h) (fun _ s => .ok (s.type == shtSymtab))
      (List.range h.shnum)
    match symhdr with
    | none => .ok (.invalid, st)
    | some symhdr =>
      if symhdr.link ≥ h.shnum ∨ symhdr.size > 0xffffffff then .ok (.invalid, st)
      else do
        let strhdr ← readSection img h symhdr.link
        if strhdr.type ≠ shtStrtab then .ok (.invalid, st)
        else
          let entsize := if symhdr.entsize ≠ 0 then symhdr.entsize else symSize true
          .ok (.ok, { st with
            elf64Symbols := some symhdr.offset
            elf64SymbolNum := u32 (symhdr.size / entsize)
            elf64StringData := strhdr.offset })

def elf32SearchSections (img : ElfImage) (h : ElfHeaderView) :
    List Nat → ElfSectionState → ElfM ElfSectionState
  | [], st => .ok st
  | i :: is, st => do
    let s ← elf32SectionHeader img h i
    elf32SearchSections img h is <|
      if i = h.shstrndx then st
      else if s.type = shtSymtab then
        { st with symbolShdr := some s, sym := s.offset, symbolNum := s.size / symSize false }
      else if s.type = shtStrtab then { st with stringShdr := some s, stringData := s.offset }
      else st

def elf32SymbolLoad (img : ElfImage) (h : ElfHeaderView) (st : ElfSectionState) :
    ElfM (StdReturnType × ElfSectionState) := do
  let st ← if h.shstrndx < h.shnum then do
      let s ← elf32SectionHeader img h h.shstrndx
      .ok { st with sectionName := some s.offset }
    else .ok st
  let st ← elf32SearchSections img h (List.range h.shnum) st
  match st.symbolShdr, st.stringShdr with
  | some symhdr, some _ => do
    let strhdr ← elf32SectionHeader img h symhdr.link
    .ok (.ok, { st with stringShdr := some strhdr, stringData := strhdr.offset })
  | _, _ => .ok (.invalid, st)

def elfSymbolLoad (img : ElfImage) (st : ElfSectionState) :
    ElfM (StdReturnType × ElfSectionState) := do
  let h ← readEhdr img
  if h.is64 then
    elf64SymbolLoad img h
      { st with elfIs64 := true, elf64Symbols := none, elf64SymbolNum := 0, elf64StringData := 0 }
  else elf32SymbolLoad img h { st with elfIs64 := false }

/-! ## Symbols -/

def elfsymGetSymbolNum (st : ElfSectionState) : Except StdReturnType Nat :=
  if st.elfIs64 then
    match st.elf64Symbols with
    | none => .error .invalid
    | some _ => .ok st.elf64SymbolNum
  else if st.symbolShdr.isNone ∨ st.stringShdr.isNone then .error .invalid
  else .ok st.symbolNum

def elfSymbolEnumType (info : Nat) : ElfSymbolEnumType :=
  match info % 16 with
  | 1 => .object
  | 2 => .func
  | 0 => .notype
  | _ => .nosup

def elfsymEntry (st : ElfSectionState) (index : Nat) : Nat :=
  (if st.elfIs64 then st.elf64Symbols.getD 0 else st.sym) + index * symSize st.elfIs64

def elfsymGetSymbol (W : Nat) (img : ElfImage) (st : ElfSectionState) (index : Nat) :
    ElfM (Except StdReturnType (ElfSymbolType W)) :=
  if st.elfIs64 then
    if st.elf64Symbols.isNone ∨ index ≥ st.elf64SymbolNum then .ok (.error .invalid)
    else do
      let entry ← img.memcpy (elfsymEntry st index) (symSize true)
      let s := elf64Sym entry
      if s.size > 0xffffffff then .ok (.error .invalid)
      else .ok (.ok ⟨st.elf64StringData + s.name, s.size, BitVec.ofNat W s.value,
        elfSymbolEnumType s.info⟩)
  else if st.symbolShdr.isNone ∨ st.stringShdr.isNone then .ok (.error .invalid)
  else do
    let entry ← img.memcpy (elfsymEntry st index) (symSize false)
    let s := elf32Sym entry
    .ok (.ok ⟨st.stringData + s.name, s.size, BitVec.ofNat W s.value, elfSymbolEnumType s.info⟩)

/-! ## Sections -/

def elfSectionGet (img : ElfImage) (st : ElfSectionState) (key : List UInt8) :
    ElfM (Except StdReturnType (Nat × Nat)) := do
  let h ← readEhdr img
  if h.is64 then
    if h.shstrndx ≥ h.shnum then .ok (.error .noent)
    else do
      let names ← readSection img h h.shstrndx
      let found ← findSection (readSection img h) (fun _ s => do
          let name ← img.cstr (names.offset + s.name)
          .ok (key == name)) (List.range h.shnum)
      match found with
      | none => .ok (.error .noent)
      | some s => if s.size > 0xffffffff then .ok (.error .invalid) else .ok (.ok (s.offset, s.size))
  else do
    let found ← findSection (elf32SectionHeader img h) (fun i s =>
        if i = h.shstrndx then .ok false
        else
          match st.sectionName with
          | none => .error .fault
          | some names => do
            let name ← img.cstr (names + s.name)
            .ok (key == name)) (List.range h.shnum)
    match found with
    | none => .ok (.error .noent)
    | some s => .ok (.ok (s.offset, s.size))

end Athrill
