import Athrill.Dwarf.Util

/-!
# Debugging information entries (`lib/dwarf/elf_dwarf_abbrev.c`, `elf_dwarf_info.c`)

`elf_dwarf_info_load` reads the compilation units of `.debug_info`. Its counters are 32 bit words, so a block of
almost `2 ^ 32` bytes leads it back to bytes that it has read; what it does next depends on the counters only,
so the number of bytes is enough fuel for every load that ends. A section is taken to have zeros behind it,
where the source reads on in the file.
-/

namespace Athrill

inductive DwarfSection
  | str
  | info
  | line
  deriving DecidableEq, Repr

/-! ## Abbreviations -/

structure ElfDwarfAbbrevType where
  index : Nat
  offset : Nat
  code : Nat
  tag : Nat
  child : Nat
  attributeName : List Nat
  attributeForm : List Nat
  deriving DecidableEq, Repr

def elfDwarfAbbrevGet (abbrevs : List ElfDwarfAbbrevType) (offset : Nat) :
    Option ElfDwarfAbbrevType :=
  abbrevs.find? fun entry => entry.offset == offset

def searchCode (code : Nat) : List ElfDwarfAbbrevType → Nat → Option ElfDwarfAbbrevType
  | [], _ => none
  | entry :: entries, lastCode =>
    if entry.code ≤ lastCode then none
    else if entry.code = code then some entry
    else searchCode code entries entry.code

def elfDwarfAbbrevGetFromCode (abbrevs : List ElfDwarfAbbrevType) (top : ElfDwarfAbbrevType)
    (code : Nat) : Option ElfDwarfAbbrevType :=
  searchCode code (abbrevs.drop top.index) 0

/-! ## Attributes -/

inductive DwFormType
  | none
  | addr
  | block2
  | block4
  | data2
  | data4
  | data8
  | string
  | block
  | block1
  | data1
  | flag
  | sdata
  | strp
  | udata
  | refAddr
  | ref1
  | ref2
  | ref4
  | ref8
  | refUdata
  | indirect
  | secOffset
  | exprloc
  | flagPresent
  | refSig8
  | unknown
  deriving DecidableEq, Repr

def dwFormType : Nat → DwFormType
  | 0x00 => .none
  | 0x01 => .addr
  | 0x03 => .block2
  | 0x04 => .block4
  | 0x05 => .data2
  | 0x06 => .data4
  | 0x07 => .data8
  | 0x08 => .string
  | 0x09 => .block
  | 0x0a => .block1
  | 0x0b => .data1
  | 0x0c => .flag
  | 0x0d => .sdata
  | 0x0e => .strp
  | 0x0f => .udata
  | 0x10 => .refAddr
  | 0x11 => .ref1
  | 0x12 => .ref2
  | 0x13 => .ref4
  | 0x14 => .ref8
  | 0x15 => .refUdata
  | 0x16 => .indirect
  | 0x17 => .secOffset
  | 0x18 => .exprloc
  | 0x19 => .flagPresent
  | 0x20 => .refSig8
  | _ => .unknown

/-- The union `encoded`; a pointer is an offset into its section. -/
inductive DwEncoded
  | addr (addr : Nat)
  | const8 (v : Nat)
  | const16 (v : Nat)
  | const32 (v : Nat)
  | const64 (v : Nat)
  | scont64 (v : Int)
  | ref8 (v : Nat)
  | ref16 (v : Nat)
  | ref32 (v : Nat)
  | ref64 (v : Nat)
  | secOffset (v : Nat)
  | flag (v : Nat)
  | string (off : Nat)
  | debugStr (off : Nat)
  | op (len ops : Nat)
  deriving DecidableEq, Repr

structure ElfDwarfAttributeType where
  type : Nat
  offset : Nat
  size : Nat
  encoded : DwEncoded
  deriving DecidableEq, Repr

structure ElfDwarfCompilationUnitHeaderType where
  offset : Nat
  length : Nat
  version : Nat
  abbrevOffset : Nat
  pointerSize : Nat
  dies : List Nat
  deriving DecidableEq, Repr

def elfDwarfInfoParseAttr (cu : ElfDwarfCompilationUnitHeaderType) (addr : List UInt8) (off : Nat)
    (form : DwFormType) : Option (Option DwEncoded × Nat) :=
  match form with
  | .none => some (.none, 0)
  | .addr => some (some (.addr (elfGetData32 addr 0)), cu.pointerSize)
  | .block1 =>
    let len := elfGetData8 addr 0
    some (some (.op len (off + 1)), len + 1)
  | .block2 =>
    let len := elfGetData16 addr 0
    some (some (.op len (off + 2)), len + 2)
  | .block4 =>
    let len := elfGetData32 addr 0
    some (some (.op len (off + 4)), u32 (len + 4))
  | .data1 => some (some (.const8 (elfGetData8 addr 0)), 1)
  | .data2 => some (some (.const16 (elfGetData16 addr 0)), 2)
  | .data4 => some (some (.const32 (elfGetData32 addr 0)), 4)
  | .data8 => some (some (.const64 (elfGetData64 addr 0)), 8)
  | .sdata =>
    let v := elfDwarfDecodeSleb128 addr
    some (some (.scont64 v.1), v.2)
  | .udata =>
    let v := elfDwarfDecodeUleb128 addr
    some (some (.const64 v.1), v.2)
  | .string => some (some (.string off), u32 (strlen addr + 1))
  | .strp => some (some (.debugStr (elfGetData32 addr 0)), 4)
  | .flag => some (some (.flag (elfGetData8 addr 0)), 1)
  | .ref1 => some (some (.ref8 ((elfGetData8 addr 0 + cu.offset) % 2 ^ 8)), 1)
  | .ref2 => some (some (.ref16 ((elfGetData16 addr 0 + cu.offset) % 2 ^ 16)), 2)
  | .ref4 => some (some (.ref32 (u32 (elfGetData32 addr 0 + cu.offset))), 4)
  | .ref8 => some (some (.ref64 (u64 (elfGetData64 addr 0 + cu.offset))), 8)
  | .secOffset => some (some (.secOffset (elfGetData32 addr 0)), 4)
  | .exprloc =>
    let len := elfDwarfDecodeUleb128 addr
    some (some (.op len.1 (off + len.2)), len.2 + len.1)
  | .flagPresent => some (some (.flag 1), 0)
  -- the forms the loader does not support
  | .block | .refAddr | .refUdata | .indirect | .refSig8 | .unknown => .none

/-- The attributes of an entry, from `entrySize` bytes behind the start of the unit. -/
def parseAttrs (data : List UInt8) (cu : ElfDwarfCompilationUnitHeaderType) :
    List Nat → Nat → Option (List ElfDwarfAttributeType × Nat)
  | [], entrySize => some ([], entrySize)
  | form :: forms, entrySize => do
    let off := u32 (cu.offset + entrySize)
    let (obj, size) ← elfDwarfInfoParseAttr cu (data.drop off) off (dwFormType form)
    let (attrs, entrySize') ← parseAttrs data cu forms (u32 (entrySize + size))
    match obj with
    | none => some (attrs, entrySize')
    | some encoded => some (⟨form, off, size, encoded⟩ :: attrs, entrySize')

/-! ## Entries -/

/-- The `parent` and the `children` array of an entry, as numbers of entries. -/
structure DieLink where
  parent : Option Nat
  children : Option (List Nat)
  deriving DecidableEq, Repr

structure ElfDwarfDieType where
  offset : Nat
  abbrevCode : Nat
  abbrevInfo : ElfDwarfAbbrevType
  attributes : List ElfDwarfAttributeType
  level : Nat
  link : DieLink
  deriving DecidableEq, Repr

structure InfoLoop where
  dies : List ElfDwarfDieType
  die : Option Nat
  parent : Option Nat
  level : Nat
  entrySize : Nat
  cuDies : List Nat
  deriving DecidableEq, Repr

def addChild (parent : Option Nat) (die : Nat) (dies : List ElfDwarfDieType) :
    List ElfDwarfDieType :=
  match parent with
  | none => dies
  | some p => dies.modify p fun d =>
    { d with link := { d.link with children := d.link.children.map (· ++ [die]) } }

def InfoLoop.nullEntry (st : InfoLoop) (size : Nat) : InfoLoop :=
  { st with
    entrySize := u32 (st.entrySize + size)
    level := u32 (st.level + (2 ^ 32 - 1))
    parent := match st.die with
      | none => st.parent
      | some d => (st.dies[d]?).bind (·.link.parent) }

def InfoLoop.addDie (st : InfoLoop) (cu : ElfDwarfCompilationUnitHeaderType) (code : Nat)
    (entry : ElfDwarfAbbrevType) (attrs : List ElfDwarfAttributeType) (entrySize : Nat) : InfoLoop :=
  let n := st.dies.length
  let hasChildren := entry.child == 1
  { dies := addChild st.parent n st.dies ++
      [⟨u32 (cu.offset + st.entrySize), code, entry, attrs, st.level,
        ⟨st.parent, if hasChildren then some [] else none⟩⟩]
    die := some n
    parent := if hasChildren then some n else st.parent
    level := if hasChildren then u32 (st.level + 1) else st.level
    entrySize := entrySize
    cuDies := st.cuDies ++ [n] }

def infoEntry (abbrevs : List ElfDwarfAbbrevType) (data : List UInt8) (top : ElfDwarfAbbrevType)
    (cu : ElfDwarfCompilationUnitHeaderType) (st : InfoLoop) : Option InfoLoop :=
  let code := elfDwarfDecodeUleb128 (data.drop (u32 (cu.offset + st.entrySize)))
  if code.1 = 0 then some (st.nullEntry code.2)
  else do
    let entry ← elfDwarfAbbrevGetFromCode abbrevs top code.1
    let (attrs, entrySize) ← parseAttrs data cu entry.attributeForm (u32 (st.entrySize + code.2))
    some (st.addDie cu code.1 entry attrs entrySize)

def infoLoop (abbrevs : List ElfDwarfAbbrevType) (data : List UInt8) (top : ElfDwarfAbbrevType)
    (cu : ElfDwarfCompilationUnitHeaderType) (total : Nat) : Nat → InfoLoop → Option InfoLoop
  | 0, st => if st.entrySize < total then none else some st
  | n + 1, st =>
    if st.entrySize < total then do
      let st ← infoEntry abbrevs data top cu st
      infoLoop abbrevs data top cu total n st
    else some st

/-! ## Units -/

structure InfoLoad where
  dies : List ElfDwarfDieType
  die : Option Nat
  compilationUnitHeaders : List ElfDwarfCompilationUnitHeaderType
  currentSize : Nat
  deriving DecidableEq, Repr

def infoHeader (data : List UInt8) (offset : Nat) : ElfDwarfCompilationUnitHeaderType :=
  let addr := data.drop offset
  { offset := offset
    length := elfGetData32 addr 0
    version := elfGetData16 addr 4
    abbrevOffset := elfGetData32 addr 6
    pointerSize := elfGetData8 addr 10
    dies := [] }

def infoHeaderSize : Nat := 4 + 2 + 4 + 1

def infoUnit (abbrevs : List ElfDwarfAbbrevType) (data : List UInt8) (st : InfoLoad) :
    Option InfoLoad := do
  let cu := infoHeader data st.currentSize
  let top ← elfDwarfAbbrevGet abbrevs cu.abbrevOffset
  let total := u32 (cu.length + 4)
  let loop ← infoLoop abbrevs data top cu total total
    ⟨st.dies, st.die, none, 0, infoHeaderSize, []⟩
  if loop.entrySize = total then
    some ⟨loop.dies, loop.die, st.compilationUnitHeaders ++ [{ cu with dies := loop.cuDies }],
      u32 (st.currentSize + loop.entrySize)⟩
  else none

def infoUnits (abbrevs : List ElfDwarfAbbrevType) (data : List UInt8) :
    Nat → InfoLoad → Option InfoLoad
  | 0, st => if st.currentSize < data.length then none else some st
  | n + 1, st =>
    if st.currentSize < data.length then do
      let st ← infoUnit abbrevs data st
      infoUnits abbrevs data n st
    else some st

def elfDwarfInfoLoad (abbrevs : List ElfDwarfAbbrevType)
    (sections : DwarfSection → Except StdReturnType (List UInt8)) :
    Option (StdReturnType × InfoLoad) :=
  match sections .str, sections .info with
  | .error err, _ => some (err, ⟨[], none, [], 0⟩)
  | .ok _, .error err => some (err, ⟨[], none, [], 0⟩)
  | .ok _, .ok data => do
    let st ← infoUnits abbrevs data data.length ⟨[], none, [], 0⟩
    some (.ok, st)

end Athrill
