import Athrill.Dwarf.InfoValue
import Athrill.Lib.Chase

/-!
# The type of a DIE (`lib/dwarf/data_type/elf_dwarf_data_type.c`)

A variable or a member refers to its type by `DW_AT_type`. Main result: `dwarf_get_real_type_offset_iff`.
-/

namespace Athrill

open Chase List Option

/-! ## Tags and attributes -/

inductive DwTagType
  | arrayType
  | classType
  | enumerationType
  | member
  | pointerType
  | structureType
  | subroutineType
  | typedef
  | unionType
  | baseType
  | subprogram
  | variable
  | other
  deriving DecidableEq, Repr

def dwTagType : Nat → DwTagType
  | 0x01 => .arrayType
  | 0x02 => .classType
  | 0x04 => .enumerationType
  | 0x0d => .member
  | 0x0f => .pointerType
  | 0x13 => .structureType
  | 0x15 => .subroutineType
  | 0x16 => .typedef
  | 0x17 => .unionType
  | 0x24 => .baseType
  | 0x2e => .subprogram
  | 0x34 => .variable
  | _ => .other

inductive DwAtType
  | sibling
  | name
  | byteSize
  | bitOffset
  | bitSize
  | lowPc
  | highPc
  | visibility
  | constValue
  | containingType
  | inline
  | prototyped
  | accessibility
  | artificial
  | dataMemberLocation
  | declColumn
  | declFile
  | declLine
  | declaration
  | encoding
  | external
  | frameBase
  | specification
  | type
  | virtuality
  | vtableElemLocation
  | explicit
  | objectPointer
  | linkageName
  | mipsLinkageName
  | unknown0x2116
  | unknown0x2117
  | unknown0x211a
  | other
  deriving DecidableEq, Repr

def dwAtType : Nat → DwAtType
  | 0x01 => .sibling
  | 0x03 => .name
  | 0x0b => .byteSize
  | 0x0c => .bitOffset
  | 0x0d => .bitSize
  | 0x11 => .lowPc
  | 0x12 => .highPc
  | 0x17 => .visibility
  | 0x1c => .constValue
  | 0x1d => .containingType
  | 0x20 => .inline
  | 0x27 => .prototyped
  | 0x32 => .accessibility
  | 0x34 => .artificial
  | 0x38 => .dataMemberLocation
  | 0x39 => .declColumn
  | 0x3a => .declFile
  | 0x3b => .declLine
  | 0x3c => .declaration
  | 0x3e => .encoding
  | 0x3f => .external
  | 0x40 => .frameBase
  | 0x47 => .specification
  | 0x49 => .type
  | 0x4c => .virtuality
  | 0x4d => .vtableElemLocation
  | 0x63 => .explicit
  | 0x64 => .objectPointer
  | 0x6e => .linkageName
  | 0x2007 => .mipsLinkageName
  | 0x2116 => .unknown0x2116
  | 0x2117 => .unknown0x2117
  | 0x211a => .unknown0x211a
  | _ => .other

inductive DwarfDataEnumType
  | base
  | struct
  | union
  | array
  | pointer
  | typedef
  | enum
  | variable
  | subprogram
  | cls
  | num
  deriving DecidableEq, Repr

def getDataType : DwTagType → DwarfDataEnumType
  | .arrayType => .array
  | .pointerType => .pointer
  | .baseType => .base
  | .structureType => .struct
  | .unionType => .union
  | .typedef => .typedef
  | .enumerationType => .enum
  | .variable => .variable
  | .subprogram => .subprogram
  | .classType => .cls
  | .member | .subroutineType | .other => .num

structure DieAttr where
  name : DwAtType
  form : DwFormType
  encoded : DwEncoded
  deriving DecidableEq, Repr

namespace ElfDwarfDieType

def tag (die : ElfDwarfDieType) : DwTagType := dwTagType die.abbrevInfo.tag

def attrs (die : ElfDwarfDieType) : List DieAttr :=
  die.attributes.zipWith (fun attr p => ⟨dwAtType p.1, dwFormType p.2, attr.encoded⟩)
    (die.abbrevInfo.attributeName.zip die.abbrevInfo.attributeForm)

end ElfDwarfDieType

/-! ## Following `DW_AT_type` -/

def dwarfGetDie (info : InfoLoad) (cu : ElfDwarfCompilationUnitHeaderType) (offset : Nat) :
    Option ElfDwarfDieType :=
  (cu.dies.filterMap (info.dies[·]?)).find? (·.offset == offset)

def InfoLoad.dieAt (info : InfoLoad) (offset : Nat) : Option ElfDwarfDieType :=
  info.compilationUnitHeaders.findSome? fun cu => dwarfGetDie info cu offset

def typeValueLoop (data : List UInt8) : List DieAttr → Option (Except StdReturnType Nat)
  | [] => none
  | attr :: attrs =>
    match attr.name with
    | .type => (elfDwarfInfoGetValue data attr.form attr.encoded).map fun v => .ok v.1
    | .prototyped | .byteSize | .name => some (.error .noent)
    | _ => typeValueLoop data attrs

def getDwAtTypeValue (data : List UInt8) (die : ElfDwarfDieType) : Option (Except StdReturnType Nat) :=
  if die.attributes.length = 0 then some (.error .noent) else typeValueLoop data die.attrs

def realTypeStep (data : List UInt8) (info : InfoLoad) (offset : Nat) :
    Option (Except StdReturnType Nat ⊕ Nat) := do
  let die ← info.dieAt offset
  if die.tag = .subroutineType then some (.inl (.error .noent))
  else if getDataType die.tag = .num then
    match ← getDwAtTypeValue data die with
    | .error err => some (.inl (.error err))
    | .ok retOffset => some (.inr retOffset)
  else some (.inl (.ok die.offset))

def dwarfGetRealTypeOffset (data : List UInt8) (info : InfoLoad) (n offset : Nat) :
    Option (Except StdReturnType Nat) :=
  chase (realTypeStep data info) n offset

/-! ## The chain of references -/

def DwEncoded.ref : DwEncoded → Option Nat
  | .ref8 v | .ref16 v | .ref32 v | .ref64 v => some v
  | _ => none

def DwAtType.stops : DwAtType → Bool
  | .type | .prototyped | .byteSize | .name => true
  | _ => false

namespace ElfDwarfDieType

def HasDataType (die : ElfDwarfDieType) : Prop := getDataType die.tag ≠ .num

def Plain (die : ElfDwarfDieType) : Prop := die.tag ≠ .subroutineType ∧ ¬ die.HasDataType

instance (die : ElfDwarfDieType) : Decidable die.HasDataType := inferInstanceAs (Decidable (_ ≠ _))

instance (die : ElfDwarfDieType) : Decidable die.Plain := inferInstanceAs (Decidable (_ ∧ _))

def typeRef (die : ElfDwarfDieType) : Option Nat :=
  (die.attrs.find? fun attr => attr.name == .type).bind (·.encoded.ref)

def firstStop (die : ElfDwarfDieType) : Option DieAttr := die.attrs.find? (·.name.stops)

end ElfDwarfDieType

/-- What is reached from a DIE by `DW_AT_type`, through DIEs that are no data types themselves. -/
inductive TypeChain (info : InfoLoad) : ElfDwarfDieType → ElfDwarfDieType → Prop
  | refl (d : ElfDwarfDieType) : TypeChain info d d
  | next {d e f : ElfDwarfDieType} {off : Nat} (hplain : d.Plain) (href : d.typeRef = some off)
    (hat : info.dieAt off = some e) (hchain : TypeChain info e f) : TypeChain info d f

def RealTypeOf (info : InfoLoad) (d : ElfDwarfDieType) : Except StdReturnType Nat → Prop
  | .ok off => ∃ e, TypeChain info d e ∧ e.HasDataType ∧ e.offset = off
  | .error err => err = .noent ∧ ∀ e, TypeChain info d e → ¬ e.HasDataType

/-- The chain of `DW_AT_type` from a DIE, as far as the loop follows it to the right end. -/
inductive Settles (info : InfoLoad) : ElfDwarfDieType → Prop
  | dataType {d : ElfDwarfDieType} (h : d.HasDataType) : Settles info d
  | subroutine {d : ElfDwarfDieType} (h : d.tag = .subroutineType) : Settles info d
  | ends {d : ElfDwarfDieType} (hplain : d.Plain)
    (hstop : d.attributes = [] ∨ ∃ attr, d.firstStop = some attr ∧ attr.name ≠ .type)
    (hnone : ∀ e, TypeChain info d e → ¬ e.HasDataType) : Settles info d
  | follows {d e : ElfDwarfDieType} {attr : DieAttr} {off : Nat} (hplain : d.Plain)
    (hstop : d.firstStop = some attr) (hname : attr.name = .type) (hform : attr.form ≠ .ref8)
    (href : attr.encoded.ref = some off) (hat : info.dieAt off = some e) (h : Settles info e) :
    Settles info d

/-! ## Parsed DIEs -/

def DwFormType.IsReference (form : DwFormType) : Prop :=
  form ∈ [.refAddr, .ref1, .ref2, .ref4, .ref8, .refUdata, .refSig8]

/-- Names are paired with supported forms, zeros end them, and `DW_AT_type` has a reference form. -/
def ElfDwarfAbbrevType.WellFormed (entry : ElfDwarfAbbrevType) : Prop :=
  ∃ pairs : List (Nat × Nat), entry.attributeName = pairs.map (·.1) ++ [0] ∧
    entry.attributeForm = pairs.map (·.2) ++ [0] ∧
    ∀ p ∈ pairs, dwFormType p.2 ≠ .none ∧ (dwAtType p.1 = .type → (dwFormType p.2).IsReference)

structure DieParsed (abbrevs : List ElfDwarfAbbrevType) (die : ElfDwarfDieType) : Prop where
  abbrev_mem : die.abbrevInfo ∈ abbrevs
  attrs_eq : ∃ data cu off off', parseAttrs data cu die.abbrevInfo.attributeForm off = some (die.attributes, off')

section
variable {abbrevs : List ElfDwarfAbbrevType} {data : List UInt8}

theorem mem_of_searchCode {code last : Nat} {table : List ElfDwarfAbbrevType} {entry : ElfDwarfAbbrevType}
    (h : searchCode code table last = some entry) : entry ∈ table := by
  induction table generalizing last with
  | nil => cases h
  | cons a table ih =>
    rw [searchCode] at h
    split at h
    · cases h
    · split at h
      · rw [some.inj h]
        exact mem_cons_self
      · exact mem_cons_of_mem a (ih h)

theorem DieParsed.addChild {dies : List ElfDwarfDieType} (h : ∀ d ∈ dies, DieParsed abbrevs d)
    (p : Option Nat) (n : Nat) : ∀ d ∈ addChild p n dies, DieParsed abbrevs d := by
  intro d hd
  cases p with
  | none => exact h d hd
  | some p =>
    obtain ⟨i, hi⟩ := mem_iff_getElem?.1 hd
    rw [Athrill.addChild, getElem?_modify] at hi
    split at hi
    · obtain ⟨d', hd', rfl⟩ := map_eq_some_iff.1 hi
      have hparsed := h d' (mem_of_getElem? hd')
      exact ⟨hparsed.abbrev_mem, hparsed.attrs_eq⟩
    · simp only [Option.map_eq_map, Option.map_id_fun', id_eq] at hi
      exact h d (mem_of_getElem? hi)

variable {cu : ElfDwarfCompilationUnitHeaderType}

section
variable {top : ElfDwarfAbbrevType} {st st' : InfoLoop} (h : ∀ d ∈ st.dies, DieParsed abbrevs d)
include h

theorem DieParsed.entry (hentry : infoEntry abbrevs data top cu st = some st') :
    ∀ d ∈ st'.dies, DieParsed abbrevs d := by
  rw [infoEntry] at hentry
  split at hentry
  · rw [← some.inj hentry]
    exact h
  · simp only [bind_eq_bind, bind_eq_some_iff] at hentry
    obtain ⟨entry, hfind, ⟨attrs, off⟩, hattrs, hst'⟩ := hentry
    rw [← some.inj hst']
    intro d hd
    rcases mem_append.1 hd with hd | hd
    · exact DieParsed.addChild h _ _ d hd
    · rw [mem_singleton.1 hd]
      exact ⟨mem_of_mem_drop (mem_of_searchCode hfind), data, cu, _, off, hattrs⟩

theorem DieParsed.loop {total n : Nat} (hloop : infoLoop abbrevs data top cu total n st = some st') :
    ∀ d ∈ st'.dies, DieParsed abbrevs d := by
  induction n generalizing st with
  | zero =>
    rw [infoLoop] at hloop
    split at hloop
    · cases hloop
    · rwa [← some.inj hloop]
  | succ n ih =>
    rw [infoLoop] at hloop
    split at hloop
    · obtain ⟨st₁, hentry, hloop⟩ := bind_eq_some_iff.1 hloop
      exact ih (DieParsed.entry h hentry) hloop
    · rwa [← some.inj hloop]

end

theorem DieParsed.unit {st st' : InfoLoad} (h : ∀ d ∈ st.dies, DieParsed abbrevs d)
    (hunit : infoUnit abbrevs data st = some st') : ∀ d ∈ st'.dies, DieParsed abbrevs d := by
  simp only [infoUnit, bind_eq_bind, bind_eq_some_iff] at hunit
  obtain ⟨top, -, loop, hloop, hst'⟩ := hunit
  split at hst'
  · rw [← some.inj hst']
    exact DieParsed.loop h hloop
  · cases hst'

theorem DieParsed.units {n : Nat} {st st' : InfoLoad} (h : ∀ d ∈ st.dies, DieParsed abbrevs d)
    (hunits : infoUnits abbrevs data n st = some st') : ∀ d ∈ st'.dies, DieParsed abbrevs d := by
  induction n generalizing st with
  | zero =>
    rw [infoUnits] at hunits
    split at hunits
    · cases hunits
    · rwa [← some.inj hunits]
  | succ n ih =>
    rw [infoUnits] at hunits
    split at hunits
    · obtain ⟨st₁, hunit, hunits⟩ := bind_eq_some_iff.1 hunits
      exact ih (DieParsed.unit h hunit) hunits
    · rwa [← some.inj hunits]

theorem DieParsed.of_load {sections : DwarfSection → Except StdReturnType (List UInt8)} {info : InfoLoad}
    (hload : elfDwarfInfoLoad abbrevs sections = some (.ok, info)) :
    ∀ d ∈ info.dies, DieParsed abbrevs d := by
  rw [elfDwarfInfoLoad] at hload
  split at hload
  · rw [← (Prod.mk.inj (some.inj hload)).2]
    simp
  · rw [← (Prod.mk.inj (some.inj hload)).2]
    simp
  · obtain ⟨st, hunits, hst⟩ := bind_eq_some_iff.1 hload
    obtain rfl : st = info := by simpa using hst
    exact DieParsed.units (by simp) hunits

def ReadBy (attr : ElfDwarfAttributeType) (form : DwFormType) : Prop :=
  ∃ cu addr off size, elfDwarfInfoParseAttr cu addr off form = some (some attr.encoded, size)

theorem parseAttr_ne_none {addr : List UInt8} {off size : Nat} {form : DwFormType} (hform : form ≠ .none) :
    elfDwarfInfoParseAttr cu addr off form ≠ some (none, size) := by
  cases form <;> simp_all [elfDwarfInfoParseAttr]

theorem readBy_of_parseAttrs {off off' : Nat} {pairs : List (Nat × Nat)}
    (hforms : ∀ p ∈ pairs, dwFormType p.2 ≠ .none) {attrs : List ElfDwarfAttributeType}
    (h : parseAttrs data cu (pairs.map (·.2) ++ [0]) off = some (attrs, off')) :
    List.Forall₂ (fun attr p => ReadBy attr (dwFormType p.2)) attrs pairs := by
  induction pairs generalizing off off' attrs with
  | nil =>
    obtain ⟨rfl, -⟩ : [] = attrs ∧ _ := by
      simpa [parseAttrs, dwFormType, elfDwarfInfoParseAttr] using h
    exact .nil
  | cons p pairs ih =>
    rw [map_cons, cons_append, parseAttrs] at h
    simp only [bind_eq_bind, bind_eq_some_iff] at h
    obtain ⟨⟨obj, size⟩, hparse, ⟨attrs', off''⟩, hattrs, h⟩ := h
    cases obj with
    | none => exact absurd hparse (parseAttr_ne_none (hforms p mem_cons_self))
    | some encoded =>
      rw [← (Prod.mk.inj (some.inj h)).1]
      exact .cons ⟨cu, _, _, size, hparse⟩ (ih (fun q hq => hforms q (mem_cons_of_mem p hq)) hattrs)

theorem exists_of_mem_attrs {die : ElfDwarfDieType} (hparsed : DieParsed abbrevs die)
    (hwf : die.abbrevInfo.WellFormed) {a : DieAttr} (ha : a ∈ die.attrs) :
    ∃ attr, ReadBy attr a.form ∧ attr.encoded = a.encoded ∧ (a.name = .type → a.form.IsReference) := by
  obtain ⟨pairs, hnames, hforms, hpairs⟩ := hwf
  obtain ⟨data, cu, off, off', hparse⟩ := hparsed.attrs_eq
  rw [hforms] at hparse
  have hread := readBy_of_parseAttrs (fun p hp => (hpairs p hp).1) hparse
  rw [ElfDwarfDieType.attrs, hnames, hforms] at ha
  generalize die.attributes = attributes at hread ha
  clear hnames hforms hparse
  induction hread with
  | nil => cases ha
  | @cons attr p attributes pairs hattr _ ih =>
    rcases mem_cons.1 ha with rfl | ha
    · exact ⟨attr, hattr, rfl, (hpairs p mem_cons_self).2⟩
    · exact ih (fun q hq => hpairs q (mem_cons_of_mem p hq)) ha

def DieAttr.Ref (a : DieAttr) : Prop :=
  ∃ n v, a.form.refBytes = some n ∧ a.encoded.ref = some v ∧ v < 256 ^ n

theorem ref_of_readBy {attr : ElfDwarfAttributeType} {form : DwFormType} (hread : ReadBy attr form)
    (hform : form.IsReference) : ∃ n v, form.refBytes = some n ∧ attr.encoded.ref = some v ∧ v < 256 ^ n := by
  obtain ⟨cu, addr, off, size, hparse⟩ := hread
  cases form
  case ref1 | ref2 | ref4 | ref8 =>
    obtain ⟨hencoded, -⟩ := Prod.mk.inj (some.inj hparse)
    refine ⟨_, _, rfl, by rw [← some.inj hencoded]; rfl, Nat.mod_lt _ (by decide)⟩
  case refAddr | refUdata | refSig8 => cases hparse
  all_goals simp [DwFormType.IsReference] at hform

theorem ref_of_load (habbrevs : ∀ a ∈ abbrevs, a.WellFormed)
    {sections : DwarfSection → Except StdReturnType (List UInt8)} {info : InfoLoad}
    (hload : elfDwarfInfoLoad abbrevs sections = some (.ok, info)) :
    ∀ d ∈ info.dies, ∀ a ∈ d.attrs, a.name = .type → a.Ref := by
  intro d hd a ha hname
  have hparsed := DieParsed.of_load hload d hd
  obtain ⟨attr, hread, hencoded, hform⟩ := exists_of_mem_attrs hparsed (habbrevs _ hparsed.abbrev_mem) ha
  obtain ⟨n, v, hbytes, href, hlt⟩ := ref_of_readBy hread (hform hname)
  exact ⟨n, v, hbytes, hencoded ▸ href, hlt⟩

end

/-! ## Steps -/

section
variable {data : List UInt8} {info : InfoLoad} {d e : ElfDwarfDieType} {a : DieAttr} {off : Nat}

theorem mem_of_dieAt (h : info.dieAt off = some d) : d ∈ info.dies := by
  obtain ⟨cu, -, hfind⟩ := exists_of_findSome?_eq_some h
  obtain ⟨i, -, hi⟩ := mem_filterMap.1 (mem_of_find?_eq_some hfind)
  exact mem_of_getElem? hi

theorem getValue_ref (href : a.Ref) (hform : a.form ≠ .ref8) (hoff : a.encoded.ref = some off) :
    ∃ size, elfDwarfInfoGetValue data a.form a.encoded = some (off, size) := by
  obtain ⟨n, v, hbytes, hv, hlt⟩ := href
  obtain rfl : v = off := some.inj (hv.symm.trans hoff)
  have hword : a.encoded.word = some v := by
    cases hencoded : a.encoded <;> simp_all [DwEncoded.ref, DwEncoded.word]
  have hfield : a.encoded.field n = some v := by
    rw [DwEncoded.field, hword, map_some, Nat.mod_eq_of_lt hlt]
  refine ⟨n, ?_⟩
  cases h : a.form <;> rw [h] at hbytes hform <;> cases hbytes
  case ref1 | ref2 | ref4 => rw [elfDwarfInfoGetValue, hfield, map_some]
  case ref8 => exact absurd rfl hform

theorem form_ne_ref8 {v : Nat × Nat} (h : elfDwarfInfoGetValue data a.form a.encoded = some v) :
    a.form ≠ .ref8 := by
  intro hform
  rw [hform] at h
  cases h

theorem typeValueLoop_eq (attrs : List DieAttr) :
    typeValueLoop data attrs =
      (attrs.find? (·.name.stops)).bind fun attr =>
        if attr.name = .type then (elfDwarfInfoGetValue data attr.form attr.encoded).map fun v => .ok v.1
        else some (.error .noent) := by
  induction attrs with
  | nil => rfl
  | cons attr attrs ih =>
    rw [typeValueLoop, find?_cons, ih]
    cases h : attr.name <;> simp only [DwAtType.stops, bind_some, h, if_true] <;> rfl

theorem getDwAtTypeValue_eq (hattrs : d.attributes ≠ []) :
    getDwAtTypeValue data d = d.firstStop.bind fun attr =>
      if attr.name = .type then (elfDwarfInfoGetValue data attr.form attr.encoded).map fun v => .ok v.1
      else some (.error .noent) := by
  rw [getDwAtTypeValue, if_neg (by simpa using hattrs), typeValueLoop_eq]
  rfl

theorem getDwAtTypeValue_eq_ok (h : getDwAtTypeValue data d = some (.ok off)) :
    ∃ a size, d.firstStop = some a ∧ a.name = .type ∧
      elfDwarfInfoGetValue data a.form a.encoded = some (off, size) := by
  have hattrs : d.attributes ≠ [] := by
    intro hnil
    simp [getDwAtTypeValue, hnil] at h
  rw [getDwAtTypeValue_eq hattrs] at h
  obtain ⟨a, hstop, h⟩ := bind_eq_some_iff.1 h
  split at h
  · rename_i hname
    obtain ⟨⟨v, size⟩, hv, hok⟩ := map_eq_some_iff.1 h
    obtain rfl : v = off := by simpa using hok
    exact ⟨a, size, hstop, hname, hv⟩
  · cases h

theorem getDwAtTypeValue_eq_error_iff {err : StdReturnType} :
    getDwAtTypeValue data d = some (.error err) ↔
      err = .noent ∧ (d.attributes = [] ∨ ∃ a, d.firstStop = some a ∧ a.name ≠ .type) := by
  by_cases hattrs : d.attributes = []
  · simp [getDwAtTypeValue, hattrs, eq_comm]
  rw [getDwAtTypeValue_eq hattrs, or_iff_right hattrs, bind_eq_some_iff]
  constructor
  · rintro ⟨a, hstop, h⟩
    split at h
    · obtain ⟨v, -, hok⟩ := map_eq_some_iff.1 h
      cases hok
    · rename_i hname
      exact ⟨by simpa using h.symm, a, hstop, hname⟩
  · rintro ⟨rfl, a, hstop, hname⟩
    exact ⟨a, hstop, if_neg hname⟩

theorem realTypeStep_subroutine (hd : info.dieAt off = some d) (h : d.tag = .subroutineType) :
    realTypeStep data info off = some (.inl (.error .noent)) := by
  simp [realTypeStep, hd, h]

theorem realTypeStep_dataType (hd : info.dieAt off = some d) (h : d.HasDataType) :
    realTypeStep data info off = some (.inl (.ok d.offset)) := by
  have htag : d.tag ≠ .subroutineType := fun htag => h (by rw [htag]; rfl)
  unfold ElfDwarfDieType.HasDataType at h
  simp [realTypeStep, hd, h, htag]

theorem realTypeStep_plain (hd : info.dieAt off = some d) (h : d.Plain) :
    realTypeStep data info off = (getDwAtTypeValue data d).map fun
      | .error err => .inl (.error err)
      | .ok retOffset => .inr retOffset := by
  obtain ⟨htag, htype⟩ := h
  unfold ElfDwarfDieType.HasDataType at htype
  simp only [realTypeStep, hd, htag, bind_eq_bind, bind_some, if_false, not_not.1 htype, if_true]
  cases getDwAtTypeValue data d with
  | none => rfl
  | some r => cases r <;> rfl

theorem ElfDwarfDieType.cases_tag (d : ElfDwarfDieType) :
    d.tag = .subroutineType ∨ d.HasDataType ∨ d.Plain := by
  by_cases htag : d.tag = .subroutineType
  · exact .inl htag
  · by_cases htype : d.HasDataType
    · exact .inr (.inl htype)
    · exact .inr (.inr ⟨htag, htype⟩)

theorem typeRef_of_firstStop (hstop : d.firstStop = some a) (hname : a.name = .type) :
    d.typeRef = a.encoded.ref := by
  have hfind : d.attrs.find? (fun attr => attr.name == .type) = some a := by
    obtain ⟨-, as, bs, hattrs, has⟩ := find?_eq_some_iff_append.1 hstop
    refine find?_eq_some_iff_append.2 ⟨by simp [hname], as, bs, hattrs, fun x hx => ?_⟩
    have hx := has x hx
    cases h : x.name <;> simp [h, DwAtType.stops] at hx ⊢
  rw [ElfDwarfDieType.typeRef, hfind, bind_some]

theorem realTypeOf_next (hplain : d.Plain) (href : d.typeRef = some off) (hat : info.dieAt off = some e)
    (r : Except StdReturnType Nat) : RealTypeOf info d r ↔ RealTypeOf info e r := by
  have hchain : ∀ f : ElfDwarfDieType, f.HasDataType → (TypeChain info d f ↔ TypeChain info e f) := by
    intro f hf
    constructor
    · rintro (_ | ⟨-, href', hat', hchain⟩)
      · exact absurd hf hplain.2
      · cases href.symm.trans href'
        cases hat.symm.trans hat'
        exact hchain
    · exact fun hchain => .next hplain href hat hchain
  cases r with
  | ok off' =>
    exact exists_congr fun f => and_congr_left fun hf => hchain f hf.1
  | error err =>
    refine and_congr_right fun _ => forall_congr' fun f => ?_
    exact ⟨fun h hc hf => h ((hchain f hf).2 hc) hf, fun h hc hf => h ((hchain f hf).1 hc) hf⟩

theorem settles_of_leads (hrefs : ∀ d ∈ info.dies, ∀ a ∈ d.attrs, a.name = .type → a.Ref)
    (hd : info.dieAt off = some d) {r : Except StdReturnType Nat}
    (hleads : Leads (realTypeStep data info) off r) (hreal : RealTypeOf info d r) : Settles info d := by
  induction hleads generalizing d with
  | @stop off r hstep =>
    obtain htag | htype | hplain := d.cases_tag
    · exact .subroutine htag
    · exact .dataType htype
    · rw [realTypeStep_plain hd hplain] at hstep
      obtain ⟨value, hvalue, hr⟩ := map_eq_some_iff.1 hstep
      cases value with
      | ok v => cases hr
      | error err =>
        cases hr
        exact .ends hplain (getDwAtTypeValue_eq_error_iff.1 hvalue).2 hreal.2
  | @next off off' r hstep hleads ih =>
    obtain htag | htype | hplain := d.cases_tag
    · rw [realTypeStep_subroutine hd htag] at hstep
      cases hstep
    · rw [realTypeStep_dataType hd htype] at hstep
      cases hstep
    · rw [realTypeStep_plain hd hplain] at hstep
      obtain ⟨value, hvalue, hoff⟩ := map_eq_some_iff.1 hstep
      cases value with
      | error err => cases hoff
      | ok v =>
        obtain rfl := Sum.inr.inj hoff
        obtain ⟨a, size, hstop, hname, hread⟩ := getDwAtTypeValue_eq_ok hvalue
        have hform := form_ne_ref8 hread
        have ha := hrefs d (mem_of_dieAt hd) a (mem_of_find?_eq_some hstop) hname
        have href : a.encoded.ref = some v := by
          obtain ⟨_, v', -, hv', -⟩ := id ha
          obtain ⟨size', hread'⟩ := getValue_ref ha hform hv'
          rw [hv', (Prod.mk.inj (some.inj (hread'.symm.trans hread))).1]
        cases hat : info.dieAt v with
        | none =>
          have hnone : realTypeStep data info v = none := by rw [realTypeStep, hat]; rfl
          cases hleads with
          | stop h => rw [hnone] at h; cases h
          | next h => rw [hnone] at h; cases h
        | some e =>
          have htypeRef := (typeRef_of_firstStop hstop hname).trans href
          have hreal' := (realTypeOf_next hplain htypeRef hat r).1 hreal
          exact .follows hplain hstop hname hform href hat (ih hat hreal')

theorem exists_leads_of_settles (hrefs : ∀ d ∈ info.dies, ∀ a ∈ d.attrs, a.name = .type → a.Ref)
    (hd : info.dieAt off = some d) (hsettles : Settles info d) :
    ∃ r, Leads (realTypeStep data info) off r ∧ RealTypeOf info d r := by
  induction hsettles generalizing off with
  | @dataType d htype =>
    exact ⟨_, .stop (realTypeStep_dataType hd htype), d, .refl d, htype, rfl⟩
  | @subroutine d htag =>
    refine ⟨_, .stop (realTypeStep_subroutine hd htag), rfl, fun e hchain => ?_⟩
    cases hchain with
    | refl =>
      simp [ElfDwarfDieType.HasDataType, htag, getDataType]
    | next hplain => exact absurd htag hplain.1
  | ends hplain hstop hnone =>
    refine ⟨.error .noent, .stop ?_, rfl, hnone⟩
    rw [realTypeStep_plain hd hplain, getDwAtTypeValue_eq_error_iff.2 ⟨rfl, hstop⟩, map_some]
  | @follows d e a off' hplain hstop hname hform href hat _ ih =>
    have ha := mem_of_find?_eq_some hstop
    obtain ⟨size, hread⟩ := getValue_ref (hrefs d (mem_of_dieAt hd) a ha hname) hform href
    have hattrs : d.attributes ≠ [] := by
      intro hnil
      simp [ElfDwarfDieType.attrs, hnil] at ha
    have hstep : realTypeStep data info off = some (.inr off') := by
      rw [realTypeStep_plain hd hplain, getDwAtTypeValue_eq hattrs, hstop, bind_some, if_pos hname,
        hread, map_some, map_some]
    obtain ⟨r, hleads, hreal⟩ := ih hat
    have htypeRef := (typeRef_of_firstStop hstop hname).trans href
    exact ⟨r, .next hstep hleads, (realTypeOf_next hplain htypeRef hat r).2 hreal⟩

end

/-- In units that were loaded, the loop ends with the type of a DIE exactly if the chain of references from it
is one that the loop follows. -/
theorem dwarf_get_real_type_offset_iff {abbrevs : List ElfDwarfAbbrevType}
    (habbrevs : ∀ a ∈ abbrevs, a.WellFormed) {sections : DwarfSection → Except StdReturnType (List UInt8)}
    {info : InfoLoad} (hload : elfDwarfInfoLoad abbrevs sections = some (.ok, info)) (data : List UInt8)
    {offset : Nat} {d : ElfDwarfDieType} (hd : info.dieAt offset = some d) :
    (∃ n r, dwarfGetRealTypeOffset data info n offset = some r ∧ RealTypeOf info d r) ↔ Settles info d := by
  have hrefs := ref_of_load habbrevs hload
  constructor
  · rintro ⟨n, r, hchase, hreal⟩
    exact settles_of_leads hrefs hd (.of_chase hchase) hreal
  · intro hsettles
    obtain ⟨r, hleads, hreal⟩ := exists_leads_of_settles hrefs hd hsettles
    obtain ⟨n, hchase⟩ := exists_chase_iff.2 hleads
    exact ⟨n, r, hchase, hreal⟩

/-! ## References to a base type -/

def referenceAbbrev : ElfDwarfAbbrevType := ⟨0, 0, 1, 0x10, 0, [0x0b, 0x49, 0], [0x0b, 0x13, 0]⟩

def baseAbbrev : ElfDwarfAbbrevType := ⟨1, 9, 2, 0x24, 0, [0x0b, 0], [0x0b, 0]⟩

def constAbbrev : ElfDwarfAbbrevType := ⟨2, 16, 3, 0x26, 0, [0x49, 0], [0x13, 0]⟩

def typeSections : DwarfSection → Except StdReturnType (List UInt8)
  | .str => .ok []
  | .info => .ok ([25, 0, 0, 0, 2, 0, 0, 0, 0, 0, 4] ++ [1, 4, 17, 0, 0, 0] ++ [2, 4] ++ [3, 17, 0, 0, 0] ++
      [3, 24, 0, 0, 0])
  | .line => .error .noent

def typeInfo : InfoLoad where
  dies :=
    [⟨11, 1, referenceAbbrev, [⟨0x0b, 12, 1, .const8 4⟩, ⟨0x13, 13, 4, .ref32 17⟩], 0, ⟨none, none⟩⟩,
      ⟨17, 2, baseAbbrev, [⟨0x0b, 18, 1, .const8 4⟩], 0, ⟨none, none⟩⟩,
      ⟨19, 3, constAbbrev, [⟨0x13, 20, 4, .ref32 17⟩], 0, ⟨none, none⟩⟩,
      ⟨24, 3, constAbbrev, [⟨0x13, 25, 4, .ref32 24⟩], 0, ⟨none, none⟩⟩]
  die := some 3
  compilationUnitHeaders := [⟨0, 25, 2, 0, 4, [0, 1, 2, 3]⟩]
  currentSize := 29

theorem load_typeSections :
    elfDwarfInfoLoad [referenceAbbrev, baseAbbrev, constAbbrev] typeSections = some (.ok, typeInfo) := by
  decide +kernel

theorem typeAbbrevs_wellFormed : ∀ a ∈ [referenceAbbrev, baseAbbrev, constAbbrev], a.WellFormed := by
  intro a ha
  simp only [mem_cons, not_mem_nil, or_false] at ha
  rcases ha with rfl | rfl | rfl
  · exact ⟨[(0x0b, 0x0b), (0x49, 0x13)], rfl, rfl, by simp [dwFormType, dwAtType, DwFormType.IsReference]⟩
  · exact ⟨[(0x0b, 0x0b)], rfl, rfl, by simp [dwFormType, dwAtType]⟩
  · exact ⟨[(0x49, 0x13)], rfl, rfl, by simp [dwFormType, DwFormType.IsReference]⟩

/-- The reference to the base type has no type for the loop, because its size comes first, and the loop never
ends at the `const` of itself. -/
theorem dwarf_get_real_type_offset_lost :
    elfDwarfInfoLoad [referenceAbbrev, baseAbbrev, constAbbrev] typeSections = some (.ok, typeInfo) ∧
    (∃ d, typeInfo.dieAt 11 = some d ∧ RealTypeOf typeInfo d (.ok 17)) ∧
    (∀ data, dwarfGetRealTypeOffset data typeInfo 1 11 = some (.error .noent)) ∧
    (∃ d, typeInfo.dieAt 24 = some d) ∧ ∀ data n, dwarfGetRealTypeOffset data typeInfo n 24 = none := by
  refine ⟨load_typeSections, ⟨_, rfl, _, .next (by decide) rfl rfl (.refl _), by decide, rfl⟩, fun data => rfl,
    ⟨_, rfl⟩, fun data => ?_⟩
  have hloop : ∀ s, s = 24 → ∃ s', realTypeStep data typeInfo s = some (.inr s') ∧ s' = 24 := by
    rintro s rfl
    exact ⟨24, rfl, rfl⟩
  exact chase_eq_none_of_closed hloop rfl

theorem dwarf_get_real_type_offset_const :
    ∃ d, typeInfo.dieAt 19 = some d ∧
      ∃ n r, dwarfGetRealTypeOffset [] typeInfo n 19 = some r ∧ RealTypeOf typeInfo d r := by
  refine ⟨_, rfl, (dwarf_get_real_type_offset_iff typeAbbrevs_wellFormed load_typeSections [] rfl).2 ?_⟩
  exact .follows (by decide) rfl rfl (by decide) rfl rfl (.dataType (by decide))

end Athrill
