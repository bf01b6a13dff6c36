import Athrill.Dwarf.DataType
import Athrill.Lib.Run

/-!
# Structures and classes (`lib/dwarf/data_type/elf_dwarf_struct_type.c`)

`elf_dwarf_build_struct_type` registers a data type for a structure, a union or a class, with a record for
each data member among its children and, for a class, for each method. Main result:
`elf_dwarf_build_struct_type_iff`.
-/

namespace Athrill

open Chase List Machine Option

/-! ## Records -/

structure DwarfDataStructMember where
  name : Option DwEncoded
  linkageName : Option DwEncoded
  off : Nat
  isValidRefDebugInfoOffset : Bool
  refDebugInfoOffset : Nat
  deriving DecidableEq, Repr

def DwarfDataStructMember.zero : DwarfDataStructMember := ⟨none, none, 0, false, 0⟩

structure DwarfDataStructType where
  die : Option ElfDwarfDieType
  type : DwarfDataEnumType
  typename : Option DwEncoded
  size : Nat
  members : List DwarfDataStructMember
  deriving DecidableEq, Repr

def dwarfAllocDataType (type : DwarfDataEnumType) : DwarfDataStructType := ⟨none, type, none, 0, []⟩

def dwarfAddStructMember (obj : DwarfDataStructType) (mem : DwarfDataStructMember) : DwarfDataStructType :=
  { obj with members := obj.members ++ [mem] }

def dwarfRegisterDataType (types : DwarfDataEnumType → List DwarfDataStructType) (entry : DwarfDataStructType) :
    DwarfDataEnumType → List DwarfDataStructType :=
  if entry.type = .num then types
  else fun type => if type = entry.type then types type ++ [entry] else types type

/-! ## Attributes -/

def DwAtType.memberIgnores : DwAtType → Bool
  | .accessibility | .byteSize | .bitOffset | .bitSize | .declaration | .visibility | .declFile | .declLine
  | .declColumn | .artificial | .constValue | .external | .specification => true
  | _ => false

def DwAtType.methodIgnores : DwAtType → Bool
  | .type | .dataMemberLocation | .accessibility | .byteSize | .bitOffset | .bitSize | .declaration
  | .visibility | .declFile | .declLine | .declColumn | .external | .objectPointer | .inline | .lowPc | .highPc
  | .frameBase | .prototyped | .explicit | .linkageName | .artificial | .virtuality | .containingType
  | .vtableElemLocation | .constValue | .encoding | .unknown0x2116 | .unknown0x2117 | .unknown0x211a
  | .specification => true
  | _ => false

def DwAtType.structIgnores : DwAtType → Bool
  | .sibling | .declFile | .declLine | .declColumn | .declaration | .accessibility | .linkageName
  | .containingType | .mipsLinkageName | .specification => true
  | _ => false

def DieAttr.value (data : List UInt8) (attr : DieAttr) : Option Nat :=
  (elfDwarfInfoGetValue data attr.form attr.encoded).map (·.1)

section
variable (data : List UInt8) (info : InfoLoad) (cu : ElfDwarfCompilationUnitHeaderType)

def memberAttr (n : Nat) (mem : DwarfDataStructMember) (attr : DieAttr) : Option DwarfDataStructMember :=
  match attr.name with
  | .name => some { mem with name := some attr.encoded }
  | .type => do
    let offset ← attr.value data
    match ← dwarfGetRealTypeOffset data info n offset with
    | .ok ref => some { mem with refDebugInfoOffset := ref, isValidRefDebugInfoOffset := true }
    | .error _ => some mem
  | .dataMemberLocation => do
    let off ← attr.value data
    some { mem with off := off }
  | attrType => if attrType.memberIgnores then some mem else none

def elfDwarfBuildStructMember (n : Nat) (obj : DwarfDataStructType) (member : ElfDwarfDieType) :
    Option DwarfDataStructType := do
  let mem ← member.attrs.foldlM (memberAttr data info n) .zero
  some (dwarfAddStructMember obj mem)

def methodAttr (st : DwarfDataStructMember × Option ElfDwarfDieType) (attr : DieAttr) :
    Option (DwarfDataStructMember × Option ElfDwarfDieType) :=
  match attr.name with
  | .name => some ({ st.1 with name := some attr.encoded }, st.2)
  | .sibling => do
    let offset ← attr.value data
    some (st.1, dwarfGetDie info cu offset)
  | .mipsLinkageName => some ({ st.1 with linkageName := some attr.encoded }, st.2)
  | attrType => if attrType.methodIgnores then some st else none

def methodStep (st : DwarfDataStructType × ElfDwarfDieType) :
    Option (DwarfDataStructType ⊕ DwarfDataStructType × ElfDwarfDieType) := do
  let (mem, sibling) ← st.2.attrs.foldlM (methodAttr data info cu) (.zero, none)
  let obj := dwarfAddStructMember st.1 mem
  match sibling with
  | none => some (.inl obj)
  | some sibling => some (.inr (obj, sibling))

def elfDwarfBuildStructMethod (n : Nat) (obj : DwarfDataStructType) (member : ElfDwarfDieType) :
    Option DwarfDataStructType :=
  chase (methodStep data info cu) n (obj, member)

/-! ## Types -/

def structAttr (obj : DwarfDataStructType) (attr : DieAttr) : Option DwarfDataStructType :=
  match attr.name with
  | .name => some { obj with typename := some attr.encoded }
  | .byteSize => do
    let size ← attr.value data
    some { obj with size := size }
  | attrType => if attrType.structIgnores then some obj else none

def structChild (n : Nat) (die : ElfDwarfDieType) (obj : DwarfDataStructType) (child : Nat) :
    Option DwarfDataStructType := do
  let member ← info.dies[child]?
  if member.tag = .member then elfDwarfBuildStructMember data info n obj member
  else if member.tag = .subprogram then
    if die.tag = .classType then elfDwarfBuildStructMethod data info cu n obj member else some obj
  else some obj

def structDataType : DwTagType → DwarfDataEnumType
  | .structureType => .struct
  | .classType => .cls
  | _ => .union

def elfDwarfBuildStructType (n : Nat) (types : DwarfDataEnumType → List DwarfDataStructType)
    (die : ElfDwarfDieType) : Option (DwarfDataEnumType → List DwarfDataStructType) :=
  match die.link.children with
  | none => some types
  | some children => do
    let obj ← die.attrs.foldlM (structAttr data) (dwarfAllocDataType (structDataType die.tag))
    let obj ← children.foldlM (structChild data info cu n die) obj
    some (dwarfRegisterDataType types { obj with die := some die })

end

/-! ## What a class has -/

section
variable (data : List UInt8) (info : InfoLoad) (cu : ElfDwarfCompilationUnitHeaderType)

def DieAttr.MemberOk (attr : DieAttr) : Prop :=
  match attr.name with
  | .name => True
  | .type => ∃ offset, attr.value data = some offset ∧ ∃ n r, dwarfGetRealTypeOffset data info n offset = some r
  | .dataMemberLocation => ∃ off, attr.value data = some off
  | attrType => attrType.memberIgnores = true

def DieAttr.MethodOk (attr : DieAttr) : Prop :=
  match attr.name with
  | .name | .mipsLinkageName => True
  | .sibling => ∃ offset, attr.value data = some offset
  | attrType => attrType.methodIgnores = true

def DieAttr.StructOk (attr : DieAttr) : Prop :=
  match attr.name with
  | .name => True
  | .byteSize => ∃ size, attr.value data = some size
  | attrType => attrType.structIgnores = true

namespace ElfDwarfDieType

def lastAttr (die : ElfDwarfDieType) (attrType : DwAtType) : Option DwEncoded :=
  die.attrs.foldl (fun last attr => if attr.name = attrType then some attr.encoded else last) none

def siblingDie (die : ElfDwarfDieType) : Option ElfDwarfDieType :=
  die.attrs.foldl
    (fun last attr => if attr.name = .sibling then (attr.value data).bind (dwarfGetDie info cu) else last) none

end ElfDwarfDieType

def classMembers (children : List Nat) : List ElfDwarfDieType :=
  (children.filterMap (info.dies[·]?)).filter fun member => member.tag = .member ∨ member.tag = .subprogram

/-- The record of a member has the names of its attributes. -/
structure RecordOf (member : ElfDwarfDieType) (mem : DwarfDataStructMember) : Prop where
  name : mem.name = member.lastAttr .name
  linkageName : mem.linkageName = if member.tag = .subprogram then member.lastAttr .mipsLinkageName else none

/-- A member or method built with one record: its attributes are supported, and no sibling of a method is
found. -/
structure BuildsOnce (die : ElfDwarfDieType) : Prop where
  member : die.tag = .member → ∀ attr ∈ die.attrs, attr.MemberOk data info
  method : die.tag = .subprogram → ∀ attr ∈ die.attrs, attr.MethodOk data
  sibling : die.tag = .subprogram → die.siblingDie data info cu = none

end

/-! ## Passes over the attributes -/

section
variable {data : List UInt8} {info : InfoLoad} {cu : ElfDwarfCompilationUnitHeaderType} {attr : DieAttr}
  {m n : Nat} {member : ElfDwarfDieType}

theorem memberAttr_cases {mem mem' : DwarfDataStructMember}
    (h : memberAttr data info n mem attr = some mem') :
    attr.MemberOk data info ∧ mem'.name = (if attr.name = .name then some attr.encoded else mem.name) ∧
      mem'.linkageName = mem.linkageName := by
  cases hname : attr.name
  case type =>
    simp only [memberAttr, hname, bind_eq_bind, bind_eq_some_iff] at h
    obtain ⟨offset, hvalue, r, hr, h⟩ := h
    refine ⟨by simpa only [DieAttr.MemberOk, hname] using ⟨offset, hvalue, n, r, hr⟩, ?_⟩
    cases r <;> cases h <;> exact ⟨rfl, rfl⟩
  case dataMemberLocation =>
    simp only [memberAttr, hname, bind_eq_bind, bind_eq_some_iff] at h
    obtain ⟨off, hvalue, h⟩ := h
    cases h
    exact ⟨by simpa only [DieAttr.MemberOk, hname] using ⟨off, hvalue⟩, rfl, rfl⟩
  all_goals simp only [memberAttr, hname, DwAtType.memberIgnores, if_true, Bool.false_eq_true, if_false,
    reduceCtorEq] at h
  all_goals
    cases h
    exact ⟨by simp only [DieAttr.MemberOk, hname, DwAtType.memberIgnores], rfl, rfl⟩

theorem methodAttr_cases {st st' : DwarfDataStructMember × Option ElfDwarfDieType}
    (h : methodAttr data info cu st attr = some st') :
    attr.MethodOk data ∧ st'.1.name = (if attr.name = .name then some attr.encoded else st.1.name) ∧
      st'.1.linkageName = (if attr.name = .mipsLinkageName then some attr.encoded else st.1.linkageName) ∧
      st'.2 = if attr.name = .sibling then (attr.value data).bind (dwarfGetDie info cu) else st.2 := by
  cases hname : attr.name
  case sibling =>
    simp only [methodAttr, hname, bind_eq_bind, bind_eq_some_iff] at h
    obtain ⟨offset, hvalue, h⟩ := h
    cases h
    exact ⟨by simpa only [DieAttr.MethodOk, hname] using ⟨offset, hvalue⟩, rfl, rfl, by rw [hvalue]; rfl⟩
  all_goals simp only [methodAttr, hname, DwAtType.methodIgnores, if_true, Bool.false_eq_true, if_false,
    reduceCtorEq] at h
  all_goals
    cases h
    exact ⟨by simp only [DieAttr.MethodOk, hname, DwAtType.methodIgnores], rfl, rfl, rfl⟩

theorem structAttr_cases {obj obj' : DwarfDataStructType} (h : structAttr data obj attr = some obj') :
    attr.StructOk data ∧ obj'.type = obj.type ∧ obj'.members = obj.members := by
  cases hname : attr.name
  case byteSize =>
    simp only [structAttr, hname, bind_eq_bind, bind_eq_some_iff] at h
    obtain ⟨size, hvalue, h⟩ := h
    cases h
    exact ⟨by simpa only [DieAttr.StructOk, hname] using ⟨size, hvalue⟩, rfl, rfl⟩
  all_goals simp only [structAttr, hname, DwAtType.structIgnores, if_true, Bool.false_eq_true, if_false,
    reduceCtorEq] at h
  all_goals
    cases h
    exact ⟨by simp only [DieAttr.StructOk, hname, DwAtType.structIgnores], rfl, rfl⟩

theorem exists_memberAttr (h : attr.MemberOk data info) :
    ∃ n, ∀ mem, ∃ mem', memberAttr data info n mem attr = some mem' := by
  cases hname : attr.name
  case type =>
    simp only [DieAttr.MemberOk, hname] at h
    obtain ⟨offset, hvalue, n, r, hr⟩ := h
    refine ⟨n, fun mem => ?_⟩
    cases r <;> simp [memberAttr, hname, hvalue, hr]
  case dataMemberLocation =>
    simp only [DieAttr.MemberOk, hname] at h
    obtain ⟨off, hvalue⟩ := h
    exact ⟨0, fun mem => by simp [memberAttr, hname, hvalue]⟩
  all_goals simp only [DieAttr.MemberOk, hname, DwAtType.memberIgnores, Bool.false_eq_true] at h
  all_goals exact ⟨0, fun mem => by simp [memberAttr, hname, DwAtType.memberIgnores]⟩

theorem exists_methodAttr (h : attr.MethodOk data) (st : DwarfDataStructMember × Option ElfDwarfDieType) :
    ∃ st', methodAttr data info cu st attr = some st' := by
  cases hname : attr.name
  case sibling =>
    simp only [DieAttr.MethodOk, hname] at h
    obtain ⟨offset, hvalue⟩ := h
    simp [methodAttr, hname, hvalue]
  all_goals simp only [DieAttr.MethodOk, hname, DwAtType.methodIgnores, Bool.false_eq_true] at h
  all_goals simp [methodAttr, hname, DwAtType.methodIgnores]

theorem exists_structAttr (h : attr.StructOk data) (obj : DwarfDataStructType) :
    ∃ obj', structAttr data obj attr = some obj' := by
  cases hname : attr.name
  case byteSize =>
    simp only [DieAttr.StructOk, hname] at h
    obtain ⟨size, hvalue⟩ := h
    simp [structAttr, hname, hvalue]
  all_goals simp only [DieAttr.StructOk, hname, DwAtType.structIgnores, Bool.false_eq_true] at h
  all_goals simp [structAttr, hname, DwAtType.structIgnores]

theorem memberAttr_mono {mem mem' : DwarfDataStructMember} (hle : m ≤ n)
    (h : memberAttr data info m mem attr = some mem') : memberAttr data info n mem attr = some mem' := by
  cases hname : attr.name
  case type =>
    simp only [memberAttr, hname, bind_eq_bind, bind_eq_some_iff] at h ⊢
    obtain ⟨offset, hvalue, r, hr, h⟩ := h
    exact ⟨offset, hvalue, r, chase_mono hr hle, h⟩
  all_goals simpa only [memberAttr, hname] using h

theorem recordOf_member (htag : member.tag = .member) {mem : DwarfDataStructMember}
    (h : member.attrs.foldlM (memberAttr data info n) .zero = some mem) : RecordOf member mem := by
  refine ⟨foldlM_project h (·.name) fun _ _ _ hstep => (memberAttr_cases hstep).2.1, ?_⟩
  have hlink := foldlM_project h (·.linkageName) (k := fun last _ => last)
    fun _ _ _ hstep => (memberAttr_cases hstep).2.2
  rw [if_neg (by rw [htag]; decide), hlink]
  exact foldl_fixed' (fun _ => rfl) _

theorem recordOf_method (htag : member.tag = .subprogram) {mem : DwarfDataStructMember}
    {sibling : Option ElfDwarfDieType}
    (h : member.attrs.foldlM (methodAttr data info cu) (.zero, none) = some (mem, sibling)) :
    RecordOf member mem ∧ sibling = member.siblingDie data info cu := by
  have hname : mem.name = member.lastAttr .name :=
    foldlM_project h (·.1.name) fun _ _ _ hstep => (methodAttr_cases hstep).2.1
  have hlink : mem.linkageName = member.lastAttr .mipsLinkageName :=
    foldlM_project h (·.1.linkageName) fun _ _ _ hstep => (methodAttr_cases hstep).2.2.1
  refine ⟨⟨hname, by rw [if_pos htag, hlink]⟩, ?_⟩
  exact foldlM_project h (·.2) fun _ _ _ hstep => (methodAttr_cases hstep).2.2.2

/-! ## Children -/

theorem method_adds {st : DwarfDataStructType × ElfDwarfDieType} {obj' : DwarfDataStructType}
    (h : Leads (methodStep data info cu) st obj') :
    ∃ mem sibling ms, st.2.attrs.foldlM (methodAttr data info cu) (.zero, none) = some (mem, sibling) ∧
      obj' = { st.1 with members := st.1.members ++ mem :: ms } ∧ (ms = [] → sibling = none) := by
  induction h with
  | @stop st obj' hstep =>
    simp only [methodStep, bind_eq_bind, bind_eq_some_iff] at hstep
    obtain ⟨⟨mem, sibling⟩, hattrs, hstep⟩ := hstep
    cases sibling with
    | some sibling => cases hstep
    | none => exact ⟨mem, none, [], hattrs, (Sum.inl.inj (some.inj hstep)).symm, fun _ => rfl⟩
  | @next st st' obj' hstep _ ih =>
    simp only [methodStep, bind_eq_bind, bind_eq_some_iff] at hstep
    obtain ⟨⟨mem, sibling⟩, hattrs, hstep⟩ := hstep
    cases sibling with
    | none => cases hstep
    | some sibling =>
      cases hstep
      obtain ⟨mem', _, ms, -, rfl, -⟩ := ih
      refine ⟨mem, some sibling, mem' :: ms, hattrs, ?_, fun h => by cases h⟩
      simp [dwarfAddStructMember]

theorem classMembers_cons (c : Nat) (children : List Nat) :
    classMembers info (c :: children) = classMembers info [c] ++ classMembers info children := by
  rw [classMembers, classMembers, classMembers, ← filter_append, ← filterMap_append,
    singleton_append]

variable {die : ElfDwarfDieType} {c : Nat} {children : List Nat} {obj obj' : DwarfDataStructType}

theorem structChild_adds (hclass : die.tag = .classType)
    (h : structChild data info cu n die obj c = some obj') :
    ∃ ms, obj' = { obj with members := obj.members ++ ms } ∧ (classMembers info [c]).length ≤ ms.length ∧
      (ms.length = (classMembers info [c]).length → ∀ m ∈ classMembers info [c], BuildsOnce data info cu m) := by
  simp only [structChild, bind_eq_bind, bind_eq_some_iff] at h
  obtain ⟨member, hmember, h⟩ := h
  by_cases htag : member.tag = .member
  · have hmembers : classMembers info [c] = [member] := by simp [classMembers, hmember, htag]
    rw [if_pos htag, elfDwarfBuildStructMember, bind_eq_bind] at h
    obtain ⟨mem, hmem, h⟩ := bind_eq_some_iff.1 h
    have hok := forall_of_foldlM hmem fun _ _ _ hstep => (memberAttr_cases hstep).1
    refine ⟨[mem], (some.inj h).symm, by rw [hmembers]; rfl, fun _ m hm => ?_⟩
    rw [hmembers, mem_singleton] at hm
    subst hm
    exact ⟨fun _ => hok, fun htag' => absurd (htag.symm.trans htag') (by decide),
      fun htag' => absurd (htag.symm.trans htag') (by decide)⟩
  by_cases hsub : member.tag = .subprogram
  · have hmembers : classMembers info [c] = [member] := by simp [classMembers, hmember, hsub]
    rw [if_neg htag, if_pos hsub, if_pos hclass] at h
    obtain ⟨mem, sibling, ms, hattrs, hobj', hms⟩ := method_adds (.of_chase h)
    have hok := forall_of_foldlM hattrs fun _ _ _ hstep => (methodAttr_cases hstep).1
    refine ⟨mem :: ms, hobj', by simp [hmembers], fun hlen m hm => ?_⟩
    rw [hmembers, mem_singleton] at hm
    subst hm
    have hnil : ms = [] := by simpa [hmembers] using hlen
    refine ⟨fun htag' => absurd htag' htag, fun _ => hok, fun _ => ?_⟩
    rw [← (recordOf_method hsub hattrs).2, hms hnil]
  · have hmembers : classMembers info [c] = [] := by simp [classMembers, hmember, htag, hsub]
    rw [if_neg htag, if_neg hsub] at h
    exact ⟨[], by simpa using h.symm, by simp [hmembers], by simp [hmembers]⟩

theorem structChildren_adds (hclass : die.tag = .classType)
    (h : children.foldlM (structChild data info cu n die) obj = some obj') :
    ∃ ms, obj' = { obj with members := obj.members ++ ms } ∧ (classMembers info children).length ≤ ms.length ∧
      (ms.length = (classMembers info children).length →
        ∀ m ∈ classMembers info children, BuildsOnce data info cu m) := by
  induction children generalizing obj with
  | nil =>
    refine ⟨[], ?_, Nat.le_refl _, by simp [classMembers]⟩
    rw [append_nil, ← some.inj h]
  | cons c children ih =>
    obtain ⟨obj₁, hchild, h⟩ := foldlM_cons_eq_some.1 h
    obtain ⟨ms, rfl, hle, honce⟩ := structChild_adds hclass hchild
    obtain ⟨ms', rfl, hle', honce'⟩ := ih h
    rw [classMembers_cons]
    refine ⟨ms ++ ms', by simp, by simp only [length_append]; omega, fun hlen m hm => ?_⟩
    rw [length_append, length_append] at hlen
    rcases mem_append.1 hm with hm | hm
    · exact honce (by omega) m hm
    · exact honce' (by omega) m hm

theorem structChild_once (hclass : die.tag = .classType) (hc : ∃ m, info.dies[c]? = some m)
    (honce : ∀ m ∈ classMembers info [c], BuildsOnce data info cu m)
    (hrounds : ∀ m ∈ classMembers info [c], m.tag = .member → ∀ attr ∈ m.attrs, ∀ mem,
      ∃ mem', memberAttr data info (n + 1) mem attr = some mem') (obj : DwarfDataStructType) :
    ∃ ms, structChild data info cu (n + 1) die obj c = some { obj with members := obj.members ++ ms } ∧
      List.Forall₂ RecordOf (classMembers info [c]) ms := by
  obtain ⟨member, hmember⟩ := hc
  simp only [structChild, hmember, bind_eq_bind, bind_some]
  by_cases htag : member.tag = .member
  · have hmembers : classMembers info [c] = [member] := by simp [classMembers, hmember, htag]
    rw [hmembers] at hrounds ⊢
    obtain ⟨mem, hmem⟩ := exists_foldlM (hrounds member mem_cons_self htag) .zero
    refine ⟨[mem], ?_, .cons (recordOf_member htag hmem) .nil⟩
    rw [if_pos htag, elfDwarfBuildStructMember, hmem]
    rfl
  by_cases hsub : member.tag = .subprogram
  · have hmembers : classMembers info [c] = [member] := by simp [classMembers, hmember, hsub]
    rw [hmembers] at honce ⊢
    have hbuilds := honce member mem_cons_self
    have hpass : ∃ st, member.attrs.foldlM (methodAttr data info cu) (.zero, none) = some st :=
      exists_foldlM (fun attr hattr => exists_methodAttr (hbuilds.method hsub attr hattr)) _
    obtain ⟨⟨mem, sibling⟩, hattrs⟩ := hpass
    obtain ⟨hrecord, hsibling⟩ := recordOf_method hsub hattrs
    rw [hbuilds.sibling hsub] at hsibling
    subst hsibling
    refine ⟨[mem], ?_, .cons hrecord .nil⟩
    rw [if_neg htag, if_pos hsub, if_pos hclass]
    exact chase_succ_of_stop (by rw [methodStep, hattrs]; rfl)
  · have hmembers : classMembers info [c] = [] := by simp [classMembers, hmember, htag, hsub]
    refine ⟨[], ?_, by rw [hmembers]; exact .nil⟩
    rw [if_neg htag, if_neg hsub, append_nil]

theorem structChildren_once (hclass : die.tag = .classType) (hc : ∀ c ∈ children, ∃ m, info.dies[c]? = some m)
    (honce : ∀ m ∈ classMembers info children, BuildsOnce data info cu m)
    (hrounds : ∀ m ∈ classMembers info children, m.tag = .member → ∀ attr ∈ m.attrs, ∀ mem,
      ∃ mem', memberAttr data info (n + 1) mem attr = some mem') (obj : DwarfDataStructType) :
    ∃ ms, children.foldlM (structChild data info cu (n + 1) die) obj =
        some { obj with members := obj.members ++ ms } ∧
      List.Forall₂ RecordOf (classMembers info children) ms := by
  induction children generalizing obj with
  | nil => exact ⟨[], by simp, .nil⟩
  | cons c children ih =>
    rw [classMembers_cons] at honce hrounds ⊢
    obtain ⟨honce₁, honce₂⟩ := forall_mem_append.1 honce
    obtain ⟨hrounds₁, hrounds₂⟩ := forall_mem_append.1 hrounds
    obtain ⟨hc₁, hc₂⟩ := forall_mem_cons.1 hc
    obtain ⟨ms, hchild, hms⟩ := structChild_once hclass hc₁ honce₁ hrounds₁ obj
    obtain ⟨ms', hchildren, hms'⟩ := ih hc₂ honce₂ hrounds₂ { obj with members := obj.members ++ ms }
    refine ⟨ms ++ ms', foldlM_cons_eq_some.2 ⟨_, hchild, ?_⟩, rel_append hms hms'⟩
    rw [hchildren, append_assoc]

theorem exists_rounds {members : List ElfDwarfDieType} (honce : ∀ m ∈ members, BuildsOnce data info cu m) :
    ∃ n, ∀ m ∈ members, m.tag = .member → ∀ attr ∈ m.attrs, ∀ mem,
      ∃ mem', memberAttr data info (n + 1) mem attr = some mem' := by
  have hmono : ∀ {m n attr}, m ≤ n → (∀ mem, ∃ mem', memberAttr data info (m + 1) mem attr = some mem') →
      ∀ mem, ∃ mem', memberAttr data info (n + 1) mem attr = some mem' := by
    intro m n attr hle h mem
    obtain ⟨mem', hmem'⟩ := h mem
    exact ⟨mem', memberAttr_mono (by omega) hmem'⟩
  refine exists_forall_of_mono (fun hle h htag attr hattr => hmono hle (h htag attr hattr)) fun m hm => ?_
  by_cases htag : m.tag = .member
  · have hattrs : ∀ attr ∈ m.attrs, ∃ n, ∀ mem, ∃ mem', memberAttr data info (n + 1) mem attr = some mem' := by
      intro attr hattr
      obtain ⟨n, hn⟩ := exists_memberAttr ((honce m hm).member htag attr hattr)
      exact ⟨n, fun mem => (hn mem).imp fun mem' h => memberAttr_mono (Nat.le_succ n) h⟩
    obtain ⟨n, hn⟩ := exists_forall_of_mono
      (P := fun n attr => ∀ mem, ∃ mem', memberAttr data info (n + 1) mem attr = some mem') hmono hattrs
    exact ⟨n, fun _ => hn⟩
  · exact ⟨0, fun htag' => absurd htag' htag⟩

end

theorem dwarfRegisterDataType_cls (types : DwarfDataEnumType → List DwarfDataStructType)
    (obj : DwarfDataStructType) (htype : obj.type = .cls) :
    dwarfRegisterDataType types obj .cls = types .cls ++ [obj] := by
  rw [dwarfRegisterDataType, if_neg (by rw [htype]; decide), if_pos htype.symm]

theorem structAttrs_keep {data : List UInt8} {attrs : List DieAttr} {type : DwarfDataEnumType}
    {obj : DwarfDataStructType} (h : attrs.foldlM (structAttr data) (dwarfAllocDataType type) = some obj) :
    obj.type = type ∧ obj.members = [] := by
  have htype := foldlM_project h (·.type) (k := fun type _ => type)
    fun _ _ _ hstep => (structAttr_cases hstep).2.1
  have hmembers := foldlM_project h (·.members) (k := fun members _ => members)
    fun _ _ _ hstep => (structAttr_cases hstep).2.2
  exact ⟨htype.trans (foldl_fixed' (fun _ => rfl) _), hmembers.trans (foldl_fixed' (fun _ => rfl) _)⟩

/-- A class is registered with one record for each of its data members and methods, in the order of the children,
exactly if its attributes and theirs are supported and no method has a sibling that is found in the unit. -/
theorem elf_dwarf_build_struct_type_iff (data : List UInt8) {info : InfoLoad}
    (cu : ElfDwarfCompilationUnitHeaderType) (types : DwarfDataEnumType → List DwarfDataStructType)
    {die : ElfDwarfDieType} (hclass : die.tag = .classType) {children : List Nat}
    (hchildren : die.link.children = some children) (hdies : ∀ c ∈ children, ∃ m, info.dies[c]? = some m) :
    (∃ n types' obj, elfDwarfBuildStructType data info cu n types die = some types' ∧
        types' .cls = types .cls ++ [obj] ∧ obj.die = some die ∧
        List.Forall₂ RecordOf (classMembers info children) obj.members) ↔
      (∀ attr ∈ die.attrs, attr.StructOk data) ∧
        ∀ m ∈ classMembers info children, BuildsOnce data info cu m := by
  simp only [elfDwarfBuildStructType, hchildren, hclass, structDataType, bind_eq_bind,
    bind_eq_some_iff]
  constructor
  · rintro ⟨n, types', obj, ⟨obj₁, hattrs, obj₂, hfold, htypes'⟩, hobj, -, hrecords⟩
    refine ⟨forall_of_foldlM hattrs fun _ _ _ hstep => (structAttr_cases hstep).1, ?_⟩
    obtain ⟨htype, hmembers⟩ := structAttrs_keep hattrs
    obtain ⟨ms, hobj₂, -, honce⟩ := structChildren_adds hclass hfold
    -- the object that is registered has the records `ms`, so their number decides
    have htype₂ : obj₂.type = .cls := by rw [hobj₂, ← htype]
    have hlast : obj = { obj₂ with die := some die } := by
      rw [← some.inj htypes', dwarfRegisterDataType_cls types { obj₂ with die := some die } htype₂] at hobj
      simpa using hobj.symm
    have hms : obj.members = ms := by rw [hlast, hobj₂, hmembers, nil_append]
    exact honce (by rw [← hms, hrecords.length_eq])
  · rintro ⟨hstruct, honce⟩
    obtain ⟨n, hrounds⟩ := exists_rounds honce
    have hpass : ∃ obj, die.attrs.foldlM (structAttr data) (dwarfAllocDataType .cls) = some obj :=
      exists_foldlM (fun attr hattr => exists_structAttr (hstruct attr hattr)) _
    obtain ⟨obj, hattrs⟩ := hpass
    obtain ⟨htype, hmembers⟩ := structAttrs_keep hattrs
    obtain ⟨ms, hfold, hrecords⟩ := structChildren_once hclass hdies honce hrounds obj
    refine ⟨n + 1, _, _, ⟨obj, hattrs, _, hfold, rfl⟩, dwarfRegisterDataType_cls types _ htype, rfl, ?_⟩
    rwa [hmembers, nil_append]

/-! ## A class with two methods -/

def classAbbrevs : List ElfDwarfAbbrevType :=
  [⟨0, 0, 1, 0x02, 1, [0x03, 0], [0x08, 0]⟩, ⟨1, 7, 2, 0x2e, 0, [0x03, 0x01, 0], [0x08, 0x13, 0]⟩,
    ⟨2, 16, 3, 0x2e, 0, [0x03, 0], [0x08, 0]⟩]

def classSections (sibling : UInt8) : DwarfSection → Except StdReturnType (List UInt8)
  | .str => .ok []
  | .info => .ok ([21, 0, 0, 0, 2, 0, 0, 0, 0, 0, 4] ++ [1, 99, 0] ++ [2, 102, 0, sibling, 0, 0, 0] ++
      [3, 103, 0] ++ [0])
  | .line => .error .noent

def classDie : ElfDwarfDieType :=
  ⟨11, 1, ⟨0, 0, 1, 0x02, 1, [0x03, 0], [0x08, 0]⟩, [⟨0x08, 12, 2, .string 12⟩], 0, ⟨none, some [1, 2]⟩⟩

def methodF (sibling : Nat) : ElfDwarfDieType :=
  ⟨14, 2, ⟨1, 7, 2, 0x2e, 0, [0x03, 0x01, 0], [0x08, 0x13, 0]⟩,
    [⟨0x08, 15, 2, .string 15⟩, ⟨0x13, 17, 4, .ref32 sibling⟩], 1, ⟨some 0, none⟩⟩

def methodG : ElfDwarfDieType :=
  ⟨21, 3, ⟨2, 16, 3, 0x2e, 0, [0x03, 0], [0x08, 0]⟩, [⟨0x08, 22, 2, .string 22⟩], 1, ⟨some 0, none⟩⟩

def classUnit : ElfDwarfCompilationUnitHeaderType := ⟨0, 21, 2, 0, 4, [0, 1, 2]⟩

def classInfo (sibling : Nat) : InfoLoad := ⟨[classDie, methodF sibling, methodG], some 2, [classUnit], 25⟩

/-- With `g` as the sibling of `f`, the class has `g` twice. With `f` as its own sibling, it is never built. -/
theorem elf_dwarf_build_struct_type_twice :
    elfDwarfInfoLoad classAbbrevs (classSections 21) = some (.ok, classInfo 21) ∧
    (∃ types', elfDwarfBuildStructType [] (classInfo 21) classUnit 2 (fun _ => []) classDie = some types' ∧
      (types' .cls).map (·.members.map (·.name)) = [[some (.string 15), some (.string 22), some (.string 22)]]) ∧
    elfDwarfInfoLoad classAbbrevs (classSections 14) = some (.ok, classInfo 14) ∧
    ∀ n, elfDwarfBuildStructType [] (classInfo 14) classUnit n (fun _ => []) classDie = none := by
  refine ⟨by decide +kernel, ⟨_, rfl, by decide⟩, by decide +kernel, fun n => ?_⟩
  have hloop : ∀ st : DwarfDataStructType × ElfDwarfDieType, st.2 = methodF 14 →
      ∃ st', methodStep [] (classInfo 14) classUnit st = some (.inr st') ∧ st'.2 = methodF 14 := by
    rintro ⟨obj, _⟩ rfl
    exact ⟨(_, methodF 14), rfl, rfl⟩
  have hfold : ∀ obj, [1, 2].foldlM (structChild [] (classInfo 14) classUnit n classDie) obj = none := by
    intro obj
    have hchild : structChild [] (classInfo 14) classUnit n classDie obj 1 = none :=
      chase_eq_none_of_closed hloop rfl n
    rw [foldlM_cons, hchild]
    rfl
  have hchildren : classDie.link.children = some [1, 2] := rfl
  simp only [elfDwarfBuildStructType, hchildren, hfold, bind_eq_bind, bind_none, bind_fun_none]

theorem elf_dwarf_build_struct_type_once :
    ∃ n types' obj, elfDwarfBuildStructType [] (classInfo 24) classUnit n (fun _ => []) classDie = some types' ∧
      types' .cls = [] ++ [obj] ∧ obj.die = some classDie ∧
      List.Forall₂ RecordOf (classMembers (classInfo 24) [1, 2]) obj.members := by
  refine (elf_dwarf_build_struct_type_iff [] classUnit (fun _ => []) rfl rfl ?_).2 ⟨?_, ?_⟩
  · simp [classInfo]
  · simp [ElfDwarfDieType.attrs, classDie, dwAtType, DieAttr.StructOk]
  · intro m hm
    have hmembers : classMembers (classInfo 24) [1, 2] = [methodF 24, methodG] := rfl
    rw [hmembers, mem_cons, mem_singleton] at hm
    obtain rfl | rfl := hm
    · refine ⟨fun h => absurd h (by decide), fun _ => ?_, fun _ => rfl⟩
      simp [ElfDwarfDieType.attrs, methodF, dwAtType, dwFormType, DieAttr.MethodOk, DieAttr.value,
        elfDwarfInfoGetValue, DwEncoded.field, DwEncoded.word]
    · refine ⟨fun h => absurd h (by decide), fun _ => ?_, fun _ => rfl⟩
      simp [ElfDwarfDieType.attrs, methodG, dwAtType, DieAttr.MethodOk]

end Athrill
