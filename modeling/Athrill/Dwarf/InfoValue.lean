import Athrill.Dwarf.Info

/-!
# Values of attributes (`elf_dwarf_info_get_value`, `lib/dwarf/elf_dwarf_info_ops.c`)

`elf_dwarf_info_parse_attr` stores the value of an attribute in the field of the union `encoded` that its
form names, and `elf_dwarf_info_get_value` reads it back as 32 bits. Main result:
`elf_dwarf_info_reference_iff`.
-/

namespace Athrill

/-! ## The stack of location operations -/

def elfDwarfInfoOpsPop : List Nat → Nat × List Nat
  | [] => (0, [])
  | data :: stack => (data, stack)

def elfDwarfInfoOpsPush (data : Nat) (stack : List Nat) : List Nat := data :: stack

def elfDwarfInfoOpsPlusUconst (addr : List UInt8) (stack : List Nat) : List Nat :=
  let data1 := elfDwarfInfoOpsPop stack
  let data2 := (elfDwarfDecodeUleb128 addr).1
  elfDwarfInfoOpsPush (u32 (data1.1 + data2)) data1.2

def elfDwarfInfoOpsDwOp (optype : UInt8) (addr : List UInt8) (stack : List Nat) : Option (List Nat) :=
  if optype = 0x23 then some (elfDwarfInfoOpsPlusUconst addr stack) else none

/-! ## Values -/

def DwEncoded.word : DwEncoded → Option Nat
  | .addr v | .const8 v | .const16 v | .const32 v | .const64 v | .ref8 v | .ref16 v | .ref32 v | .ref64 v
  | .secOffset v | .flag v => some v
  | .scont64 v => some (v % 2 ^ 64).toNat
  | .op len _ => some len
  | .string _ | .debugStr _ => none

def DwEncoded.field (n : Nat) (obj : DwEncoded) : Option Nat := obj.word.map (· % 256 ^ n)

def elfDwarfInfoGetValue (data : List UInt8) (form : DwFormType) (obj : DwEncoded) : Option (Nat × Nat) :=
  match form with
  | .none => some (2 ^ 32 - 1, 0)
  | .addr => (obj.field 4).map (·, 4)
  | .data1 => (obj.field 1).map (·, 1)
  | .data2 => (obj.field 2).map (·, 2)
  | .data4 => (obj.field 4).map (·, 4)
  | .ref1 => (obj.field 1).map (·, 1)
  | .ref2 => (obj.field 2).map (·, 2)
  | .ref4 => (obj.field 4).map (·, 4)
  | .secOffset => (obj.field 4).map (·, 4)
  | .sdata => (obj.field 8).map fun v => (u32 v, 4)
  | .block1 =>
    match obj with
    | .op _ ops =>
      (elfDwarfInfoOpsDwOp ((data.drop ops).headD 0) (data.drop (ops + 1)) (elfDwarfInfoOpsPush 0 [])).map
        fun stack => ((elfDwarfInfoOpsPop stack).1, 0)
    | _ => .none
  | _ => .none

/-! ## References -/

def DwFormType.refBytes : DwFormType → Option Nat
  | .ref1 => some 1
  | .ref2 => some 2
  | .ref4 => some 4
  | .ref8 => some 8
  | _ => .none

theorem field_sum_eq_iff {n k : Nat} {obj : DwEncoded} {a b : Nat}
    (hobj : obj.word = some ((b + a) % 256 ^ n)) :
    (obj.field n).map (·, k) = some (a + b, k) ↔ a + b < 256 ^ n := by
  rw [DwEncoded.field, hobj, Option.map_some, Option.map_some, Option.some.injEq, Prod.mk.injEq,
    and_iff_left rfl, Nat.mod_mod, Nat.add_comm b a]
  exact Nat.mod_eq_iff_lt (Nat.ne_of_gt (Nat.pow_pos (by decide)))

/-- A reference whose target lies in the unit is read back as the offset of the target exactly if it has four
bytes, or one or two and the offset fits in as many. -/
theorem elf_dwarf_info_reference_iff {cu : ElfDwarfCompilationUnitHeaderType} {form : DwFormType} {n : Nat}
    (hform : form.refBytes = some n) {addr : List UInt8}
    (htarget : elfGetData n addr 0 < cu.length + 4) (hunit : cu.offset + (cu.length + 4) ≤ 2 ^ 32)
    (data : List UInt8) (off : Nat) :
    (∃ obj, elfDwarfInfoParseAttr cu addr off form = some (some obj, n) ∧
        elfDwarfInfoGetValue data form obj = some (cu.offset + elfGetData n addr 0, n)) ↔
      form = .ref4 ∨ form ≠ .ref8 ∧ cu.offset + elfGetData n addr 0 < 256 ^ n := by
  -- what is stored is the only candidate
  have hstored : ∀ obj, elfDwarfInfoParseAttr cu addr off form = some (some obj, n) →
      ((∃ obj, elfDwarfInfoParseAttr cu addr off form = some (some obj, n) ∧
        elfDwarfInfoGetValue data form obj = some (cu.offset + elfGetData n addr 0, n)) ↔
      elfDwarfInfoGetValue data form obj = some (cu.offset + elfGetData n addr 0, n)) := by
    intro obj hobj
    constructor
    · rintro ⟨obj', hobj', hvalue⟩
      rw [hobj, Option.some.injEq, Prod.mk.injEq, and_iff_left rfl, Option.some.injEq] at hobj'
      rwa [hobj']
    · exact fun hvalue => ⟨obj, hobj, hvalue⟩
  cases form with
  | ref1 | ref2 =>
    cases hform
    rw [hstored _ rfl, or_iff_right (by decide), and_iff_right (by decide), elfDwarfInfoGetValue]
    exact field_sum_eq_iff rfl
  | ref4 =>
    cases hform
    have hfits : cu.offset + elfGetData 4 addr 0 < 256 ^ 4 := by omega
    rw [hstored _ rfl, elfDwarfInfoGetValue]
    exact iff_of_true ((field_sum_eq_iff rfl).2 hfits) (.inl rfl)
  | ref8 =>
    cases hform
    rw [hstored _ rfl]
    simp [elfDwarfInfoGetValue]
  | _ => cases hform

/-- A reference of two bytes in a unit that begins at 0x10000 is read back as 0x20, and one of eight bytes
ends the program. -/
theorem elf_dwarf_info_reference_lost :
    (∃ obj, elfDwarfInfoParseAttr ⟨0x10000, 0x100, 4, 0, 4, []⟩ [0x20, 0] 0x10010 .ref2 = some (some obj, 2) ∧
      elfDwarfInfoGetValue [] .ref2 obj = some (0x20, 2)) ∧
    ∃ obj, elfDwarfInfoParseAttr ⟨0, 0x100, 4, 0, 4, []⟩ [0x20, 0, 0, 0, 0, 0, 0, 0] 0x10 .ref8 =
        some (some obj, 8) ∧
      elfDwarfInfoGetValue [] .ref8 obj = none :=
  ⟨⟨.ref16 0x20, by decide, by decide⟩, ⟨.ref64 0x20, by decide, by decide⟩⟩

theorem elf_dwarf_info_reference_four :
    ∃ obj, elfDwarfInfoParseAttr ⟨0x10000, 0x100, 4, 0, 4, []⟩ [0x20, 0, 0, 0] 0x10010 .ref4 =
        some (some obj, 4) ∧
      elfDwarfInfoGetValue [] .ref4 obj = some (0x10000 + elfGetData 4 [0x20, 0, 0, 0] 0, 4) :=
  (elf_dwarf_info_reference_iff rfl (by decide) (by decide) [] 0x10010).2 (.inl rfl)

end Athrill
