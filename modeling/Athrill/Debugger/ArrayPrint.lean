import Mathlib.Data.List.Induction

/-!
# Printing arrays (`dbg_print_data_type.c`)

`print_array_type_data` prints the elements of an array of several dimensions, whose type can hold arrays again.
References that the reader of the debug information could not resolve are NULL, and so are the members of a
type that has none: a printer that follows one of them gets no further (`none`). The values, the names and the
texts between the elements are left out; what is kept of an output is `PrintEvent`. Types have no cycles.

The main result is `print_array_type_data_iff`: which array types are printed with every element at its place.
-/

namespace Athrill

open List

mutual

/-- A pointer to a data type. The enumerators of an enumeration are kept by their number. -/
inductive DwarfDataType
  | null
  | base (size : Nat)
  | enum (size enumerators : Nat)
  | pointer (size : Nat)
  | typedef (ref : DwarfDataType)
  | struct (size : Nat) (members : DwarfDataMembers)
  | class (size : Nat) (members : DwarfDataMembers)
  | union (size : Nat)
  | array (size : Nat) (dimension : List Nat) (ref : DwarfDataType)

/-- The list is allocated with its first member (`dwarf_add_struct_member`): the empty one is NULL. -/
inductive DwarfDataMembers
  | nil
  | cons (off : BitVec 32) (ref : DwarfDataType) (rest : DwarfDataMembers)

end

def DwarfDataType.isNull : DwarfDataType → Bool
  | .null => true
  | _ => false

def DwarfDataMembers.isNull : DwarfDataMembers → Bool
  | .nil => true
  | .cons _ _ _ => false

def elfDwarfBuildArrayType (upperBounds : List Nat) (ref : DwarfDataType) : DwarfDataType :=
  .array 0 (upperBounds.map fun bound => (bound + 1) % 0x100000000) ref

def getRefTypesize : DwarfDataType → Option Nat
  | .null => none
  | .base size | .enum size _ | .pointer size | .struct size _ | .array size _ _ => some size
  | .typedef ref => getRefTypesize ref
  | .class _ _ | .union _ => some 0

/-- `unknown` is what `print_enum_type_data` prints for a size that it does not read; a value that it reads
counts as printed, whether an enumerator has it or not. -/
inductive PrintEvent
  | value (off : BitVec 32)
  | unknown
  | arrayBegin
  | element (indices : List Nat) (off : BitVec 32)
  | arrayEnd
  deriving DecidableEq, Repr

/-- The index buffers of the arrays that are being printed, kept in a static variable. -/
abbrev IndexStack := List (List Nat)

abbrev PrintResult := Option (List PrintEvent × IndexStack)

def carryLoop : List Nat → List Nat → List Nat
  | [], _ => []
  | [i], _ => [i + 1]
  | i :: is, d :: ds => if i + 1 ≥ d then 0 :: carryLoop is ds else (i + 1) :: is
  | i :: is, [] => (i + 1) :: is

def carry (dimension indices : List Nat) : List Nat := (carryLoop indices.reverse dimension.reverse).reverse

def printElements (print : BitVec 32 → IndexStack → PrintResult) (dimension : List Nat)
    (typesize level : Nat) (off : BitVec 32) : Nat → Nat → IndexStack → PrintResult
  | 0, _, stack => some ([], stack)
  | n + 1, j, stack => do
    let roff := BitVec.ofNat 32 (j * typesize)
    let value ← print (off + roff) stack
    let rest ← printElements print dimension typesize level off n (j + 1)
      (value.2.set level (carry dimension (value.2.getD level [])))
    some (.element (stack.getD level []) (off + roff) :: value.1 ++ rest.1, rest.2)

def elementNum : List Nat → Nat
  | [] => 1
  | d :: ds => d * elementNum ds

def totalNum (dimension : List Nat) : Nat := (BitVec.ofNat 32 (elementNum dimension)).toInt.toNat

/-- The value of a reference, which is left out if it is NULL and the printer tests it. -/
def skipNull (tests : Bool) (ref : DwarfDataType) (stack : IndexStack) (value : PrintResult) : PrintResult :=
  if tests && ref.isNull then some ([], stack) else value

def enumRead (size : Nat) : Bool := size = 1 || size = 2 || size = 4

mutual

def printAnyDataType (level : Nat) : DwarfDataType → BitVec 32 → IndexStack → PrintResult
  | .null, _, _ => none
  | .base _, off, stack | .pointer _, off, stack => some ([.value off], stack)
  | .enum size enumerators, off, stack =>
    if enumRead size = false then some ([.unknown], stack)
    else if enumerators = 0 then none else some ([.value off], stack)
  | .typedef ref, off, stack => skipNull true ref stack (printAnyDataType level ref off stack)
  -- `print_struct_type_data` follows the list of the members unlike `print_class_type_data`, which tests it
  | .struct _ members, off, stack =>
    if members.isNull then none else printMembers level false members off stack
  | .class _ members, off, stack => printMembers level true members off stack
  | .union _, _, stack => some ([], stack)
  | .array _ dimension ref, off, stack => do
    let typesize ← getRefTypesize ref
    let zero := replicate dimension.length 0
    let stack := if level ≥ stack.length then stack ++ [zero] else stack.set level zero
    let elements ← printElements (printAnyDataType (level + 1) ref) dimension typesize level off
      (totalNum dimension) 0 stack
    some (.arrayBegin :: elements.1 ++ [.arrayEnd], elements.2)

/-- The loop over the members, which in a class leaves out those without a type. -/
def printMembers (level : Nat) (ofClass : Bool) : DwarfDataMembers → BitVec 32 → IndexStack → PrintResult
  | .nil, _, stack => some ([], stack)
  | .cons moff ref rest, off, stack => do
    let first ← skipNull ofClass ref stack (printAnyDataType level ref (off + moff) stack)
    let others ← printMembers level ofClass rest off first.2
    some (first.1 ++ others.1, others.2)

end

/-! ## What is expected -/

def rowMajor : List Nat → Nat → List Nat
  | [], _ => []
  | _ :: ds, j => j / elementNum ds :: rowMajor ds (j % elementNum ds)

def sizeOfType : DwarfDataType → Nat
  | .null => 0
  | .base size | .enum size _ | .pointer size | .struct size _ | .class size _ | .union size => size
  | .typedef ref => sizeOfType ref
  | .array _ dimension ref => elementNum dimension * sizeOfType ref

mutual

/-- All elements and values in the order of the memory, for elements of `size` bytes and enumerations that are
read if `reads` says so. What has no type has no value. -/
def printed (size : DwarfDataType → Nat) (reads : Nat → Bool) : DwarfDataType → BitVec 32 → List PrintEvent
  | .null, _ | .union _, _ => []
  | .base _, off | .pointer _, off => [.value off]
  | .enum s _, off => [if reads s then .value off else .unknown]
  | .typedef ref, off => printed size reads ref off
  | .struct _ members, off | .class _ members, off => printedMembers size reads members off
  | .array _ dimension ref, off =>
    .arrayBegin :: (range (elementNum dimension)).flatMap (fun j =>
      .element (rowMajor dimension j) (off + BitVec.ofNat 32 (j * size ref)) ::
        printed size reads ref (off + BitVec.ofNat 32 (j * size ref))) ++ [.arrayEnd]

def printedMembers (size : DwarfDataType → Nat) (reads : Nat → Bool) :
    DwarfDataMembers → BitVec 32 → List PrintEvent
  | .nil, _ => []
  | .cons moff ref rest, off => printed size reads ref (off + moff) ++ printedMembers size reads rest off

end

mutual

/-- The number of elements of each array is an `int`. -/
def TotalsFit : DwarfDataType → Prop
  | .null | .base _ | .enum _ _ | .pointer _ | .union _ => True
  | .typedef ref => TotalsFit ref
  | .struct _ members | .class _ members => MembersFit members
  | .array _ dimension ref => elementNum dimension < 0x80000000 ∧ TotalsFit ref

def MembersFit : DwarfDataMembers → Prop
  | .nil => True
  | .cons _ ref rest => TotalsFit ref ∧ MembersFit rest

end

mutual

/-- No NULL is followed: a struct has members, and their types are known, as is the type of the elements of an
array, also behind typedefs. -/
def Resolved : DwarfDataType → Prop
  | .null => False
  | .base _ | .pointer _ | .union _ => True
  | .enum size enumerators => enumRead size = true → enumerators ≠ 0
  | .typedef ref => ref.isNull = true ∨ Resolved ref
  | .struct _ members => members.isNull = false ∧ MembersResolved false members
  | .class _ members => MembersResolved true members
  | .array _ dimension ref =>
    (getRefTypesize ref).isSome = true ∧ (elementNum dimension = 0 ∨ Resolved ref)

def MembersResolved (ofClass : Bool) : DwarfDataMembers → Prop
  | .nil => True
  | .cons _ ref rest => ((ofClass && ref.isNull) = true ∨ Resolved ref) ∧ MembersResolved ofClass rest

end

mutual

/-- The enumerations are read, and where two elements are printed, `get_ref_typesize` knows their size. -/
def SizesKnown : DwarfDataType → Prop
  | .null | .base _ | .pointer _ | .union _ => True
  | .enum size _ => enumRead size = true
  | .typedef ref => SizesKnown ref
  | .struct _ members | .class _ members => MembersKnown members
  | .array _ dimension ref => (elementNum dimension = 0 ∨ SizesKnown ref) ∧ (2 ≤ elementNum dimension →
    ((getRefTypesize ref).getD 0) % 0x100000000 = sizeOfType ref % 0x100000000)

def MembersKnown : DwarfDataMembers → Prop
  | .nil => True
  | .cons _ ref rest => SizesKnown ref ∧ MembersKnown rest

end

/-! ## The indices -/

theorem elementNum_append (ds : List Nat) (d : Nat) : elementNum (ds ++ [d]) = elementNum ds * d := by
  induction ds with
  | nil => simp [elementNum]
  | cons e ds ih => rw [cons_append, elementNum, elementNum, ih, Nat.mul_assoc]

theorem rowMajor_append {ds : List Nat} (hds : ds ≠ []) (d j : Nat) :
    rowMajor (ds ++ [d]) j = rowMajor ds (j / d) ++ [j % d] := by
  induction ds generalizing j with
  | nil => exact absurd rfl hds
  | cons e ds ih =>
    cases ds with
    | nil => simp [rowMajor, elementNum]
    | cons e' ds =>
      have hcons : ∀ j, rowMajor (e :: e' :: ds) j =
          j / elementNum (e' :: ds) :: rowMajor (e' :: ds) (j % elementNum (e' :: ds)) := fun _ => rfl
      rw [cons_append, rowMajor, ih (by simp), elementNum_append, hcons, Nat.mod_mul_left_div_self,
        Nat.mod_mul_left_mod, Nat.div_div_eq_div_mul, Nat.mul_comm d, cons_append]

theorem length_rowMajor (ds : List Nat) (j : Nat) : (rowMajor ds j).length = ds.length := by
  induction ds generalizing j with
  | nil => rfl
  | cons d ds ih => simp [rowMajor, ih]

theorem rowMajor_zero (ds : List Nat) : rowMajor ds 0 = replicate ds.length 0 := by
  induction ds with
  | nil => rfl
  | cons d ds ih => rw [rowMajor, Nat.zero_div, Nat.zero_mod, ih, length_cons, replicate_succ]

theorem carry_append {xs : List Nat} (hxs : xs ≠ []) (ds : List Nat) (d x : Nat) :
    carry (ds ++ [d]) (xs ++ [x]) = if x + 1 ≥ d then carry ds xs ++ [0] else xs ++ [x + 1] := by
  obtain ⟨y, ys, hys⟩ := exists_cons_of_ne_nil (mt reverse_eq_nil_iff.1 hxs)
  have hloop : carryLoop (x :: y :: ys) (d :: ds.reverse) =
      if x + 1 ≥ d then 0 :: carryLoop (y :: ys) ds.reverse else (x + 1) :: y :: ys := by
    rw [carryLoop]
    exact nofun
  rw [carry, carry, reverse_append, reverse_append, reverse_singleton, reverse_singleton,
    singleton_append, singleton_append, hys, hloop]
  split_ifs
  · rw [reverse_cons]
  · rw [reverse_cons, ← hys, reverse_reverse]

theorem carry_rowMajor (dimension : List Nat) {j : Nat} (hj : j + 1 < elementNum dimension) :
    carry dimension (rowMajor dimension j) = rowMajor dimension (j + 1) := by
  induction dimension using reverseRecOn generalizing j with
  | nil => exact absurd hj (by simp [elementNum])
  | append_singleton ds d ih =>
    rw [elementNum_append] at hj
    by_cases hds : ds = []
    · subst hds
      simp [rowMajor, elementNum, carry, carryLoop]
    have hxs : rowMajor ds (j / d) ≠ [] := fun h => by
      have hlen := length_rowMajor ds (j / d)
      rw [h] at hlen
      exact hds (length_eq_zero_iff.1 hlen.symm)
    have hd : 0 < d := Nat.pos_of_ne_zero fun h => by simp [h] at hj
    rw [rowMajor_append hds, rowMajor_append hds, carry_append hxs]
    have hmod := Nat.mod_lt j hd
    have hdiv := Nat.div_add_mod j d
    split_ifs with hlast
    · have hnext : j + 1 = d * (j / d + 1) := by rw [Nat.mul_add]; omega
      rw [ih, hnext, Nat.mul_div_cancel_left _ hd, Nat.mul_mod_right]
      rw [hnext, Nat.mul_comm] at hj
      exact Nat.lt_of_mul_lt_mul_right hj
    · have hnext : j + 1 = j % d + 1 + d * (j / d) := by omega
      rw [hnext, Nat.add_mul_div_left _ _ hd, Nat.add_mul_mod_self_left,
        Nat.div_eq_of_lt (Nat.not_le.1 hlast), Nat.mod_eq_of_lt (Nat.not_le.1 hlast), Nat.zero_add]

/-! ## The stack of index buffers -/

def KeepsBelow (level : Nat) (stack stack' : List (List Nat)) : Prop :=
  level ≤ stack'.length ∧ ∀ i < level, stack'.getD i [] = stack.getD i []

theorem KeepsBelow.trans {level : Nat} {s s' s'' : List (List Nat)} (h : KeepsBelow level s s')
    (h' : KeepsBelow level s' s'') : KeepsBelow level s s'' :=
  ⟨h'.1, fun i hi => (h'.2 i hi).trans (h.2 i hi)⟩

theorem keepsBelow_set {level : Nat} {s : List (List Nat)} (h : level ≤ s.length) (l : List Nat) :
    KeepsBelow level s (s.set level l) :=
  ⟨by rwa [length_set], fun i hi => by simp [getD_eq_getElem?_getD, getElem?_set_ne (Nat.ne_of_gt hi)]⟩

def PrintsIf (c : Prop) (level : Nat) (r : PrintResult) (events : List PrintEvent) (stack : IndexStack) : Prop :=
  (c → ∃ stack', r = some (events, stack') ∧ KeepsBelow level stack stack') ∧ (¬ c → r = none)

theorem printsIf_some {c : Prop} (hc : c) {level : Nat} {stack : IndexStack} (h : level ≤ stack.length)
    (events : List PrintEvent) : PrintsIf c level (some (events, stack)) events stack :=
  ⟨fun _ => ⟨stack, rfl, h, fun _ _ => rfl⟩, fun hn => absurd hc hn⟩

section
variable {c : Prop} {print : BitVec 32 → IndexStack → PrintResult} {value : BitVec 32 → List PrintEvent}
  {dimension : List Nat} {level : Nat} (hprint : ∀ off stack, level + 1 ≤ stack.length →
    PrintsIf c (level + 1) (print off stack) (value off) stack)
include hprint

theorem printElements_eq (typesize : Nat) (off : BitVec 32) (n j : Nat) (stack : IndexStack)
    (hj : j + n = elementNum dimension) (hstack : level + 1 ≤ stack.length)
    (hindices : n ≠ 0 → stack.getD level [] = rowMajor dimension j) :
    PrintsIf (n = 0 ∨ c) level (printElements print dimension typesize level off n j stack)
      ((range' j n).flatMap (fun j =>
        .element (rowMajor dimension j) (off + BitVec.ofNat 32 (j * typesize)) ::
          value (off + BitVec.ofNat 32 (j * typesize)))) stack := by
  induction n generalizing j stack with
  | zero => exact printsIf_some (.inl rfl) (Nat.le_of_succ_le hstack) _
  | succ n ih =>
    have hfirst := hprint (off + BitVec.ofNat 32 (j * typesize)) stack hstack
    rw [or_iff_right (Nat.succ_ne_zero n)]
    refine ⟨fun hc => ?_, fun hc => by rw [printElements, hfirst.2 hc]; rfl⟩
    obtain ⟨next, hvalue, hlen, hkeep⟩ := hfirst.1 hc
    have hnow := hindices (Nat.succ_ne_zero n)
    have hset := keepsBelow_set (Nat.le_of_succ_le hlen) (carry dimension (next.getD level []))
    have hnext : n ≠ 0 → (next.set level (carry dimension (next.getD level []))).getD level [] =
        rowMajor dimension (j + 1) := fun hn => by
      rw [getD_eq_getElem?_getD, getElem?_set_self hlen, Option.getD_some,
        hkeep level (Nat.lt_succ_self _), hnow, carry_rowMajor _ (by omega)]
    obtain ⟨stack', hrest, hkeeps⟩ := (ih (j + 1) _ (by omega) (by rwa [length_set]) hnext).1 (.inr hc)
    have hbelow : KeepsBelow level stack next :=
      ⟨Nat.le_of_succ_le hlen, fun i hi => hkeep i (Nat.lt_succ_of_lt hi)⟩
    refine ⟨stack', ?_, hbelow.trans (hset.trans hkeeps)⟩
    simp only [printElements, hvalue, hrest, hnow, range'_succ, flatMap_cons, Option.bind_eq_bind,
      Option.bind_some]

end

theorem totalNum_eq {dimension : List Nat} (h : elementNum dimension < 0x80000000) :
    totalNum dimension = elementNum dimension := by
  have hnat : (BitVec.ofNat 32 (elementNum dimension)).toNat = elementNum dimension := by
    rw [BitVec.toNat_ofNat]
    omega
  rw [totalNum, BitVec.toInt_eq_toNat_of_lt (by omega), hnat, Int.toNat_natCast]

theorem stack_reset {level : Nat} {stack : List (List Nat)} (h : level ≤ stack.length) (zero : List Nat) :
    let stack' := if level ≥ stack.length then stack ++ [zero] else stack.set level zero
    KeepsBelow level stack stack' ∧ level + 1 ≤ stack'.length ∧ stack'.getD level [] = zero := by
  dsimp only
  split_ifs with hlen
  · obtain rfl := Nat.le_antisymm h hlen
    refine ⟨⟨by simp, fun i hi => ?_⟩, by simp, by simp [getD_eq_getElem?_getD]⟩
    rw [getD_eq_getElem?_getD, getD_eq_getElem?_getD, getElem?_append_left hi]
  · refine ⟨keepsBelow_set h _, by rw [length_set]; omega, ?_⟩
    rw [getD_eq_getElem?_getD, getElem?_set_self (by omega), Option.getD_some]

theorem printsIf_skipNull {size : DwarfDataType → Nat} {reads : Nat → Bool} {c : Prop} {level : Nat}
    {ref : DwarfDataType} {off : BitVec 32} {stack : IndexStack} {r : PrintResult} (tests : Bool)
    (hlevel : level ≤ stack.length) (h : PrintsIf c level r (printed size reads ref off) stack) :
    PrintsIf ((tests && ref.isNull) = true ∨ c) level (skipNull tests ref stack r)
      (printed size reads ref off) stack := by
  unfold skipNull
  split_ifs with hnull
  · cases ref with
    | null => exact printsIf_some (.inl hnull) hlevel _
    | _ => simp [DwarfDataType.isNull] at hnull
  · rwa [or_iff_right hnull]

def refSize (ref : DwarfDataType) : Nat := (getRefTypesize ref).getD 0

mutual

theorem printAnyDataType_eq (level : Nat) : ∀ (type : DwarfDataType) (off : BitVec 32) (stack : IndexStack),
    TotalsFit type → level ≤ stack.length → PrintsIf (Resolved type) level
      (printAnyDataType level type off stack) (printed refSize enumRead type off) stack
  | .null, _, _, _, _ => ⟨False.elim, fun _ => rfl⟩
  | .base _, _, _, _, h | .pointer _, _, _, _, h | .union _, _, _, _, h => printsIf_some trivial h _
  | .enum size enumerators, off, stack, _, h => by
    simp only [printAnyDataType, printed]
    cases hread : enumRead size with
    | false => exact printsIf_some (fun ht => absurd (hread.symm.trans ht) Bool.false_ne_true) h _
    | true =>
      by_cases henum : enumerators = 0
      · exact ⟨fun hr => absurd henum (hr hread), fun _ => if_pos henum⟩
      · rw [if_neg henum]
        exact printsIf_some (fun _ => henum) h _
  | .typedef ref, off, stack, hfit, h => printsIf_skipNull true h (printAnyDataType_eq level ref off stack hfit h)
  | .struct _ members, off, stack, hfit, h => by
    have hmembers := printMembers_eq level false members off stack hfit h
    cases members with
    | nil => exact ⟨fun hr => absurd hr.1 nofun, fun _ => rfl⟩
    | cons moff ref rest => exact ⟨fun hr => hmembers.1 hr.2, fun hr => hmembers.2 fun hr' => hr ⟨rfl, hr'⟩⟩
  | .class _ members, off, stack, hfit, h => printMembers_eq level true members off stack hfit h
  | .array _ dimension ref, off, stack, hfit, h => by
    have hprint := fun off stack => printAnyDataType_eq (level + 1) ref off stack hfit.2
    obtain ⟨stack', hstack', hkeep, hlen, hzero⟩ : ∃ stack', (if level ≥ stack.length then
        stack ++ [replicate dimension.length 0] else
        stack.set level (replicate dimension.length 0)) = stack' ∧ KeepsBelow level stack stack' ∧
        level + 1 ≤ stack'.length ∧ stack'.getD level [] = replicate dimension.length 0 :=
      ⟨_, rfl, stack_reset h _⟩
    cases hsize : getRefTypesize ref with
    | none =>
      refine ⟨fun hr => absurd hr.1 (by simp [hsize]), fun _ => ?_⟩
      simp only [printAnyDataType, hsize, Option.bind_eq_bind, Option.bind_none]
    | some typesize =>
      simp only [printAnyDataType, hsize, hstack', totalNum_eq hfit.1, Option.bind_eq_bind, Option.bind_some]
      have helements := printElements_eq hprint typesize off (elementNum dimension) 0 stack' (Nat.zero_add _) hlen
        fun _ => hzero.trans (rowMajor_zero _).symm
      constructor
      · rintro ⟨-, hr⟩
        obtain ⟨stack'', hevents, hkeep'⟩ := helements.1 hr
        refine ⟨stack'', ?_, hkeep.trans hkeep'⟩
        rw [hevents, Option.bind_some, printed, range_eq_range', refSize, hsize, Option.getD_some]
      · intro hr
        rw [helements.2 fun hr' => hr ⟨by simp [hsize], hr'⟩, Option.bind_none]

theorem printMembers_eq (level : Nat) (ofClass : Bool) : ∀ (members : DwarfDataMembers) (off : BitVec 32)
    (stack : IndexStack), MembersFit members → level ≤ stack.length →
    PrintsIf (MembersResolved ofClass members) level (printMembers level ofClass members off stack)
      (printedMembers refSize enumRead members off) stack
  | .nil, _, _, _, h => printsIf_some trivial h _
  | .cons moff ref rest, off, stack, hfit, h => by
    have hfirst := printsIf_skipNull ofClass h (printAnyDataType_eq level ref (off + moff) stack hfit.1 h)
    constructor
    · rintro ⟨href, hresolved⟩
      obtain ⟨next, hprint, hkeep⟩ := hfirst.1 href
      obtain ⟨stack', hrest, hkeep'⟩ := (printMembers_eq level ofClass rest off next hfit.2 hkeep.1).1 hresolved
      refine ⟨stack', ?_, hkeep.trans hkeep'⟩
      simp only [printMembers, printedMembers, hprint, hrest, Option.bind_eq_bind, Option.bind_some]
    · intro hnot
      by_cases href : (ofClass && ref.isNull) = true ∨ Resolved ref
      · obtain ⟨next, hprint, hkeep⟩ := hfirst.1 href
        have hrest := (printMembers_eq level ofClass rest off next hfit.2 hkeep.1).2 fun hr => hnot ⟨href, hr⟩
        simp only [printMembers, hprint, hrest, Option.bind_eq_bind, Option.bind_some, Option.bind_none]
      · simp only [printMembers, hfirst.2 href, Option.bind_eq_bind, Option.bind_none]

end

/-! ## The sizes of the elements -/

section
variable (f g : DwarfDataType → Nat) (r r' : Nat → Bool)

mutual

theorem length_printed : ∀ (type : DwarfDataType) (off off' : BitVec 32),
    (printed f r type off).length = (printed g r' type off').length
  | .null, _, _ | .base _, _, _ | .enum _ _, _, _ | .pointer _, _, _ | .union _, _, _ => rfl
  | .typedef ref, off, off' => length_printed ref off off'
  | .struct _ members, off, off' | .class _ members, off, off' => length_printedMembers members off off'
  | .array _ dimension ref, off, off' => by
    have hlen := fun j => length_printed ref (off + BitVec.ofNat 32 (j * f ref))
      (off' + BitVec.ofNat 32 (j * g ref))
    simp only [printed, length_append, length_cons, length_flatMap, hlen]

theorem length_printedMembers : ∀ (members : DwarfDataMembers) (off off' : BitVec 32),
    (printedMembers f r members off).length = (printedMembers g r' members off').length
  | .nil, _, _ => rfl
  | .cons moff ref rest, off, off' => by
    rw [printedMembers, printedMembers, length_append, length_append,
      length_printed ref _ (off' + moff), length_printedMembers rest off off']

end

end

theorem flatMap_eq_iff {α β : Type} {A B : α → List β} (hlen : ∀ a, (A a).length = (B a).length) (l : List α) :
    l.flatMap A = l.flatMap B ↔ ∀ a ∈ l, A a = B a := by
  induction l with
  | nil => simp
  | cons a l ih =>
    rw [flatMap_cons, flatMap_cons, forall_mem_cons, ← ih]
    exact ⟨fun h => append_inj h (hlen a), fun h => by rw [h.1, h.2]⟩

theorem places_iff {n a b : Nat} (off : BitVec 32) (P : Prop) :
    (∀ j ∈ range n, off + BitVec.ofNat 32 (j * a) = off + BitVec.ofNat 32 (j * b) ∧ P) ↔
      (n = 0 ∨ P) ∧ (2 ≤ n → a % 0x100000000 = b % 0x100000000) := by
  have hplace : ∀ j, off + BitVec.ofNat 32 (j * a) = off + BitVec.ofNat 32 (j * b) ↔
      j * a % 0x100000000 = j * b % 0x100000000 := fun j => by
    rw [BitVec.add_right_inj, ← BitVec.toNat_inj, BitVec.toNat_ofNat, BitVec.toNat_ofNat]
  simp only [hplace, mem_range]
  constructor
  · intro h
    refine ⟨or_iff_not_imp_left.2 fun hn => (h 0 (Nat.pos_of_ne_zero hn)).2, fun hn => ?_⟩
    simpa using (h 1 hn).1
  · rintro ⟨hP, hsize⟩ j hj
    refine ⟨?_, hP.resolve_left (by omega)⟩
    by_cases h2 : 2 ≤ n
    · rw [Nat.mul_mod, hsize h2, ← Nat.mul_mod]
    · rw [show j = 0 by omega, Nat.zero_mul, Nat.zero_mul]

/-- What should be printed: every element at its place, every value read. -/
def expected (type : DwarfDataType) (off : BitVec 32) : List PrintEvent :=
  printed sizeOfType (fun _ => true) type off

mutual

theorem printed_eq_iff : ∀ (type : DwarfDataType) (off : BitVec 32),
    printed refSize enumRead type off = printed sizeOfType (fun _ => true) type off ↔ SizesKnown type
  | .null, _ | .base _, _ | .pointer _, _ | .union _, _ => iff_of_true rfl trivial
  | .enum size _, off => by
    simp only [printed, SizesKnown]
    cases enumRead size <;> simp
  | .typedef ref, off => printed_eq_iff ref off
  | .struct _ members, off | .class _ members, off => printedMembers_eq_iff members off
  | .array _ dimension ref, off => by
    have hlen := fun j => length_printed refSize sizeOfType enumRead (fun _ => true) ref
      (off + BitVec.ofNat 32 (j * refSize ref)) (off + BitVec.ofNat 32 (j * sizeOfType ref))
    rw [printed, printed, SizesKnown, append_cancel_right_eq, cons_inj_right,
      flatMap_eq_iff (fun j => by rw [length_cons, length_cons, hlen]), ← places_iff off]
    refine forall₂_congr fun j _ => ?_
    rw [cons.injEq, PrintEvent.element.injEq]
    constructor
    · rintro ⟨⟨-, hoff⟩, hvalue⟩
      rw [hoff] at hvalue
      exact ⟨hoff, (printed_eq_iff ref _).1 hvalue⟩
    · rintro ⟨hoff, hknown⟩
      change off + BitVec.ofNat 32 (j * refSize ref) = _ at hoff
      rw [hoff]
      exact ⟨⟨rfl, rfl⟩, (printed_eq_iff ref _).2 hknown⟩

theorem printedMembers_eq_iff : ∀ (members : DwarfDataMembers) (off : BitVec 32),
    printedMembers refSize enumRead members off = printedMembers sizeOfType (fun _ => true) members off ↔
      MembersKnown members
  | .nil, _ => iff_of_true rfl trivial
  | .cons moff ref rest, off => by
    rw [printedMembers, printedMembers, MembersKnown, ← printed_eq_iff ref (off + moff),
      ← printedMembers_eq_iff rest off]
    exact ⟨fun h => append_inj h (length_printed _ _ _ _ ref _ _), fun h => by rw [h.1, h.2]⟩

end

/-- **The elements of an array.** All elements, at all levels of nesting, are printed with their indices
and at their places exactly if no NULL is followed, every enumeration is of a size that is read, and the sizes
of the elements are known where two of them are printed. -/
theorem print_array_type_data_iff {size : Nat} {dimension : List Nat} {ref : DwarfDataType} (off : BitVec 32)
    {level : Nat} {stack : IndexStack} (hfit : TotalsFit (.array size dimension ref))
    (hlevel : level ≤ stack.length) :
    (printAnyDataType level (.array size dimension ref) off stack).map (·.1) =
        some (expected (.array size dimension ref) off) ↔
      Resolved (.array size dimension ref) ∧ SizesKnown (.array size dimension ref) := by
  have hprints := printAnyDataType_eq level _ off stack hfit hlevel
  by_cases hr : Resolved (.array size dimension ref)
  · obtain ⟨stack', hprint, -⟩ := hprints.1 hr
    rw [hprint, Option.map_some, Option.some_inj, and_iff_right hr]
    exact printed_eq_iff _ off
  · rw [hprints.2 hr, Option.map_none]
    exact iff_of_false nofun fun h => hr h.1

/-- A struct with an array, a class with a method, an enumeration and a typedef that was not resolved. -/
def structWithArray : DwarfDataType :=
  .struct 16 (.cons 0 (elfDwarfBuildArrayType [1] (.base 4)) (.cons 8 (.class 4 (.cons 0 .null
    (.cons 0 (.base 4) .nil))) (.cons 12 (.enum 4 2) (.cons 12 (.typedef .null) .nil))))

theorem print_array_type_data_struct :
    (printAnyDataType 0 (elfDwarfBuildArrayType [1, 2] (.typedef structWithArray)) 0 []).map (·.1) =
      some (expected (elfDwarfBuildArrayType [1, 2] (.typedef structWithArray)) 0) := by
  have hfit : TotalsFit (elfDwarfBuildArrayType [1, 2] (.typedef structWithArray)) := by
    simp [elfDwarfBuildArrayType, structWithArray, TotalsFit, MembersFit, elementNum]
  have hresolved : Resolved (elfDwarfBuildArrayType [1, 2] (.typedef structWithArray)) := by
    simp [elfDwarfBuildArrayType, structWithArray, Resolved, MembersResolved, getRefTypesize,
      DwarfDataType.isNull, DwarfDataMembers.isNull]
  have hknown : SizesKnown (elfDwarfBuildArrayType [1, 2] (.typedef structWithArray)) := by
    simp [elfDwarfBuildArrayType, structWithArray, SizesKnown, MembersKnown, getRefTypesize, sizeOfType, enumRead]
  exact (print_array_type_data_iff 0 hfit (Nat.zero_le _)).2 ⟨hresolved, hknown⟩

/-- Both elements of an array of a class, or of an array of arrays, are printed at one place. The elements of an
array of structs without data members are not printed at all: the first of them follows NULL. -/
theorem print_array_type_data_class :
    (printAnyDataType 0 (elfDwarfBuildArrayType [1] (.class 8 .nil)) 0 []).map (·.1) =
      some [.arrayBegin, .element [0] 0, .element [1] 0, .arrayEnd] ∧
    expected (elfDwarfBuildArrayType [1] (.class 8 .nil)) 0 =
      [.arrayBegin, .element [0] 0, .element [1] 8, .arrayEnd] ∧
    (printAnyDataType 0 (elfDwarfBuildArrayType [1] (elfDwarfBuildArrayType [0] (.base 4))) 0 []).map (·.1) =
      some [.arrayBegin, .element [0] 0, .arrayBegin, .element [0] 0, .value 0, .arrayEnd,
        .element [1] 0, .arrayBegin, .element [0] 0, .value 0, .arrayEnd, .arrayEnd] ∧
    printAnyDataType 0 (elfDwarfBuildArrayType [2] (.struct 1 .nil)) 0 [] = none ∧
    expected (elfDwarfBuildArrayType [2] (.struct 1 .nil)) 0 =
      [.arrayBegin, .element [0] 0, .element [1] 1, .element [2] 2, .arrayEnd] ∧
    printAnyDataType 0 (elfDwarfBuildArrayType [1] (.struct 4 (.cons 0 .null .nil))) 0 [] = none := by
  decide

end Athrill
