import Athrill.Dwarf.Util
import Athrill.File

/-!
# Location lists (`lib/dwarf/elf_dwarf_loc.c`)

`.debug_loc` holds location lists: entries with a range of addresses and a block of location operations, and
an entry of two zeros at the end of each list. Bytes behind the section read as zeros. Main result:
`elf_dwarf_loc_select_iff`.
-/

namespace Athrill

open Option BitVec Bytes

/-! ## Loading -/

structure ElfDwarfLocEntryType where
  entryOffset : Nat
  entrySize : Nat
  relativeAddress0 : BitVec 32
  relativeAddress1 : BitVec 32
  blockLength : Nat
  blocks : Option Nat
  next : Option Nat
  deriving DecidableEq, Repr

def ElfDwarfLocEntryType.isEnd (entry : ElfDwarfLocEntryType) : Bool :=
  entry.relativeAddress0 = 0 ∧ entry.relativeAddress1 = 0

def elfDwarfLocAlloc (rawData : List UInt8) (off : Nat) : ElfDwarfLocEntryType :=
  let relativeAddress0 := BitVec.ofNat 32 (elfGetData32 rawData 0)
  let relativeAddress1 := BitVec.ofNat 32 (elfGetData32 rawData 4)
  if relativeAddress0 = 0 ∧ relativeAddress1 = 0 then
    ⟨off, 8, relativeAddress0, relativeAddress1, 0, none, none⟩
  else
    let blockLength := elfGetData16 rawData 8
    ⟨off, 10 + blockLength, relativeAddress0, relativeAddress1, blockLength, some (off + 10), none⟩

def addLocEntry (lists : List ElfDwarfLocEntryType) (entry : ElfDwarfLocEntryType) :
    List ElfDwarfLocEntryType :=
  lists.modify (lists.length - 1)
    (fun prev => { prev with next := if prev.isEnd then none else some lists.length }) ++ [entry]

def locLoop (data : List UInt8) : Nat → Nat → List ElfDwarfLocEntryType → Option (List ElfDwarfLocEntryType)
  | 0, off, lists => if off < data.length then none else some lists
  | n + 1, off, lists =>
    if off < data.length then
      let entry := elfDwarfLocAlloc (data.drop off) off
      locLoop data n (u32 (off + entry.entrySize)) (addLocEntry lists entry)
    else some lists

def elfDwarfLocLoad (debugLoc : Except StdReturnType (List UInt8)) :
    Option (StdReturnType × List ElfDwarfLocEntryType) :=
  match debugLoc with
  | .error err => some (err, [])
  | .ok data => (locLoop data data.length 0 []).map fun lists => (.ok, lists)

/-! ## Searches -/

def searchLocationFrom (off : Nat) : List ElfDwarfLocEntryType → Nat → Option (Option Nat)
  | [], _ => none
  | entry :: entries, i => if entry.entryOffset = off then some (some i) else searchLocationFrom off entries (i + 1)

def searchLocationEntry (lists : List ElfDwarfLocEntryType) (off : Nat) : Option (Option Nat) :=
  if lists.length = 0 then some none else searchLocationFrom off lists 0

def ElfDwarfLocEntryType.inRange (loc : ElfDwarfLocEntryType) (off pc : BitVec 32) : Bool :=
  let range := loc.relativeAddress1 - loc.relativeAddress0
  let saddr := off
  let eaddr := off + range
  saddr ≤ pc ∧ pc < eaddr

def locOnPc (lists : List ElfDwarfLocEntryType) (pc : BitVec 32) :
    Nat → Option Nat → BitVec 32 → Option (Option ElfDwarfLocEntryType)
  | 0, _, _ => none
  | _ + 1, none, _ => some none
  | n + 1, some i, off =>
    match lists[i]? with
    | none => none
    | some loc =>
      if loc.inRange off pc then some (some loc)
      else locOnPc lists pc n loc.next (off + (loc.relativeAddress1 - loc.relativeAddress0))

def fbregEntry (lists : List ElfDwarfLocEntryType) (frameLocOffset : Nat) (pc funcaddr : BitVec 32) :
    Option ElfDwarfLocEntryType := do
  let loc ← (searchLocationEntry lists frameLocOffset).join
  (locOnPc lists pc (lists.length + 1) (some loc) funcaddr).join

/-- `*vaddr` from the entry found, where its block begins with `DW_OP_breg0` to `DW_OP_breg31`. -/
def fbregAddress (data ops : List UInt8) (register : Nat → BitVec 32) (loc : ElfDwarfLocEntryType) :
    Option (BitVec 32) := do
  let value1 := (elfDwarfDecodeSleb128 (ops.drop 1)).1
  let blocks := data.drop (← loc.blocks)
  let op := (blocks.headD 0).toNat
  if 0x70 ≤ op ∧ op ≤ 0x8f then
    let value2 := (elfDwarfDecodeSleb128 (blocks.drop 1)).1
    some (register (op - 0x70) + BitVec.ofInt 32 value1 + BitVec.ofInt 32 value2)
  else none

def elfDwarfLocCompileFbreg (data : List UInt8) (lists : List ElfDwarfLocEntryType) (frameLocOffset : Nat)
    (ops : List UInt8) (register : Nat → BitVec 32) (pc funcaddr : BitVec 32) : Option (BitVec 32) :=
  (fbregEntry lists frameLocOffset pc funcaddr).bind (fbregAddress data ops register)

/-! ## Links -/

def LocLinked (lists : List ElfDwarfLocEntryType) : Prop :=
  ∀ i e, lists[i]? = some e →
    e.next = if e.isEnd ∨ i + 1 = lists.length then none else some (i + 1)

variable {lists : List ElfDwarfLocEntryType}

theorem LocLinked.add (h : LocLinked lists)
    {entry : ElfDwarfLocEntryType} (hnext : entry.next = none) : LocLinked (addLocEntry lists entry) := by
  intro i e he
  have hlen : (addLocEntry lists entry).length = lists.length + 1 := by simp [addLocEntry]
  rw [hlen]
  unfold addLocEntry at he
  rcases Nat.lt_trichotomy i lists.length with hlt | rfl | hgt
  · rw [List.getElem?_append_left (by rwa [List.length_modify]), List.getElem?_modify,
      List.getElem?_eq_getElem hlt, map_eq_map, map_some, some.injEq] at he
    have hold := h i _ (List.getElem?_eq_getElem hlt)
    by_cases hlast : lists.length - 1 = i
    · -- the entry that was the last one is linked to the new one
      rw [if_pos hlast] at he
      subst he
      have hi : lists.length = i + 1 := by omega
      simp [ElfDwarfLocEntryType.isEnd, hi]
    · rw [if_neg hlast] at he
      subst he
      have hnot : ¬ i + 1 = lists.length + 1 := by omega
      have hnot' : ¬ i + 1 = lists.length := by omega
      simpa only [hnot, hnot', or_false] using hold
  · rw [List.getElem?_append_right (by rw [List.length_modify]), List.length_modify, Nat.sub_self] at he
    cases he
    rw [hnext, if_pos (.inr rfl)]
  · rw [List.getElem?_eq_none (by simp; omega)] at he
    cases he

theorem elfDwarfLocAlloc_next (rawData : List UInt8) (off : Nat) : (elfDwarfLocAlloc rawData off).next = none := by
  unfold elfDwarfLocAlloc
  dsimp only
  split <;> rfl

theorem elfDwarfLocAlloc_entrySize (rawData : List UInt8) (off : Nat) :
    8 ≤ (elfDwarfLocAlloc rawData off).entrySize ∧ (elfDwarfLocAlloc rawData off).entrySize < 10 + 2 ^ 16 := by
  have hlength : elfGetData16 rawData 8 < 2 ^ 16 := leAt_lt rawData 8 2
  unfold elfDwarfLocAlloc
  dsimp only
  split <;> dsimp only <;> omega

theorem LocLinked.locLoop {data : List UInt8} {n off : Nat} {lists' : List ElfDwarfLocEntryType}
    (h : LocLinked lists) (hloop : locLoop data n off lists = some lists') : LocLinked lists' := by
  induction n generalizing off lists with
  | zero =>
    rw [Athrill.locLoop] at hloop
    split_ifs at hloop
    rwa [← some.inj hloop]
  | succ n ih =>
    rw [Athrill.locLoop] at hloop
    split_ifs at hloop
    · exact ih (h.add (elfDwarfLocAlloc_next _ _)) hloop
    · rwa [← some.inj hloop]

theorem LocLinked.of_load {data : List UInt8} (hload : elfDwarfLocLoad (.ok data) = some (.ok, lists)) :
    LocLinked lists := by
  obtain ⟨lists', hloop, hlists⟩ := map_eq_some_iff.1 hload
  rw [← (Prod.mk.inj hlists).2]
  exact locLoop (fun i e he => by cases he) hloop

/-- In a file of this size the offset does not wrap around, so the loop ends. -/
theorem exists_elfDwarfLocLoad {data : List UInt8} (hsize : data.length ≤ maxLoadFileSize) :
    ∃ lists, elfDwarfLocLoad (.ok data) = some (.ok, lists) := by
  have hbound : data.length ≤ 2 ^ 30 := hsize
  have hloop : ∀ n off lists, data.length ≤ off + n → ∃ lists', locLoop data n off lists = some lists' := by
    intro n
    induction n with
    | zero =>
      intro off lists hn
      exact ⟨lists, if_neg (by omega)⟩
    | succ n ih =>
      intro off lists hn
      obtain ⟨hmin, hmax⟩ := elfDwarfLocAlloc_entrySize (data.drop off) off
      rw [locLoop]
      split_ifs with hlt
      · refine ih _ _ ?_
        rw [u32, Nat.mod_eq_of_lt (by omega)]
        omega
      · exact ⟨lists, rfl⟩
  obtain ⟨lists, hlists⟩ := hloop data.length 0 [] (by omega)
  exact ⟨lists, by rw [elfDwarfLocLoad, hlists, map_some]⟩

/-! ## The entry at an offset -/

theorem searchLocationFrom_eq (off : Nat) (entries : List ElfDwarfLocEntryType) (i : Nat) :
    searchLocationFrom off entries i =
      (entries.findIdx? (·.entryOffset == off)).map fun k => some (k + i) := by
  induction entries generalizing i with
  | nil => rfl
  | cons entry entries ih =>
    rw [searchLocationFrom, List.findIdx?_cons]
    by_cases h : entry.entryOffset = off
    · simp [h]
    · simp only [if_neg h, ih, beq_eq_false_iff_ne.2 h, Bool.false_eq_true, if_false, map_map]
      congr 1
      funext k
      simp only [Function.comp_apply, some.injEq]
      omega

theorem searchLocationEntry_eq_iff (lists : List ElfDwarfLocEntryType) (off : Nat) :
    searchLocationEntry lists off = some (lists.findIdx? (·.entryOffset == off)) ↔
      lists = [] ∨ ∃ e ∈ lists, e.entryOffset = off := by
  unfold searchLocationEntry
  split_ifs with hempty
  · obtain rfl := List.eq_nil_of_length_eq_zero hempty
    simp
  · rw [searchLocationFrom_eq, or_iff_right (fun h => hempty (by rw [h]; rfl))]
    cases hfind : lists.findIdx? (·.entryOffset == off) with
    | none =>
      have hnone : ¬ ∃ e ∈ lists, e.entryOffset = off := by
        rintro ⟨e, he, heq⟩
        simpa [heq] using List.findIdx?_eq_none_iff.1 hfind e he
      simp [hnone]
    | some k =>
      obtain ⟨hlt, hk, -⟩ := List.findIdx?_eq_some_iff_getElem.1 hfind
      have hsome : ∃ e ∈ lists, e.entryOffset = off := ⟨_, List.getElem_mem hlt, by simpa using hk⟩
      simp [hsome]

/-! ## The entry of a `pc` -/

def locList : List ElfDwarfLocEntryType → List ElfDwarfLocEntryType
  | [] => []
  | e :: entries => if e.isEnd then [e] else e :: locList entries

def selectRange (pc : BitVec 32) : List ElfDwarfLocEntryType → BitVec 32 → Option ElfDwarfLocEntryType
  | [], _ => none
  | e :: entries, off =>
    if e.inRange off pc then some e
    else selectRange pc entries (off + (e.relativeAddress1 - e.relativeAddress0))

theorem locOnPc_eq (hlinked : LocLinked lists) (pc : BitVec 32)
    {n k : Nat} (hk : k < lists.length) (hn : lists.length - k < n) (off : BitVec 32) :
    locOnPc lists pc n (some k) off = some (selectRange pc (locList (lists.drop k)) off) := by
  induction n generalizing k off with
  | zero => cases hn
  | succ n ih =>
    have hnext := hlinked k _ (List.getElem?_eq_getElem hk)
    rw [locOnPc, List.getElem?_eq_getElem hk, List.drop_eq_getElem_cons hk, locList]
    dsimp only
    obtain ⟨n, rfl⟩ := Nat.exists_eq_add_one_of_ne_zero (show n ≠ 0 by omega)
    by_cases hend : lists[k].isEnd = true
    · rw [if_pos (.inl hend)] at hnext
      rw [if_pos hend, selectRange, hnext]
      split_ifs <;> simp [locOnPc, selectRange]
    · rw [if_neg hend, selectRange]
      split_ifs with hrange
      · rfl
      · by_cases hlast : k + 1 = lists.length
        · rw [if_pos (.inr hlast)] at hnext
          rw [hnext, List.drop_eq_nil_of_le (Nat.le_of_eq hlast.symm)]
          simp [locOnPc, locList, selectRange]
        · rw [if_neg (by simp [hend, hlast])] at hnext
          rw [hnext]
          exact ih (by omega) (by omega) _

/-! ## Ranges -/

section
variable {first e : ElfDwarfLocEntryType} {funcaddr pc off : BitVec 32} {a : Nat}
  {l : List ElfDwarfLocEntryType}

namespace ElfDwarfLocEntryType

def Has (e : ElfDwarfLocEntryType) (a : Nat) : Prop :=
  e.relativeAddress0.toNat ≤ a ∧ a < e.relativeAddress1.toNat

def length (e : ElfDwarfLocEntryType) : Nat := e.relativeAddress1.toNat - e.relativeAddress0.toNat

def movedHas (first : ElfDwarfLocEntryType) (funcaddr pc : BitVec 32) (e : ElfDwarfLocEntryType) : Bool :=
  funcaddr.toNat + e.relativeAddress0.toNat ≤ pc.toNat + first.relativeAddress0.toNat ∧
    pc.toNat + first.relativeAddress0.toNat < funcaddr.toNat + e.relativeAddress1.toNat

end ElfDwarfLocEntryType

open ElfDwarfLocEntryType

/-- Ranges that are in order, disjoint, and inside the address space when they are moved. -/
structure LocRanges (first : ElfDwarfLocEntryType) (funcaddr : BitVec 32) (l : List ElfDwarfLocEntryType) :
    Prop where
  valid : ∀ e ∈ l, e.relativeAddress0.toNat ≤ e.relativeAddress1.toNat
  disjoint : l.Pairwise fun e e' => ∀ a, ¬ (e.Has a ∧ e'.Has a)
  low : ∀ e ∈ l, 0 < e.length → first.relativeAddress0.toNat ≤ funcaddr.toNat + e.relativeAddress0.toNat
  high : ∀ e ∈ l, 0 < e.length →
    funcaddr.toNat + e.relativeAddress1.toNat ≤ 2 ^ 32 + first.relativeAddress0.toNat

def NoGaps (first : ElfDwarfLocEntryType) (funcaddr : BitVec 32) : Nat → List ElfDwarfLocEntryType → Prop
  | _, [] => True
  | a, e :: l =>
    (0 < e.length → e.relativeAddress0.toNat = a ∧
      funcaddr.toNat + e.relativeAddress1.toNat < 2 ^ 32 + first.relativeAddress0.toNat) ∧
    NoGaps first funcaddr (a + e.length) l

def CountsTo (first : ElfDwarfLocEntryType) (funcaddr off : BitVec 32) (a : Nat) : Prop :=
  (off.toNat + first.relativeAddress0.toNat) % 2 ^ 32 = (funcaddr.toNat + a) % 2 ^ 32

theorem toNat_range (hvalid : e.relativeAddress0.toNat ≤ e.relativeAddress1.toNat) :
    (e.relativeAddress1 - e.relativeAddress0).toNat = e.length :=
  toNat_sub_of_le (le_def.2 hvalid)

theorem CountsTo.next (h : CountsTo first funcaddr off a)
    (hvalid : e.relativeAddress0.toNat ≤ e.relativeAddress1.toNat) :
    CountsTo first funcaddr (off + (e.relativeAddress1 - e.relativeAddress0)) (a + e.length) := by
  unfold CountsTo at h ⊢
  rw [toNat_add, toNat_range hvalid]
  omega

theorem inRange_iff (hvalid : e.relativeAddress0.toNat ≤ e.relativeAddress1.toNat) :
    e.inRange off pc = true ↔
      off.toNat ≤ pc.toNat ∧ pc.toNat < off.toNat + e.length ∧ off.toNat + e.length < 2 ^ 32 := by
  have hlen : e.length < 2 ^ 32 := Nat.lt_of_le_of_lt (Nat.sub_le _ _) e.relativeAddress1.isLt
  have hoff := off.isLt
  simp only [inRange, decide_eq_true_eq, le_def, lt_def, toNat_add,
    toNat_range hvalid]
  omega

theorem inRange_of_empty (hvalid : e.relativeAddress0.toNat ≤ e.relativeAddress1.toNat)
    (hempty : ¬ 0 < e.length) : e.inRange off pc = false := by
  rw [Bool.eq_false_iff, Ne, inRange_iff hvalid]
  omega

theorem movedHas_of_empty (hempty : ¬ 0 < e.length) : first.movedHas funcaddr pc e = false := by
  simp only [length] at hempty
  simp only [movedHas, decide_eq_false_iff_not]
  omega

theorem inRange_eq_movedHas (hvalid : e.relativeAddress0.toNat ≤ e.relativeAddress1.toNat)
    (hoff : off.toNat + first.relativeAddress0.toNat = funcaddr.toNat + e.relativeAddress0.toNat)
    (hend : funcaddr.toNat + e.relativeAddress1.toNat < 2 ^ 32 + first.relativeAddress0.toNat) :
    e.inRange off pc = first.movedHas funcaddr pc e := by
  rw [Bool.eq_iff_iff, inRange_iff hvalid]
  simp only [movedHas, decide_eq_true_eq, length]
  omega

theorem LocRanges.tail (hranges : LocRanges first funcaddr (e :: l)) : LocRanges first funcaddr l where
  valid e' he' := hranges.valid e' (List.mem_cons_of_mem e he')
  disjoint := (List.pairwise_cons.1 hranges.disjoint).2
  low e' he' := hranges.low e' (List.mem_cons_of_mem e he')
  high e' he' := hranges.high e' (List.mem_cons_of_mem e he')

theorem CountsTo.eq_of_begins (h : CountsTo first funcaddr off a) (hbegin : e.relativeAddress0.toNat = a)
    (hlow : first.relativeAddress0.toNat ≤ funcaddr.toNat + e.relativeAddress0.toNat)
    (hend : funcaddr.toNat + e.relativeAddress1.toNat < 2 ^ 32 + first.relativeAddress0.toNat)
    (hvalid : e.relativeAddress0.toNat ≤ e.relativeAddress1.toNat) :
    off.toNat + first.relativeAddress0.toNat = funcaddr.toNat + e.relativeAddress0.toNat := by
  have hoff := off.isLt
  unfold CountsTo at h
  omega

theorem selectRange_of_noGaps (hranges : LocRanges first funcaddr l) (hcounts : CountsTo first funcaddr off a)
    (hgaps : NoGaps first funcaddr a l) (pc : BitVec 32) :
    selectRange pc l off = l.find? (first.movedHas funcaddr pc) := by
  induction l generalizing a off with
  | nil => rfl
  | cons e l ih =>
    have hvalid := hranges.valid e List.mem_cons_self
    have hhead : e.inRange off pc = first.movedHas funcaddr pc e := by
      by_cases hempty : 0 < e.length
      · obtain ⟨hbegin, hend⟩ := hgaps.1 hempty
        have hlow := hranges.low e List.mem_cons_self hempty
        exact inRange_eq_movedHas hvalid (hcounts.eq_of_begins hbegin hlow hend hvalid) hend
      · rw [inRange_of_empty hvalid hempty, movedHas_of_empty hempty]
    rw [selectRange, List.find?_cons, hhead, ih hranges.tail (hcounts.next hvalid) hgaps.2]
    cases first.movedHas funcaddr pc e <;> rfl

theorem mem_of_selectRange (h : selectRange pc l off = some e) : e ∈ l := by
  induction l generalizing off with
  | nil => cases h
  | cons e' l ih =>
    rw [selectRange] at h
    split_ifs at h with hrange
    · rw [some.inj h]
      exact List.mem_cons_self
    · exact List.mem_cons_of_mem e' (ih h)

theorem inRange_of_selectRange (hdisjoint : (e :: l).Pairwise fun e e' => ∀ a, ¬ (e.Has a ∧ e'.Has a))
    (hhas : e.Has a) (h : selectRange pc (e :: l) off = some e) : e.inRange off pc = true := by
  rw [selectRange] at h
  split_ifs at h with hrange
  · exact hrange
  · exact absurd ⟨hhas, hhas⟩ ((List.pairwise_cons.1 hdisjoint).1 e (mem_of_selectRange h) a)

theorem exists_moved (hlow : first.relativeAddress0.toNat ≤ funcaddr.toNat + e.relativeAddress0.toNat)
    (hhigh : funcaddr.toNat + e.relativeAddress1.toNat ≤ 2 ^ 32 + first.relativeAddress0.toNat)
    (hhas : e.Has a) :
    ∃ pc : BitVec 32, pc.toNat + first.relativeAddress0.toNat = funcaddr.toNat + a := by
  obtain ⟨hle, hlt⟩ := hhas
  refine ⟨BitVec.ofNat 32 (funcaddr.toNat + a - first.relativeAddress0.toNat), ?_⟩
  rw [BitVec.toNat_ofNat, Nat.mod_eq_of_lt (by omega)]
  omega

theorem movedHas_iff (hpc : pc.toNat + first.relativeAddress0.toNat = funcaddr.toNat + a) :
    first.movedHas funcaddr pc e = true ↔ e.Has a := by
  simp only [movedHas, Has, decide_eq_true_eq, hpc]
  omega

theorem movedHas_of_disjoint {e' : ElfDwarfLocEntryType} (hdisjoint : ∀ a, ¬ (e'.Has a ∧ e.Has a))
    (hhas : first.movedHas funcaddr pc e = true) : first.movedHas funcaddr pc e' = false := by
  have hle : funcaddr.toNat ≤ pc.toNat + first.relativeAddress0.toNat := by
    simp only [movedHas, decide_eq_true_eq] at hhas
    omega
  obtain ⟨a, hpc⟩ := Nat.exists_eq_add_of_le hle
  rw [Bool.eq_false_iff, Ne, movedHas_iff hpc]
  exact fun hhas' => hdisjoint a ⟨hhas', (movedHas_iff hpc).1 hhas⟩

theorem begins_of_selectRange (hranges : LocRanges first funcaddr (e :: l)) (hpos : 0 < e.length)
    (hcounts : CountsTo first funcaddr off a) (ha : a < 2 ^ 32)
    (hselect : ∀ pc, first.movedHas funcaddr pc e = true → selectRange pc (e :: l) off = some e) :
    e.relativeAddress0.toNat = a ∧
      funcaddr.toNat + e.relativeAddress1.toNat < 2 ^ 32 + first.relativeAddress0.toNat ∧
      off.toNat + first.relativeAddress0.toNat = funcaddr.toNat + e.relativeAddress0.toNat := by
  have hvalid := hranges.valid e List.mem_cons_self
  have hlow := hranges.low e List.mem_cons_self hpos
  have hhigh := hranges.high e List.mem_cons_self hpos
  have hrange : ∀ a, e.Has a → ∃ pc : BitVec 32,
      pc.toNat + first.relativeAddress0.toNat = funcaddr.toNat + a ∧ e.inRange off pc = true := by
    intro a hhas
    obtain ⟨pc, hpc⟩ := exists_moved hlow hhigh hhas
    exact ⟨pc, hpc, inRange_of_selectRange hranges.disjoint hhas (hselect pc ((movedHas_iff hpc).2 hhas))⟩
  simp only [length] at hpos
  obtain ⟨start, hstart, hfirst⟩ := hrange e.relativeAddress0.toNat ⟨Nat.le_refl _, by omega⟩
  obtain ⟨stop, hstop, hlast⟩ := hrange (e.relativeAddress1.toNat - 1) ⟨by omega, by omega⟩
  rw [inRange_iff hvalid] at hfirst hlast
  have hoff : off.toNat + first.relativeAddress0.toNat = funcaddr.toNat + e.relativeAddress0.toNat := by
    simp only [length] at hlast
    omega
  have hbegin := e.relativeAddress0.isLt
  refine ⟨?_, ?_, hoff⟩
  · unfold CountsTo at hcounts
    omega
  · simp only [length] at hlast
    omega

theorem noGaps_of_selectRange (hranges : LocRanges first funcaddr l) (hcounts : CountsTo first funcaddr off a)
    (ha : a < 2 ^ 32) (seen : List ElfDwarfLocEntryType)
    (hseen : ∀ e ∈ l, ∀ e' ∈ seen, ∀ a, ¬ (e'.Has a ∧ e.Has a))
    (hselect : ∀ pc, (∀ e' ∈ seen, first.movedHas funcaddr pc e' = false) →
      selectRange pc l off = l.find? (first.movedHas funcaddr pc)) : NoGaps first funcaddr a l := by
  -- an address of a range that was seen says nothing about the rest of the list
  induction l generalizing a off seen with
  | nil => trivial
  | cons e l ih =>
    have hvalid := hranges.valid e List.mem_cons_self
    have hdisjoint := (List.pairwise_cons.1 hranges.disjoint).1
    have hrest : ∀ e'' ∈ l, ∀ e' ∈ e :: seen, ∀ a, ¬ (e'.Has a ∧ e''.Has a) :=
      fun e'' he'' => List.forall_mem_cons.2
        ⟨hdisjoint e'' he'', hseen e'' (List.mem_cons_of_mem e he'')⟩
    have hbegins : 0 < e.length → _ := fun hpos =>
      begins_of_selectRange hranges hpos hcounts ha fun pc hhas => by
        rw [hselect pc fun e' he' => movedHas_of_disjoint (hseen e List.mem_cons_self e' he') hhas,
          List.find?_cons, hhas]
    have hhead : ∀ pc, e.inRange off pc = first.movedHas funcaddr pc e := by
      intro pc
      by_cases hpos : 0 < e.length
      · obtain ⟨-, hend, hoff⟩ := hbegins hpos
        exact inRange_eq_movedHas hvalid hoff hend
      · rw [inRange_of_empty hvalid hpos, movedHas_of_empty hpos]
    have ha' : a + e.length < 2 ^ 32 := by
      by_cases hpos : 0 < e.length
      · have hlt := e.relativeAddress1.isLt
        rw [← (hbegins hpos).1, length]
        omega
      · omega
    refine ⟨fun hpos => ⟨(hbegins hpos).1, (hbegins hpos).2.1⟩,
      ih hranges.tail (hcounts.next hvalid) ha' (e :: seen) hrest fun pc hpc => ?_⟩
    obtain ⟨hmoved, hpc⟩ := List.forall_mem_cons.1 hpc
    have h := hselect pc hpc
    rwa [selectRange, hhead, List.find?_cons, hmoved, if_neg Bool.false_ne_true] at h

theorem selectRange_iff (hranges : LocRanges first funcaddr l) :
    (∀ pc, selectRange pc l funcaddr = l.find? (first.movedHas funcaddr pc)) ↔
      NoGaps first funcaddr first.relativeAddress0.toNat l :=
  ⟨fun h => noGaps_of_selectRange hranges rfl first.relativeAddress0.isLt [] (by simp) fun pc _ => h pc,
    fun h pc => selectRange_of_noGaps hranges rfl h pc⟩

end

theorem fbregEntry_eq (hlinked : LocLinked lists) {off k : Nat}
    (hfind : lists.findIdx? (·.entryOffset == off) = some k) (pc funcaddr : BitVec 32) :
    fbregEntry lists off pc funcaddr = selectRange pc (locList (lists.drop k)) funcaddr := by
  obtain ⟨hlt, hoff, -⟩ := List.findIdx?_eq_some_iff_getElem.1 hfind
  have hthere : ∃ e ∈ lists, e.entryOffset = off := ⟨_, List.getElem_mem hlt, by simpa using hoff⟩
  have hsearch := (searchLocationEntry_eq_iff lists off).2 (.inr hthere)
  simp only [fbregEntry, hsearch, hfind, join_some, bind_eq_bind, bind_some]
  rw [locOnPc_eq hlinked pc hlt (by omega), join_some]

/-- The load of a file ends. `search_location_entry` stays inside the entries and finds the one at the offset, or
none, exactly if there are no entries or one at the offset. From the entry at an offset, for ranges as a location
list has them, the entry whose moved range contains `pc` is selected for every `pc` exactly if the list has no
gaps; the address is then computed from that entry. -/
theorem elf_dwarf_loc_select_iff (data : List UInt8) :
    (data.length ≤ maxLoadFileSize → ∃ lists, elfDwarfLocLoad (.ok data) = some (.ok, lists)) ∧
    ∀ lists, elfDwarfLocLoad (.ok data) = some (.ok, lists) →
      (∀ off, searchLocationEntry lists off = some (lists.findIdx? (·.entryOffset == off)) ↔
        lists = [] ∨ ∃ e ∈ lists, e.entryOffset = off) ∧
      ∀ off k first funcaddr, lists.findIdx? (·.entryOffset == off) = some k → lists[k]? = some first →
        LocRanges first funcaddr (locList (lists.drop k)) →
        ((∀ pc, fbregEntry lists off pc funcaddr =
            (locList (lists.drop k)).find? (first.movedHas funcaddr pc)) ↔
          NoGaps first funcaddr first.relativeAddress0.toNat (locList (lists.drop k))) ∧
        (NoGaps first funcaddr first.relativeAddress0.toNat (locList (lists.drop k)) →
          ∀ ops register pc, elfDwarfLocCompileFbreg data lists off ops register pc funcaddr =
            ((locList (lists.drop k)).find? (first.movedHas funcaddr pc)).bind (fbregAddress data ops register)) := by
  refine ⟨exists_elfDwarfLocLoad, fun lists hload => ⟨searchLocationEntry_eq_iff lists, ?_⟩⟩
  intro off k first funcaddr hfind _ hranges
  have hselect := fbregEntry_eq (.of_load hload) hfind
  refine ⟨?_, fun hgaps ops register pc => ?_⟩
  · rw [← selectRange_iff hranges]
    exact forall_congr' fun pc => by rw [hselect]
  · rw [elfDwarfLocCompileFbreg, hselect, (selectRange_iff hranges).2 hgaps]

def sampleLoc (begins : UInt8) : List UInt8 :=
  [0, 0, 0, 0, 4, 0, 0, 0, 2, 0, 0x73, 0] ++ [begins, 0, 0, 0, begins + 4, 0, 0, 0, 2, 0, 0x73, 4] ++
    [0, 0, 0, 0, 0, 0, 0, 0]

def sampleFirst : ElfDwarfLocEntryType := ⟨0, 12, 0, 4, 2, some 10, some 1⟩

def sampleSecond (begins : BitVec 32) : ElfDwarfLocEntryType :=
  ⟨12, 12, begins, begins + 4, 2, some 22, some 2⟩

def sampleLists (begins : BitVec 32) : List ElfDwarfLocEntryType :=
  [sampleFirst, sampleSecond begins, ⟨24, 8, 0, 0, 0, none, none⟩]

theorem locRanges_sample {begins : BitVec 32} (hlow : 4 ≤ begins.toNat) (hhigh : begins.toNat ≤ 8) :
    LocRanges sampleFirst 0x100 (sampleLists begins) := by
  constructor <;>
    simp [sampleLists, sampleFirst, sampleSecond, ElfDwarfLocEntryType.Has, ElfDwarfLocEntryType.length] <;>
    omega

/-- The second range begins eight addresses after the first one. The loop has no entry for its addresses, and
an offset that is not there is searched behind the entries. -/
theorem elf_dwarf_loc_select_gap :
    ∃ lists, elfDwarfLocLoad (.ok (sampleLoc 8)) = some (.ok, lists) ∧ searchLocationEntry lists 4 = none ∧
      LocRanges sampleFirst 0x100 (locList lists) ∧
      (locList lists).find? (sampleFirst.movedHas 0x100 0x108) = some (sampleSecond 8) ∧
      fbregEntry lists 0 0x108 0x100 = none :=
  ⟨sampleLists 8, by decide +kernel, by decide, locRanges_sample (by decide) (by decide), by decide, by decide⟩

theorem elf_dwarf_loc_select_iff_no_gap :
    ∃ lists, elfDwarfLocLoad (.ok (sampleLoc 4)) = some (.ok, lists) ∧
      ∀ pc, fbregEntry lists 0 pc 0x100 = (locList lists).find? (sampleFirst.movedHas 0x100 pc) := by
  have hload : elfDwarfLocLoad (.ok (sampleLoc 4)) = some (.ok, sampleLists 4) := by decide +kernel
  obtain ⟨-, hselect⟩ := (elf_dwarf_loc_select_iff (sampleLoc 4)).2 _ hload
  refine ⟨_, hload, (hselect 0 0 sampleFirst 0x100 (by decide) rfl ?_).1.2 ?_⟩
  · exact locRanges_sample (by decide) (by decide)
  · simp [sampleLists, locList, sampleFirst, sampleSecond, NoGaps, ElfDwarfLocEntryType.length,
      ElfDwarfLocEntryType.isEnd]

end Athrill
