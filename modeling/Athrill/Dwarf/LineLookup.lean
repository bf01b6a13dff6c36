import Athrill.StdTypes

/-!
# The line of an address (`lib/dwarf/file_address_mapping.c`)

`file_address_mapping_get` passes over the entries in the order in which they were added and keeps the
nearest one below the address, with its distance in a `uint32` that begins as `0xFFFFFFFF`. Main result:
`file_address_mapping_get_iff`.
-/

namespace Athrill

open List BitVec

variable {W : Nat}

structure KeyValueMappingType where
  addr : Nat
  dir : List UInt8
  file : List UInt8
  line : Nat
  deriving DecidableEq, Repr

def KeyValueMappingType.key (W : Nat) (map : KeyValueMappingType) : AthrillAddrType W :=
  BitVec.ofNat W map.addr

def mappingLoop (addr : AthrillAddrType W) : Option KeyValueMappingType → UInt32 →
    List KeyValueMappingType → Option KeyValueMappingType
  | last, _, [] => last
  | last, min, map :: maps =>
    if addr > map.key W then
      if (addr - map.key W).toNat < min.toNat then
        mappingLoop addr (some map) (UInt32.ofNat (addr - map.key W).toNat) maps
      else mappingLoop addr last min maps
    else if addr = map.key W then some map
    else mappingLoop addr last min maps

def fileAddressMappingGet (addr : AthrillAddrType W) (maps : List KeyValueMappingType) :
    Option KeyValueMappingType :=
  mappingLoop addr none 0xFFFFFFFF maps

def Nearest (addr : AthrillAddrType W) (maps : List KeyValueMappingType) :
    Option KeyValueMappingType → Prop
  | none => ∀ m ∈ maps, addr < m.key W
  | some m => maps.find? (·.key W = addr) = some m ∨
    (∀ m' ∈ maps, m'.key W ≠ addr) ∧ m.key W < addr ∧
      (∀ m' ∈ maps, m'.key W < addr → m'.key W ≤ m.key W) ∧
      maps.find? (·.key W = m.key W) = some m

def MappingInv (addr : AthrillAddrType W) (seen : List KeyValueMappingType)
    (last : Option KeyValueMappingType) (min : UInt32) : Prop :=
  (∀ m ∈ seen, m.key W ≠ addr ∧
    (m.key W < addr → min.toNat ≤ addr.toNat - (m.key W).toNat)) ∧
  match last with
  | none => min = 0xFFFFFFFF
  | some m => m.key W < addr ∧ min.toNat = addr.toNat - (m.key W).toNat ∧ min.toNat < 0xFFFFFFFF ∧
    seen.find? (·.key W = m.key W) = some m

section
variable {addr : AthrillAddrType W} {seen : List KeyValueMappingType} {map : KeyValueMappingType}
  {last : Option KeyValueMappingType} {min : UInt32}

theorem MappingInv.skip (h : MappingInv addr seen last min) (hne : map.key W ≠ addr)
    (hmin : map.key W < addr → min.toNat ≤ addr.toNat - (map.key W).toNat) :
    MappingInv addr (seen ++ [map]) last min := by
  refine ⟨forall_mem_append.2 ⟨h.1, forall_mem_singleton.2 ⟨hne, hmin⟩⟩, ?_⟩
  cases last with
  | none => exact h.2
  | some m =>
    obtain ⟨hlt, hdist, hbound, hfind⟩ := h.2
    exact ⟨hlt, hdist, hbound, by rw [find?_append, hfind]; rfl⟩

theorem MappingInv.take (h : MappingInv addr seen last min) (hlt : map.key W < addr)
    (hnear : (addr - map.key W).toNat < min.toNat) :
    MappingInv addr (seen ++ [map]) (some map) (UInt32.ofNat (addr - map.key W).toNat) := by
  have hmin := min.toNat_lt
  have hval : (UInt32.ofNat (addr - map.key W).toNat).toNat = addr.toNat - (map.key W).toNat := by
    rw [UInt32.toNat_ofNat', Nat.mod_eq_of_lt (by omega),
      toNat_sub_of_le (le_of_lt hlt)]
  rw [toNat_sub_of_le (le_of_lt hlt)] at hnear
  refine ⟨forall_mem_append.2 ⟨fun m hm => ⟨(h.1 m hm).1, fun hm' => ?_⟩,
    forall_mem_singleton.2 ⟨ne_of_lt hlt, fun _ => hval.le⟩⟩, hlt, hval, by omega, ?_⟩
  · rw [hval]
    exact hnear.le.trans ((h.1 m hm).2 hm')
  · have hfresh : seen.find? (·.key W = map.key W) = none := by
      refine find?_eq_none.2 fun m hm hkey => ?_
      have hfar := (h.1 m hm).2
      rw [of_decide_eq_true hkey] at hfar
      exact absurd (hfar hlt) (not_le.2 hnear)
    rw [find?_append, hfresh]
    simp

theorem mappingLoop_result (maps : List KeyValueMappingType) (h : MappingInv addr seen last min) :
    (∃ m, mappingLoop addr last min maps = some m ∧
      (seen ++ maps).find? (·.key W = addr) = some m) ∨
    ∃ min', MappingInv addr (seen ++ maps) (mappingLoop addr last min maps) min' := by
  induction maps generalizing seen last min with
  | nil => exact .inr ⟨min, by rwa [append_nil]⟩
  | cons map maps ih =>
    rw [append_cons, mappingLoop]
    by_cases hlt : map.key W < addr
    · rw [if_pos hlt]
      split_ifs with hnear
      · exact ih (h.take hlt hnear)
      · rw [toNat_sub_of_le (le_of_lt hlt)] at hnear
        exact ih (h.skip (ne_of_lt hlt) fun _ => not_lt.1 hnear)
    · rw [if_neg hlt]
      split_ifs with heq
      · refine .inl ⟨map, rfl, ?_⟩
        have hnone : seen.find? (·.key W = addr) = none :=
          find?_eq_none.2 fun m hm hkey => (h.1 m hm).1 (of_decide_eq_true hkey)
        rw [find?_append, find?_append, hnone]
        simp [heq]
      · exact ih (h.skip (Ne.symm heq) fun hlt' => absurd hlt' hlt)

end

/-- The result is the expected one unless there is no entry with the address, there is one below it,
and all of those are `0xFFFFFFFF` or farther away. -/
theorem file_address_mapping_get_iff (addr : AthrillAddrType W) (maps : List KeyValueMappingType) :
    Nearest addr maps (fileAddressMappingGet addr maps) ↔
      ¬ ((∀ m ∈ maps, m.key W ≠ addr) ∧ (∃ m ∈ maps, m.key W < addr) ∧
        ∀ m ∈ maps, m.key W < addr → 0xFFFFFFFF ≤ addr.toNat - (m.key W).toNat) := by
  have hstart : MappingInv addr [] none 0xFFFFFFFF := ⟨nofun, rfl⟩
  rw [fileAddressMappingGet]
  obtain ⟨m, hget, hfind⟩ | ⟨min, hinv⟩ := mappingLoop_result maps hstart
  · rw [hget]
    refine iff_of_true (.inl hfind) fun hno => ?_
    exact hno.1 m (mem_of_find?_eq_some hfind) (by simpa using find?_some hfind)
  · rw [nil_append] at hinv
    generalize mappingLoop addr none 0xFFFFFFFF maps = r at hinv
    obtain ⟨hseen, hlast⟩ := hinv
    cases r with
    | none =>
      have hmin : min.toNat = 0xFFFFFFFF := by rw [hlast]; rfl
      rw [hmin] at hseen
      constructor
      · rintro hnear ⟨-, ⟨m, hm, hlt⟩, -⟩
        exact absurd hlt (not_lt.2 (le_of_lt (hnear m hm)))
      · intro hno m hm
        by_contra hle
        refine hno ⟨fun m' hm' => (hseen m' hm').1, ⟨m, hm, ?_⟩, fun m' hm' => (hseen m' hm').2⟩
        exact BitVec.lt_of_le_ne (BitVec.not_lt.1 hle) (hseen m hm).1
    | some m =>
      obtain ⟨hlt, hdist, hbound, hfind⟩ := hlast
      refine iff_of_true (.inr ⟨fun m' hm' => (hseen m' hm').1, hlt, fun m' hm' hlt' => ?_, hfind⟩)
        fun hno => ?_
      · have hfar := (hseen m' hm').2 hlt'
        rw [lt_def] at hlt hlt'
        rw [le_def]
        omega
      · have hfar := hno.2.2 m (mem_of_find?_eq_some hfind) hlt
        omega

/-- An entry at address 0 and none between: the last address of a 32-bit address space has no line, and
neither has one of a 64-bit address space that is 4 GiB away. -/
theorem file_address_mapping_get_far :
    (let addr : AthrillAddrType 32 := 0xFFFFFFFF
     ¬ Nearest addr [⟨0, [], [], 1⟩] (fileAddressMappingGet addr [⟨0, [], [], 1⟩])) ∧
    (let addr : AthrillAddrType 64 := 0x100000000
     ¬ Nearest addr [⟨0, [], [], 1⟩] (fileAddressMappingGet addr [⟨0, [], [], 1⟩])) := by
  refine ⟨fun h => ?_, fun h => ?_⟩
  · exact absurd (h ⟨0, [], [], 1⟩ (.head _)) (by decide)
  · exact absurd (h ⟨0, [], [], 1⟩ (.head _)) (by decide)

end Athrill
