import Athrill.Mpu.MallocCount
import Mathlib.Data.Fintype.Prod

/-!
# The blocks of the guest allocator

What the guest sees of the allocator is a set of blocks, each free or live. Main result:
`malloc_blocks_correct`.
-/

namespace Athrill

open Bitmap Machine List MallocRegionType

variable {W : Nat}

/-! ## Blocks -/

structure MallocBlock where
  group : Nat
  size : MallocSizeType
  index : Nat
  deriving DecidableEq

section
variable (starts : List (MallocSizeType → AthrillAddrType W))

def mallocUnitStart (group : Nat) (size : MallocSizeType) : Nat :=
  ((starts.getD group fun _ => 0) size).toNat

def UnitsDisjoint : Prop :=
  ∀ g < starts.length, ∀ g' < starts.length, ∀ i i', (g, i) ≠ (g', i') →
    mallocUnitStart starts g i + mpuMallocUnitBytes ≤ mallocUnitStart starts g' i' ∨
      mallocUnitStart starts g' i' + mpuMallocUnitBytes ≤ mallocUnitStart starts g i

/-- Units that start above 0 and are disjoint. -/
structure MallocRegions : Prop where
  nonzero : ∀ g < starts.length, ∀ i, 0 < mallocUnitStart starts g i
  disjoint : UnitsDisjoint starts

/-- The units end at 2^32 at the latest and before the top of the address space. -/
def MallocFits : Prop :=
  ∀ g < starts.length, ∀ i, mallocUnitStart starts g i + mpuMallocUnitBytes ≤ 2 ^ 32 ∧
    mallocUnitStart starts g i + mpuMallocUnitBytes < 2 ^ W

/-- The units end at 2^32 and at the top of the address space at the latest. -/
def MallocAddressable : Prop :=
  ∀ g < starts.length, ∀ i, mallocUnitStart starts g i + mpuMallocUnitBytes ≤ 2 ^ 32 ∧
    mallocUnitStart starts g i + mpuMallocUnitBytes ≤ 2 ^ W

variable {starts} in
theorem MallocFits.addressable (hf : MallocFits starts) : MallocAddressable starts :=
  fun g hg i => ⟨(hf g hg i).1, (hf g hg i).2.le⟩

namespace MallocBlock

variable (b : MallocBlock)

def start : Nat := mallocUnitStart starts b.group b.size + b.index * mallocMemsize b.size

def addr : BitVec 32 := BitVec.ofNat 32 (b.start starts)

structure Of : Prop where
  group : b.group < starts.length
  index : b.index < mallocBitmaxnum b.size

def BelowTop : Prop := mallocUnitStart starts b.group b.size + mpuMallocUnitBytes < 2 ^ W

end MallocBlock

end

section
variable {starts : List (MallocSizeType → AthrillAddrType W)} {b b' : MallocBlock}

theorem MallocFits.belowTop (hf : MallocFits starts) (h : b.Of starts) : b.BelowTop starts :=
  (hf _ h.group b.size).2

theorem MallocBlock.Of.inside (h : b.Of starts) :
    b.start starts + mallocMemsize b.size ≤
      mallocUnitStart starts b.group b.size + mpuMallocUnitBytes := by
  have hle : mallocMemsize b.size * (b.index + 1) ≤ mallocMemsize b.size * mallocBitmaxnum b.size :=
    Nat.mul_le_mul_left _ h.index
  rw [(mallocDataInfo b.size).2.2.1, Nat.mul_succ, Nat.mul_comm] at hle
  rw [MallocBlock.start]
  omega

theorem MallocBlock.Of.disjoint (hd : UnitsDisjoint starts) (h : b.Of starts) (h' : b'.Of starts)
    (hne : b ≠ b') :
    b.start starts + mallocMemsize b.size ≤ b'.start starts ∨
      b'.start starts + mallocMemsize b'.size ≤ b.start starts := by
  have hin := h.inside
  have hin' := h'.inside
  by_cases hunit : (b.group, b.size) = (b'.group, b'.size)
  · -- two blocks of one unit
    obtain ⟨g, i, k⟩ := b
    obtain ⟨g', i', k'⟩ := b'
    cases hunit
    have hk : k ≠ k' := fun hk => hne (by rw [hk])
    simp only [MallocBlock.start]
    rcases Nat.lt_or_gt_of_ne hk with hlt | hlt
    · left
      have := Nat.mul_le_mul_right (mallocMemsize i) hlt
      rw [Nat.succ_mul] at this
      omega
    · right
      have := Nat.mul_le_mul_right (mallocMemsize i) hlt
      rw [Nat.succ_mul] at this
      omega
  · have hlow : mallocUnitStart starts b.group b.size ≤ b.start starts := Nat.le_add_right _ _
    have hlow' : mallocUnitStart starts b'.group b'.size ≤ b'.start starts := Nat.le_add_right _ _
    have := hd _ h.group _ h'.group _ _ hunit
    omega

theorem MallocBlock.Of.toNat_addr (ha : MallocAddressable starts) (h : b.Of starts) :
    (b.addr starts).toNat = b.start starts := by
  have hin := h.inside
  have hpos := mallocMemsize_pos b.size
  have := (ha _ h.group b.size).1
  exact Nat.mod_eq_of_lt (by omega)

theorem MallocBlock.Of.addr_inj (hd : UnitsDisjoint starts) (ha : MallocAddressable starts)
    (h : b.Of starts) (h' : b'.Of starts) (heq : b.addr starts = b'.addr starts) : b = b' := by
  by_contra hne
  have hstart : b.start starts = b'.start starts := by
    rw [← h.toNat_addr ha, heq, h'.toNat_addr ha]
  have := h.disjoint hd h' hne
  have := mallocMemsize_pos b.size
  have := mallocMemsize_pos b'.size
  omega

theorem MallocBlock.Of.addr_ne_zero (hr : MallocRegions starts) (ha : MallocAddressable starts)
    (h : b.Of starts) : b.addr starts ≠ 0 := by
  intro hzero
  have hnat := h.toNat_addr ha
  rw [hzero] at hnat
  have := hr.nonzero _ h.group b.size
  have hlow : mallocUnitStart starts b.group b.size ≤ b.start starts := Nat.le_add_right _ _
  have : (0 : BitVec 32).toNat = 0 := rfl
  omega

end

def MallocBlock.Before (b b' : MallocBlock) : Prop :=
  b.size < b'.size ∨ b.size = b'.size ∧
    (b.group < b'.group ∨ b.group = b'.group ∧ b.index ≤ b'.index)

/-- The first free block that is large enough, by size, then group, then index. -/
structure FirstFree (starts : List (MallocSizeType → AthrillAddrType W)) (live : List (BitVec 32))
    (size : BitVec 32) (b : MallocBlock) : Prop where
  of : b.Of starts
  free : b.addr starts ∉ live
  large : size.toNat ≤ mallocMemsize b.size
  first : ∀ b' : MallocBlock, b'.Of starts → size.toNat ≤ mallocMemsize b'.size →
    b'.addr starts ∉ live → b.Before b'

variable {live : List (BitVec 32)} {size : BitVec 32} {b b' : MallocBlock}

theorem FirstFree.size_le {starts : List (MallocSizeType → AthrillAddrType W)}
    (h : FirstFree starts live size b) (hb' : b'.Of starts) (hle : size.toNat ≤ mallocMemsize b'.size)
    (hfree : b'.addr starts ∉ live) : b.size ≤ b'.size := by
  rcases h.first b' hb' hle hfree with hlt | ⟨heq, -⟩
  · exact hlt.le
  · exact heq.le

theorem FirstFree.not_exhausted {starts : List (MallocSizeType → AthrillAddrType W)} {b : MallocBlock}
    (h : FirstFree starts live size b) :
    ¬ (16384 < size.toNat ∨ ∀ b' : MallocBlock, b'.Of starts → size.toNat ≤ mallocMemsize b'.size →
      b'.addr starts ∈ live) := by
  rintro (hlarge | hfull)
  · have := mallocMemsize_mono.monotone (Fin.le_last b.size)
    exact absurd (hlarge.trans_le (h.large.trans this)) (by decide)
  · exact h.free (hfull b h.of h.large)

theorem MallocBlock.Before.antisymm (h : b.Before b') (h' : b'.Before b) :
    b = b' := by
  obtain ⟨g, i, k⟩ := b
  obtain ⟨g', i', k'⟩ := b'
  simp only [MallocBlock.Before, Fin.lt_def, Fin.ext_iff] at h h'
  obtain rfl : i = i' := Fin.ext (by omega)
  obtain rfl : g = g' := by omega
  obtain rfl : k = k' := by omega
  rfl

theorem FirstFree.unique {starts : List (MallocSizeType → AthrillAddrType W)}
    (h : FirstFree starts live size b) (h' : FirstFree starts live size b') : b = b' :=
  (h.first b' h'.of h'.large h'.free).antisymm (h'.first b h.of h.large h.free)

/-! ## Bits -/

namespace MallocRegionType

def starts (s : MallocRegionType W) : List (MallocSizeType → AthrillAddrType W) :=
  s.groups.map fun g i => (g.unit i).region.start

def bitAt (s : MallocRegionType W) (b : MallocBlock) : Option Bool :=
  s.groups[b.group]?.bind fun g => (g.unit b.size).bitmap[b.index]?

variable {s : MallocRegionType W}

theorem length_starts : s.starts.length = s.groups.length := length_map _

theorem group_lt (r : MallocUnitRef s) : r.group.val < s.starts.length := by
  rw [length_starts]
  exact r.group.isLt

theorem mallocUnitStart_starts (r : MallocUnitRef s) :
    mallocUnitStart s.starts r.group r.size = (s.unitAt r).region.start.toNat := by
  have hget : s.groups[r.group.val]? = some (s.groups.get r.group) :=
    getElem?_eq_getElem r.group.isLt
  rw [mallocUnitStart, starts, getD_eq_getElem?_getD, getElem?_map, hget, Option.map_some,
    Option.getD_some]
  rfl

theorem bitAt_unitAt (r : MallocUnitRef s) (k : Nat) :
    s.bitAt ⟨r.group, r.size, k⟩ = (s.unitAt r).bitmap[k]? := by
  have hget : s.groups[r.group.val]? = some (s.groups.get r.group) :=
    getElem?_eq_getElem r.group.isLt
  rw [bitAt, hget]
  rfl

theorem exists_bitAt {b : MallocBlock} (h : b.Of s.starts) : ∃ bit, s.bitAt b = some bit := by
  have hg : b.group < s.groups.length := length_starts ▸ h.group
  have hk : b.index < ((s.groups.get ⟨b.group, hg⟩).unit b.size).bitmap.length := by
    rw [MallocRegionUnitType.bitmap_length_eq]
    exact h.index
  refine ⟨_, (bitAt_unitAt ⟨b.size, ⟨b.group, hg⟩⟩ b.index).trans (getElem?_eq_getElem hk)⟩

theorem exists_unitRef {b : MallocBlock} (h : b.Of s.starts) :
    ∃ r : MallocUnitRef s, b = ⟨r.group, r.size, b.index⟩ :=
  ⟨⟨b.size, ⟨b.group, length_starts ▸ h.group⟩⟩, rfl⟩

theorem starts_setUnit {r : MallocUnitRef s} {u : MallocRegionUnitType W r.size}
    (hu : u.region.start = (s.unitAt r).region.start) : (s.setUnit r u).starts = s.starts := by
  refine ext_getElem? fun j => ?_
  simp only [starts, setUnit, getElem?_map, getElem?_set]
  split_ifs with hj hlt
  · subst hj
    rw [getElem?_eq_getElem r.group.isLt, Option.map_some, Option.map_some]
    refine congrArg some (funext fun i => ?_)
    dsimp only
    by_cases hi : i = r.size
    · subst hi
      rw [Function.update_self, hu]
      rfl
    · rw [Function.update_of_ne hi]
      rfl
  · exact absurd (hj ▸ r.group.isLt) hlt
  · rfl

theorem bitAt_setUnit {r : MallocUnitRef s} {u : MallocRegionUnitType W r.size} {k : Nat} {bit : Bool}
    (hk : k < (s.unitAt r).bitmap.length) (hu : u.bitmap = (s.unitAt r).bitmap.set k bit) (b : MallocBlock) :
    (s.setUnit r u).bitAt b = if b = ⟨r.group, r.size, k⟩ then some bit else s.bitAt b := by
  obtain ⟨g, i, j⟩ := b
  simp only [bitAt, setUnit, getElem?_set, MallocBlock.mk.injEq]
  by_cases hg : r.group.val = g
  · subst hg
    rw [if_pos rfl, if_pos r.group.isLt, Option.bind_some]
    dsimp only
    by_cases hi : i = r.size
    · subst hi
      rw [Function.update_self, hu, getElem?_set]
      by_cases hj : k = j
      · subst hj
        rw [if_pos rfl, if_pos hk, if_pos ⟨rfl, rfl, rfl⟩]
      · rw [if_neg hj, if_neg fun h => hj h.2.2.symm, getElem?_eq_getElem r.group.isLt,
          Option.bind_some]
        rfl
    · rw [Function.update_of_ne hi, if_neg fun h => hi h.2.1,
        getElem?_eq_getElem r.group.isLt, Option.bind_some]
      rfl
  · rw [if_neg hg, if_neg fun h => hg h.1.symm]

end MallocRegionType

section
variable {s : MallocRegionType W}

theorem mallocBlockAddr_eq (ha : MallocAddressable s.starts) (r : MallocUnitRef s) {k : Nat}
    (hk : k < mallocBitmaxnum r.size) :
    mallocBlockAddr (s.unitAt r).region.start r.size k =
      (⟨r.group, r.size, k⟩ : MallocBlock).addr s.starts := by
  have hof : (⟨r.group, r.size, k⟩ : MallocBlock).Of s.starts :=
    ⟨group_lt r, hk⟩
  have hin := hof.inside
  have hpos := mallocMemsize_pos r.size
  have hfit := ha _ (group_lt r) r.size
  apply BitVec.eq_of_toNat_eq
  rw [hof.toNat_addr ha]
  rw [MallocBlock.start, mallocUnitStart_starts] at hin ⊢
  rw [mallocUnitStart_starts] at hfit
  dsimp only at hin ⊢
  have hoff : (BitVec.ofNat W (k * mallocMemsize r.size)).toNat = k * mallocMemsize r.size :=
    Nat.mod_eq_of_lt (by omega)
  have hsum : ((s.unitAt r).region.start + BitVec.ofNat W (k * mallocMemsize r.size)).toNat =
      (s.unitAt r).region.start.toNat + k * mallocMemsize r.size := by
    rw [BitVec.toNat_add_of_lt (by omega), hoff]
  rw [mallocBlockAddr, BitVec.toNat_setWidth, hsum]
  exact Nat.mod_eq_of_lt (by omega)

variable {r : MallocUnitRef s}

theorem unit_has_iff (hfit : mallocUnitStart s.starts r.group r.size + mpuMallocUnitBytes < 2 ^ W)
    (x : AthrillAddrType W) :
    (decide ((s.unitAt r).region.start ≤ x) &&
        decide (x < (s.unitAt r).region.start + (s.unitAt r).region.size)) = true ↔
      mallocUnitStart s.starts r.group r.size ≤ x.toNat ∧
        x.toNat < mallocUnitStart s.starts r.group r.size + mpuMallocUnitBytes := by
  rw [mallocUnitStart_starts] at hfit ⊢
  have hbytes : (BitVec.ofNat W mpuMallocUnitBytes).toNat = mpuMallocUnitBytes :=
    Nat.mod_eq_of_lt (by omega)
  have hend := BitVec.toNat_add_of_lt
    (x := (s.unitAt r).region.start) (y := BitVec.ofNat W mpuMallocUnitBytes) (by omega)
  rw [hbytes] at hend
  rw [(s.unitAt r).region_size, Bool.and_eq_true, decide_eq_true_eq, decide_eq_true_eq,
    BitVec.le_def, BitVec.lt_def, hend]

theorem mem_unit_of_has (ha : MallocAddressable s.starts) {x : AthrillAddrType W}
    (h : (decide ((s.unitAt r).region.start ≤ x) &&
        decide (x < (s.unitAt r).region.start + (s.unitAt r).region.size)) = true) :
    mallocUnitStart s.starts r.group r.size ≤ x.toNat ∧
      x.toNat < mallocUnitStart s.starts r.group r.size + mpuMallocUnitBytes := by
  rcases Nat.lt_or_eq_of_le (ha _ (group_lt r) r.size).2 with hlt | heq
  · exact (unit_has_iff hlt x).1 h
  · rw [mallocUnitStart_starts] at heq
    have hend : (s.unitAt r).region.start + BitVec.ofNat W mpuMallocUnitBytes = 0 := by
      apply BitVec.eq_of_toNat_eq
      rw [BitVec.toNat_add, BitVec.toNat_ofNat, Nat.add_mod_mod, heq, Nat.mod_self]
      rfl
    rw [(s.unitAt r).region_size, Bool.and_eq_true, decide_eq_true_eq, decide_eq_true_eq, hend] at h
    exact absurd h.2 BitVec.not_lt_zero

theorem searchUnit_addr (hd : UnitsDisjoint s.starts) (ha : MallocAddressable s.starts)
    (hfit : mallocUnitStart s.starts r.group r.size + mpuMallocUnitBytes < 2 ^ W) {k : Nat}
    (hk : k < mallocBitmaxnum r.size) :
    searchUnit s ((⟨r.group, r.size, k⟩ : MallocBlock).addr s.starts) = some r ∧
      mallocBlockBit (s.unitAt r).region.start r.size
        ((⟨r.group, r.size, k⟩ : MallocBlock).addr s.starts) = k := by
  have hof : (⟨r.group, r.size, k⟩ : MallocBlock).Of s.starts :=
    ⟨group_lt r, hk⟩
  have hin := hof.inside
  have hpos := mallocMemsize_pos r.size
  have hlow : mallocUnitStart s.starts r.group r.size ≤
      (⟨r.group, r.size, k⟩ : MallocBlock).start s.starts := Nat.le_add_right _ _
  dsimp only at hin
  have hx : (((⟨r.group, r.size, k⟩ : MallocBlock).addr s.starts).setWidth W).toNat =
      (⟨r.group, r.size, k⟩ : MallocBlock).start s.starts := by
    rw [BitVec.toNat_setWidth, hof.toNat_addr ha]
    exact Nat.mod_eq_of_lt (by omega)
  have hhas := (unit_has_iff hfit
    (((⟨r.group, r.size, k⟩ : MallocBlock).addr s.starts).setWidth W)).2 (by omega)
  constructor
  · cases hfound : searchUnit s ((⟨r.group, r.size, k⟩ : MallocBlock).addr s.starts) with
    | none =>
      have hnot := findUnit_eq_none hfound (get_mem s.groups r.group) (Nat.zero_le r.size.val)
      exact absurd hhas (Bool.eq_false_iff.1 hnot)
    | some r' =>
      -- the units are disjoint, so that the address lies in one of them only
      have hhas' := mem_unit_of_has ha (findUnit_eq_some hfound).1
      rw [hx] at hhas'
      by_cases hunit : (r.group.val, r.size) = (r'.group.val, r'.size)
      · obtain ⟨i, g⟩ := r
        obtain ⟨i', g'⟩ := r'
        obtain ⟨hg, rfl⟩ := Prod.mk.inj hunit
        obtain rfl := Fin.ext hg
        rfl
      · have := hd _ (group_lt r) _
          (group_lt r') _ _ hunit
        omega
  · have hstart : (s.unitAt r).region.start ≤
        ((⟨r.group, r.size, k⟩ : MallocBlock).addr s.starts).setWidth W := by
      rw [BitVec.le_def, hx, ← mallocUnitStart_starts]
      exact hlow
    have hmax := (mallocDataInfo r.size).2.2.2
    rw [mallocBlockBit, BitVec.toNat_sub_of_le hstart, hx, MallocBlock.start,
      mallocUnitStart_starts, Nat.add_sub_cancel_left, Nat.mul_div_cancel _ hpos]
    exact Nat.mod_eq_of_lt ((hk.trans hmax).trans (by decide))

end

/-! ## The invariant -/

structure HeapInv (starts : List (MallocSizeType → AthrillAddrType W)) (s : MallocRegionType W)
    (live : List (BitVec 32)) : Prop where
  starts_eq : s.starts = starts
  counted : Counted s
  taken_iff : ∀ b : MallocBlock, b.Of starts → (s.bitAt b = some true ↔ b.addr starts ∈ live)
  exists_block : ∀ a ∈ live, ∃ b : MallocBlock, b.Of starts ∧ b.addr starts = a
  nodup : live.Nodup

section
variable {starts : List (MallocSizeType → AthrillAddrType W)} {s : MallocRegionType W}
  {live : List (BitVec 32)} {junk : Nat → UInt8}

theorem heapInv_addRegions (starts : List (MallocSizeType → AthrillAddrType W)) :
    HeapInv starts (mpuMallocAddRegions starts) [] where
  starts_eq := by
    rw [MallocRegionType.starts, mpuMallocAddRegions, map_map]
    exact map_id _
  counted := counted_addRegions starts
  taken_iff b _ := by
    simp only [not_mem_nil, iff_false]
    intro hbit
    obtain ⟨g, hg, hk⟩ := Option.bind_eq_some_iff.1 hbit
    obtain ⟨st, -, rfl⟩ := mem_map.1 (mem_of_getElem? hg)
    have := eq_of_mem_replicate (mem_of_getElem? hk)
    cases this
  exists_block := by simp
  nodup := .nil

namespace HeapInv

variable {b : MallocBlock}

section
variable (h : HeapInv starts s live)
include h

theorem free_iff (hb : b.Of starts) :
    s.bitAt b = some false ↔ b.addr starts ∉ live := by
  rw [← h.taken_iff b hb]
  obtain ⟨bit, hbit⟩ := exists_bitAt (h.starts_eq ▸ hb)
  rw [hbit]
  cases bit <;> simp

theorem mem_live_of_full (hb : b.Of starts) (hfull : ∀ g ∈ s.groups, false ∉ (g.unit b.size).bitmap) :
    b.addr starts ∈ live := by
  by_contra hfree
  obtain ⟨g, hg, hk⟩ := Option.bind_eq_some_iff.1 ((h.free_iff hb).2 hfree)
  exact hfull g (mem_of_getElem? hg) (mem_of_getElem? hk)

theorem insert (hd : UnitsDisjoint starts) (ha : MallocAddressable starts) (hb : b.Of starts)
  (hfree : b.addr starts ∉ live) {s' : MallocRegionType W} (hstarts : s'.starts = s.starts)
  (hcounted : Counted s') (hbit : ∀ b', s'.bitAt b' = if b' = b then some true else s.bitAt b') :
    HeapInv starts s' (b.addr starts :: live) where
  starts_eq := hstarts.trans h.starts_eq
  counted := hcounted
  taken_iff b' hb' := by
    rw [hbit, mem_cons]
    split_ifs with heq
    · exact iff_of_true rfl (.inl (by rw [heq]))
    · rw [h.taken_iff b' hb']
      exact ⟨.inr, fun hor => hor.resolve_left fun haddr => heq (hb'.addr_inj hd ha hb haddr)⟩
  exists_block a hmem := by
    rcases mem_cons.1 hmem with rfl | hmem
    · exact ⟨b, hb, rfl⟩
    · exact h.exists_block a hmem
  nodup := h.nodup.cons hfree

theorem erase (hd : UnitsDisjoint starts) (ha : MallocAddressable starts) (hb : b.Of starts)
  {s' : MallocRegionType W} (hstarts : s'.starts = s.starts) (hcounted : Counted s')
  (hbit : ∀ b', s'.bitAt b' = if b' = b then some false else s.bitAt b') :
    HeapInv starts s' (live.erase (b.addr starts)) where
  starts_eq := hstarts.trans h.starts_eq
  counted := hcounted
  taken_iff b' hb' := by
    rw [hbit, h.nodup.mem_erase_iff]
    split_ifs with heq
    · exact iff_of_false (by simp) fun hmem => hmem.1 (by rw [heq])
    · rw [h.taken_iff b' hb']
      exact ⟨fun hmem => ⟨fun haddr => heq (hb'.addr_inj hd ha hb haddr), hmem⟩, And.right⟩
  exists_block a hmem := h.exists_block a (mem_of_mem_erase hmem)
  nodup := h.nodup.erase _

theorem mem_live_of_not_isFree (hb : b.Of starts) {g : MallocRegionGroupType W}
  (hg : s.groups[b.group]? = some g) (hbit : isFree (g.unit b.size).bitmap b.index = false) : b.addr starts ∈ live := by
  by_contra hfree
  have hfree' := (h.free_iff hb).2 hfree
  rw [bitAt, hg, Option.bind_some, ← isFree_iff, hbit] at hfree'
  cases hfree'

theorem getMemory (hd : UnitsDisjoint starts) (ha : MallocAddressable starts) (junk : Nat → UInt8)
  (size : BitVec 32) :
    (mpuMallocGetMemory junk s size = (0, s) ∧ mallocTaken s size = none ∧
        (16384 < size.toNat ∨ ∀ b : MallocBlock, b.Of starts → size.toNat ≤ mallocMemsize b.size →
          b.addr starts ∈ live)) ∨
      ∃ b : MallocBlock, FirstFree starts live size b ∧
        (mpuMallocGetMemory junk s size).1 = b.addr starts ∧
        (mallocTaken s size).map (fun r => (r.group.val, r.size)) = some (b.group, b.size) ∧
        HeapInv starts (mpuMallocGetMemory junk s size).2 (b.addr starts :: live) := by
  have hcounted : Counted (mpuMallocGetMemory junk s size).2 := h.counted.getMemory size
  rcases mpuMallocGetMemory_cases junk s size with
    ⟨heq, htaken, hex⟩ | ⟨r, k, htaken, hbit, hsize, hsmaller, heq⟩
  · refine .inl ⟨heq, htaken, (hex h.counted).imp_right fun hfull b hb hle => ?_⟩
    exact h.mem_live_of_full hb fun g hg => hfull g hg b.size hle
  · have hk : k < mallocBitmaxnum r.size := by
      rw [← (s.unitAt r).bitmap_length_eq]
      exact lt_of_isFree hbit
    have hb : (⟨r.group, r.size, k⟩ : MallocBlock).Of starts :=
      h.starts_eq ▸ ⟨group_lt r, hk⟩
    have hfree : (⟨r.group, r.size, k⟩ : MallocBlock).addr starts ∉ live := by
      rw [← h.free_iff hb, bitAt_unitAt]
      exact isFree_iff.1 hbit
    rw [heq] at hcounted ⊢
    obtain ⟨hsizes, hgroups, hindices⟩ := hsmaller h.counted
    refine .inr ⟨⟨r.group, r.size, k⟩, ⟨hb, hfree, hsize, fun b' hb' hle hfree' => ?_⟩, ?_,
      by rw [htaken]; rfl, ?_⟩
    · -- a block before it, of a smaller size, an earlier group or the same unit, is live
      rcases lt_trichotomy b'.size r.size with hlt | heq | hlt
      · exact absurd (h.mem_live_of_full hb' fun g hg => hsizes g hg b'.size hlt hle) hfree'
      · refine .inr ⟨heq.symm, ?_⟩
        obtain ⟨g', i', k'⟩ := b'
        obtain rfl : i' = r.size := heq
        rcases lt_trichotomy g' r.group.val with hlt | rfl | hlt
        · have hlt' : g' < s.groups.length := hlt.trans r.group.isLt
          have hfull := hgroups ⟨g', hlt'⟩ hlt
          refine absurd (h.mem_live_of_not_isFree hb' (getElem?_eq_getElem hlt') ?_) hfree'
          exact Bool.eq_false_iff.2 fun hbit' => hfull (mem_of_getElem? (isFree_iff.1 hbit'))
        · refine .inr ⟨rfl, Nat.not_lt.1 fun hlt => hfree' ?_⟩
          exact h.mem_live_of_not_isFree hb' (getElem?_eq_getElem r.group.isLt) (hindices k' hlt)
        · exact .inl hlt
      · exact .inl hlt
    · rw [← h.starts_eq]
      exact mallocBlockAddr_eq (h.starts_eq ▸ ha) r hk
    · exact h.insert hd ha hb hfree (starts_setUnit rfl) hcounted
        (bitAt_setUnit (lt_of_isFree hbit) rfl)

theorem exists_searchUnit (hd : UnitsDisjoint starts) (ha : MallocAddressable starts) (hb : b.Of starts)
  (htop : b.BelowTop starts) :
    ∃ r : MallocUnitRef s, b = ⟨r.group, r.size, b.index⟩ ∧ searchUnit s (b.addr starts) = some r ∧
      mallocBlockBit (s.unitAt r).region.start r.size (b.addr starts) = b.index := by
  obtain rfl := h.starts_eq
  obtain ⟨r, hbr⟩ := exists_unitRef hb
  rw [MallocBlock.BelowTop, hbr] at htop
  have hfound := searchUnit_addr hd ha htop (hbr ▸ hb.index : b.index < mallocBitmaxnum r.size)
  rw [← hbr] at hfound
  exact ⟨r, hbr, hfound⟩

theorem relMemory (hd : UnitsDisjoint starts) (ha : MallocAddressable starts) (hb : b.Of starts)
  (htop : b.BelowTop starts) (hlive : b.addr starts ∈ live) :
    HeapInv starts (mpuMallocRelMemory s (b.addr starts)) (live.erase (b.addr starts)) ∧
      ∀ b', (mpuMallocRelMemory s (b.addr starts)).bitAt b' =
        if b' = b then some false else s.bitAt b' := by
  have htaken := (h.taken_iff b hb).2 hlive
  obtain ⟨r, hbr, hunit, hindex⟩ := h.exists_searchUnit hd ha hb htop
  rw [hbr, bitAt_unitAt] at htaken
  have hcounted : Counted (mpuMallocRelMemory s (b.addr starts)) := by
    rw [counted_relMemory_iff h.counted, releaseOk, hunit, Option.all_some, hindex, htaken]
    rfl
  have hlt : b.index < (s.unitAt r).bitmap.length := (List.getElem?_eq_some_iff.1 htaken).1
  have hstarts : (mpuMallocRelMemory s (b.addr starts)).starts = s.starts := by
    rw [mpuMallocRelMemory, hunit]
    exact starts_setUnit rfl
  have hbits : ∀ b', (mpuMallocRelMemory s (b.addr starts)).bitAt b' =
      if b' = b then some false else s.bitAt b' := by
    intro b'
    rw [mpuMallocRelMemory, hunit]
    dsimp only
    rw [hindex, bitAt_setUnit hlt rfl, ← hbr]
  exact ⟨h.erase hd ha hb hstarts hcounted hbits, hbits⟩

end

def freeBlocks (starts : List (MallocSizeType → AthrillAddrType W)) (live : List (BitVec 32))
    (i : MallocSizeType) : Nat :=
  (Finset.univ.filter fun p : Fin starts.length × Fin (mallocBitmaxnum i) =>
    (⟨p.1, i, p.2⟩ : MallocBlock).addr starts ∉ live).card

theorem freeBlocks_cons_lt (hb : b.Of starts) (hfree : b.addr starts ∉ live) :
    freeBlocks starts (b.addr starts :: live) b.size < freeBlocks starts live b.size := by
  refine Finset.card_lt_card ⟨fun p hp => ?_, fun hsub => ?_⟩
  · simp only [Finset.mem_filter, Finset.mem_univ, true_and, mem_cons, not_or] at hp ⊢
    exact hp.2
  · have hmem := hsub (x := (⟨b.group, hb.group⟩, ⟨b.index, hb.index⟩))
      (Finset.mem_filter.2 ⟨Finset.mem_univ _, hfree⟩)
    exact (Finset.mem_filter.1 hmem).2 (.head _)

theorem exists_getMemory_eq (h : HeapInv starts s live) (hd : UnitsDisjoint starts)
    (ha : MallocAddressable starts) (junk : Nat → UInt8) (hb : b.Of starts) (hfree : b.addr starts ∉ live) :
    ∃ n s' results, run (mallocStep junk) s
        (replicate n (.getMemory (BitVec.ofNat 32 (mallocMemsize b.size)))) =
          some (s', results) ∧ some (b.addr starts) ∈ results := by
  -- each request takes a free block of the size of the block, until it takes the block
  induction hn : freeBlocks starts live b.size using Nat.strong_induction_on generalizing s live with
  | h n ih =>
    have hsize : (BitVec.ofNat 32 (mallocMemsize b.size)).toNat = mallocMemsize b.size :=
      Nat.mod_eq_of_lt ((mallocMemsize_mono.monotone (Fin.le_last b.size)).trans_lt (by decide))
    rcases h.getMemory hd ha junk (BitVec.ofNat 32 (mallocMemsize b.size)) with
      ⟨-, -, hlarge | hfull⟩ | ⟨b₁, hfirst, hget, -, hinv⟩
    · have := mallocMemsize_mono.monotone (Fin.le_last b.size)
      rw [hsize] at hlarge
      exact absurd (hlarge.trans_le this) (by decide)
    · exact absurd (hfull b hb hsize.le) hfree
    · by_cases heq : b₁ = b
      · subst heq
        exact ⟨1, _, _, rfl, by rw [hget]; exact .head _⟩
      · have hclass : b₁.size = b.size :=
          le_antisymm (hfirst.size_le hb hsize.le hfree)
            (mallocMemsize_mono.le_iff_le.1 (hsize.symm.le.trans hfirst.large))
        have hlt := freeBlocks_cons_lt hfirst.of hfirst.free
        rw [hclass, hn] at hlt
        have hfree' : b.addr starts ∉ b₁.addr starts :: live := by
          rw [mem_cons, not_or]
          exact ⟨fun haddr => heq (hb.addr_inj hd ha hfirst.of haddr).symm, hfree⟩
        obtain ⟨m, s', results, hrun, hmem⟩ := ih _ hlt hinv hfree' rfl
        exact ⟨m + 1, s', _, run_cons_eq_some.2 ⟨_, _, _, rfl, hrun, rfl⟩, .tail _ hmem⟩

end HeapInv

end

/-! ## Histories of the guest -/

structure GuestHeap (W : Nat) where
  malloc : MallocRegionType W
  live : List (BitVec 32)

def guestStep (junk : Nat → UInt8) (h : GuestHeap W) :
    MallocCall → Option (GuestHeap W × Option (BitVec 32))
  | .getMemory size =>
    let r := mpuMallocGetMemory junk h.malloc size
    some (⟨r.2, if r.1 = 0 then h.live else r.1 :: h.live⟩, some r.1)
  | .relMemory addr =>
    if addr ∈ h.live then some (⟨mpuMallocRelMemory h.malloc addr, h.live.erase addr⟩, none)
    else none

/-- A request fails exactly if no block is free for it, and is served with a free block of the smallest such
size. -/
structure BlocksCorrect (starts : List (MallocSizeType → AthrillAddrType W)) (junk : Nat → UInt8)
    (h : GuestHeap W) : Prop where
  fails_iff : ∀ size, (mpuMallocGetMemory junk h.malloc size).1 = 0 ↔
    16384 < size.toNat ∨ ∀ b : MallocBlock, b.Of starts → size.toNat ≤ mallocMemsize b.size →
      b.addr starts ∈ h.live
  serves : ∀ size, (mpuMallocGetMemory junk h.malloc size).1 ≠ 0 →
    ∃ b : MallocBlock, b.Of starts ∧
      (mpuMallocGetMemory junk h.malloc size).1.toNat = b.start starts ∧
      (mpuMallocGetMemory junk h.malloc size).1 ∉ h.live ∧ size.toNat ≤ mallocMemsize b.size ∧
      (∀ b' : MallocBlock, b'.Of starts → size.toNat ≤ mallocMemsize b'.size →
        b'.addr starts ∉ h.live → b.size ≤ b'.size) ∧
      mallocUnitStart starts b.group b.size ≤ b.start starts ∧
      b.start starts + mallocMemsize b.size ≤
        mallocUnitStart starts b.group b.size + mpuMallocUnitBytes
  exists_block : ∀ a ∈ h.live, ∃ b : MallocBlock, b.Of starts ∧ b.addr starts = a ∧
    a.toNat = b.start starts
  live_disjoint : h.live.Pairwise fun a a' => ∀ b b' : MallocBlock, b.Of starts → b'.Of starts →
    b.addr starts = a → b'.addr starts = a' →
    b.start starts + mallocMemsize b.size ≤ b'.start starts ∨
      b'.start starts + mallocMemsize b'.size ≤ b.start starts
  taken_iff : ∀ b : MallocBlock, b.Of starts →
    (h.malloc.bitAt b = some true ↔ b.addr starts ∈ h.live)
  release : ∀ b : MallocBlock, b.Of starts → b.addr starts ∈ h.live → ∀ b' : MallocBlock,
    (mpuMallocRelMemory h.malloc (b.addr starts)).bitAt b' =
      if b' = b then some false else h.malloc.bitAt b'
  again : ∀ b : MallocBlock, b.Of starts → b.addr starts ∈ h.live →
    ∃ n s' results, run (mallocStep junk) (mpuMallocRelMemory h.malloc (b.addr starts))
        (replicate n (.getMemory (BitVec.ofNat 32 (mallocMemsize b.size)))) =
          some (s', results) ∧ some (b.addr starts) ∈ results

section
variable {starts : List (MallocSizeType → AthrillAddrType W)} {junk : Nat → UInt8}

section
variable {h : GuestHeap W} (hinv : HeapInv starts h.malloc h.live) (hr : MallocRegions starts)
  (hf : MallocFits starts)
include hinv hr hf

theorem HeapInv.blocksCorrect (junk : Nat → UInt8) :
    BlocksCorrect starts junk h where
  fails_iff size := by
    rcases hinv.getMemory hr.disjoint hf.addressable junk size with ⟨heq, -, hex⟩ | ⟨b, hfirst, hget, -, -⟩
    · rw [heq]
      exact iff_of_true rfl hex
    · rw [hget]
      exact iff_of_false (hfirst.of.addr_ne_zero hr hf.addressable) hfirst.not_exhausted
  serves size hne := by
    rcases hinv.getMemory hr.disjoint hf.addressable junk size with
      ⟨heq, -, -⟩ | ⟨b, hfirst, hget, -, -⟩
    · exact absurd (congrArg Prod.fst heq) hne
    · rw [hget]
      exact ⟨b, hfirst.of, hfirst.of.toNat_addr hf.addressable, hfirst.free, hfirst.large,
        fun b' hb' => hfirst.size_le hb', Nat.le_add_right _ _, hfirst.of.inside⟩
  exists_block a ha := by
    obtain ⟨b, hb, rfl⟩ := hinv.exists_block a ha
    exact ⟨b, hb, rfl, hb.toNat_addr hf.addressable⟩
  live_disjoint := hinv.nodup.imp fun {a a'} hne b b' hb hb' haddr haddr' =>
    hb.disjoint hr.disjoint hb' fun heq => hne (by rw [← haddr, ← haddr', heq])
  taken_iff := hinv.taken_iff
  release _ hb hlive := (hinv.relMemory hr.disjoint hf.addressable hb (hf.belowTop hb) hlive).2
  again b hb hlive :=
    (hinv.relMemory hr.disjoint hf.addressable hb (hf.belowTop hb) hlive).1.exists_getMemory_eq
      hr.disjoint hf.addressable junk hb
      fun hmem => (hinv.nodup.mem_erase_iff.1 hmem).1 rfl

theorem HeapInv.step {h' : GuestHeap W} {call : MallocCall} {result : Option (BitVec 32)}
  (hstep : guestStep junk h call = some (h', result)) :
    HeapInv starts h'.malloc h'.live := by
  cases call with
  | getMemory size =>
    cases hstep
    rcases hinv.getMemory hr.disjoint hf.addressable junk size with ⟨heq, -, -⟩ | ⟨b, hfirst, hget, -, hinv'⟩
    · rw [heq]
      exact hinv
    · dsimp only
      rw [hget, if_neg (hfirst.of.addr_ne_zero hr hf.addressable)]
      exact hinv'
  | relMemory addr =>
    rw [guestStep] at hstep
    split_ifs at hstep with hlive
    cases hstep
    obtain ⟨b, hb, rfl⟩ := hinv.exists_block addr hlive
    exact (hinv.relMemory hr.disjoint hf.addressable hb (hf.belowTop hb) hlive).1

end

end

/-- **The blocks of the guest allocator.** In disjoint units that lie below 2³² and end below the top of the
address space, after every history of requests and of releases of live blocks, the guest may rely on
the blocks. -/
theorem malloc_blocks_correct {starts : List (MallocSizeType → AthrillAddrType W)}
    (hr : MallocRegions starts) (hf : MallocFits starts) (junk : Nat → UInt8)
    (calls : List MallocCall) {h : GuestHeap W} {results : List (Option (BitVec 32))}
    (hrun : run (guestStep junk) ⟨mpuMallocAddRegions starts, []⟩ calls = some (h, results)) :
    BlocksCorrect starts junk h :=
  HeapInv.blocksCorrect
    (run_invariant (fun h : GuestHeap W => HeapInv starts h.malloc h.live)
      (fun _ _ _ _ hinv hstep => hinv.step hr hf hstep) calls (heapInv_addRegions starts) hrun)
    hr hf junk

section
variable {base : BitVec 32}

theorem mul_unitBytes_le (i : MallocSizeType) :
    i.val * mpuMallocUnitBytes ≤ 9 * mpuMallocUnitBytes :=
  Nat.mul_le_mul_right _ (Nat.le_of_lt_succ i.isLt)

theorem toNat_add_mul {bytes : Nat} {i : MallocSizeType} (htop : base.toNat + 10 * bytes < 2 ^ 32)
    (hunit : i.val * bytes ≤ 9 * bytes) :
    (base + BitVec.ofNat 32 (i * bytes)).toNat = base.toNat + i.val * bytes := by
  have hoff : (BitVec.ofNat 32 (i * bytes)).toNat = i.val * bytes :=
    Nat.mod_eq_of_lt (by omega)
  rw [BitVec.toNat_add_of_lt (by omega), hoff]

theorem mallocUnitStart_groupStarts (htop : base.toNat + 10 * mpuMallocUnitBytes < 2 ^ 32)
    (i : MallocSizeType) :
    mallocUnitStart [groupStarts base] 0 i = base.toNat + i.val * mpuMallocUnitBytes := by
  rw [mallocUnitStart, getD_cons_zero, groupStarts]
  exact toNat_add_mul htop (mul_unitBytes_le i)

theorem mallocRegions_groupStarts (hbase : 0 < base.toNat)
    (htop : base.toNat + 10 * mpuMallocUnitBytes < 2 ^ 32) :
    MallocRegions [groupStarts base] ∧ MallocFits [groupStarts base] := by
  have hzero : ∀ {g : Nat}, g < [groupStarts base].length → g = 0 := fun hg => Nat.lt_one_iff.1 hg
  refine ⟨⟨fun g hg i => ?_, fun g hg g' hg' i i' hne => ?_⟩, fun g hg i => ?_⟩
  · rw [hzero hg, mallocUnitStart_groupStarts htop]
    omega
  · obtain rfl := hzero hg
    obtain rfl := hzero hg'
    have hi : i.val ≠ i'.val := fun h => hne (by rw [Fin.ext h])
    rw [mallocUnitStart_groupStarts htop, mallocUnitStart_groupStarts htop]
    -- the size of a unit is a number like any other here
    generalize mpuMallocUnitBytes = bytes at *
    rcases Nat.lt_or_gt_of_ne hi with hlt | hlt
    · have := Nat.mul_le_mul_right bytes hlt
      rw [Nat.succ_mul] at this
      omega
    · have := Nat.mul_le_mul_right bytes hlt
      rw [Nat.succ_mul] at this
      omega
  · have hunit := mul_unitBytes_le i
    rw [hzero hg, mallocUnitStart_groupStarts htop]
    generalize mpuMallocUnitBytes = bytes at *
    omega

end

theorem malloc_blocks_correct_taken : ∃ (h : GuestHeap 32) (results : List (Option (BitVec 32))),
    run (guestStep fun _ => 0) ⟨mpuMallocAddRegions [groupStarts 0x10000000], []⟩
      [.getMemory 16384] = some (h, results) ∧
      BlocksCorrect [groupStarts 0x10000000] (fun _ => 0) h := by
  obtain ⟨hr, hf⟩ : MallocRegions [groupStarts 0x10000000] ∧ MallocFits [groupStarts 0x10000000] :=
    mallocRegions_groupStarts (by decide) (by decide)
  let h₀ : GuestHeap 32 := ⟨mpuMallocAddRegions [groupStarts 0x10000000], []⟩
  obtain ⟨h₁, result, hget⟩ : ∃ h₁ result,
      guestStep (fun _ => 0) h₀ (.getMemory 16384) = some (h₁, result) := ⟨_, _, rfl⟩
  have hrun := run_cons_eq_some.2 ⟨_, _, _, hget, run_nil _ _, rfl⟩
  exact ⟨h₁, _, hrun, malloc_blocks_correct hr hf _ _ hrun⟩

/-- A group that ends at the top of the address space: after a block of the last unit is taken and
released its bit is still set, and with 63 live blocks of the 64 the next request fails. With 64-bit
addresses, a group at 2³²: the address of a block is cut to 32 bits, and lies in no unit. -/
theorem malloc_blocks_top_lost :
    (run (guestStep fun _ => 0) (⟨mpuMallocAddRegions [groupStarts 0xff600000], []⟩ : GuestHeap 32)
        [.getMemory 16384, .relMemory 0xfff00000]).map
        (fun r => (r.1.live, r.1.malloc.bitAt ⟨0, 9, 0⟩)) = some ([], some true) ∧
      (run (guestStep fun _ => 0) (⟨mpuMallocAddRegions [groupStarts 0xff600000], []⟩ : GuestHeap 32)
        (.getMemory 16384 :: .relMemory 0xfff00000 :: replicate 64 (.getMemory 16384))).map
        (fun r => (r.1.live.length, r.2.getLast?)) = some (63, some (some 0)) ∧
      (run (guestStep fun _ => 0) (⟨mpuMallocAddRegions
          [fun i => 0x100000000 + BitVec.ofNat 64 (i * mpuMallocUnitBytes)], []⟩ : GuestHeap 64)
        [.getMemory 16384, .relMemory 0x900000]).map
        (fun r => (r.2, r.1.malloc.bitAt ⟨0, 9, 0⟩)) =
          some ([some 0x900000, none], some true) := by
  decide +kernel

end Athrill
