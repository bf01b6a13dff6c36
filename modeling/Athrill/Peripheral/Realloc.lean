import Athrill.Mpu.Heap

/-!
# The guest's `realloc` (`device/peripheral/athrill_syscall_device.c`)

`athrill_syscall_realloc` takes a new block for the new size and copies the old block into it, as many bytes
as the old block has. Main result: `realloc_ok_iff`.
-/

namespace Athrill

open Bytes Option MallocBlock

variable {W : Nat}

/-! ## The call -/

def mpuMallocRefSize (s : MallocRegionType W) (addr : BitVec 32) : Option Nat :=
  (searchUnit s addr).map fun r => mallocMemsize r.size

def pointerCopy (m : MpuAddressMapType W) (dest src : MpuRegionRef × Int) (n : Nat) :
    Option (MpuAddressMapType W) :=
  if dest.1 = src.1 ∧ dest.2 < src.2 + n ∧ src.2 < dest.2 + n then none
  else do
    let buf ← (regionAt m src.1).bind (·.data)
    let bytes ← if src.2 < 0 then none else hostRead buf src.2.toNat n
    pointerWrite m dest.1 dest.2 bytes

def athrillSyscallRealloc (junk : Nat → UInt8) (h : Heap W) (ptr size : BitVec 32) :
    Option (BitVec 32 × Heap W) :=
  let r := heapGetMemory junk h size
  if r.1 = 0 then some (0, r.2)
  else
    match mpuGetPointer r.2.bus (ptr.setWidth W) with
    | (.error _, _) => none
    | (.ok src, bus) =>
      match mpuGetPointer bus (r.1.setWidth W) with
      | (.error _, _) => none
      | (.ok dest, bus) => do
        let n ← mpuMallocRefSize r.2.malloc ptr
        let m ← pointerCopy bus.addressMap dest src n
        some (r.1, heapRelMemory { r.2 with bus := { bus with addressMap := m } } ptr)

/-! ## What the guest expects -/

def MallocBlock.offset (b : MallocBlock) (j : Nat) : Nat := b.index * mallocMemsize b.size + j

def Heap.byte (h : Heap W) (b : MallocBlock) (j : Nat) : Option UInt8 :=
  (h.buffer b.group b.size).bind (·[b.offset j]?)

/-- A failed `realloc` keeps the block; otherwise the bytes move to a larger one, and no other block changes.
-/
structure ReallocOk (starts : List (MallocSizeType → AthrillAddrType W)) (taken live : List (BitVec 32))
    (h : Heap W) (b : MallocBlock) (size rptr : BitVec 32) (h' : Heap W) : Prop where
  fails : rptr = 0 → h'.malloc.bitAt b = some true ∧ ∀ j < mallocMemsize b.size, h'.byte b j = h.byte b j
  succeeds : rptr ≠ 0 → ∃ d : MallocBlock, d.Of starts ∧ d.addr starts = rptr ∧
    size.toNat ≤ mallocMemsize d.size ∧
    (∀ j < min (mallocMemsize b.size) (mallocMemsize d.size), h'.byte d j = h.byte b j) ∧
    HeapOk starts h' ((rptr :: taken).erase (b.addr starts))
  frame : ∀ b' : MallocBlock, b'.Of starts → b'.addr starts ∈ live → b' ≠ b →
    ∀ j < mallocMemsize b'.size, h'.byte b' j = h.byte b' j

/-- The copy stays inside the new block, or writes what the live blocks behind it have already. -/
def CopyHarmless (starts : List (MallocSizeType → AthrillAddrType W)) (live : List (BitVec 32))
    (h : Heap W) (b d : MallocBlock) : Prop :=
  mallocMemsize b.size ≤ mallocMemsize d.size ∨
    d.offset (mallocMemsize b.size) ≤ mpuMallocUnitBytes ∧
    ∀ b' : MallocBlock, b'.Of starts → b'.addr starts ∈ live → b'.group = d.group → b'.size = d.size →
      ∀ j < mallocMemsize b'.size, d.offset 0 ≤ b'.offset j →
        b'.offset j < d.offset (mallocMemsize b.size) →
        h.byte b' j = h.byte b (b'.offset j - d.offset 0)

/-- No region of the static map covers a unit. -/
def StaticApart (starts : List (MallocSizeType → AthrillAddrType W)) (m : MpuAddressMapType W) : Prop :=
  ∀ x ∈ m.map, ∀ g < starts.length, ∀ i, ∀ a : AthrillAddrType W, mallocUnitStart starts g i ≤ a.toNat →
    a.toNat < mallocUnitStart starts g i + mpuMallocUnitBytes → regionCovers x a 1 = false

section
variable {starts : List (MallocSizeType → AthrillAddrType W)} {h : Heap W} {live : List (BitVec 32)}
  {b d : MallocBlock}

/-! ## Pointers to blocks -/

theorem MallocBlock.Of.offset_le (hb : b.Of starts) :
    b.offset (mallocMemsize b.size) ≤ mpuMallocUnitBytes := by
  have := hb.inside
  rw [start] at this
  rw [offset]
  omega

variable {s : MpuState W} {size : BitVec 32}

theorem HeapOk.getPointer (hok : HeapOk starts h live) (ha : MallocAddressable starts) (hb : b.Of starts)
    (htop : b.BelowTop starts) (hlive : b.addr starts ∈ live) (hs : s.addressMap = h.bus.addressMap) :
    ∃ s', mpuGetPointer s ((b.addr starts).setWidth W) =
        (.ok (h.ref b, (b.offset 0 : Int)), s') ∧
      s'.addressMap = h.bus.addressMap := by
  obtain ⟨region, hmap, hplain⟩ := hok.exists_plain hb htop hlive
  have hpos := mallocMemsize_pos b.size
  have haddr : b.busAddr starts 0 = (b.addr starts).setWidth W := BitVec.add_zero _
  have hnat := hb.toNat_busAddr ha hpos
  have hhas := hmap.has hb ha hpos
  rw [haddr] at hnat hhas
  have hcov := (regionCovers_one_iff hplain.mask hplain.below).2 hhas
  have hat : regionAt s.addressMap (h.ref b) = some region :=
    hs ▸ hmap.region_eq
  have hsel := searchRegionFrom_of_not_shadowed hat hplain.hasData hcov
    (hs ▸ hmap.notShadowed hhas) s.previousIndex
  have hoff : ((b.addr starts).setWidth W).toNat - region.start.toNat = b.offset 0 := by
    rw [hnat, hmap.start_eq, start, offset]
    omega
  refine ⟨(searchRegion s ((b.addr starts).setWidth W) 1).2, ?_, hs⟩
  rw [(hplain.selects hcov hsel hat).getPointer, hoff]

theorem HeapOk.getPointer_top (hok : HeapOk starts h live) (ha : MallocAddressable starts)
    (hstatic : StaticApart starts h.bus.addressMap) (hb : b.Of starts) (htop : ¬ b.BelowTop starts)
    (hs : s.addressMap = h.bus.addressMap) :
    ∃ err s', mpuGetPointer s ((b.addr starts).setWidth W) = (.error err, s') := by
  obtain ⟨region, hmap⟩ := hok.mapped _ hb.group b.size
  have hpos := mallocMemsize_pos b.size
  have haddr : b.busAddr starts 0 = (b.addr starts).setWidth W := BitVec.add_zero _
  have hhas := hmap.has hb ha hpos
  rw [haddr] at hhas
  have hsel : (searchRegion s ((b.addr starts).setWidth W) 1).1 = none := by
    rw [eq_none_iff_forall_ne_some]
    intro ref hsel
    rw [searchRegion, hs] at hsel
    obtain ⟨x, hx, hcov⟩ := regionCovers_of_select hsel
    cases ref with
    | dynamicMap j =>
      by_cases hj : j = h.regionIndex b.group b.size
      · subst hj
        obtain rfl := some.inj (hmap.region_eq.symm.trans hx)
        have := below_of_regionCovers hcov
        rw [hmap.start_eq, hmap.size_eq] at this
        exact htop this
      · rw [hmap.alone j x hj hx _ hhas] at hcov
        cases hcov
    | map j =>
      rw [MpuAddressRegionType.Has, hmap.start_eq, hmap.size_eq] at hhas
      rw [hstatic x (List.mem_of_getElem? hx) _ hb.group _ _ hhas.1 hhas.2] at hcov
      cases hcov
  exact ⟨_, _, by rw [mpuGetPointer, hsel]; rfl⟩

theorem HeapOk.exists_buffer (hok : HeapOk starts h live) (hb : b.Of starts) (hlive : b.addr starts ∈ live) :
    ∃ buf, h.buffer b.group b.size = some buf ∧ buf.length = mpuMallocUnitBytes := by
  obtain ⟨region, hmap⟩ := hok.mapped _ hb.group b.size
  obtain ⟨buf, hbuf⟩ := hok.buffer b hb hlive
  refine ⟨buf, hbuf, hmap.length buf ?_⟩
  rwa [Heap.buffer, hmap.region_eq, bind_some] at hbuf

theorem HeapOk.buffer_setRegionData (hok : HeapOk starts h live) (hd : UnitsDisjoint starts)
    (hb : b.Of starts) {buf : HostBuffer} (hs : s.addressMap =
      setRegionData h.bus.addressMap (h.ref b) buf) {g : Nat}
    (hg : g < starts.length) (i : MallocSizeType) :
    Heap.buffer { h with bus := s } g i =
      if (g, i) = (b.group, b.size) then some buf else h.buffer g i := by
  obtain ⟨region, hmap⟩ := hok.mapped _ hb.group b.size
  have hat : regionAt h.bus.addressMap (h.ref b) = some region := hmap.region_eq
  show (regionAt s.addressMap (.dynamicMap (h.regionIndex g i))).bind (·.data) = _
  rw [hs, regionAt_setRegionData hat]
  split_ifs with href heq heq
  · rfl
  · exact absurd (hok.regionIndex_inj hd hg hb.group (MpuRegionRef.dynamicMap.inj href)) heq
  · cases heq
    exact absurd rfl href
  · rfl

theorem map_heapGetMemory (junk : Nat → UInt8) (h : Heap W) (size : BitVec 32) :
    (heapGetMemory junk h size).2.bus.addressMap.map = h.bus.addressMap.map := by
  simp only [heapGetMemory]
  split <;> rfl

theorem StaticApart.heapGetMemory (hstatic : StaticApart starts h.bus.addressMap) (junk : Nat → UInt8)
    (size : BitVec 32) : StaticApart starts (heapGetMemory junk h size).2.bus.addressMap := by
  rwa [StaticApart, map_heapGetMemory]

theorem HeapOk.byte_heapGetMemory (hok : HeapOk starts h live) (hd : UnitsDisjoint starts)
    (junk : Nat → UInt8) (size : BitVec 32) (hb : b.Of starts) (hlive : b.addr starts ∈ live)
    (j : Nat) : (heapGetMemory junk h size).2.byte b j = h.byte b j := by
  obtain ⟨buf, hbuf⟩ := hok.buffer b hb hlive
  rw [Heap.byte, Heap.byte, buffer_heapGetMemory hd hok junk size hb.group, hbuf]
  split_ifs <;> rfl

theorem MallocBlock.offset_add (b : MallocBlock) (j : Nat) : b.offset j = b.offset 0 + j := rfl

theorem MallocBlock.offset_disjoint (hunit : (b.group, b.size) = (d.group, d.size)) (hne : b ≠ d) :
    b.offset (mallocMemsize b.size) ≤ d.offset 0 ∨ d.offset (mallocMemsize d.size) ≤ b.offset 0 := by
  obtain ⟨g, i, k⟩ := b
  obtain ⟨g', i', k'⟩ := d
  cases hunit
  have hk : k ≠ k' := fun hk => hne (by rw [hk])
  simp only [offset]
  rcases Nat.lt_or_gt_of_ne hk with hlt | hlt
  · have := Nat.mul_le_mul_right (mallocMemsize i) hlt
    rw [Nat.succ_mul] at this
    omega
  · have := Nat.mul_le_mul_right (mallocMemsize i) hlt
    rw [Nat.succ_mul] at this
    omega

theorem HeapOk.byte_write (hok : HeapOk starts h live) (hd : UnitsDisjoint starts) (hdof : d.Of starts)
    {buf buf' : HostBuffer} {bytes : List UInt8} (hbuf : h.buffer d.group d.size = some buf)
    (hwrite : hostWrite buf (d.offset 0) bytes = some buf') (hs : s.addressMap =
      setRegionData h.bus.addressMap (h.ref d) buf') (hb : b.Of starts)
    (j : Nat) :
    Heap.byte { h with bus := s } b j =
      if (b.group, b.size) = (d.group, d.size) ∧ d.offset 0 ≤ b.offset j ∧
          b.offset j < d.offset bytes.length then
        bytes[b.offset j - d.offset 0]?
      else h.byte b j := by
  rw [Heap.byte, hok.buffer_setRegionData hd hdof hs hb.group]
  by_cases hunit : (b.group, b.size) = (d.group, d.size)
  · rw [if_pos hunit, bind_some, getElem?_hostWrite hwrite, Int.toNat_natCast,
      offset_add d bytes.length]
    split_ifs with hrange hcond hcond
    · rfl
    · exact absurd ⟨hunit, hrange⟩ hcond
    · exact absurd hcond.2 hrange
    · rw [Heap.byte, (Prod.mk.inj hunit).1, (Prod.mk.inj hunit).2, hbuf]
      rfl
  · rw [if_neg hunit, if_neg fun hcond => hunit hcond.1]
    rfl

theorem HeapOk.pointerCopy (hok : HeapOk starts h live) (hd : UnitsDisjoint starts) (hb : b.Of starts)
    (hblive : b.addr starts ∈ live) (hdof : d.Of starts) (hdlive : d.addr starts ∈ live) (hne : b ≠ d) :
    (∃ m bufb bufd bufd', pointerCopy h.bus.addressMap
        (h.ref d, (d.offset 0 : Int))
        (h.ref b, (b.offset 0 : Int)) (mallocMemsize b.size) = some m ∧
      d.offset (mallocMemsize b.size) ≤ mpuMallocUnitBytes ∧
      h.buffer b.group b.size = some bufb ∧ bufb.length = mpuMallocUnitBytes ∧
      h.buffer d.group d.size = some bufd ∧
      hostWrite bufd (d.offset 0) (slice bufb (b.offset 0) (mallocMemsize b.size)) = some bufd' ∧
      m = setRegionData h.bus.addressMap (h.ref d) bufd') ∨
    pointerCopy h.bus.addressMap
        (h.ref d, (d.offset 0 : Int))
        (h.ref b, (b.offset 0 : Int)) (mallocMemsize b.size) = none ∧
      mpuMallocUnitBytes < d.offset (mallocMemsize b.size) := by
  obtain ⟨bufb, hbufb, hlenb⟩ := hok.exists_buffer hb hblive
  obtain ⟨bufd, hbufd, hlend⟩ := hok.exists_buffer hdof hdlive
  have hbin := hb.offset_le
  rw [offset_add] at hbin
  have hoverlap : ¬ (h.ref d =
      h.ref b ∧
      (d.offset 0 : Int) < (b.offset 0 : Int) + (mallocMemsize b.size : Nat) ∧
      (b.offset 0 : Int) < (d.offset 0 : Int) + (mallocMemsize b.size : Nat)) := by
    rintro ⟨hsame, hlt, hlt'⟩
    have hunit := hok.regionIndex_inj hd hdof.group hb.group (MpuRegionRef.dynamicMap.inj hsame)
    have hsize : d.size = b.size := (Prod.mk.inj hunit).2
    have := offset_disjoint hunit.symm hne
    rw [offset_add b (mallocMemsize b.size), offset_add d (mallocMemsize d.size),
      hsize] at this
    omega
  have hread : hostRead bufb (b.offset 0) (mallocMemsize b.size) =
      some (slice bufb (b.offset 0) (mallocMemsize b.size)) := if_pos (by omega)
  have hcopy : Athrill.pointerCopy h.bus.addressMap
      (h.ref d, (d.offset 0 : Int))
      (h.ref b, (b.offset 0 : Int)) (mallocMemsize b.size) =
      (hostWrite bufd (d.offset 0) (slice bufb (b.offset 0) (mallocMemsize b.size))).map
        (setRegionData h.bus.addressMap (h.ref d)) := by
    have hatb : (regionAt h.bus.addressMap (h.ref b)).bind (·.data) =
        some bufb := hbufb
    have hatd : (regionAt h.bus.addressMap (h.ref d)).bind (·.data) =
        some bufd := hbufd
    rw [Athrill.pointerCopy, if_neg hoverlap]
    simp only [hatb, bind_eq_bind, bind_some, Int.toNat_natCast, hread, pointerWrite, hatd]
    rw [if_neg (by omega)]
  have hlenslice : (slice bufb (b.offset 0) (mallocMemsize b.size)).length = mallocMemsize b.size := by
    rw [length_slice]
    omega
  have hpos := mallocMemsize_pos b.size
  rw [hcopy]
  cases hwrite : hostWrite bufd (d.offset 0) (slice bufb (b.offset 0) (mallocMemsize b.size)) with
  | some bufd' =>
    refine .inl ⟨_, bufb, bufd, bufd', rfl, ?_, hbufb, hlenb, hbufd, hwrite, rfl⟩
    rcases hostWrite_isSome_iff.1 ⟨bufd', hwrite⟩ with hnil | ⟨-, hin⟩
    · rw [hnil, List.length_nil] at hlenslice
      omega
    · rw [offset_add]
      omega
  | none =>
    refine .inr ⟨rfl, Nat.not_le.1 fun hle => ?_⟩
    rw [offset_add] at hle
    obtain ⟨bufd', hsome⟩ : ∃ bufd', hostWrite bufd (d.offset 0)
        (slice bufb (b.offset 0) (mallocMemsize b.size)) = some bufd' :=
      hostWrite_isSome_iff.2 (.inr ⟨by omega, by omega⟩)
    rw [hwrite] at hsome
    cases hsome

/-! ## What the call does -/

theorem HeapOk.realloc (hok : HeapOk starts h live) (hd : UnitsDisjoint starts)
    (ha : MallocAddressable starts) (hb : b.Of starts) (htop : b.BelowTop starts)
    (hlive : b.addr starts ∈ live) (hfirst : FirstFree starts live size d)
    (htop' : d.BelowTop starts) (hzero : d.addr starts ≠ 0) (junk : Nat → UInt8) :
    (∃ h', athrillSyscallRealloc junk h (b.addr starts) size = some (d.addr starts, h') ∧
      d.offset (mallocMemsize b.size) ≤ mpuMallocUnitBytes ∧
      HeapOk starts h' ((d.addr starts :: live).erase (b.addr starts)) ∧
      ∀ b' : MallocBlock, b'.Of starts → b'.addr starts ∈ d.addr starts :: live → ∀ j,
        h'.byte b' j = if (b'.group, b'.size) = (d.group, d.size) ∧ d.offset 0 ≤ b'.offset j ∧
            b'.offset j < d.offset (mallocMemsize b.size) then
          h.byte b (b'.offset j - d.offset 0)
        else (heapGetMemory junk h size).2.byte b' j) ∨
    athrillSyscallRealloc junk h (b.addr starts) size = none ∧
      mpuMallocUnitBytes < d.offset (mallocMemsize b.size) := by
  obtain ⟨hget, hok₁⟩ := hok.getMemory_of_firstFree hd ha junk hfirst
  have hne : b ≠ d := fun heq => hfirst.free (heq ▸ hlive)
  obtain ⟨s₁, hsrc, hs₁⟩ := hok₁.getPointer ha hb htop (.tail _ hlive) rfl
  obtain ⟨s₂, hdest, hs₂⟩ := hok₁.getPointer ha hfirst.of htop' (.head _) hs₁
  have hsize : mpuMallocRefSize (heapGetMemory junk h size).2.malloc (b.addr starts) =
      some (mallocMemsize b.size) := by
    obtain ⟨r, hbr, hunit, -⟩ := hok₁.inv.exists_searchUnit hd ha hb htop
    rw [mpuMallocRefSize, hunit, map_some, hbr]
  have hcall : athrillSyscallRealloc junk h (b.addr starts) size =
      (Athrill.pointerCopy (heapGetMemory junk h size).2.bus.addressMap
        ((heapGetMemory junk h size).2.ref d, (d.offset 0 : Int))
        ((heapGetMemory junk h size).2.ref b, (b.offset 0 : Int))
        (mallocMemsize b.size)).map fun m => (d.addr starts,
          heapRelMemory { (heapGetMemory junk h size).2 with bus := { s₂ with addressMap := m } }
            (b.addr starts)) := by
    simp only [athrillSyscallRealloc, hget, if_neg hzero, hsrc, hdest, hs₂, hsize,
      bind_eq_bind, bind_some]
    rw [map_eq_bind]
    rfl
  rw [hcall]
  rcases hok₁.pointerCopy hd hb (.tail _ hlive) hfirst.of (.head _) hne with
    ⟨m, bufb, bufd, bufd', hcopy, hin, hbufb, hlenb, hbufd, hwrite, rfl⟩ | ⟨hcopy, hout⟩
  · have hbind : (regionAt (heapGetMemory junk h size).2.bus.addressMap
        ((heapGetMemory junk h size).2.ref d)).bind (·.data) = some bufd := hbufd
    refine .inl ⟨_, by rw [hcopy]; rfl, hin, ?_, fun b' hb' hlive' j => ?_⟩
    · exact (hok₁.of_shape (setRegionData_shape hbind (length_hostWrite hwrite))).relMemory hd ha hb
        htop (.tail _ hlive)
    · have hlen : (slice bufb (b.offset 0) (mallocMemsize b.size)).length = mallocMemsize b.size := by
        have := hb.offset_le
        rw [offset_add] at this
        exact length_slice (by omega)
      have hbyte : ∀ k < mallocMemsize b.size,
          (slice bufb (b.offset 0) (mallocMemsize b.size))[k]? = h.byte b k := by
        intro k hk
        rw [getElem?_slice hk, ← hok.byte_heapGetMemory hd junk size hb hlive, Heap.byte, hbufb]
        rfl
      show Heap.byte { (heapGetMemory junk h size).2 with bus := _ } b' j = _
      rw [hok₁.byte_write hd hfirst.of hbufd hwrite rfl hb', hlen]
      split_ifs with hcond
      · rw [offset_add d (mallocMemsize b.size)] at hcond
        exact hbyte _ (by omega)
      · rfl
  · exact .inr ⟨by rw [hcopy]; rfl, hout⟩

theorem HeapOk.realloc_top (hok : HeapOk starts h live) (hd : UnitsDisjoint starts)
    (ha : MallocAddressable starts) (hstatic : StaticApart starts h.bus.addressMap) (hb : b.Of starts)
    (hlive : b.addr starts ∈ live) (hfirst : FirstFree starts live size d)
    (htop : ¬ (b.BelowTop starts ∧ d.BelowTop starts)) (hzero : d.addr starts ≠ 0)
    (junk : Nat → UInt8) : athrillSyscallRealloc junk h (b.addr starts) size = none := by
  obtain ⟨hget, hok₁⟩ := hok.getMemory_of_firstFree hd ha junk hfirst
  have hstatic₁ := hstatic.heapGetMemory junk size
  by_cases htopb : b.BelowTop starts
  · obtain ⟨s₁, hsrc, hs₁⟩ := hok₁.getPointer ha hb htopb (.tail _ hlive) rfl
    obtain ⟨err, s₂, hdest⟩ := hok₁.getPointer_top ha hstatic₁ hfirst.of
      (fun htopd => htop ⟨htopb, htopd⟩) hs₁
    simp only [athrillSyscallRealloc, hget, if_neg hzero, hsrc, hdest]
  · obtain ⟨err, s₁, hsrc⟩ := hok₁.getPointer_top ha hstatic₁ hb htopb rfl
    simp only [athrillSyscallRealloc, hget, if_neg hzero, hsrc]

theorem HeapOk.reallocOk_iff {taken : List (BitVec 32)} (hok : HeapOk starts h taken) (hsub : live ⊆ taken)
    (hd : UnitsDisjoint starts) (junk : Nat → UInt8) (hfirst : FirstFree starts taken size d)
    (hzero : d.addr starts ≠ 0) {h' : Heap W} (hin : d.offset (mallocMemsize b.size) ≤ mpuMallocUnitBytes)
    (hok' : HeapOk starts h' ((d.addr starts :: taken).erase (b.addr starts)))
    (hbyte : ∀ b' : MallocBlock, b'.Of starts → b'.addr starts ∈ d.addr starts :: taken → ∀ j,
      h'.byte b' j = if (b'.group, b'.size) = (d.group, d.size) ∧ d.offset 0 ≤ b'.offset j ∧
          b'.offset j < d.offset (mallocMemsize b.size) then
        h.byte b (b'.offset j - d.offset 0)
      else (heapGetMemory junk h size).2.byte b' j) :
    ReallocOk starts taken live h b size (d.addr starts) h' ↔ CopyHarmless starts live h b d := by
  constructor
  · intro hexp
    refine (le_or_gt _ _).imp_right fun hlt => ⟨hin, fun b' hb' hlive' hg hs j hj hlow hhigh => ?_⟩
    have hne : b' ≠ b := fun heq => absurd hlt (by rw [← hs, heq]; exact lt_irrefl _)
    rw [← hexp.frame b' hb' hlive' hne j hj, hbyte b' hb' (.tail _ (hsub hlive')),
      if_pos ⟨by rw [hg, hs], hlow, hhigh⟩]
  · intro hharm
    refine ⟨fun hz => absurd hz hzero, fun _ => ⟨d, hfirst.of, rfl, hfirst.large, fun j hj => ?_, hok'⟩,
      fun b' hb' hlive' hne j hj => ?_⟩
    · have hrange : d.offset 0 ≤ d.offset j ∧ d.offset j < d.offset (mallocMemsize b.size) := by
        rw [offset_add d j, offset_add d (mallocMemsize b.size)]
        omega
      rw [hbyte d hfirst.of (.head _), if_pos ⟨rfl, hrange⟩, offset_add d j,
        Nat.add_sub_cancel_left]
    · rw [hbyte b' hb' (.tail _ (hsub hlive'))]
      split_ifs with hcond
      · obtain ⟨hunit, hlow, hhigh⟩ := hcond
        rcases hharm with hle | ⟨-, hsame⟩
        · -- inside the new block there is no other
          have hned : b' ≠ d := fun heq => hfirst.free (heq ▸ hsub hlive')
          have := offset_disjoint hunit hned
          rw [offset_add b' (mallocMemsize b'.size),
            offset_add d (mallocMemsize d.size)] at this
          rw [offset_add b' j] at hlow hhigh
          rw [offset_add d (mallocMemsize b.size)] at hhigh
          omega
        · exact (hsame b' hb' hlive' (Prod.mk.inj hunit).1 (Prod.mk.inj hunit).2 j hj hlow
            hhigh).symm
      · exact hok.byte_heapGetMemory hd junk size hb' (hsub hlive') j

theorem MallocBlock.Of.not_copyHarmless (hof : d.Of starts)
    (hout : mpuMallocUnitBytes < d.offset (mallocMemsize b.size)) : ¬ CopyHarmless starts live h b d := by
  have hdin := hof.offset_le
  rintro (hle | ⟨hin, -⟩)
  · rw [offset_add] at hdin hout
    omega
  · omega

/-- **The guest's `realloc`.** On a good heap, of a block that the guest holds, it does what the guest
expects if and only if it gets no block, or the two units end below the top of the address space and
the copy into the first free block for the new size is harmless. -/
theorem realloc_ok_iff {taken : List (BitVec 32)} (hok : HeapOk starts h taken) (hsub : live ⊆ taken)
    (hd : UnitsDisjoint starts) (ha : MallocAddressable starts)
    (hstatic : StaticApart starts h.bus.addressMap) (hb : b.Of starts) (hlive : b.addr starts ∈ live)
    (junk : Nat → UInt8) (size : BitVec 32) :
    (∃ rptr h', athrillSyscallRealloc junk h (b.addr starts) size = some (rptr, h') ∧
        ReallocOk starts taken live h b size rptr h') ↔
      ∀ d, FirstFree starts taken size d → d.addr starts ≠ 0 →
        (b.BelowTop starts ∧ d.BelowTop starts) ∧ CopyHarmless starts live h b d := by
  have htaken := hsub hlive
  rcases hok.getMemory hd ha junk size with ⟨hfail, hex⟩ | ⟨d, hfirst, hget, hok₁⟩
  · -- no block: nothing changes
    have hcall : athrillSyscallRealloc junk h (b.addr starts) size = some (0, h) := by
      rw [athrillSyscallRealloc, hfail]
      rfl
    refine iff_of_true ⟨0, h, hcall, fun _ => ⟨(hok.inv.taken_iff b hb).2 htaken, fun _ _ => rfl⟩,
      fun hne => absurd rfl hne, fun _ _ _ _ _ _ => rfl⟩ ?_
    exact fun d hfirst => absurd hex hfirst.not_exhausted
  by_cases hzero : d.addr starts = 0
  · -- the block at address 0 is lost, and the call fails
    have hcall : athrillSyscallRealloc junk h (b.addr starts) size =
        some (0, (heapGetMemory junk h size).2) := by
      rw [athrillSyscallRealloc, hget, if_pos hzero]
    refine iff_of_true ⟨0, _, hcall, fun _ => ⟨?_, fun j _ => ?_⟩, fun hne => absurd rfl hne,
      fun b' hb' hlive' _ j _ => ?_⟩ ?_
    · exact (hok₁.inv.taken_iff b hb).2 (.tail _ htaken)
    · exact hok.byte_heapGetMemory hd junk size hb htaken j
    · exact hok.byte_heapGetMemory hd junk size hb' (hsub hlive') j
    · exact fun d' hfirst' hne => absurd (hfirst.unique hfirst' ▸ hzero) hne
  -- the condition is about this block
  have hcond : (∀ d, FirstFree starts taken size d → d.addr starts ≠ 0 →
      (b.BelowTop starts ∧ d.BelowTop starts) ∧ CopyHarmless starts live h b d) ↔
      (b.BelowTop starts ∧ d.BelowTop starts) ∧ CopyHarmless starts live h b d :=
    ⟨fun hall => hall d hfirst hzero, fun hone d' hfirst' _ => hfirst.unique hfirst' ▸ hone⟩
  rw [hcond]
  by_cases htop : b.BelowTop starts ∧ d.BelowTop starts
  · rcases hok.realloc hd ha hb htop.1 htaken hfirst htop.2 hzero junk with
      ⟨h', hcall, hin, hok', hbyte⟩ | ⟨hcall, hout⟩
    · rw [and_iff_right htop, ← hok.reallocOk_iff hsub hd junk hfirst hzero hin hok' hbyte, hcall]
      constructor
      · rintro ⟨rptr, h'', hcall', hexp⟩
        cases hcall'
        exact hexp
      · exact fun hexp => ⟨_, h', rfl, hexp⟩
    · rw [hcall]
      exact iff_of_false (by simp) fun hharm => hfirst.of.not_copyHarmless hout hharm.2
  · rw [hok.realloc_top hd ha hstatic hb htaken hfirst htop hzero junk]
    exact iff_of_false (by simp) fun hharm => htop hharm.1

end

/-! ## One group -/

section
variable {base : BitVec 32}

def groupHeap (base : BitVec 32) : Heap 32 where
  bus := ⟨⟨[], List.ofFn fun i : MallocSizeType => unitRegion (groupStarts base i)⟩, -1, -1⟩
  malloc := mpuMallocAddRegions [groupStarts base]
  regionIndex _ i := i

theorem heapOk_groupHeap (hbase : 0 < base.toNat) (htop : base.toNat + 10 * mpuMallocUnitBytes < 2 ^ 32) :
    HeapOk [groupStarts base] (groupHeap base) [] := by
  have hr := (mallocRegions_groupStarts hbase htop).1
  have hbytes : (BitVec.ofNat 32 mpuMallocUnitBytes).toNat = mpuMallocUnitBytes := by decide
  refine ⟨heapInv_addRegions _, fun g hg i => ?_, fun b _ hlive => by cases hlive⟩
  obtain rfl : g = 0 := Nat.lt_one_iff.1 hg
  refine ⟨unitRegion (groupStarts base i), ?_, rfl, hbytes, rfl, rfl, rfl,
    fun buf hbuf => (by cases hbuf), fun j x hne hx a hin => Bool.eq_false_iff.2 fun hcov => ?_⟩
  · simp only [groupHeap, List.getElem?_ofFn]
    rw [dif_pos i.isLt]
  · -- two units have no address in common
    obtain ⟨hj, rfl⟩ := List.getElem?_eq_some_iff.1 hx
    rw [groupHeap, List.length_ofFn] at hj
    simp only [groupHeap, List.getElem_ofFn] at hcov
    have hin' : (unitRegion (groupStarts base ⟨j, hj⟩)).Has a.toNat :=
      (regionCovers_one_iff rfl (below_of_regionCovers hcov)).1 hcov
    have hdisj := hr.disjoint 0 hg 0 hg i ⟨j, hj⟩
      fun heq => hne (congrArg Fin.val (Prod.mk.inj heq).2).symm
    have hlt : a.toNat < (groupStarts base i).toNat + (BitVec.ofNat 32 mpuMallocUnitBytes).toNat := hin.2
    have hlt' : a.toNat < (groupStarts base ⟨j, hj⟩).toNat +
      (BitVec.ofNat 32 mpuMallocUnitBytes).toNat := hin'.2
    have hle : (groupStarts base i).toNat ≤ a.toNat := hin.1
    have hle' : (groupStarts base ⟨j, hj⟩).toNat ≤ a.toNat := hin'.1
    rw [hbytes] at hlt hlt'
    simp only [mallocUnitStart, List.getD_cons_zero] at hdisj
    generalize mpuMallocUnitBytes = bytes at *
    omega

theorem buffer_groupHeap (i : MallocSizeType) : (groupHeap base).buffer 0 i = none := by
  simp only [groupHeap, Heap.buffer, List.getElem?_ofFn]
  rw [dif_pos i.isLt]
  rfl

theorem buffer_heapRelMemory (h : Heap W) (addr : BitVec 32) :
    (heapRelMemory h addr).buffer = h.buffer := rfl

section
variable {starts : List (MallocSizeType → AthrillAddrType W)} {live : List (BitVec 32)} {size : BitVec 32}

theorem firstFree_of_exact {i : MallocSizeType} {k : Nat} (hb : (⟨0, i, k⟩ : MallocBlock).Of starts)
  (hfree : (⟨0, i, k⟩ : MallocBlock).addr starts ∉ live) (hsize : size.toNat = mallocMemsize i)
  (hbefore : ∀ j < k, (⟨0, i, j⟩ : MallocBlock).addr starts ∈ live) :
    FirstFree starts live size ⟨0, i, k⟩ := by
  refine ⟨hb, hfree, hsize.le, fun b' _ hle hfree' => ?_⟩
  rw [hsize, mallocMemsize_mono.le_iff_le] at hle
  rcases hle.lt_or_eq with hlt | heq
  · exact .inl hlt
  · obtain ⟨g', i', k'⟩ := b'
    obtain rfl : i = i' := heq
    refine .inr ⟨rfl, (Nat.eq_zero_or_pos g').symm.imp id fun hg => ⟨hg.symm, ?_⟩⟩
    refine Nat.not_lt.1 fun hlt => hfree' ?_
    rw [hg]
    exact hbefore k' hlt

theorem HeapOk.buffer_of_firstFree {h : Heap W} {d : MallocBlock} (hok : HeapOk starts h live)
    (hd : UnitsDisjoint starts) (ha : MallocAddressable starts) (junk : Nat → UInt8)
    (hfirst : FirstFree starts live size d) {g : Nat} (hg : g < starts.length) (i : MallocSizeType) :
    (heapGetMemory junk h size).2.buffer g i =
      if (d.group, d.size) = (g, i) then
        some ((h.buffer g i).getD (hostMalloc junk mpuMallocUnitBytes))
      else h.buffer g i := by
  rcases hok.inv.getMemory hd ha junk size with ⟨-, -, hex⟩ | ⟨d', hfirst', -, htaken, -⟩
  · exact absurd hex hfirst.not_exhausted
  · rw [buffer_heapGetMemory hd hok junk size hg, htaken, hfirst.unique hfirst']
    simp only [some.injEq]

end

end

def shrinkHeap : Heap 32 :=
  let h := (heapGetMemory (fun _ => 0) (groupHeap 0x10000000) 64).2
  let h := (heapGetMemory (fun _ => 1) h 32).2
  let h := (heapGetMemory (fun _ => 1) h 32).2
  heapRelMemory h 0x10000000

theorem shrinkHeap_units :
    MallocRegions [groupStarts 0x10000000] ∧ MallocFits [groupStarts 0x10000000] :=
  mallocRegions_groupStarts (by decide) (by decide)

theorem heapOk_shrinkHeap :
    HeapOk [groupStarts 0x10000000] shrinkHeap [0x10000020, 0x10100000] ∧
      shrinkHeap.buffer 0 0 = some (hostMalloc (fun _ => 1) mpuMallocUnitBytes) ∧
      shrinkHeap.buffer 0 1 = some (hostMalloc (fun _ => 0) mpuMallocUnitBytes) := by
  obtain ⟨hr, hf⟩ := shrinkHeap_units
  have h₀ : HeapOk [groupStarts 0x10000000] (groupHeap 0x10000000) [] :=
    heapOk_groupHeap (by decide) (by decide)
  have hfirst₁ : FirstFree [groupStarts 0x10000000] [] 64 ⟨0, 1, 0⟩ :=
    firstFree_of_exact ⟨by decide, by decide⟩ (by simp) rfl (by simp)
  have h₁ := (h₀.getMemory_of_firstFree hr.disjoint hf.addressable (fun _ => 0) hfirst₁).2
  have hbuf₁ := h₀.buffer_of_firstFree hr.disjoint hf.addressable (fun _ => 0) hfirst₁ (g := 0) (by decide)
  have hfirst₂ : FirstFree [groupStarts 0x10000000] [0x10100000] 32 ⟨0, 0, 0⟩ :=
    firstFree_of_exact ⟨by decide, by decide⟩ (by decide) rfl (by simp)
  have h₂ := (h₁.getMemory_of_firstFree hr.disjoint hf.addressable (fun _ => 1) hfirst₂).2
  have hbuf₂ := h₁.buffer_of_firstFree hr.disjoint hf.addressable (fun _ => 1) hfirst₂ (g := 0) (by decide)
  have hfirst₃ : FirstFree [groupStarts 0x10000000] [0x10000000, 0x10100000] 32 ⟨0, 0, 1⟩ :=
    firstFree_of_exact ⟨by decide, by decide⟩ (by decide) rfl (by decide)
  have h₃ := (h₂.getMemory_of_firstFree hr.disjoint hf.addressable (fun _ => 1) hfirst₃).2
  have hbuf₃ := h₂.buffer_of_firstFree hr.disjoint hf.addressable (fun _ => 1) hfirst₃ (g := 0) (by decide)
  have hof : (⟨0, 0, 0⟩ : MallocBlock).Of [groupStarts 0x10000000] := ⟨by decide, by decide⟩
  have haddr : (⟨0, 0, 0⟩ : MallocBlock).addr [groupStarts 0x10000000] = 0x10000000 ∧
      (⟨0, 0, 1⟩ : MallocBlock).addr [groupStarts 0x10000000] = 0x10000020 ∧
      (⟨0, 1, 0⟩ : MallocBlock).addr [groupStarts 0x10000000] = 0x10100000 := by decide
  have h₄ := h₃.relMemory hr.disjoint hf.addressable hof (hf.belowTop hof) (by decide)
  rw [haddr.1, haddr.2.1, haddr.2.2] at h₄
  refine ⟨h₄, ?_, ?_⟩
  · dsimp only [shrinkHeap]
    rw [buffer_heapRelMemory, hbuf₃ 0, if_pos rfl, hbuf₂ 0, if_pos rfl,
      hbuf₁ 0, if_neg (by decide), buffer_groupHeap, getD_none, getD_some]
  · dsimp only [shrinkHeap]
    rw [buffer_heapRelMemory, hbuf₃ 1, if_neg (by decide), hbuf₂ 1,
      if_neg (by decide), hbuf₁ 1, if_pos rfl, buffer_groupHeap, getD_none]

theorem realloc_ok_grow : ∃ rptr h', athrillSyscallRealloc (fun _ => 0) shrinkHeap 0x10100000 128 =
      some (rptr, h') ∧
    ReallocOk [groupStarts 0x10000000] [0x10000020, 0x10100000] [0x10000020, 0x10100000] shrinkHeap
      ⟨0, 1, 0⟩ 128 rptr h' := by
  obtain ⟨hr, hf⟩ := shrinkHeap_units
  have hof : (⟨0, 1, 0⟩ : MallocBlock).Of [groupStarts 0x10000000] := ⟨by decide, by decide⟩
  have hstatic : StaticApart [groupStarts 0x10000000] shrinkHeap.bus.addressMap := by
    intro x hx
    dsimp only [shrinkHeap, heapRelMemory] at hx
    rw [map_heapGetMemory, map_heapGetMemory, map_heapGetMemory] at hx
    cases hx
  refine (realloc_ok_iff heapOk_shrinkHeap.1 (List.Subset.refl _) hr.disjoint hf.addressable hstatic hof
    (by decide) _ _).2 fun d hfirst _ => ⟨⟨hf.belowTop hof, hf.belowTop hfirst.of⟩, .inl ?_⟩
  exact le_trans (by decide) hfirst.large

/-- Making it smaller copies its 64 bytes into the free block of 32 bytes and the live one behind it. -/
theorem realloc_shrink_overwrites : shrinkHeap.byte ⟨0, 0, 1⟩ 0 = some 1 ∧
    ∃ h', athrillSyscallRealloc (fun _ => 0) shrinkHeap 0x10100000 32 = some (0x10000000, h') ∧
      h'.malloc.bitAt ⟨0, 0, 1⟩ = some true ∧ h'.byte ⟨0, 0, 1⟩ 0 = some 0 := by
  obtain ⟨hr, hf⟩ := shrinkHeap_units
  obtain ⟨hok, hbuf₀, hbuf₁⟩ := heapOk_shrinkHeap
  have hbyte : ∀ (x : UInt8) (k : Nat), k < mpuMallocUnitBytes →
      (hostMalloc (fun _ => x) mpuMallocUnitBytes)[k]? = some x := by
    intro x k hk
    rw [hostMalloc, List.getElem?_map, List.getElem?_range hk, map_some]
  have hof : (⟨0, 1, 0⟩ : MallocBlock).Of [groupStarts 0x10000000] := ⟨by decide, by decide⟩
  have hof' : (⟨0, 0, 1⟩ : MallocBlock).Of [groupStarts 0x10000000] := ⟨by decide, by decide⟩
  have hfirst : FirstFree [groupStarts 0x10000000] [0x10000020, 0x10100000] 32 ⟨0, 0, 0⟩ :=
    firstFree_of_exact ⟨by decide, by decide⟩ (by decide) rfl (by simp)
  constructor
  · have hoff : (⟨0, 0, 1⟩ : MallocBlock).offset 0 < mpuMallocUnitBytes := by decide
    rw [Heap.byte, hbuf₀, bind_some, hbyte _ _ hoff]
  rcases hok.realloc hr.disjoint hf.addressable hof (hf.belowTop hof) (by decide) hfirst
    (hf.belowTop hfirst.of) (by decide) (fun _ => 0) with ⟨h', hcall, -, hok', hbytes⟩ | ⟨-, hout⟩
  · refine ⟨h', hcall, (hok'.inv.taken_iff _ hof').2 (by decide), ?_⟩
    have hoff : (⟨0, 1, 0⟩ : MallocBlock).offset ((⟨0, 0, 1⟩ : MallocBlock).offset 0 -
        (⟨0, 0, 0⟩ : MallocBlock).offset 0) < mpuMallocUnitBytes := by decide
    rw [hbytes _ hof' (by decide), if_pos (by decide), Heap.byte, hbuf₁, bind_some,
      hbyte _ _ hoff]
  · exact absurd hout (by decide)

end Athrill
