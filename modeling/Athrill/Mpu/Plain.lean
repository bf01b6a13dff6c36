import Athrill.Lib.FlatMemory
import Athrill.Mpu.Access

/-!
# Plain memory

ROM and RAM regions with the default operations, whose buffers have the size of the region and which end
below the top of the address space.
-/

namespace Athrill

open Bytes FlatMemory MemoSearch List Option MpuAddressMapType MpuAddressRegionType

variable {W : Nat}

/-! ## Regions -/

def MpuAddressRegionType.Has (region : MpuAddressRegionType W) (a : Nat) : Prop :=
  region.start.toNat ≤ a ∧ a < region.start.toNat + region.size.toNat

instance MpuAddressRegionType.instDecidableHas (region : MpuAddressRegionType W) (a : Nat) :
    Decidable (region.Has a) :=
  inferInstanceAs (Decidable (_ ∧ _))

structure PlainRegion (region : MpuAddressRegionType W) : Prop where
  mask : region.mask = BitVec.allOnes W
  ops : region.ops = defaultMemoryOperation
  type : region.type = .globalMemory ∨ region.type = .readonlyMemory
  data : ∃ buf, region.data = some buf ∧ buf.length = region.size.toNat
  below : region.start.toNat + region.size.toNat < 2 ^ W

section
variable {region : MpuAddressRegionType W} {addr n : AthrillAddrType W}

theorem regionCovers_iff (hmask : region.mask = BitVec.allOnes W)
    (hbelow : region.start.toNat + region.size.toNat < 2 ^ W) :
    regionCovers region addr n = true ↔
      region.Has addr.toNat ∧ region.start.toNat < (addr + n).toNat ∧
        (addr + n).toNat ≤ region.start.toNat + region.size.toNat := by
  have hend : (region.start + region.size).toNat = region.start.toNat + region.size.toNat :=
    BitVec.toNat_add_of_lt hbelow
  simp only [regionCovers, hmask, BitVec.and_allOnes, Bool.and_eq_true, decide_eq_true_eq,
    BitVec.le_def, BitVec.lt_def, hend, MpuAddressRegionType.Has]

theorem PlainRegion.has_of_covers (h : PlainRegion region) (hcov : regionCovers region addr n = true) :
    region.Has addr.toNat :=
  ((regionCovers_iff h.mask h.below).1 hcov).1

theorem regionCovers_one_iff (hmask : region.mask = BitVec.allOnes W)
    (hbelow : region.start.toNat + region.size.toNat < 2 ^ W) :
    regionCovers region addr 1 = true ↔ region.Has addr.toNat := by
  rw [regionCovers_iff hmask hbelow]
  refine ⟨And.left, fun h => ⟨h, ?_⟩⟩
  have hone : (1 : BitVec W).toNat = 1 := by
    cases W with
    | zero => simp only [MpuAddressRegionType.Has] at h; omega
    | succ W => simp
  have hlt : addr.toNat < region.start.toNat + region.size.toNat := h.2
  have hge : region.start.toNat ≤ addr.toNat := h.1
  rw [BitVec.toNat_add_of_lt (by omega), hone]
  omega

theorem below_of_regionCovers (h : regionCovers region addr n = true) :
    region.start.toNat + region.size.toNat < 2 ^ W := by
  simp only [regionCovers, Bool.and_eq_true, decide_eq_true_eq, BitVec.le_def, BitVec.lt_def] at h
  have hend := BitVec.toNat_add_cases region.start region.size
  have := region.size.isLt
  omega

end

/-! ## Regions that do not overlap -/

structure PlainRegions (rs : List (MpuAddressRegionType W)) : Prop where
  plain : ∀ region ∈ rs, PlainRegion region
  disjoint : ∀ {i j : Nat} {x y : MpuAddressRegionType W} {a : Nat}, rs[i]? = some x →
    rs[j]? = some y → x.Has a → y.Has a → i = j

theorem PlainRegion.of_shape {region region' : MpuAddressRegionType W}
    (hshape : region'.shape = region.shape) (h : PlainRegion region) : PlainRegion region' := by
  obtain ⟨htype, -, hstart, hsize, hmask, hops, hlen⟩ := fields_of_shape hshape
  obtain ⟨buf, hbuf, hbuflen⟩ := h.data
  rw [hbuf] at hlen
  obtain ⟨buf', hbuf', hbuflen'⟩ := map_eq_some_iff.1 hlen
  exact ⟨hmask.trans h.mask, hops.trans h.ops, htype ▸ h.type,
    ⟨buf', hbuf', by rw [hbuflen', hbuflen, hsize]⟩, by rw [hstart, hsize]; exact h.below⟩

theorem MpuAddressRegionType.has_of_shape {region region' : MpuAddressRegionType W} {a : Nat}
    (hshape : region'.shape = region.shape) : region'.Has a ↔ region.Has a := by
  obtain ⟨-, -, hstart, hsize, -⟩ := fields_of_shape hshape
  rw [Has, Has, hstart, hsize]

variable {region : MpuAddressRegionType W} {i : Nat} {rs : List (MpuAddressRegionType W)}
  {m : MpuAddressMapType W} {j : Nat} {addr n : AthrillAddrType W} {buf buf' : HostBuffer}
  {bytes : List UInt8}

section
variable {rs rs' : List (MpuAddressRegionType W)} (hshape : rs'.map (·.shape) = rs.map (·.shape))
include hshape

theorem getElem?_of_shape {x' : MpuAddressRegionType W} (hx' : rs'[i]? = some x') :
    ∃ x, rs[i]? = some x ∧ x'.shape = x.shape := by
  have hi := congrArg (·[i]?) hshape
  simp only [getElem?_map, hx', map_some] at hi
  obtain ⟨x, hx, hxs⟩ := map_eq_some_iff.1 hi.symm
  exact ⟨x, hx, hxs.symm⟩

theorem PlainRegions.of_shape (h : PlainRegions rs) : PlainRegions rs' := by
  constructor
  · intro region' hmem
    obtain ⟨i, hi⟩ := mem_iff_getElem?.1 hmem
    obtain ⟨region, hregion, hs⟩ := getElem?_of_shape hshape hi
    exact (h.plain region (mem_of_getElem? hregion)).of_shape hs
  · intro i j x' y' a hx' hy' hhx hhy
    obtain ⟨x, hx, hxs⟩ := getElem?_of_shape hshape hx'
    obtain ⟨y, hy, hys⟩ := getElem?_of_shape hshape hy'
    exact h.disjoint hx hy ((has_of_shape hxs).1 hhx)
      ((has_of_shape hys).1 hhy)

end

theorem toNat_kib (size : AthrillAddrType W) : (size * 1024).toNat = 1024 * size.toNat % 2 ^ W := by
  show (size * BitVec.ofNat W 1024).toNat = _
  rw [BitVec.toNat_mul, BitVec.toNat_ofNat, Nat.mul_mod_mod, Nat.mul_comm]

theorem plainRegions_nil : PlainRegions ([] : List (MpuAddressRegionType W)) :=
  ⟨fun _ h => (by cases h), fun h => (by cases h)⟩

theorem PlainRegions.append (h : PlainRegions rs) (hregion : PlainRegion region)
    (hdisj : ∀ x ∈ rs, ∀ a, x.Has a → ¬ region.Has a) : PlainRegions (rs ++ [region]) := by
  -- a region of the longer list is one of the others, or the added one
  have hold : ∀ {i : Nat} {x : MpuAddressRegionType W}, (rs ++ [region])[i]? = some x →
      rs[i]? = some x ∨ i = rs.length ∧ x = region := by
    intro i x hx
    by_cases hi : i < rs.length
    · exact .inl (by rwa [List.getElem?_append_left hi] at hx)
    · have hlen := (List.getElem?_eq_some_iff.1 hx).1
      rw [List.length_append, List.length_singleton] at hlen
      obtain rfl : i = rs.length := by omega
      simp only [getElem?_concat_length, some.injEq] at hx
      exact .inr ⟨rfl, hx.symm⟩
  refine ⟨fun x hx => ?_, fun hx hy hxa hya => ?_⟩
  · rcases mem_append.1 hx with hx | hx
    · exact h.plain x hx
    · rwa [mem_singleton.1 hx]
  · rcases hold hx with hx' | ⟨rfl, rfl⟩
    · rcases hold hy with hy' | ⟨rfl, rfl⟩
      · exact h.disjoint hx' hy' hxa hya
      · exact absurd hya (hdisj _ (mem_of_getElem? hx') _ hxa)
    · rcases hold hy with hy' | ⟨rfl, rfl⟩
      · exact absurd hxa (hdisj _ (mem_of_getElem? hy') _ hya)
      · rfl

theorem plainRegion_romRam {junk : Nat → UInt8} {getType : MpuAddressGetType}
    {addr size : AthrillAddrType W} {mmapAddr : Option HostBuffer}
    (hbelow : addr.toNat + size.toNat < 2 ^ W) (hmalloc : getType ≠ .malloc)
    (hmmap : getType = .mmap → ∃ buf, mmapAddr = some buf ∧ buf.length = size.toNat) :
    PlainRegion (romRamRegion junk getType addr size mmapAddr) where
  mask := rfl
  ops := rfl
  type := by cases getType <;> simp [romRamRegion]
  data := by
    cases getType with
    | rom => exact ⟨_, rfl, by simp [hostMalloc, romRamRegion]⟩
    | ram => exact ⟨_, rfl, by simp [hostCalloc, romRamRegion]⟩
    | mmap => exact hmmap rfl
    | malloc => exact absurd rfl hmalloc
  below := hbelow

/-! ## Which region an access selects -/

theorem PlainRegion.hasData (h : PlainRegion region) : region.data.isSome = true := by
  obtain ⟨buf, hbuf, -⟩ := h.data
  rw [hbuf, isSome_some]

theorem PlainRegion.selects (h : PlainRegion region) (hcov : regionCovers region addr n = true)
    {ref : MpuRegionRef} {previous : Int} (hsel : (searchRegionFrom m previous addr n).1 = some ref)
    (hat : regionAt m ref = some region) : Selects m previous addr n ref region :=
  ⟨hsel, hat, h.mask, h.ops, (h.has_of_covers hcov).1⟩

theorem selects_dynamicMap (h : PlainRegions m.dynamicMap) (hregion : m.dynamicMap[j]? = some region)
    (hcov : regionCovers region addr n = true) (previous : Int) :
    Selects m previous addr n (.dynamicMap j) region := by
  have hplain := h.plain region (mem_of_getElem? hregion)
  have hat : regionAt m (.dynamicMap j) = some region := hregion
  refine hplain.selects hcov
    (searchRegionFrom_of_not_shadowed hat hplain.hasData hcov (fun ref x hsh hx => ?_) previous) hat
  cases ref with
  | dynamicMap i =>
    refine Bool.eq_false_iff.2 fun hxcov => hsh.ne (congrArg _ ?_)
    exact h.disjoint hx hregion ((h.plain x (mem_of_getElem? hx)).has_of_covers hxcov)
      (hplain.has_of_covers hcov)
  | map i => exact hsh.elim

def MpuAddressMapType.regions (m : MpuAddressMapType W) : List (MpuAddressRegionType W) :=
  m.dynamicMap ++ m.map

def refAt (m : MpuAddressMapType W) (i : Nat) : MpuRegionRef :=
  if i < m.dynamicMap.length then .dynamicMap i else .map (i - m.dynamicMap.length)

theorem regionAt_refAt (m : MpuAddressMapType W) (i : Nat) :
    regionAt m (refAt m i) = m.regions[i]? := by
  unfold refAt regions
  split_ifs with h
  · rw [regionAt, getElem?_append_left h]
  · rw [regionAt, getElem?_append_right (by omega)]

theorem exists_refAt {ref : MpuRegionRef} (h : regionAt m ref = some region) :
    ∃ i, ref = refAt m i ∧ m.regions[i]? = some region := by
  cases ref with
  | dynamicMap i =>
    have hi : i < m.dynamicMap.length := (List.getElem?_eq_some_iff.1 h).1
    exact ⟨i, (if_pos hi).symm, (getElem?_append_left hi).trans h⟩
  | map i =>
    refine ⟨m.dynamicMap.length + i, ?_, ?_⟩
    · rw [refAt, if_neg (by omega), Nat.add_sub_cancel_left]
    · rw [regions, getElem?_append_right (by omega), Nat.add_sub_cancel_left]
      exact h

theorem selects_refAt (h : PlainRegions m.regions) (hregion : m.regions[i]? = some region)
    (hcov : regionCovers region addr n = true) (previous : Int) :
    Selects m previous addr n (refAt m i) region := by
  have hplain := h.plain region (mem_of_getElem? hregion)
  have hat := (regionAt_refAt m i).trans hregion
  refine hplain.selects hcov
    (searchRegionFrom_of_only hat hplain.hasData hcov (fun ref x hx hxcov => ?_) previous) hat
  obtain ⟨k, rfl, hk⟩ := exists_refAt hx
  rw [h.disjoint hk hregion ((h.plain x (mem_of_getElem? hk)).has_of_covers hxcov)
    (hplain.has_of_covers hcov)]

theorem searchRegionFrom_eq_none
    (h : ∀ region ∈ m.regions, regionCovers region addr n = false) (previous : Int) :
    (searchRegionFrom m previous addr n).1 = none := by
  have habsent : ∀ x ∈ m.dynamicMap, coversAccess x (addr, n) = false :=
    fun x hx => h x (mem_append_left _ hx)
  rw [(searchRegionFrom_eq m previous addr n).1, search_eq_absent habsent, ofOutcome,
    findIdx?_eq_none_iff.2 fun x hx => h x (mem_append_right _ hx)]
  rfl

/-! ## Contents -/

def byteAt (rs : List (MpuAddressRegionType W)) (a : Nat) : UInt8 :=
  match rs.find? fun region => decide (region.Has a) with
  | some region => ((region.data.getD [])[a - region.start.toNat]?).getD 0
  | none => 0

theorem byteAt_of_has (h : PlainRegions rs) (hregion : rs[i]? = some region) {a : Nat}
    (ha : region.Has a) {buf : HostBuffer} (hbuf : region.data = some buf) :
    byteAt rs a = (buf[a - region.start.toNat]?).getD 0 := by
  have hfind : rs.find? (fun region => decide (region.Has a)) = some region := by
    cases hf : rs.find? fun region => decide (region.Has a) with
    | none =>
      have := find?_eq_none.1 hf region (mem_of_getElem? hregion)
      simp [ha] at this
    | some x =>
      obtain ⟨j, hj⟩ := mem_iff_getElem?.1 (mem_of_find?_eq_some hf)
      have hx : x.Has a := by simpa using find?_some hf
      obtain rfl := h.disjoint hj hregion hx ha
      exact hj.symm.trans hregion
  simp only [byteAt, hfind, hbuf, getD_some]

theorem byteAt_of_not_has {a : Nat} (h : ∀ region ∈ rs, ¬ region.Has a) : byteAt rs a = 0 := by
  have hfind : rs.find? (fun region => decide (region.Has a)) = none := by
    simpa [find?_eq_none] using h
  rw [byteAt, hfind]

theorem getElem?_hostWrite {off : Int} (h : hostWrite buf off bytes = some buf') {k : Nat} :
    buf'[k]? = if off.toNat ≤ k ∧ k < off.toNat + bytes.length then bytes[k - off.toNat]?
      else buf[k]? := by
  unfold hostWrite at h
  split_ifs at h with hnil hin
  · cases h
    rw [if_neg (by simp [hnil])]
  · cases h
    have hlen : (buf.take off.toNat).length = off.toNat := by
      rw [length_take]
      omega
    by_cases hlow : off.toNat ≤ k
    · by_cases hhigh : k < off.toNat + bytes.length
      · rw [if_pos ⟨hlow, hhigh⟩, append_assoc, getElem?_append_right (by omega), hlen,
          getElem?_append_left (by omega)]
      · rw [if_neg (by omega), getElem?_append_right (by rw [length_append]; omega),
          getElem?_drop, length_append, hlen]
        congr 1
        omega
    · rw [if_neg (by omega), append_assoc, getElem?_append_left (by omega),
        getElem?_take_of_lt (by omega)]

theorem getElem?_modify_withData (hregion : rs[i]? = some region) (data : Option HostBuffer) :
    (rs.modify i (·.withData data))[i]? = some (region.withData data) ∧
      ∀ j ≠ i, (rs.modify i (·.withData data))[j]? = rs[j]? := by
  refine ⟨?_, fun j hj => ?_⟩
  · simp [hregion]
  · simp [hj.symm]

theorem modify_withData_shape (hregion : rs[i]? = some region)
    (hbuf : region.data = some buf) (hlen : buf'.length = buf.length) :
    (rs.modify i (·.withData (some buf'))).map (·.shape) = rs.map (·.shape) := by
  have hbind : (regionAt ⟨[], rs⟩ (.dynamicMap i)).bind (·.data) = some buf := by
    rw [regionAt, hregion, bind_some, hbuf]
  exact congrArg dynamicMap (setRegionData_shape hbind hlen)

theorem byteAt_modify (h : PlainRegions rs) (hregion : rs[i]? = some region) (hbuf : region.data = some buf)
    {off : Int} (hoff : 0 ≤ off) (hwrite : hostWrite buf off bytes = some buf') :
    byteAt (rs.modify i (·.withData (some buf'))) =
      store (byteAt rs) (region.start.toNat + off.toNat) bytes := by
  have hshape := modify_withData_shape hregion hbuf (length_hostWrite hwrite)
  have h' : PlainRegions (rs.modify i (·.withData (some buf'))) := h.of_shape hshape
  obtain ⟨hself, hothers⟩ := getElem?_modify_withData hregion (some buf')
  have hsize : buf.length = region.size.toNat := by
    obtain ⟨b, hb, hl⟩ := (h.plain region (mem_of_getElem? hregion)).data
    rw [some.inj (hbuf.symm.trans hb), hl]
  funext a
  by_cases ha : region.Has a
  · -- an address of the region
    have hlow := ha.1
    have hhigh := ha.2
    rw [byteAt_of_has h' hself (by exact ha) rfl]
    show (buf'[a - region.start.toNat]?).getD 0 = _
    rw [getElem?_hostWrite hwrite]
    split_ifs with hin
    · obtain ⟨d, rfl⟩ : ∃ d, a = region.start.toNat + off.toNat + d :=
        ⟨a - region.start.toNat - off.toNat, by omega⟩
      have hd : d < bytes.length := by omega
      rw [store_add hd, show region.start.toNat + off.toNat + d - region.start.toNat - off.toNat = d
        by omega, getElem?_eq_getElem hd, getD_some]
    · rw [store_of_not_mem (by omega), byteAt_of_has h hregion ha hbuf]
  · -- an address of another region or of none, which the write does not reach
    have hout : ¬ (region.start.toNat + off.toNat ≤ a ∧
        a < region.start.toNat + off.toNat + bytes.length) := by
      rintro ⟨hlow, hhigh⟩
      rcases hostWrite_isSome_iff.1 ⟨buf', hwrite⟩ with rfl | ⟨-, hle⟩
      · rw [length_nil] at hhigh
        omega
      · exact ha ⟨by omega, by omega⟩
    rw [store_of_not_mem hout]
    by_cases hother : ∃ (j : Nat) (x : MpuAddressRegionType W), rs[j]? = some x ∧ x.Has a
    · obtain ⟨j, x, hx, hxa⟩ := hother
      have hne : j ≠ i := by
        rintro rfl
        obtain rfl := some.inj (hregion.symm.trans hx)
        exact ha hxa
      obtain ⟨xbuf, hxbuf, -⟩ := (h.plain x (mem_of_getElem? hx)).data
      rw [byteAt_of_has h' ((hothers j hne).trans hx) hxa hxbuf, byteAt_of_has h hx hxa hxbuf]
    · have hnone : ∀ x ∈ rs, ¬ x.Has a := by
        intro x hx hxa
        obtain ⟨j, hj⟩ := mem_iff_getElem?.1 hx
        exact hother ⟨j, x, hj, hxa⟩
      have hnone' : ∀ x ∈ rs.modify i (·.withData (some buf')), ¬ x.Has a := by
        intro x hx hxa
        obtain ⟨j, hj⟩ := mem_iff_getElem?.1 hx
        obtain ⟨y, hy, hs⟩ := getElem?_of_shape hshape hj
        exact hother ⟨j, y, hy, (has_of_shape hs).1 hxa⟩
      rw [byteAt_of_not_has hnone, byteAt_of_not_has hnone']

theorem mpuGetData8_of_has (h : PlainRegions m.dynamicMap) (hregion : m.dynamicMap[j]? = some region)
    {addr : AthrillAddrType W} (ha : region.Has addr.toNat) (p q : Int) :
    mpuGetData8 ⟨m, p, q⟩ addr =
      some (.ok (byteAt m.dynamicMap addr.toNat).toNat, (searchRegionR ⟨m, p, q⟩ addr 1).2) := by
  have hp := h.plain region (mem_of_getElem? hregion)
  have hcov : regionCovers region addr 1 = true := (regionCovers_one_iff hp.mask hp.below).2 ha
  obtain ⟨buf, hbuf, hlen⟩ := hp.data
  have hin : addr.toNat - region.start.toNat < buf.length := by
    have := ha.1
    have := ha.2
    omega
  rw [(selects_dynamicMap h hregion hcov q).getData8 hbuf hin, byteAt_of_has h hregion ha hbuf, getElem?_eq_getElem hin, getD_some]

/-! ## Pointers -/

theorem mpuGetPointer_of_has (h : PlainRegions m.dynamicMap) (hregion : m.dynamicMap[j]? = some region)
    {addr : AthrillAddrType W} (ha : region.Has addr.toNat) (p q : Int) :
    mpuGetPointer ⟨m, p, q⟩ addr =
      (.ok (.dynamicMap j, ((addr.toNat - region.start.toNat : Nat) : Int)),
        (searchRegion ⟨m, p, q⟩ addr 1).2) := by
  have hp := h.plain region (mem_of_getElem? hregion)
  have hcov : regionCovers region addr 1 = true := (regionCovers_one_iff hp.mask hp.below).2 ha
  exact (selects_dynamicMap h hregion hcov p).getPointer

theorem pointerWrite_of_plain (h : PlainRegions m.dynamicMap) (hregion : m.dynamicMap[j]? = some region)
    {off : Nat} (hin : off + bytes.length ≤ region.size.toNat) :
    ∃ m', pointerWrite m (.dynamicMap j) off bytes = some m' ∧ m'.shape = m.shape ∧
      byteAt m'.dynamicMap = store (byteAt m.dynamicMap) (region.start.toNat + off) bytes := by
  obtain ⟨buf, hbuf, hlen⟩ := (h.plain region (mem_of_getElem? hregion)).data
  have hbind : (regionAt m (.dynamicMap j)).bind (·.data) = some buf := by
    rw [regionAt, hregion, bind_some, hbuf]
  obtain ⟨buf', hwrite⟩ : ∃ buf', hostWrite buf (off : Int) bytes = some buf' :=
    hostWrite_isSome_iff.2 (.inr ⟨by omega, by omega⟩)
  refine ⟨setRegionData m (.dynamicMap j) buf', ?_, setRegionData_shape hbind (length_hostWrite hwrite),
    ?_⟩
  · rw [pointerWrite, hbind]
    dsimp only
    rw [hwrite, map_some]
  · rw [setRegionData, byteAt_modify h hregion hbuf (by omega) hwrite, Int.toNat_natCast]

end Athrill
