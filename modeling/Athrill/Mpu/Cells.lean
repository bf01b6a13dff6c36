import Athrill.Lib.Writes
import Athrill.Mpu.Plain

/-!
# The bytes behind a map

A map is determined by its shape and the byte in each cell of its buffers.
-/

namespace Athrill

open MemoSearch Writes List Option MpuAddressMapType

variable {W : Nat}

abbrev HostCell : Type := MpuRegionRef × Nat

def cellByte (m : MpuAddressMapType W) (c : HostCell) : Option UInt8 :=
  ((regionAt m c.1).bind (·.data)).bind (·[c.2]?)

def cellWrites (ref : MpuRegionRef) : Nat → List UInt8 → List (HostCell × UInt8) := placed (ref, ·)

theorem last_cellWrites (ref : MpuRegionRef) (off : Nat) (bytes : List UInt8) (c : HostCell) :
    last c (cellWrites ref off bytes) = if c.1 = ref ∧ off ≤ c.2 then bytes[c.2 - off]? else none := by
  obtain ⟨ref', k⟩ := c
  by_cases hc : ref' = ref
  · subst hc
    simp only [true_and]
    exact last_placed (fun _ _ h => (Prod.mk.inj h).2) k off bytes
  · rw [if_neg fun h => hc h.1]
    exact last_placed_of_ne (fun _ h => hc (congrArg Prod.fst h).symm) off bytes

theorem MpuAddressRegionType.eq_of_shape {region region' : MpuAddressRegionType W}
    (hshape : region'.shape = region.shape)
    (h : ∀ k : Nat, region'.data.bind (·[k]?) = region.data.bind (·[k]?)) : region' = region := by
  obtain ⟨htype, hmalloc, hstart, hsize, hmask, hops, hlen⟩ := fields_of_shape hshape
  have hdata : region'.data = region.data := by
    cases hd : region.data with
    | none => simpa [hd] using hlen
    | some buf =>
      cases hd' : region'.data with
      | none => simp [hd, hd'] at hlen
      | some buf' =>
        simp only [hd, hd', bind_some] at h
        rw [ext_getElem? h]
  cases region
  cases region'
  simp_all

theorem regions_eq_of_shape {rs rs' : List (MpuAddressRegionType W)}
    (hshape : rs'.map (·.shape) = rs.map (·.shape))
    (h : ∀ i k : Nat, (rs'[i]?.bind (·.data)).bind (·[k]?) = (rs[i]?.bind (·.data)).bind (·[k]?)) :
    rs' = rs := by
  apply ext_getElem?
  intro i
  have hi := congrArg (·[i]?) hshape
  simp only [getElem?_map] at hi
  have hbytes := h i
  cases hr : rs[i]? with
  | none => simpa [hr] using hi
  | some region =>
    cases hr' : rs'[i]? with
    | none => simp [hr, hr'] at hi
    | some region' =>
      simp only [hr, hr', map_some, some.injEq] at hi
      simp only [hr, hr', bind_some] at hbytes
      rw [MpuAddressRegionType.eq_of_shape hi hbytes]

variable {m m' : MpuAddressMapType W} {ref : MpuRegionRef} {region : MpuAddressRegionType W}
  {a : AthrillAddrType W}

theorem eq_of_cellByte (hshape : m'.shape = m.shape) (h : cellByte m' = cellByte m) : m' = m := by
  have hmap := regions_eq_of_shape (congrArg MpuAddressMapType.map hshape) fun i k =>
    congrFun h (.map i, k)
  have hdyn := regions_eq_of_shape (congrArg dynamicMap hshape) fun i k =>
    congrFun h (.dynamicMap i, k)
  cases m
  cases m'
  cases hmap
  cases hdyn
  rfl

theorem cellByte_pointerWrite {off : Nat} {bytes : List UInt8} (h : pointerWrite m ref off bytes = some m') :
    cellByte m' = apply (cellByte m) (cellWrites ref off bytes) := by
  unfold pointerWrite at h
  cases hbuf : (regionAt m ref).bind (·.data) with
  | none =>
    rw [hbuf] at h
    cases h
  | some buf =>
    rw [hbuf] at h
    obtain ⟨buf', hwrite, rfl⟩ := map_eq_some_iff.1 h
    obtain ⟨region, hregion, hdata⟩ := bind_eq_some_iff.1 hbuf
    funext c
    rw [cellByte, regionAt_setRegionData hregion, apply, last_cellWrites]
    by_cases hc : c.1 = ref
    · rw [if_pos hc, bind_some]
      have hold : cellByte m c = buf[c.2]? := by rw [cellByte, hc, hregion, bind_some, hdata]; rfl
      show buf'[c.2]? = _
      rw [getElem?_hostWrite hwrite, Int.toNat_natCast, hold]
      by_cases hlow : off ≤ c.2
      · by_cases hhigh : c.2 < off + bytes.length
        · have hsome : c.2 - off < bytes.length := by omega
          rw [if_pos ⟨hlow, hhigh⟩, if_pos ⟨hc, hlow⟩, getElem?_eq_getElem hsome, some_or]
        · have hnone : bytes[c.2 - off]? = none := getElem?_eq_none (by omega)
          rw [if_neg (fun h => hhigh h.2), if_pos ⟨hc, hlow⟩, hnone, none_or]
      · rw [if_neg (fun h => hlow h.1), if_neg (fun h => hlow h.2), none_or]
    · rw [if_neg hc, if_neg (fun h => hc h.1), none_or]
      rfl

/-! ## Writes of the bus -/

def putCell (s : MpuState W) (addr : AthrillAddrType W) : Option HostCell :=
  (searchRegion s addr 1).1.bind fun ref => (regionAt s.addressMap ref).bind fun region =>
    if region.type = .readonlyMemory then none
    else some (ref, ((addr &&& region.mask) - region.start).toNat)

theorem mpuPutData8_cases {s s' : MpuState W} {addr : AthrillAddrType W} {data : BitVec 8}
    {err : StdReturnType} (h : mpuPutData8 s addr data = some (err, s')) :
    s'.previousIndex = (searchRegion s addr 1).2.previousIndex ∧
      s'.addressMap.shape = s.addressMap.shape ∧
      ((putCell s addr = none ∧ err ≠ .ok ∧ s'.addressMap = s.addressMap) ∨
        ∃ c, putCell s addr = some c ∧ err = .ok ∧
          cellByte s'.addressMap = apply (cellByte s.addressMap) [(c, UInt8.ofNat data.toNat)]) := by
  have hone : BitVec.ofNat W BusWidth.data8.bytes = 1 := rfl
  simp only [mpuPutData8, mpuPutData, hone] at h
  unfold putCell
  cases hsel : (searchRegion s addr 1).1 with
  | none =>
    simp only [hsel, some.injEq, Prod.mk.injEq] at h
    obtain ⟨rfl, rfl⟩ := h
    exact ⟨rfl, rfl, .inl ⟨rfl, by decide, rfl⟩⟩
  | some ref =>
    cases hregion : regionAt s.addressMap ref with
    | none =>
      simp only [hsel, hregion, some.injEq, Prod.mk.injEq] at h
      obtain ⟨rfl, rfl⟩ := h
      exact ⟨rfl, rfl, .inl ⟨by simp [hregion], by decide, rfl⟩⟩
    | some region =>
      simp only [hsel, hregion] at h
      split_ifs at h with hrom
      · cases h
        exact ⟨rfl, rfl, .inl ⟨by simp [hregion, hrom], by decide, rfl⟩⟩
      · cases hops : region.ops with
        | device getPointer =>
          rw [hops] at h
          cases h
        | defaultMemory =>
          rw [hops] at h
          obtain ⟨m, hwrite, heq⟩ := map_eq_some_iff.1 h
          cases heq
          refine ⟨rfl, pointerWrite_shape hwrite, .inr ⟨_, by simp [hregion, hrom]; rfl, rfl, ?_⟩⟩
          exact cellByte_pointerWrite hwrite

theorem putCell_congr {s s' : MpuState W} (hshape : s'.addressMap.shape = s.addressMap.shape)
    (hindex : s'.previousIndex = s.previousIndex) (addr : AthrillAddrType W) :
    putCell s' addr = putCell s addr := by
  have hsel : (searchRegion s' addr 1).1 = (searchRegion s addr 1).1 := by
    rw [searchRegion, searchRegion, hindex, searchRegionFrom_congr hshape]
  unfold putCell
  rw [hsel]
  exact congrArg _ (funext fun ref => bind_regionAt_congr hshape (fun _ => rfl) ref)

/-! ## Guest addresses -/

def MpuAddressMapType.DisjointRegions (m : MpuAddressMapType W) : Prop :=
  ∀ (ref ref' : MpuRegionRef) (x y : MpuAddressRegionType W) (a : AthrillAddrType W),
    regionAt m ref = some x → regionAt m ref' = some y → regionCovers x a 1 = true →
    regionCovers y a 1 = true → ref = ref'

theorem MpuAddressMapType.DisjointRegions.of_shape
    (hshape : m'.shape = m.shape) (h : m.DisjointRegions) : m'.DisjointRegions := by
  intro ref ref' x y a hx hy hxcov hycov
  obtain ⟨x₀, hx₀, hxs⟩ := exists_regionAt_of_shape hshape hx
  obtain ⟨y₀, hy₀, hys⟩ := exists_regionAt_of_shape hshape hy
  rw [regionCovers_of_shape hxs] at hxcov
  rw [regionCovers_of_shape hys] at hycov
  exact h ref ref' x₀ y₀ a hx₀ hy₀ hxcov hycov

def guestCell (m : MpuAddressMapType W) (a : AthrillAddrType W) : Option HostCell :=
  (m.regions.findIdx? (regionCovers · a 1)).bind fun i => (m.regions[i]?).map fun region =>
    (refAt m i, ((a &&& region.mask) - region.start).toNat)

def guestByte (m : MpuAddressMapType W) (a : AthrillAddrType W) : Option UInt8 :=
  (guestCell m a).bind (cellByte m)

theorem region_of_guestCell {m : MpuAddressMapType W} {c : HostCell}
    (h : guestCell m a = some c) : ∃ region, regionAt m c.1 = some region ∧
      regionCovers region a 1 = true ∧ c.2 = ((a &&& region.mask) - region.start).toNat := by
  obtain ⟨i, hfind, hmap⟩ := bind_eq_some_iff.1 h
  obtain ⟨region, hregion, rfl⟩ := map_eq_some_iff.1 hmap
  obtain ⟨⟨x, hx, hcov⟩, -⟩ := findIdx?_regionCovers_eq_some.1 hfind
  obtain rfl := some.inj (hx.symm.trans hregion)
  exact ⟨x, (regionAt_refAt m i).trans hx, hcov, rfl⟩

theorem guestCell_of_covers {m : MpuAddressMapType W} (hdisj : m.DisjointRegions)
    (hregion : regionAt m ref = some region) (hcov : regionCovers region a 1 = true) :
    guestCell m a = some (ref, ((a &&& region.mask) - region.start).toNat) := by
  obtain ⟨k, -, hk⟩ := exists_refAt hregion
  cases hcell : guestCell m a with
  | none =>
    have hnone := bind_eq_none_iff.1 hcell
    cases hfind : m.regions.findIdx? (regionCovers · a 1) with
    | none =>
      have := findIdx?_eq_none_iff.1 hfind region (mem_of_getElem? hk)
      rw [hcov] at this
      cases this
    | some i =>
      obtain ⟨⟨x, hx, -⟩, -⟩ := findIdx?_regionCovers_eq_some.1 hfind
      have := hnone i hfind
      rw [hx] at this
      cases this
  | some c =>
    obtain ⟨x, hx, hxcov, hoff⟩ := region_of_guestCell hcell
    have href := hdisj _ _ _ _ _ hx hregion hxcov hcov
    rw [href, hregion] at hx
    cases hx
    rw [← hoff, ← href]

theorem guestCell_congr (hshape : m'.shape = m.shape)
    (a : AthrillAddrType W) : guestCell m' a = guestCell m a := by
  have hregions : m'.regions.map (·.shape) = m.regions.map (·.shape) := by
    rw [regions, regions, map_append, map_append]
    exact congrArg₂ (· ++ ·) (congrArg MpuAddressMapType.dynamicMap hshape)
      (congrArg MpuAddressMapType.map hshape)
  have hlen : m'.dynamicMap.length = m.dynamicMap.length := by
    simpa [shape] using
      congrArg length (congrArg dynamicMap hshape)
  have hfind : ∀ rs : List (MpuAddressRegionType W),
      rs.findIdx? (regionCovers · a 1) = (rs.map (·.shape)).findIdx? (regionCovers · a 1) := by
    intro rs
    rw [findIdx?_map]
    rfl
  unfold guestCell
  rw [hfind m'.regions, hregions, ← hfind]
  refine congrArg _ (funext fun i => ?_)
  have href : refAt m' i = refAt m i := by rw [refAt, refAt, hlen]
  rw [← regionAt_refAt, ← regionAt_refAt, href, map_eq_bind, map_eq_bind]
  exact bind_regionAt_congr hshape (fun _ => rfl) _

/-! ## Plain RAM -/

theorem searchRegionFrom_of_disjoint {m : MpuAddressMapType W} (hdisj : m.DisjointRegions)
    (hregion : regionAt m ref = some region) (hdata : hasData region = true)
    (hcov : regionCovers region a 1 = true) (previous : Int) :
    (searchRegionFrom m previous a 1).1 = some ref :=
  searchRegionFrom_of_only hregion hdata hcov
    (fun _ _ hx hxcov => hdisj _ _ _ _ a hx hregion hxcov hcov) previous

def PlainRam (m : MpuAddressMapType W) (a : AthrillAddrType W) : Prop :=
  ∃ ref region, regionAt m ref = some region ∧ PlainRegion region ∧ region.type = .globalMemory ∧
    region.Has a.toNat

section
variable {m : MpuAddressMapType W} {a x : AthrillAddrType W}

theorem PlainRam.of_shape {m' : MpuAddressMapType W} (h : PlainRam m a) (hshape : m'.shape = m.shape) :
    PlainRam m' a := by
  obtain ⟨ref, region, hregion, hplain, htype, hhas⟩ := h
  obtain ⟨region', hregion', hfields⟩ := exists_regionAt_of_shape hshape.symm hregion
  refine ⟨ref, region', hregion', hplain.of_shape hfields.symm, ?_,
    (MpuAddressRegionType.has_of_shape hfields.symm).2 hhas⟩
  rw [(MpuAddressRegionType.fields_of_shape hfields.symm).1, htype]

theorem PlainRam.selects (hdisj : m.DisjointRegions) (h : PlainRam m a) :
    ∃ ref region buf, (∀ previous, Selects m previous a 1 ref region) ∧ PlainRegion region ∧
      region.type = .globalMemory ∧ region.data = some buf ∧
      a.toNat - region.start.toNat < buf.length ∧
      guestCell m a = some (ref, a.toNat - region.start.toNat) := by
  obtain ⟨ref, region, hregion, hplain, htype, hhas⟩ := h
  obtain ⟨buf, hbuf, hlen⟩ := hplain.data
  have hcov : regionCovers region a 1 = true := (regionCovers_one_iff hplain.mask hplain.below).2 hhas
  have hlow := hhas.1
  have hhigh := hhas.2
  refine ⟨ref, region, buf, fun previous => hplain.selects hcov
    (searchRegionFrom_of_disjoint hdisj hregion hplain.hasData hcov previous) hregion, hplain, htype, hbuf,
    by omega, ?_⟩
  rw [guestCell_of_covers hdisj hregion hcov, hplain.mask, BitVec.and_allOnes,
    BitVec.toNat_sub_of_le (BitVec.le_def.2 hlow)]

theorem PlainRam.eq_of_guestCell (hdisj : m.DisjointRegions) (h : PlainRam m a)
    (hx : guestCell m x = guestCell m a) : x = a := by
  obtain ⟨ref, region, buf, hsel, hplain, -, -, -, hcell⟩ := h.selects hdisj
  have hlow := (hsel 0).low
  obtain ⟨y, hy, hycov, hoff⟩ := region_of_guestCell (hx.trans hcell)
  obtain rfl := some.inj ((hsel 0).found.symm.trans hy)
  have hylow := ((regionCovers_one_iff hplain.mask hplain.below).1 hycov).1
  -- the mask is the identity, so that a cell gives its address back
  rw [hplain.mask, BitVec.and_allOnes, BitVec.toNat_sub_of_le (BitVec.le_def.2 hylow)] at hoff
  exact BitVec.eq_of_toNat_eq (by omega)

theorem mpuPutData8_of_ram {s : MpuState W} (hdisj : s.addressMap.DisjointRegions)
    (h : PlainRam s.addressMap a) (data : BitVec 8) :
    ∃ s', mpuPutData8 s a data = some (.ok, s') ∧ s'.addressMap.shape = s.addressMap.shape ∧
      guestByte s'.addressMap = apply (guestByte s.addressMap) [(a, UInt8.ofNat data.toNat)] := by
  obtain ⟨ref, region, buf, hsel, hplain, htype, hbuf, hin, hcell⟩ := h.selects hdisj
  obtain ⟨buf', hwrite⟩ : ∃ buf', hostWrite buf (a.toNat - region.start.toNat : Nat)
      [UInt8.ofNat data.toNat] = some buf' :=
    hostWrite_isSome_iff.2 (.inr ⟨by omega, by simp; omega⟩)
  have hput := (hsel s.previousIndex).putData8 (q := s.previousIndexR) hbuf data
  rw [if_neg (by rw [htype]; decide), hwrite, map_some] at hput
  refine ⟨_, hput, ?_⟩
  obtain ⟨-, hshape, ⟨-, herr, -⟩ | ⟨c, hc, -, hbytes⟩⟩ := mpuPutData8_cases hput
  · exact absurd rfl herr
  refine ⟨hshape, funext fun x => ?_⟩
  have hc' : guestCell s.addressMap a = some c := by
    rw [hcell, ← hc, putCell]
    simp only [searchRegion, (hsel _).select, bind_some, (hsel 0).found, htype, reduceCtorEq, if_false,
      (hsel 0).offset]
  rw [guestByte, guestCell_congr hshape, hbytes, apply_singleton]
  by_cases hx : x = a
  · rw [hx, hc', bind_some, if_pos rfl, apply_singleton, if_pos rfl]
  · rw [if_neg (Ne.symm hx), guestByte]
    cases hxc : guestCell s.addressMap x with
    | none => rfl
    | some d =>
      have hd : c ≠ d := by
        rintro rfl
        exact hx (h.eq_of_guestCell hdisj (hxc.trans hc'.symm))
      rw [bind_some, bind_some, apply_singleton, if_neg hd]

theorem mpuGetData8_of_ram {s : MpuState W} (hdisj : s.addressMap.DisjointRegions)
    (h : PlainRam s.addressMap a) :
    ∃ b s', mpuGetData8 s a = some (.ok (UInt8.toNat b), s') ∧ s'.addressMap = s.addressMap ∧
      guestByte s.addressMap a = some b := by
  obtain ⟨ref, region, buf, hsel, -, -, hbuf, hin, hcell⟩ := h.selects hdisj
  refine ⟨_, _, (hsel s.previousIndexR).getData8 (p := s.previousIndex) hbuf hin, rfl, ?_⟩
  rw [guestByte, hcell, bind_some, cellByte, (hsel 0).found, bind_some, hbuf, bind_some,
    getElem?_eq_getElem hin]

end

end Athrill
