import Athrill.Loader.LoadMemory
import Mathlib.Data.List.Pairwise

/-!
# Reloading a program

`elf_reload` clears the regions of the configuration and loads the segments again. Main result:
`elf_reload_restores_iff`.
-/

namespace Athrill

open Bytes FlatMemory List Option

variable {W : Nat}

/-! ## Refused reloads -/

def MemoryAddressType.Live (r : MemoryAddressType W) : Prop := r.start.toNat + r.bytes < 2 ^ W

theorem MemoryAddressType.has_of_regionCovers {r : MemoryAddressType W} {junk : Nat → UInt8}
    {a : AthrillAddrType W} (hcov : regionCovers (r.region junk) a 1 = true) :
    r.Live ∧ r.Has a.toNat :=
  have hlive := below_of_regionCovers hcov
  ⟨hlive, (regionCovers_one_iff rfl hlive).1 hcov⟩

theorem not_covers_of_shape {m m' : MpuAddressMapType W} (hshape : m'.shape = m.shape)
    {addr n : AthrillAddrType W} (hnone : ∀ x ∈ m.regions, regionCovers x addr n = false) :
    ∀ x ∈ m'.regions, regionCovers x addr n = false := by
  have hregions : m'.regions.map (·.shape) = m.regions.map (·.shape) := by
    rw [MpuAddressMapType.regions, MpuAddressMapType.regions, map_append, map_append]
    exact congrArg₂ (· ++ ·) (congrArg MpuAddressMapType.dynamicMap hshape)
      (congrArg MpuAddressMapType.map hshape)
  intro x hx
  obtain ⟨i, hi⟩ := mem_iff_getElem?.1 hx
  obtain ⟨y, hy, hs⟩ := getElem?_of_shape hregions hi
  rw [← regionCovers_shape x, hs, regionCovers_shape]
  exact hnone y (mem_of_getElem? hy)

theorem clearRegions_ne_ok {cs : List (MemoryAddressType W)} {r : MemoryAddressType W} (hr : r ∈ cs)
    {s s' : MpuState W} (hnone : ∀ x ∈ s.addressMap.regions, regionCovers x r.start 1 = false) :
    clearRegions cs s ≠ some (.ok, s') := by
  induction cs generalizing s with
  | nil => cases hr
  | cons c cs ih =>
    rw [clearRegions]
    rcases mem_cons.1 hr with rfl | hr
    · have hsel : (searchRegion s r.start 1).1 = none := searchRegionFrom_eq_none hnone s.previousIndex
      rw [mpuGetPointer, hsel]
      intro h
      cases h
    · split
      · intro h
        cases h
      · next ref off s₁ hptr =>
        obtain rfl : (searchRegion s c.start 1).2 = s₁ := congrArg Prod.snd hptr
        intro h
        obtain ⟨m, hwrite, h⟩ := bind_eq_some_iff.1 h
        exact ih hr (not_covers_of_shape (pointerWrite_shape hwrite) hnone) h

/-! ## Clearing -/

def clearStores (rs : List (MemoryAddressType W)) : List (Nat × List UInt8) :=
  rs.map fun r => (r.start.toNat, replicate r.bytes 0)

theorem eq_of_has {rs : List (MemoryAddressType W)}
    (hdisj : rs.Pairwise fun r r' => ∀ a, r.Has a → ¬ r'.Has a) {r r' : MemoryAddressType W}
    (hr : r ∈ rs) (hr' : r' ∈ rs) {a : Nat} (ha : r.Has a) (ha' : r'.Has a) : r = r' := by
  by_contra hne
  have : Std.Symm fun r r' : MemoryAddressType W => ∀ a, r.Has a → ¬ r'.Has a :=
    ⟨fun _ _ h a hx hy => h a hy hx⟩
  exact hdisj.forall hr hr' hne a ha ha'

theorem clearRegions_stores {junk : Nat → UInt8} {rs cs : List (MemoryAddressType W)}
    {m : MpuAddressMapType W} (hm : HasRegions junk rs m)
    (hdisj : rs.Pairwise fun r r' => ∀ a, r.Has a → ¬ r'.Has a)
    (hcs : ∀ r ∈ cs, r ∈ rs ∧ ∃ r' ∈ rs, r'.Has r.start.toNat) {s : MpuState W}
    (hshape : s.addressMap.shape = m.shape) :
    ∃ s', clearRegions cs s = some (.ok, s') ∧ s'.addressMap.shape = m.shape ∧
      byteAt s'.addressMap.dynamicMap = stores (byteAt s.addressMap.dynamicMap) (clearStores cs) := by
  induction cs generalizing s with
  | nil => exact ⟨s, rfl, hshape, rfl⟩
  | cons r cs ih =>
    obtain ⟨hr, r', hr', hhas⟩ := hcs r (.head _)
    have hle := hhas.1
    have hlt := hhas.2
    obtain ⟨j, x, hx, hstart, hsize⟩ := hm.exists_region hshape hr' (by omega)
    have hplain := hm.plain_of_shape hshape
    have hxhas : x.Has r.start.toNat := by
      rw [MpuAddressRegionType.Has, hstart, hsize]
      exact hhas
    have hptr := mpuGetPointer_of_has hplain hx hxhas s.previousIndex s.previousIndexR
    rw [hstart] at hptr
    have hroom : r.start.toNat - r'.start.toNat + (replicate r.bytes (0 : UInt8)).length ≤
        x.size.toNat := by
      rw [length_replicate, hsize]
      rcases Nat.eq_zero_or_pos r.bytes with hzero | hpos
      · omega
      · obtain rfl := eq_of_has hdisj hr hr' ⟨le_refl _, by omega⟩ hhas
        omega
    obtain ⟨m₁, hwrite, hshape₁, hbyte₁⟩ := pointerWrite_of_plain hplain hx hroom
    obtain ⟨s', hclear, hshape', hbyte'⟩ := ih (fun c hc => hcs c (.tail _ hc))
      (s := ⟨m₁, (searchRegion s r.start 1).2.previousIndex,
        (searchRegion s r.start 1).2.previousIndexR⟩) (hshape₁.trans hshape)
    refine ⟨s', ?_, hshape', ?_⟩
    · rw [clearRegions, hptr]
      show (pointerWrite s.addressMap _ _ (replicate r.bytes 0)).bind _ = _
      rw [hwrite, bind_some]
      exact hclear
    · rw [hbyte', hbyte₁, hstart, Nat.add_sub_cancel' hle]
      rfl

theorem stores_clearStores {byte : Nat → UInt8} {rs : List (MemoryAddressType W)}
    {r : MemoryAddressType W} (hr : r ∈ rs) {a : Nat} (ha : r.Has a) (ws : List (Nat × List UInt8)) :
    stores (stores byte (clearStores rs)) ws a = stores (fun _ => 0) ws a := by
  have hclear : stores byte (clearStores rs) a = stores (fun _ => 0) (clearStores rs) a := by
    refine stores_congr (.inr ⟨_, mem_map_of_mem hr, ?_⟩)
    rw [length_replicate]
    exact ha
  refine stores_congr (.inl ?_)
  rw [hclear, stores_const fun w hw b hb => ?_]
  obtain ⟨r', -, rfl⟩ := mem_map.1 hw
  exact eq_of_mem_replicate hb

/-! ## The reload -/

theorem clearRegions_append (cs cs' : List (MemoryAddressType W)) (s : MpuState W) :
    clearRegions (cs ++ cs') s = (clearRegions cs s).bind fun r =>
      if r.1 ≠ .ok then some r else clearRegions cs' r.2 := by
  induction cs generalizing s with
  | nil => rfl
  | cons c cs ih =>
    rw [cons_append, clearRegions, clearRegions]
    split
    · rfl
    · rw [bind_eq_bind, bind_assoc]
      exact bind_congr fun m _ => ih _

section
variable {memap : MemoryAddressMapType W} {img : ElfImage} {machine : Nat}

theorem elfReload_eq (hok : ImageOk img) {ehdr : List UInt8}
    (hehdr : (img.memcpy 0 (ehdrSize (headerAt img).is64)).toOption = some ehdr)
    (hcheck : elfClassCheck machine (headerAt img) ehdr = true) (s : MpuState W) :
    elfReload machine img memap s =
      (clearRegions (memap.rom ++ memap.ram.filter (·.type != .malloc)) s).bind fun r =>
        if r.1 ≠ .ok then some r
        else loadPrograms (fun _ => false) img (headerAt img) memap
          (range (headerAt img).phnum) r.2 := by
  rw [elfReload, elfImageCheck_eq_ok.2 hok, bind_eq_bind, bind_some,
    if_neg (not_not.2 rfl), readEhdr_ok hok.header]
  show (Option.bind (img.memcpy 0 (ehdrSize (headerAt img).is64)).toOption _) = _
  rw [hehdr, Option.bind_some, hcheck, if_neg (by simp), reloadPrograms,
    clearRegions_append, Option.bind_eq_bind, Option.bind_assoc]
  refine bind_congr fun r _ => ?_
  dsimp only
  split_ifs with hret
  · rw [bind_some, if_pos hret]
  · rfl

theorem filter_malloc (hram : ∀ r ∈ memap.ram, r.type ≠ .malloc) :
    memap.ram.filter (·.type != .malloc) = memap.ram :=
  filter_eq_self.2 fun r hr => by simpa using hram r hr

variable {junk : Nat → UInt8} {map : List (MpuAddressRegionType W)} {p q : Int}
  {symbols : ElfSectionState} {entry : AthrillAddrType W} {st : ElfLoaderState W}

theorem onlyRegions_of_load (hrom : ∀ r ∈ memap.rom, r.type = .rom)
    (hram : ∀ r ∈ memap.ram, r.type ≠ .malloc) (hdev : memap.dev = [])
    (hload : elfLoad machine junk img memap ⟨⟨⟨map, []⟩, p, q⟩, symbols⟩ = some (.ok entry, st)) :
    ∃ m, OnlyRegions junk (memap.rom ++ memap.ram) m ∧ m.map = map ∧
      st.mpu.addressMap.shape = m.shape := by
  obtain ⟨-, -, hprog⟩ := elfLoad_ok hload
  rw [elfClassLoadProgram_eq] at hprog
  obtain ⟨m, hmap, hprog⟩ := bind_eq_some_iff.1 hprog
  have honly : OnlyRegions junk (memap.rom ++ memap.ram) m ∧ m.map = map :=
    elfMapMemory_induction (P := fun done m => OnlyRegions junk done m ∧ m.map = map) hrom hram hdev
      (fun _ hP hset => (hP.1.setRomRam hset).imp_right (·.trans hP.2))
      ⟨(hasRegions_nil junk map).only, rfl⟩ hmap
  exact ⟨m, honly.1, honly.2, loadPrograms_shape hprog⟩

theorem elfReload_ne_ok (hrom : ∀ r ∈ memap.rom, r.type = .rom)
    (hram : ∀ r ∈ memap.ram, r.type ≠ .malloc) (hdev : memap.dev = [])
    (hload : elfLoad machine junk img memap ⟨⟨⟨map, []⟩, p, q⟩, symbols⟩ = some (.ok entry, st))
    {r : MemoryAddressType W} (hr : r ∈ memap.rom ++ memap.ram)
    (hline : ∀ r' ∈ memap.rom ++ memap.ram, r'.Live → ¬ r'.Has r.start.toNat)
    (hstatic : ∀ x ∈ map, regionCovers x r.start 1 = false) {s s' : MpuState W}
    (hshape : s.addressMap.shape = st.mpu.addressMap.shape) :
    elfReload machine img memap s ≠ some (.ok, s') := by
  obtain ⟨hok, ⟨ehdr, hehdr, hcheck⟩, -⟩ := elfLoad_ok hload
  obtain ⟨m, honly, hmap, hshapem⟩ := onlyRegions_of_load hrom hram hdev hload
  have hnone : ∀ x ∈ m.regions, regionCovers x r.start 1 = false := by
    intro x hx
    rcases mem_append.1 hx with hx | hx
    · obtain ⟨r', hr', rfl⟩ := honly x hx
      by_contra hcov
      obtain ⟨hlive, hhas⟩ := MemoryAddressType.has_of_regionCovers (Bool.not_eq_false _ ▸ hcov)
      exact hline r' hr' hlive hhas
    · exact hstatic x (hmap ▸ hx)
  rw [elfReload_eq hok hehdr hcheck, filter_malloc hram]
  intro h
  obtain ⟨⟨ret, s₁⟩, hclear, h⟩ := bind_eq_some_iff.1 h
  dsimp only at h
  split_ifs at h with hret
  · exact hret (congrArg Prod.fst (some.inj h))
  · rw [not_not.1 hret] at hclear
    exact clearRegions_ne_ok hr (not_covers_of_shape (hshape.trans hshapem) hnone) hclear

theorem live_of_start_has {rs : List (MemoryAddressType W)}
    (hdisj : rs.Pairwise fun r r' => ∀ a, r.Has a → ¬ r'.Has a)
    (hstart : ∀ r ∈ rs, ∃ r' ∈ rs, r'.Live ∧ r'.Has r.start.toNat) : ∀ r ∈ rs, r.Live := by
  intro r hr
  rw [MemoryAddressType.Live]
  rcases Nat.eq_zero_or_pos r.bytes with hzero | hpos
  · rw [hzero]
    exact r.start.isLt
  · obtain ⟨r', hr', hl, hhas⟩ := hstart r hr
    obtain rfl := eq_of_has hdisj hr hr' ⟨le_refl _, by omega⟩ hhas
    exact hl

theorem elfReload_stores (hW : W = 32 ∨ W = 64) (hrom : ∀ r ∈ memap.rom, r.type = .rom)
    (hdev : memap.dev = []) (hc : PlainConfig (memap.rom ++ memap.ram))
    (hstart : ∀ r ∈ memap.rom ++ memap.ram, ∃ r' ∈ memap.rom ++ memap.ram, r'.Has r.start.toNat)
    (hload : elfLoad machine junk img memap ⟨⟨⟨map, []⟩, p, q⟩, symbols⟩ = some (.ok entry, st))
    {s : MpuState W} (hshape : s.addressMap.shape = st.mpu.addressMap.shape) :
    ∃ s', elfReload machine img memap s = some (.ok, s') ∧
      s'.addressMap.shape = st.mpu.addressMap.shape ∧
      byteAt s'.addressMap.dynamicMap =
        stores (stores (byteAt s.addressMap.dynamicMap) (clearStores (memap.rom ++ memap.ram)))
          (segmentStores (memap.rom ++ memap.ram) img (elfSegments img)) := by
  obtain ⟨hok, ⟨ehdr, hehdr, hcheck⟩, -⟩ := elfLoad_ok hload
  obtain ⟨m, hm, hshapem, -, hfits⟩ := elfLoad_stores hW hrom hdev hc hload
  obtain ⟨s₁, hclear, hshape₁, hbyte₁⟩ := clearRegions_stores hm hc.disjoint
    (fun r hr => ⟨hr, hstart r hr⟩) (hshape.trans hshapem)
  have hfits' : ∀ i ∈ range (headerAt img).phnum, (phdrAt img (headerAt img) i).type = ptLoad →
      false = false ∧ (phdrAt img (headerAt img) i).Fits W img := by
    intro i hi htype
    refine ⟨rfl, hfits _ (mem_filter.2 ⟨mem_map_of_mem hi, by simpa using htype⟩)⟩
  obtain ⟨s', hprog, hshape', hbyte'⟩ := loadPrograms_stores hdev hc hm (fun _ => false)
    hok.elfPhdrAt_ok hfits' hshape₁
  refine ⟨s', ?_, hshape'.trans hshapem.symm, ?_⟩
  · rw [elfReload_eq hok hehdr hcheck,
      filter_malloc fun r hr => hc.type r (mem_append_right _ hr), hclear, bind_some,
      if_neg (not_not.2 rfl)]
    exact hprog
  · rw [hbyte', hbyte₁]
    rfl

end

/-! ## What a reload restores -/

section
variable {junk : Nat → UInt8} {rs : List (MemoryAddressType W)} {m : MpuAddressMapType W}
  {r : MemoryAddressType W}

theorem HasRegions.byteAt_mmap (h : HasRegions junk rs m) (hc : PlainConfig rs) (hr : r ∈ rs)
    (htype : r.type = .mmap) {a : Nat} (ha : r.Has a) :
    byteAt m.dynamicMap a = (r.mmapAddr.getD []).getD (a - r.start.toNat) 0 := by
  obtain ⟨buf, hbuf, -⟩ := hc.mmap r hr htype
  have hdata : (r.region junk).data = some buf := by
    rw [MemoryAddressType.region, htype]
    exact hbuf
  rw [h.byteAt_line hr ha hdata, hbuf, getD_some, getD_eq_getElem?_getD]

theorem HasRegions.getData8_eq_iff (h : HasRegions junk rs m) (hr : r ∈ rs) {a : AthrillAddrType W}
    (ha : r.Has a.toNat) {s s' : MpuState W} (hs : s.addressMap.shape = m.shape)
    (hs' : s'.addressMap.shape = m.shape) :
    (mpuGetData8 s a).map (·.1) = (mpuGetData8 s' a).map (·.1) ↔
      byteAt s.addressMap.dynamicMap a.toNat = byteAt s'.addressMap.dynamicMap a.toNat := by
  obtain ⟨_, hget⟩ := h.getData8 hs hr ha s.previousIndex s.previousIndexR
  obtain ⟨_, hget'⟩ := h.getData8 hs' hr ha s'.previousIndex s'.previousIndexR
  rw [hget, hget', map_some, map_some, some.injEq, Except.ok.injEq,
    UInt8.toNat_inj]

theorem exists_segmentStores {img : ElfImage} {ps : List ElfPhdr} {seg : ElfPhdr}
    (hfits : seg.Fits W img) (hseg : seg ∈ ps) (hin : seg.Inside rs) {a : Nat} (ha : seg.Has a) :
    ∃ w ∈ segmentStores rs img ps, w.1 ≤ a ∧ a < w.1 + w.2.length := by
  refine ⟨_, mem_map_of_mem (mem_filter.2 ⟨hseg, by simpa using hin⟩), ?_⟩
  rw [hfits.length_memory]
  exact ha

theorem elfReload_read_iff (hW : W = 32 ∨ W = 64) {memap : MemoryAddressMapType W}
    (hrom : ∀ r ∈ memap.rom, r.type = .rom) (hdev : memap.dev = [])
    (hc : PlainConfig (memap.rom ++ memap.ram))
    (hstart : ∀ r ∈ memap.rom ++ memap.ram, ∃ r' ∈ memap.rom ++ memap.ram, r'.Has r.start.toNat)
    {machine : Nat} {img : ElfImage} {map : List (MpuAddressRegionType W)} {p q : Int}
    {symbols : ElfSectionState} {entry : AthrillAddrType W} {st : ElfLoaderState W}
    (hload : elfLoad machine junk img memap ⟨⟨⟨map, []⟩, p, q⟩, symbols⟩ = some (.ok entry, st)) :
    ∃ m, HasRegions junk (memap.rom ++ memap.ram) m ∧ (∀ seg ∈ elfSegments img, seg.Fits W img) ∧
      ∀ s : MpuState W, s.addressMap.shape = st.mpu.addressMap.shape →
        ∃ s', elfReload machine img memap s = some (.ok, s') ∧
          ∀ r ∈ memap.rom ++ memap.ram, ∀ a : AthrillAddrType W, r.Has a.toNat →
            ((mpuGetData8 s' a).map (·.1) = (mpuGetData8 st.mpu a).map (·.1) ↔
              stores (fun _ => 0)
                  (segmentStores (memap.rom ++ memap.ram) img (elfSegments img)) a.toNat =
                stores (byteAt m.dynamicMap)
                  (segmentStores (memap.rom ++ memap.ram) img (elfSegments img)) a.toNat) := by
  obtain ⟨m, hm, hshapem, hbyte, hfits⟩ := elfLoad_stores hW hrom hdev hc hload
  refine ⟨m, hm, hfits, fun s hshape => ?_⟩
  obtain ⟨s', hreload, hshape', hbyte'⟩ := elfReload_stores hW hrom hdev hc hstart hload hshape
  refine ⟨s', hreload, fun r hr a ha => ?_⟩
  rw [hm.getData8_eq_iff hr ha (hshape'.trans hshapem) hshapem, hbyte', hbyte,
    stores_clearStores hr ha]

end

/-- **What a reload restores.** After `elf_load` succeeds over ROM, RAM and MMAP regions that do not
overlap, a reload from any state of the bus with these regions restores the RAM and MMAP regions and the
segments in ROM, if it succeeds, exactly if it cannot succeed, because the bus finds no region at the
first address of one, or the files of the MMAP regions are zero outside the segments. -/
theorem elf_reload_restores_iff (hW : W = 32 ∨ W = 64) {memap : MemoryAddressMapType W}
    (hrom : ∀ r ∈ memap.rom, r.type = .rom) (hram : ∀ r ∈ memap.ram, r.type = .ram ∨ r.type = .mmap)
    (hdev : memap.dev = [])
    (hmmap : ∀ r ∈ memap.ram, r.type = .mmap →
      ∃ buf, r.mmapAddr = some buf ∧ buf.length = r.bytes)
    (hdisj : (memap.rom ++ memap.ram).Pairwise fun r r' => ∀ a, r.Has a → ¬ r'.Has a)
    {map : List (MpuAddressRegionType W)}
    (hstatic : ∀ r ∈ memap.rom ++ memap.ram, (∃ x ∈ map, regionCovers x r.start 1 = true) →
      ∃ r' ∈ memap.rom ++ memap.ram, r'.Live ∧ r'.Has r.start.toNat)
    {machine : Nat} {junk : Nat → UInt8} {img : ElfImage} {p q : Int} {symbols : ElfSectionState}
    {entry : AthrillAddrType W} {st : ElfLoaderState W}
    (hload : elfLoad machine junk img memap ⟨⟨⟨map, []⟩, p, q⟩, symbols⟩ = some (.ok entry, st)) :
    (∀ s s' : MpuState W, s.addressMap.shape = st.mpu.addressMap.shape →
      elfReload machine img memap s = some (.ok, s') →
      ∀ r ∈ memap.rom ++ memap.ram, ∀ a : AthrillAddrType W, r.Has a.toNat →
        (r.type = .rom →
          ∃ seg ∈ elfSegments img, seg.Inside (memap.rom ++ memap.ram) ∧ seg.Has a.toNat) →
        (mpuGetData8 s' a).map (·.1) = (mpuGetData8 st.mpu a).map (·.1)) ↔
    (∃ r ∈ memap.rom ++ memap.ram, ∀ r' ∈ memap.rom ++ memap.ram, r'.Live →
      ¬ r'.Has r.start.toNat) ∨
    ∀ r ∈ memap.ram, r.type = .mmap → ∀ a, r.Has a →
      (∀ seg ∈ elfSegments img, seg.Inside (memap.rom ++ memap.ram) → ¬ seg.Has a) →
      (r.mmapAddr.getD []).getD (a - r.start.toNat) 0 = 0 := by
  have hmalloc : ∀ r ∈ memap.ram, r.type ≠ .malloc := by
    intro r hr
    rcases hram r hr with h | h <;> rw [h] <;> decide
  by_cases hrefused : ∃ r ∈ memap.rom ++ memap.ram, ∀ r' ∈ memap.rom ++ memap.ram, r'.Live →
      ¬ r'.Has r.start.toNat
  · refine iff_of_true (fun s s' hshape hreload => ?_) (.inl hrefused)
    obtain ⟨r, hr, hline⟩ := hrefused
    have hnone : ∀ x ∈ map, regionCovers x r.start 1 = false := by
      intro x hx
      by_contra hcov
      obtain ⟨r', hr', hlive, hhas⟩ := hstatic r hr ⟨x, hx, Bool.not_eq_false _ ▸ hcov⟩
      exact hline r' hr' hlive hhas
    exact absurd hreload (elfReload_ne_ok hrom hmalloc hdev hload hr hline hnone hshape)
  rw [or_iff_right hrefused]
  push Not at hrefused
  have htype : ∀ r ∈ memap.rom ++ memap.ram, r.type = .rom ∨ r ∈ memap.ram := fun r hr =>
    (mem_append.1 hr).imp_left (hrom r)
  have hc : PlainConfig (memap.rom ++ memap.ram) :=
    plainConfig_of_types hrom hram hmmap (live_of_start_has hdisj hrefused) hdisj
  have hstart : ∀ r ∈ memap.rom ++ memap.ram, ∃ r' ∈ memap.rom ++ memap.ram, r'.Has r.start.toNat :=
    fun r hr => (hrefused r hr).imp fun _ h => ⟨h.1, h.2.2⟩
  obtain ⟨m, hm, hfits, hreads⟩ := elfReload_read_iff hW hrom hdev hc hstart hload
  constructor
  · intro hrestore r hr hmm a ha hnone
    have hr' : r ∈ memap.rom ++ memap.ram := mem_append_right _ hr
    have hofNat : (BitVec.ofNat W a).toNat = a := Nat.mod_eq_of_lt (ha.2.trans (hc.below r hr'))
    have ha' : r.Has (BitVec.ofNat W a).toNat := hofNat.symm ▸ ha
    have hnotRom : r.type ≠ .rom := by rw [hmm]; decide
    -- already the reload right after the load
    obtain ⟨s', hreload, hread⟩ := hreads st.mpu rfl
    have heq := (hread r hr' _ ha').1
      (hrestore st.mpu s' rfl hreload r hr' _ ha' fun h => absurd h hnotRom)
    rw [hofNat, stores_no_segment hfits hnone, stores_no_segment hfits hnone,
      hm.byteAt_mmap hc hr' hmm ha] at heq
    exact heq.symm
  · intro hfile s s' hshape hreload r hr a ha hcovered
    obtain ⟨s₁, hreload₁, hread⟩ := hreads s hshape
    obtain rfl : s' = s₁ := congrArg Prod.snd (some.inj (hreload.symm.trans hreload₁))
    refine (hread r hr a ha).2 (stores_congr ?_)
    by_cases hseg : ∃ seg ∈ elfSegments img, seg.Inside (memap.rom ++ memap.ram) ∧ seg.Has a.toNat
    · obtain ⟨seg, hmem, hin, hhas⟩ := hseg
      exact .inr (exists_segmentStores (hfits seg hmem) hmem hin hhas)
    · refine .inl ?_
      rcases htype r hr with hr' | hr'
      · exact absurd (hcovered hr') hseg
      · rcases hram r hr' with hty | hty
        · rw [hm.byteAt_ram hr hty ha]
        · rw [hm.byteAt_mmap hc hr hty ha]
          exact (hfile r hr' hty a.toNat ha fun seg hmem hin hhas => hseg ⟨seg, hmem, hin, hhas⟩).symm

theorem elf_reload_restores_ram : ∃ st, elfLoad 0 (fun _ => 7) ramImage romRamConfig
      ⟨⟨⟨[], []⟩, -1, -1⟩, .init⟩ = some (.ok 0, st) ∧
    ∀ s s' : MpuState 32, s.addressMap.shape = st.mpu.addressMap.shape →
      elfReload 0 ramImage romRamConfig s = some (.ok, s') →
      (mpuGetData8 s' 0x1011).map (·.1) = (mpuGetData8 st.mpu 0x1011).map (·.1) := by
  obtain ⟨st, hload⟩ := ramImage_load
  refine ⟨st, hload, fun s s' hshape hreload => ?_⟩
  have hmem : (⟨.ram, 0x1000, 1, none, none⟩ : MemoryAddressType 32) ∈
      romRamConfig.rom ++ romRamConfig.ram := .tail _ (.head _)
  have hiff := elf_reload_restores_iff (.inl rfl) (by decide) (by decide) rfl (by decide)
    (by simp [romRamConfig, MemoryAddressType.Has, MemoryAddressType.bytes]; omega) (by simp) hload
  exact hiff.2 (.inr (by simp [romRamConfig])) s s' hshape hreload _ hmem _ ⟨by decide, by decide⟩
    (by simp)

def mmapConfig : MemoryAddressMapType 32 where
  rom := []
  ram := [⟨.mmap, 0x1000, 8, some (replicate 8192 5), none⟩]
  dev := []

/-- The load leaves a five outside the segment, the reload a zero. -/
theorem reload_clears_file : ∃ st s', elfLoad 0 (fun _ => 7) ramImage mmapConfig
      ⟨⟨⟨[], []⟩, -1, -1⟩, .init⟩ = some (.ok 0, st) ∧
    elfReload 0 ramImage mmapConfig st.mpu = some (.ok, s') ∧
    (mpuGetData8 st.mpu 0x1020).map (·.1.toOption) = some (some 5) ∧
    (mpuGetData8 s' 0x1020).map (·.1.toOption) = some (some 0) := by
  have hrun : (elfLoad 0 (fun _ => 7) ramImage mmapConfig ⟨⟨⟨[], []⟩, -1, -1⟩, .init⟩).bind
      (fun r => (elfReload 0 ramImage mmapConfig r.2.mpu).map fun r' =>
        (r.1.toOption, r'.1, (mpuGetData8 r.2.mpu 0x1020).map (·.1.toOption),
          (mpuGetData8 r'.2 0x1020).map (·.1.toOption))) =
      some (some 0, .ok, some (some 5), some (some 0)) := by decide +kernel
  obtain ⟨⟨res, st⟩, hload, hrun⟩ := bind_eq_some_iff.1 hrun
  obtain ⟨⟨ret, s'⟩, hreload, hrun⟩ := map_eq_some_iff.1 hrun
  simp only [Prod.mk.injEq] at hrun
  obtain ⟨hres, rfl, hread, hread'⟩ := hrun
  cases res with
  | error err => cases hres
  | ok entry => exact ⟨st, s', some.inj hres ▸ hload, hreload, hread, hread'⟩

end Athrill
