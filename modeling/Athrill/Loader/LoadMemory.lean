import Athrill.Elf.SectionSafe
import Athrill.Loader.Elf
import Athrill.Loader.SegmentSafe
import Athrill.Mpu.Plain

/-!
# The memory of a loaded program

Over a configuration of ROM, RAM and MMAP regions that do not overlap and end below the top of the address
space, the regions of the bus are those of the configuration (`HasRegions`), and loading a program is a
sequence of stores into their flat memory (`loadPrograms_stores`): one for every segment that lies inside
one region, in the order of the program headers (`elf_load_memory`).
-/

namespace Athrill

open Bytes FlatMemory List

variable {W : Nat}

/-! ## Configurations -/

def MemoryAddressType.bytes (r : MemoryAddressType W) : Nat := (r.size * 1024).toNat

def MemoryAddressType.Has (r : MemoryAddressType W) (a : Nat) : Prop :=
  r.start.toNat ≤ a ∧ a < r.start.toNat + r.bytes

structure PlainConfig (rs : List (MemoryAddressType W)) : Prop where
  type : ∀ r ∈ rs, r.type ≠ .malloc
  mmap : ∀ r ∈ rs, r.type = .mmap →
    ∃ buf, r.mmapAddr = some buf ∧ buf.length = r.bytes
  below : ∀ r ∈ rs, r.start.toNat + r.bytes < 2 ^ W
  disjoint : rs.Pairwise fun r r' => ∀ a, r.Has a → ¬ r'.Has a

def MemoryAddressType.region (junk : Nat → UInt8) (r : MemoryAddressType W) : MpuAddressRegionType W :=
  romRamRegion junk r.type r.start (r.size * 1024) r.mmapAddr

def OnlyRegions (junk : Nat → UInt8) (rs : List (MemoryAddressType W)) (m : MpuAddressMapType W) :
    Prop :=
  ∀ x ∈ m.dynamicMap, ∃ r ∈ rs, x = r.region junk

structure HasRegions (junk : Nat → UInt8) (rs : List (MemoryAddressType W))
    (m : MpuAddressMapType W) : Prop where
  plain : PlainRegions m.dynamicMap
  mem : ∀ r ∈ rs, 0 < r.bytes → r.region junk ∈ m.dynamicMap
  only : OnlyRegions junk rs m

section
variable {junk : Nat → UInt8} {rs done : List (MemoryAddressType W)} {r : MemoryAddressType W}
  {m m' : MpuAddressMapType W}

theorem PlainConfig.plainRegion (h : PlainConfig rs) (hr : r ∈ rs) (junk : Nat → UInt8) :
    PlainRegion (r.region junk) :=
  plainRegion_romRam (h.below r hr) (h.type r hr) (h.mmap r hr)

variable {memap : MemoryAddressMapType W}

theorem plainConfig_of_types (hrom : ∀ r ∈ memap.rom, r.type = .rom)
    (hram : ∀ r ∈ memap.ram, r.type = .ram ∨ r.type = .mmap) (hmmap : ∀ r ∈ memap.ram, r.type = .mmap →
      ∃ buf, r.mmapAddr = some buf ∧ buf.length = r.bytes)
    (hbelow : ∀ r ∈ memap.rom ++ memap.ram, r.start.toNat + r.bytes < 2 ^ W)
    (hdisj : (memap.rom ++ memap.ram).Pairwise fun r r' => ∀ a, r.Has a → ¬ r'.Has a) :
    PlainConfig (memap.rom ++ memap.ram) := by
  refine ⟨fun r hr => ?_, fun r hr h => ?_, hbelow, hdisj⟩
  · rcases mem_append.1 hr with hr | hr
    · rw [hrom r hr]
      decide
    · rcases hram r hr with h | h <;> rw [h] <;> decide
  · rcases mem_append.1 hr with hr | hr
    · rw [hrom r hr] at h
      cases h
    · exact hmmap r hr h

theorem hasRegions_nil (junk : Nat → UInt8) (map : List (MpuAddressRegionType W)) :
    HasRegions junk [] ⟨map, []⟩ :=
  ⟨plainRegions_nil, fun _ h => (by cases h), fun _ h => (by cases h)⟩

theorem OnlyRegions.setRomRam (h : OnlyRegions junk done m) {buf : Option HostBuffer}
    (hset : mpuAddressSetRomRam junk m r.type r.start (r.size * 1024) r.mmapAddr = some (m', buf)) :
    OnlyRegions junk (done ++ [r]) m' ∧ m'.map = m.map := by
  have hold : ∀ x ∈ m.dynamicMap, ∃ r' ∈ done ++ [r], x = r'.region junk := by
    intro x hx
    obtain ⟨r', hr', hx⟩ := h x hx
    exact ⟨r', mem_append_left _ hr', hx⟩
  rcases mpuAddressSetRomRam_cases hset with ⟨-, rfl⟩ | ⟨-, rfl⟩
  · exact ⟨hold, rfl⟩
  · refine ⟨fun x hx => ?_, rfl⟩
    rcases mem_append.1 hx with hx | hx
    · exact hold x hx
    · exact ⟨r, mem_append_right _ (.head _), mem_singleton.1 hx⟩

theorem HasRegions.setRomRam (h : HasRegions junk done m) (hc : PlainConfig (done ++ r :: rs))
    {buf : Option HostBuffer}
    (hset : mpuAddressSetRomRam junk m r.type r.start (r.size * 1024) r.mmapAddr = some (m', buf)) :
    HasRegions junk (done ++ [r]) m' := by
  have honly := (h.only.setRomRam hset).1
  have hr : r ∈ done ++ r :: rs := mem_append_right _ (.head _)
  have hapart : ∀ x ∈ m.dynamicMap, ∀ a, x.Has a → ¬ (r.region junk).Has a := by
    intro x hx a hxa hra
    obtain ⟨r', hr', rfl⟩ := h.only x hx
    exact (pairwise_append.1 hc.disjoint).2.2 r' hr' r (.head _) a hxa hra
  rcases mpuAddressSetRomRam_cases hset with ⟨⟨x, hx, hcov⟩, rfl⟩ | ⟨-, rfl⟩
  · have hzero : r.bytes = 0 := by
      by_contra hne
      have hstart : r.Has r.start.toNat := ⟨le_refl _, by omega⟩
      exact hapart x hx r.start.toNat ((h.plain.plain x hx).has_of_covers hcov) hstart
    refine ⟨h.plain, fun r' hr' hpos => ?_, honly⟩
    rcases mem_append.1 hr' with hr' | hr'
    · exact h.mem r' hr' hpos
    · rw [mem_singleton.1 hr'] at hpos
      omega
  · refine ⟨h.plain.append (hc.plainRegion hr junk) hapart, fun r' hr' hpos => ?_, honly⟩
    rcases mem_append.1 hr' with hr' | hr'
    · exact mem_append_left _ (h.mem r' hr' hpos)
    · rw [mem_singleton.1 hr']
      exact mem_append_right _ (.head _)

theorem mapRam_induction {P : List (MemoryAddressType W) → MpuAddressMapType W → Prop}
    {all : List (MemoryAddressType W)} (htype : ∀ r ∈ rs, r.type ≠ .malloc)
    (hstep : ∀ {done r rest m m' buf}, done ++ r :: rest = all → P done m →
      mpuAddressSetRomRam junk m r.type r.start (r.size * 1024) r.mmapAddr = some (m', buf) →
      P (done ++ [r]) m')
    (hall : done ++ rs = all) (h : P done m) (hmap : mapRam junk rs m = some m') : P all m' := by
  induction rs generalizing done m with
  | nil =>
    cases hmap
    rwa [← hall, append_nil]
  | cons r rs ih =>
    rw [mapRam, if_pos (htype r (.head _))] at hmap
    split at hmap
    · next m₁ _ hset =>
      refine ih (fun r' hr' => htype r' (.tail _ hr')) ?_ (hstep hall h hset) hmap
      rw [← hall, ← append_cons]
    · cases hmap

theorem mapRom_eq_mapRam (hrom : ∀ r ∈ rs, r.type = .rom) (m : MpuAddressMapType W) :
    mapRom junk rs m = mapRam junk rs m := by
  induction rs generalizing m with
  | nil => rfl
  | cons r rs ih =>
    have hr : r.type = .rom := hrom r (.head _)
    have hset : mpuAddressSetRomRam junk m r.type r.start (r.size * 1024) r.mmapAddr =
        mpuAddressSetRomRam junk m r.type r.start (r.size * 1024) none := by
      rw [hr]
      rfl
    rw [mapRom, mapRam, if_pos (by rw [hr]; decide), hset]
    split
    · exact ih (fun r' hr' => hrom r' (.tail _ hr')) _
    · rfl

theorem elfMapMemory_induction {P : List (MemoryAddressType W) → MpuAddressMapType W → Prop}
    (hrom : ∀ r ∈ memap.rom, r.type = .rom) (hram : ∀ r ∈ memap.ram, r.type ≠ .malloc)
    (hdev : memap.dev = [])
    (hstep : ∀ {done r rest m m' buf}, done ++ r :: rest = memap.rom ++ memap.ram → P done m →
      mpuAddressSetRomRam junk m r.type r.start (r.size * 1024) r.mmapAddr = some (m', buf) →
      P (done ++ [r]) m') (h : P [] m) (hmap : elfMapMemory junk memap m = some m') :
    P (memap.rom ++ memap.ram) m' := by
  rw [elfMapMemory, hdev] at hmap
  obtain ⟨m₁, h₁, hmap⟩ := Option.bind_eq_some_iff.1 hmap
  obtain ⟨m₂, h₂, hmap⟩ := Option.bind_eq_some_iff.1 hmap
  cases hmap
  rw [mapRom_eq_mapRam hrom] at h₁
  have hrom' : ∀ r ∈ memap.rom, r.type ≠ .malloc := fun r hr => by rw [hrom r hr]; decide
  refine mapRam_induction hram hstep rfl ?_ h₂
  refine mapRam_induction hrom' ?_ rfl h h₁
  intro done r rest m m' buf hall hP hset
  have hall' : done ++ r :: (rest ++ memap.ram) = memap.rom ++ memap.ram := by
    rw [← hall, append_assoc, cons_append]
  exact hstep hall' hP hset

theorem hasRegions_of_map (hrom : ∀ r ∈ memap.rom, r.type = .rom)
    (hdev : memap.dev = []) (hc : PlainConfig (memap.rom ++ memap.ram))
    {map : List (MpuAddressRegionType W)} (hmap : elfMapMemory junk memap ⟨map, []⟩ = some m) :
    HasRegions junk (memap.rom ++ memap.ram) m :=
  elfMapMemory_induction hrom (fun r hr => hc.type r (mem_append_right _ hr)) hdev
    (fun hall h hset => h.setRomRam (hall ▸ hc) hset) (hasRegions_nil junk map) hmap

theorem HasRegions.exists_region (h : HasRegions junk rs m)
    (hshape : m'.shape = m.shape) (hr : r ∈ rs) (hpos : 0 < r.bytes) :
    ∃ (j : Nat) (x : MpuAddressRegionType W), m'.dynamicMap[j]? = some x ∧ x.start = r.start ∧
      x.size.toNat = r.bytes := by
  obtain ⟨j, hj⟩ := mem_iff_getElem?.1 (h.mem r hr hpos)
  obtain ⟨x, hx, hs⟩ := getElem?_of_shape (congrArg MpuAddressMapType.dynamicMap hshape.symm) hj
  obtain ⟨-, -, hstart, hsize, -⟩ := MpuAddressRegionType.fields_of_shape hs
  exact ⟨j, x, hx, hstart.symm, congrArg BitVec.toNat hsize.symm⟩

theorem HasRegions.plain_of_shape (h : HasRegions junk rs m) (hshape : m'.shape = m.shape) :
    PlainRegions m'.dynamicMap :=
  h.plain.of_shape (congrArg MpuAddressMapType.dynamicMap hshape)

end

/-! ## Segments -/

def ElfPhdr.Has (p : ElfPhdr) (a : Nat) : Prop := p.paddr ≤ a ∧ a < p.paddr + p.memsz

/-- One region of the configuration holds the whole segment. -/
def ElfPhdr.Inside (rs : List (MemoryAddressType W)) (p : ElfPhdr) : Prop :=
  ∃ r ∈ rs, r.start.toNat ≤ p.paddr ∧ p.paddr + p.memsz ≤ r.start.toNat + r.bytes

instance ElfPhdr.instDecidableInside (rs : List (MemoryAddressType W)) (p : ElfPhdr) :
    Decidable (p.Inside rs) :=
  inferInstanceAs (Decidable (∃ r ∈ rs, _ ∧ _))

def ElfPhdr.memory (img : ElfImage) (p : ElfPhdr) : List UInt8 :=
  slice img.bytes p.offset p.filesz ++ replicate (p.memsz - p.filesz) 0

structure ElfPhdr.Fits (W : Nat) (img : ElfImage) (p : ElfPhdr) : Prop where
  contents : p.offset + p.filesz ≤ img.size
  filesz_le : p.filesz ≤ p.memsz
  paddr_lt : p.paddr < 2 ^ W
  memsz_lt : p.memsz < 2 ^ W

section
variable {memap : MemoryAddressMapType W} {img : ElfImage} {p : ElfPhdr} {s : MpuState W}

theorem ElfPhdr.Fits.length_memory (hp : p.Fits W img) : (p.memory img).length = p.memsz := by
  have := hp.filesz_le
  rw [ElfPhdr.memory, length_append, length_slice hp.contents, length_replicate]
  omega

theorem segmentWrite_of_plain {m : MpuAddressMapType W} (h : PlainRegions m.dynamicMap) {j : Nat}
    {x : MpuAddressRegionType W} (hx : m.dynamicMap[j]? = some x) {off : Nat}
    {bytes bytes' : List UInt8} (hin : off + (bytes.length + bytes'.length) ≤ x.size.toNat) :
    ∃ m₁ m₂, pointerWrite m (.dynamicMap j) off bytes = some m₁ ∧
      pointerWrite m₁ (.dynamicMap j) (off + bytes.length : Int) bytes' = some m₂ ∧
      m₂.shape = m.shape ∧
      byteAt m₂.dynamicMap = store (byteAt m.dynamicMap) (x.start.toNat + off) (bytes ++ bytes') := by
  have hin₁ : off + bytes.length ≤ x.size.toNat := by omega
  obtain ⟨m₁, hw₁, hs₁, hb₁⟩ := pointerWrite_of_plain h hx hin₁
  have hdyn : m₁.dynamicMap.map (·.shape) = m.dynamicMap.map (·.shape) :=
    congrArg MpuAddressMapType.dynamicMap hs₁
  obtain ⟨x₁, hx₁, hsx⟩ := getElem?_of_shape hdyn.symm hx
  obtain ⟨-, -, hstart, hsize, -⟩ := MpuAddressRegionType.fields_of_shape hsx
  have hin₂ : off + bytes.length + bytes'.length ≤ x₁.size.toNat := by
    rw [← hsize]
    omega
  obtain ⟨m₂, hw₂, hs₂, hb₂⟩ := pointerWrite_of_plain (h.of_shape hdyn) hx₁ hin₂
  refine ⟨m₁, m₂, hw₁, hw₂, hs₂.trans hs₁, ?_⟩
  rw [hb₂, hb₁, ← hstart, ← Nat.add_assoc, store_append]

theorem memoryRegionCovers_iff {r : MemoryAddressType W} (addr n : AthrillAddrType W) :
    memoryRegionCovers r addr n true = true ↔
      r.start.toNat ≤ addr.toNat ∧ addr.toNat + n.toNat ≤ r.start.toNat + r.bytes := by
  have hsize : (r.size * 1024).toNat = r.bytes := rfl
  simp only [memoryRegionCovers, if_true]
  split_ifs with hlt
  · rw [BitVec.lt_def] at hlt
    exact iff_of_false (by simp) (by omega)
  · rw [BitVec.lt_def, Nat.not_lt] at hlt
    have hoff : (addr - r.start).toNat = addr.toNat - r.start.toNat :=
      BitVec.toNat_sub_of_le (BitVec.le_def.2 hlt)
    rw [Bool.and_eq_true, decide_eq_true_eq, decide_eq_true_eq, BitVec.le_def, hoff, hsize]
    constructor
    · rintro ⟨hle, hsub⟩
      rw [BitVec.le_def, BitVec.toNat_sub_of_le (BitVec.le_def.2 (by omega)), hoff, hsize] at hsub
      omega
    · intro h
      refine ⟨by omega, ?_⟩
      rw [BitVec.le_def, BitVec.toNat_sub_of_le (BitVec.le_def.2 (by omega)), hoff, hsize]
      omega

section
variable (hdev : memap.dev = []) (hc : PlainConfig (memap.rom ++ memap.ram)) (hp : p.Fits W img)
include hdev hc hp

theorem memoryMapCovers_iff :
    memoryMapCovers memap (BitVec.ofNat W p.paddr) (BitVec.ofNat W p.memsz) = true ↔
      p.Inside (memap.rom ++ memap.ram) := by
  have hpaddr : (BitVec.ofNat W p.paddr).toNat = p.paddr := Nat.mod_eq_of_lt hp.paddr_lt
  have hmemsz : (BitVec.ofNat W p.memsz).toNat = p.memsz := Nat.mod_eq_of_lt hp.memsz_lt
  simp only [memoryMapCovers, hdev, any_nil, Bool.or_false, Bool.or_eq_true, any_eq_true,
    Bool.and_eq_true, bne_iff_ne, ne_eq, memoryRegionCovers_iff, hpaddr, hmemsz, ElfPhdr.Inside,
    mem_append]
  constructor
  · rintro (⟨r, hr, hin⟩ | ⟨r, hr, -, hin⟩)
    · exact ⟨r, .inl hr, hin⟩
    · exact ⟨r, .inr hr, hin⟩
  · rintro ⟨r, hr | hr, hin⟩
    · exact .inl ⟨r, hr, hin⟩
    · exact .inr ⟨r, hr, hc.type r (mem_append_right _ hr), hin⟩

theorem loadSegmentAt_outside (hout : ¬ p.Inside (memap.rom ++ memap.ram)) :
    loadSegmentAt img p.offset p.paddr p.filesz p.memsz memap s = some (.noent, s) := by
  rw [← memoryMapCovers_iff hdev hc hp, Bool.not_eq_true] at hout
  rw [loadSegmentAt, if_pos (.inr hout)]

theorem loadSegmentAt_inside (hin : p.Inside (memap.rom ++ memap.ram)) {junk : Nat → UInt8}
  {m : MpuAddressMapType W} (hm : HasRegions junk (memap.rom ++ memap.ram) m)
  (hshape : s.addressMap.shape = m.shape) :
    ∃ s', loadSegmentAt img p.offset p.paddr p.filesz p.memsz memap s = some (.ok, s') ∧
      s'.addressMap.shape = m.shape ∧
      byteAt s'.addressMap.dynamicMap =
        store (byteAt s.addressMap.dynamicMap) p.paddr (p.memory img) := by
  have hcov := (memoryMapCovers_iff hdev hc hp).2 hin
  have hle := hp.filesz_le
  have hpaddr : (BitVec.ofNat W p.paddr).toNat = p.paddr := Nat.mod_eq_of_lt hp.paddr_lt
  by_cases hzero : p.memsz = 0
  · refine ⟨s, ?_, hshape, ?_⟩
    · rw [loadSegmentAt, if_neg (by simp [hcov]; omega), if_pos hzero]
    · have hnil : p.memory img = [] := eq_nil_of_length_eq_zero (hp.length_memory.trans hzero)
      rw [hnil, store_nil]
  obtain ⟨r, hr, hlow, hhigh⟩ := hin
  obtain ⟨j, x, hx, hstart, hsize⟩ := hm.exists_region hshape hr (by omega)
  have hplain := hm.plain_of_shape hshape
  have hhas : x.Has (BitVec.ofNat W p.paddr).toNat := by
    rw [MpuAddressRegionType.Has, hpaddr, hstart, hsize]
    omega
  have hptr := mpuGetPointer_of_has hplain hx hhas s.previousIndex s.previousIndexR
  rw [hpaddr, hstart] at hptr
  have hroom : p.paddr - r.start.toNat + ((slice img.bytes p.offset p.filesz).length +
      (replicate (p.memsz - p.filesz) (0 : UInt8)).length) ≤ x.size.toNat := by
    rw [length_slice hp.contents, length_replicate, hsize]
    omega
  obtain ⟨m₁, m₂, hw₁, hw₂, hs₂, hb₂⟩ := segmentWrite_of_plain hplain hx hroom
  rw [length_slice hp.contents] at hw₂
  refine ⟨⟨m₂, (searchRegion s (BitVec.ofNat W p.paddr) 1).2.previousIndex,
    (searchRegion s (BitVec.ofNat W p.paddr) 1).2.previousIndexR⟩, ?_, hs₂.trans hshape, ?_⟩
  · rw [loadSegmentAt, if_neg (by simp [hcov]; omega), if_neg hzero, hptr]
    dsimp only
    rw [ElfImage.memcpy_ok hp.contents]
    show (pointerWrite s.addressMap _ _ _).bind _ = _
    rw [hw₁, Option.bind_some]
    show (pointerWrite m₁ _ _ _).bind _ = _
    rw [hw₂, Option.bind_some]
  · rw [hb₂, hstart, ElfPhdr.memory]
    congr 1
    omega

end

end

/-! ## Program headers -/

def phdrAt (img : ElfImage) (h : ElfHeaderView) (i : Nat) : ElfPhdr :=
  elfPhdr h.is64 (slice img.bytes (h.phoff + i * h.phentsize) (phdrSize h.is64))

def elfSegments (img : ElfImage) : List ElfPhdr :=
  ((range (headerAt img).phnum).map (phdrAt img (headerAt img))).filter (·.type == ptLoad)

def segmentStores (rs : List (MemoryAddressType W)) (img : ElfImage) (ps : List ElfPhdr) :
    List (Nat × List UInt8) :=
  (ps.filter fun p => decide (p.Inside rs)).map fun p => (p.paddr, p.memory img)

section
variable {memap : MemoryAddressMapType W} {img : ElfImage} {h : ElfHeaderView} {s s' : MpuState W}

theorem toElfProgramView_phdrAt (img : ElfImage) (h : ElfHeaderView) (i : Nat) :
    (phdrAt img h i).toElfProgramView = programAt img h i := by
  rw [phdrAt, programAt, elfPhdr, phdr]
  split_ifs <;> rfl

theorem elfPhdrAt_ok {i : Nat} (hi : i < h.phnum) (hok : ProgramsOk img h) :
    elfPhdrAt img h i = .ok (phdrAt img h i) := by
  have hentry := entry_le hok.entsize hi hok.table
  rw [elfPhdrAt, Nat.mul_comm, ElfImage.memcpy_ok hentry]
  rfl

theorem loadSegmentAt_shape {offset loadAddr fileSize memorySize : Nat} {ret : StdReturnType}
    (hload : loadSegmentAt img offset loadAddr fileSize memorySize memap s = some (ret, s')) :
    s'.addressMap.shape = s.addressMap.shape := by
  rw [loadSegmentAt] at hload
  split_ifs at hload
  · cases hload
    rfl
  · cases hload
    rfl
  · split at hload
    · next s₁ hptr =>
      cases hload
      obtain rfl := congrArg Prod.snd hptr
      rfl
    · next s₁ hptr =>
      obtain rfl := congrArg Prod.snd hptr
      obtain ⟨contents, -, hload⟩ := Option.bind_eq_some_iff.1 hload
      obtain ⟨m₁, hw₁, hload⟩ := Option.bind_eq_some_iff.1 hload
      obtain ⟨m₂, hw₂, hload⟩ := Option.bind_eq_some_iff.1 hload
      cases hload
      exact (pointerWrite_shape hw₂).trans (pointerWrite_shape hw₁)

variable {is : List Nat} {junk : Nat → UInt8}

theorem loadPrograms_shape {refused : ElfPhdr → Bool} {ret : StdReturnType}
    (hload : loadPrograms refused img h memap is s = some (ret, s')) :
    s'.addressMap.shape = s.addressMap.shape := by
  induction is generalizing s with
  | nil =>
    cases hload
    rfl
  | cons i is ih =>
    rw [loadPrograms, loadLoop] at hload
    split at hload
    · cases hload
    · split_ifs at hload
      · exact ih hload
      · cases hload
        rfl
      · split at hload
        · cases hload
        · next s₁ hseg => exact (ih hload).trans (loadSegmentAt_shape hseg)
        · next s₁ hseg => exact (ih hload).trans (loadSegmentAt_shape hseg)
        · next s₁ hseg =>
          cases hload
          exact loadSegmentAt_shape hseg

theorem not_refused_of_loadPrograms {refused : ElfPhdr → Bool}
    (hread : ∀ i ∈ is, elfPhdrAt img h i = .ok (phdrAt img h i))
    (hload : loadPrograms refused img h memap is s = some (.ok, s')) :
    ∀ i ∈ is, (phdrAt img h i).type = ptLoad → refused (phdrAt img h i) = false := by
  induction is generalizing s with
  | nil => simp
  | cons i is ih =>
    have ih := fun {s : MpuState W} => ih (s := s) fun j hj => hread j (.tail _ hj)
    rw [loadPrograms, loadLoop, hread i (.head _)] at hload
    dsimp only at hload
    split_ifs at hload with htype href
    · exact forall_mem_cons.2 ⟨fun h => absurd h htype, ih hload⟩
    · cases hload
    · refine forall_mem_cons.2 ⟨fun _ => Bool.eq_false_iff.2 href, ?_⟩
      split at hload
      · cases hload
      · exact ih hload
      · exact ih hload
      · cases hload

theorem loadPrograms_stores (hdev : memap.dev = []) (hc : PlainConfig (memap.rom ++ memap.ram))
    {m : MpuAddressMapType W} (hm : HasRegions junk (memap.rom ++ memap.ram) m) (refused : ElfPhdr → Bool)
    (hread : ∀ i ∈ is, elfPhdrAt img h i = .ok (phdrAt img h i))
    (hfits : ∀ i ∈ is, (phdrAt img h i).type = ptLoad →
      refused (phdrAt img h i) = false ∧ (phdrAt img h i).Fits W img)
    (hshape : s.addressMap.shape = m.shape) :
    ∃ s', loadPrograms refused img h memap is s = some (.ok, s') ∧ s'.addressMap.shape = m.shape ∧
      byteAt s'.addressMap.dynamicMap = stores (byteAt s.addressMap.dynamicMap)
        (segmentStores (memap.rom ++ memap.ram) img
          ((is.map (phdrAt img h)).filter (·.type == ptLoad))) := by
  induction is generalizing s with
  | nil => exact ⟨s, rfl, hshape, rfl⟩
  | cons i is ih =>
    have ih := fun {s : MpuState W} => ih (s := s) (fun j hj => hread j (.tail _ hj))
      (fun j hj => hfits j (.tail _ hj))
    rw [loadPrograms, loadLoop, hread i (.head _)]
    dsimp only
    by_cases htype : (phdrAt img h i).type = ptLoad
    · obtain ⟨href, hp⟩ := hfits i (.head _) htype
      rw [if_neg (not_not.2 htype), href, if_neg Bool.false_ne_true, map_cons,
        filter_cons_of_pos (by simp [htype])]
      by_cases hin : (phdrAt img h i).Inside (memap.rom ++ memap.ram)
      · obtain ⟨s₁, hs₁, hshape₁, hbyte₁⟩ := loadSegmentAt_inside (s := s) hdev hc hp hin hm hshape
        obtain ⟨s', hs', hshape', hbyte'⟩ := ih hshape₁
        rw [hs₁]
        refine ⟨s', hs', hshape', ?_⟩
        rw [hbyte', hbyte₁, segmentStores, segmentStores, filter_cons_of_pos (by simp [hin]),
          map_cons, stores_cons]
      · obtain ⟨s', hs', hshape', hbyte'⟩ := ih hshape
        rw [loadSegmentAt_outside hdev hc hp hin]
        refine ⟨s', hs', hshape', ?_⟩
        rw [hbyte', segmentStores, segmentStores, filter_cons_of_neg (by simp [hin])]
    · obtain ⟨s', hs', hshape', hbyte'⟩ := ih hshape
      rw [if_pos htype, map_cons, filter_cons_of_neg (by simp [htype])]
      exact ⟨s', hs', hshape', hbyte'⟩

theorem ProgramsOk.fits (hok : ProgramsOk img h) (hW : W = 32 ∨ W = 64) {i : Nat} (hi : i < h.phnum)
    (htype : (phdrAt img h i).type = ptLoad)
    (href : h.is64 = true → W = 32 → above32 (phdrAt img h i) = false) :
    (phdrAt img h i).Fits W img := by
  have hview := toElfProgramView_phdrAt img h i
  obtain ⟨hin, hle⟩ := hok.load i hi (hview ▸ htype)
  rw [← hview] at hin hle
  have hnum : (phdrAt img h i).paddr < 2 ^ W ∧ (phdrAt img h i).memsz < 2 ^ W := by
    cases h64 : h.is64 with
    | false =>
      have hpow : 2 ^ 32 ≤ 2 ^ W := by
        rcases hW with rfl | rfl <;> decide
      rw [phdrAt, elfPhdr, h64, if_neg Bool.false_ne_true]
      exact ⟨(leAt_lt _ _ 4).trans_le hpow, (leAt_lt _ _ 4).trans_le hpow⟩
    | true =>
      rcases hW with rfl | rfl
      · have := href h64 rfl
        simp only [above32, Bool.or_eq_false_iff, decide_eq_false_iff_not] at this
        omega
      · rw [phdrAt, elfPhdr, h64, if_pos rfl]
        exact ⟨leAt_lt _ _ 8, leAt_lt _ _ 8⟩
  exact ⟨hin, hle, hnum.1, hnum.2⟩

theorem elfLoad_ok {machine : Nat} {st st' : ElfLoaderState W}
    {entry : AthrillAddrType W} (hload : elfLoad machine junk img memap st = some (.ok entry, st')) :
    ImageOk img ∧
      (∃ ehdr, (img.memcpy 0 (ehdrSize (headerAt img).is64)).toOption = some ehdr ∧
        elfClassCheck machine (headerAt img) ehdr = true) ∧
      elfClassLoadProgram junk img (headerAt img) memap st.mpu = some (.ok, st'.mpu) := by
  rw [elfLoad] at hload
  obtain ⟨ret, hret, hload⟩ := Option.bind_eq_some_iff.1 hload
  by_cases hne : ret = .ok
  · subst hne
    have hok := elfImageCheck_eq_ok.1 hret
    rw [if_neg (not_not.2 rfl), readEhdr_ok hok.header] at hload
    obtain ⟨h, hh, hload⟩ := Option.bind_eq_some_iff.1 hload
    obtain rfl : headerAt img = h := Option.some.inj hh
    obtain ⟨ehdr, hehdr, hload⟩ := Option.bind_eq_some_iff.1 hload
    dsimp only at hload
    split at hload
    · cases hload
    next hcheck =>
    split at hload
    · cases hload
    obtain ⟨⟨ret, mpu⟩, hprog, hload⟩ := Option.bind_eq_some_iff.1 hload
    dsimp only at hload
    split at hload
    · cases hload
    next hret' =>
    obtain ⟨⟨ret', symbols⟩, -, hload⟩ := Option.bind_eq_some_iff.1 hload
    dsimp only at hload
    split at hload
    · cases hload
    cases hload
    rw [not_not] at hret'
    exact ⟨hok, ⟨ehdr, hehdr, by simpa using hcheck⟩, by rw [hprog, hret']⟩
  · rw [if_pos hne] at hload
    cases hload

def elfRefused (W : Nat) (h : ElfHeaderView) (p : ElfPhdr) : Bool :=
  h.is64 && (decide (W = 32) && above32 p)

theorem elfClassLoadProgram_eq (junk : Nat → UInt8) (img : ElfImage) (h : ElfHeaderView)
    (memap : MemoryAddressMapType W) (s : MpuState W) :
    elfClassLoadProgram junk img h memap s =
      (elfMapMemory junk memap s.addressMap).bind fun m =>
        loadPrograms (elfRefused W h) img h memap (range h.phnum) { s with addressMap := m } := by
  have hrefused : elfRefused W h = if h.is64 then fun p => decide (W = 32) && above32 p
      else fun _ => false := by
    funext p
    rw [elfRefused]
    cases h.is64 <;> rfl
  rw [elfClassLoadProgram, hrefused]
  split_ifs <;> rfl

theorem ImageOk.elfPhdrAt_ok (hok : ImageOk img) :
    ∀ i ∈ range (headerAt img).phnum,
      elfPhdrAt img (headerAt img) i = .ok (phdrAt img (headerAt img) i) := by
  intro i hi
  have hlt := mem_range.1 hi
  exact Athrill.elfPhdrAt_ok hlt (hok.programs (Nat.ne_zero_of_lt hlt))

theorem elfLoad_stores (hW : W = 32 ∨ W = 64) (hrom : ∀ r ∈ memap.rom, r.type = .rom)
    (hdev : memap.dev = []) (hc : PlainConfig (memap.rom ++ memap.ram)) {machine : Nat}
    {map : List (MpuAddressRegionType W)} {p q : Int} {symbols : ElfSectionState}
    {entry : AthrillAddrType W} {st' : ElfLoaderState W}
    (hload : elfLoad machine junk img memap ⟨⟨⟨map, []⟩, p, q⟩, symbols⟩ = some (.ok entry, st')) :
    ∃ m, HasRegions junk (memap.rom ++ memap.ram) m ∧ st'.mpu.addressMap.shape = m.shape ∧
      byteAt st'.mpu.addressMap.dynamicMap = stores (byteAt m.dynamicMap)
        (segmentStores (memap.rom ++ memap.ram) img (elfSegments img)) ∧
      ∀ seg ∈ elfSegments img, seg.Fits W img := by
  obtain ⟨hok, -, hprog⟩ := elfLoad_ok hload
  rw [elfClassLoadProgram_eq] at hprog
  obtain ⟨m, hmap, hprog⟩ := Option.bind_eq_some_iff.1 hprog
  have hm := hasRegions_of_map hrom hdev hc hmap
  have hread := hok.elfPhdrAt_ok
  have href := not_refused_of_loadPrograms hread hprog
  have hfits : ∀ i ∈ range (headerAt img).phnum,
      (phdrAt img (headerAt img) i).type = ptLoad → (phdrAt img (headerAt img) i).Fits W img := by
    intro i hi htype
    have hlt := mem_range.1 hi
    refine (hok.programs (Nat.ne_zero_of_lt hlt)).fits hW hlt htype fun h64 hw => ?_
    simpa [elfRefused, h64, hw] using href i hi htype
  obtain ⟨s', hprog', hshape, hbyte⟩ := loadPrograms_stores (s := ⟨m, p, q⟩) hdev hc hm _ hread
    (fun i hi htype => ⟨href i hi htype, hfits i hi htype⟩) rfl
  obtain rfl : st'.mpu = s' := congrArg Prod.snd (Option.some.inj (hprog.symm.trans hprog'))
  refine ⟨m, hm, hshape, hbyte, fun seg hseg => ?_⟩
  obtain ⟨hmem, htype⟩ := mem_filter.1 hseg
  obtain ⟨i, hi, rfl⟩ := mem_map.1 hmem
  exact hfits i hi (by simpa using htype)

end

/-! ## Bytes of a loaded program -/

section
variable {memap : MemoryAddressMapType W} {img : ElfImage} {junk : Nat → UInt8}
  {m m' : MpuAddressMapType W} {rs : List (MemoryAddressType W)} {r : MemoryAddressType W}

theorem HasRegions.getData8 (h : HasRegions junk rs m) (hshape : m'.shape = m.shape) (hr : r ∈ rs)
    {a : AthrillAddrType W} (ha : r.Has a.toNat) (p q : Int) :
    ∃ s', mpuGetData8 ⟨m', p, q⟩ a = some (.ok (byteAt m'.dynamicMap a.toNat).toNat, s') := by
  obtain ⟨j, x, hx, hstart, hsize⟩ := h.exists_region hshape hr (by
    have := ha.1
    have := ha.2
    omega)
  have hhas : x.Has a.toNat := by
    rw [MpuAddressRegionType.Has, hstart, hsize]
    exact ha
  exact ⟨_, mpuGetData8_of_has (h.plain_of_shape hshape) hx hhas p q⟩

variable {a : Nat}

theorem HasRegions.byteAt_line (h : HasRegions junk rs m) (hr : r ∈ rs)
    (ha : r.Has a) {buf : HostBuffer} (hbuf : (r.region junk).data = some buf) :
    byteAt m.dynamicMap a = (buf[a - r.start.toNat]?).getD 0 := by
  obtain ⟨j, hj⟩ := mem_iff_getElem?.1 (h.mem r hr (by
    have := ha.1
    have := ha.2
    omega))
  exact byteAt_of_has h.plain hj ha hbuf

theorem HasRegions.byteAt_ram (h : HasRegions junk rs m) (hr : r ∈ rs) (htype : r.type = .ram)
    (ha : r.Has a) : byteAt m.dynamicMap a = 0 := by
  have hbuf : (r.region junk).data = some (hostCalloc (r.size * 1024).toNat) := by
    rw [MemoryAddressType.region, htype]
    rfl
  rw [h.byteAt_line hr ha hbuf, hostCalloc, getElem?_replicate]
  split_ifs <;> rfl

def ElfPhdr.byte (img : ElfImage) (p : ElfPhdr) (k : Nat) : UInt8 :=
  if k < p.filesz then img.bytes.getD (p.offset + k) 0 else 0

theorem ElfPhdr.Fits.getElem?_memory {p : ElfPhdr} (hp : p.Fits W img) {k : Nat} (hk : k < p.memsz) :
    (p.memory img)[k]? = some (p.byte img k) := by
  have hle := hp.filesz_le
  have hlen : p.offset + p.filesz ≤ img.bytes.length := hp.contents
  rw [ElfPhdr.memory, ElfPhdr.byte]
  split_ifs with hfile
  · rw [getElem?_append_left (by rw [length_slice hlen]; exact hfile), getElem?_slice hfile,
      getD_eq_getElem?_getD, getElem?_eq_getElem (by omega), Option.getD_some]
  · rw [getElem?_append_right (by rw [length_slice hlen]; omega), length_slice hlen,
      getElem?_replicate, if_pos (by omega)]

theorem mem_segmentStores {ps : List ElfPhdr} (hfits : ∀ p ∈ ps, p.Fits W img)
    {w : Nat × List UInt8} (hw : w ∈ segmentStores rs img ps)
    (ha : w.1 ≤ a ∧ a < w.1 + w.2.length) : ∃ p ∈ ps, p.Inside rs ∧ p.Has a := by
  obtain ⟨p, hp, rfl⟩ := mem_map.1 hw
  obtain ⟨hp, hin⟩ := mem_filter.1 hp
  rw [(hfits p hp).length_memory] at ha
  exact ⟨p, hp, by simpa using hin, ha⟩

theorem stores_segment {byte : Nat → UInt8} {pre post : List ElfPhdr} {p : ElfPhdr}
    (hfits : ∀ p' ∈ pre ++ p :: post, p'.Fits W img) (hin : p.Inside rs) (ha : p.Has a)
    (hlast : ∀ p' ∈ post, p'.Inside rs → ¬ p'.Has a) :
    stores byte (segmentStores rs img (pre ++ p :: post)) a = p.byte img (a - p.paddr) := by
  have hp := hfits p (mem_append_right _ (.head _))
  obtain ⟨k, rfl⟩ : ∃ k, a = p.paddr + k := ⟨a - p.paddr, by have := ha.1; omega⟩
  have hk : k < p.memsz := Nat.lt_of_add_lt_add_left ha.2
  have hlen : k < (p.memory img).length := by
    rw [hp.length_memory]
    exact hk
  have hsplit : segmentStores rs img (pre ++ p :: post) =
      segmentStores rs img pre ++ (p.paddr, p.memory img) :: segmentStores rs img post := by
    rw [segmentStores, filter_append, filter_cons_of_pos (by simpa using hin),
      map_append, map_cons]
    rfl
  have hpost : ∀ w ∈ segmentStores rs img post,
      ¬ (w.1 ≤ p.paddr + k ∧ p.paddr + k < w.1 + w.2.length) := by
    intro w hw hmem
    obtain ⟨p', hp', hin', hhas⟩ := mem_segmentStores
      (fun p' hp' => hfits p' (mem_append_right _ (.tail _ hp'))) hw hmem
    exact hlast p' hp' hin' hhas
  have hget := hp.getElem?_memory hk
  rw [getElem?_eq_getElem hlen] at hget
  rw [hsplit, stores_last (w := (p.paddr, p.memory img)) hlen hpost, Nat.add_sub_cancel_left]
  exact Option.some.inj hget

theorem stores_no_segment {byte : Nat → UInt8} {ps : List ElfPhdr} (hfits : ∀ p ∈ ps, p.Fits W img)
    (hnone : ∀ p ∈ ps, p.Inside rs → ¬ p.Has a) :
    stores byte (segmentStores rs img ps) a = byte a := by
  refine stores_of_not_mem fun w hw hmem => ?_
  obtain ⟨p, hp, hin, hhas⟩ := mem_segmentStores hfits hw hmem
  exact hnone p hp hin hhas

end

/-- **The memory of a loaded program.** After `elf_load` succeeds over ROM and RAM regions that do not
overlap and end below the top of the address space, a read at an address of a region gives the byte of
the last segment that lies inside one region and has the address; if there is none and the region is
RAM, it gives 0. The other segments change nothing. -/
theorem elf_load_memory (hW : W = 32 ∨ W = 64) {memap : MemoryAddressMapType W}
    (hrom : ∀ r ∈ memap.rom, r.type = .rom) (hram : ∀ r ∈ memap.ram, r.type = .ram)
    (hdev : memap.dev = [])
    (hbelow : ∀ r ∈ memap.rom ++ memap.ram, r.start.toNat + 1024 * r.size.toNat < 2 ^ W)
    (hdisj : (memap.rom ++ memap.ram).Pairwise fun r r' => ∀ a, r.Has a → ¬ r'.Has a) {machine : Nat}
    {junk : Nat → UInt8} {img : ElfImage} {map : List (MpuAddressRegionType W)} {p q : Int}
    {symbols : ElfSectionState} {entry : AthrillAddrType W} {st : ElfLoaderState W}
    (hload : elfLoad machine junk img memap ⟨⟨⟨map, []⟩, p, q⟩, symbols⟩ = some (.ok entry, st)) :
    (∀ r ∈ memap.rom ++ memap.ram, ∀ a : AthrillAddrType W, r.Has a.toNat →
      (∀ pre seg post, elfSegments img = pre ++ seg :: post → seg.Inside (memap.rom ++ memap.ram) →
        seg.Has a.toNat →
        (∀ seg' ∈ post, seg'.Inside (memap.rom ++ memap.ram) → ¬ seg'.Has a.toNat) →
        ∃ s', mpuGetData8 st.mpu a = some (.ok (if a.toNat - seg.paddr < seg.filesz then
          img.bytes.getD (seg.offset + (a.toNat - seg.paddr)) 0 else 0).toNat, s')) ∧
      (r ∈ memap.ram →
        (∀ seg ∈ elfSegments img, seg.Inside (memap.rom ++ memap.ram) → ¬ seg.Has a.toNat) →
        ∃ s', mpuGetData8 st.mpu a = some (.ok 0, s'))) ∧
    ∀ seg ∈ elfSegments img, ¬ seg.Inside (memap.rom ++ memap.ram) → ∀ s : MpuState W,
      loadSegmentAt img seg.offset seg.paddr seg.filesz seg.memsz memap s = some (.noent, s) := by
  have hc : PlainConfig (memap.rom ++ memap.ram) := by
    refine plainConfig_of_types hrom (fun r hr => .inl (hram r hr)) (fun r hr h => ?_)
      (fun r hr => ?_) hdisj
    · rw [hram r hr] at h
      cases h
    · have := hbelow r hr
      rw [MemoryAddressType.bytes, toNat_kib, Nat.mod_eq_of_lt (by omega)]
      exact this
  obtain ⟨m, hm, hshape, hbyte, hfits⟩ := elfLoad_stores hW hrom hdev hc hload
  refine ⟨fun r hr a ha => ⟨fun pre seg post hsplit hin hhas hlast => ?_, fun hmem hnone => ?_⟩,
    fun seg hseg hout s => loadSegmentAt_outside hdev hc (hfits seg hseg) hout⟩
  · obtain ⟨s', hget⟩ := hm.getData8 hshape hr ha st.mpu.previousIndex st.mpu.previousIndexR
    rw [hbyte, hsplit, stores_segment (hsplit ▸ hfits) hin hhas hlast] at hget
    exact ⟨s', hget⟩
  · obtain ⟨s', hget⟩ := hm.getData8 hshape hr ha st.mpu.previousIndex st.mpu.previousIndexR
    rw [hbyte, stores_no_segment hfits hnone, hm.byteAt_ram hr (hram r hmem) ha] at hget
    exact ⟨s', hget⟩

/-! ## A small program -/

def elf32PhdrBytes (p : ElfPhdr) : List UInt8 :=
  leBytes 4 p.type ++ leBytes 4 p.offset ++ leBytes 4 p.vaddr ++ leBytes 4 p.paddr ++
    leBytes 4 p.filesz ++ leBytes 4 p.memsz ++ leBytes 8 0

def programElf32 (p : ElfPhdr) : List UInt8 :=
  elfmag ++ [elfclass32, elfdata2lsb, 1] ++ leBytes 9 0 ++
    leBytes 2 2 ++ leBytes 2 0 ++ leBytes 4 1 ++ leBytes 4 0 ++ leBytes 4 52 ++ leBytes 4 84 ++
    leBytes 6 0 ++ leBytes 2 32 ++ leBytes 2 1 ++ leBytes 2 40 ++ leBytes 2 3 ++ leBytes 2 0 ++
    elf32PhdrBytes p ++
    elf32ShdrBytes ⟨0, shtStrtab, 204, 1, 0, 0⟩ ++ elf32ShdrBytes ⟨0, shtSymtab, 205, 16, 2, 16⟩ ++
    elf32ShdrBytes ⟨0, shtStrtab, 204, 1, 0, 0⟩ ++
    [0] ++ leBytes 16 0 ++ [1, 2, 3, 4]

def romRamConfig : MemoryAddressMapType 32 where
  rom := [⟨.rom, 0, 1, none, none⟩]
  ram := [⟨.ram, 0x1000, 1, none, none⟩]
  dev := []

def ramSegment : ElfPhdr := ⟨⟨ptLoad, 221, 2, 4⟩, 0x1010, 0x1010⟩

def ramImage : ElfImage := ⟨programElf32 ramSegment, by decide +kernel⟩

theorem ramImage_load : ∃ st, elfLoad 0 (fun _ => 7) ramImage romRamConfig
    ⟨⟨⟨[], []⟩, -1, -1⟩, .init⟩ = some (.ok 0, st) := by
  have hsome : (elfLoad 0 (fun _ => 7) ramImage romRamConfig ⟨⟨⟨[], []⟩, -1, -1⟩, .init⟩).map
      (fun r => r.1.toOption) = some (some 0) := by decide +kernel
  obtain ⟨⟨res, st⟩, hload, hres⟩ := Option.map_eq_some_iff.1 hsome
  cases res with
  | error err => cases hres
  | ok entry => exact ⟨st, Option.some.inj hres ▸ hload⟩

theorem elf_load_memory_ram : ∃ st, elfLoad 0 (fun _ => 7) ramImage romRamConfig
      ⟨⟨⟨[], []⟩, -1, -1⟩, .init⟩ = some (.ok 0, st) ∧
    (∃ s', mpuGetData8 st.mpu 0x1011 = some (.ok 2, s')) ∧
    ∃ s', mpuGetData8 st.mpu 0x1020 = some (.ok 0, s') := by
  obtain ⟨st, hload⟩ := ramImage_load
  have hsegs : elfSegments ramImage = [] ++ ramSegment :: [] := by decide +kernel
  have hinside : ramSegment.Inside (romRamConfig.rom ++ romRamConfig.ram) := by decide
  have hmem : (⟨.ram, 0x1000, 1, none, none⟩ : MemoryAddressType 32) ∈ romRamConfig.ram := .head _
  have hmem' := mem_append_right romRamConfig.rom hmem
  obtain ⟨hbytes, -⟩ := elf_load_memory (.inl rfl) (by decide) (by decide) rfl (by decide)
    (by simp [romRamConfig, MemoryAddressType.Has, MemoryAddressType.bytes]; omega) hload
  refine ⟨st, hload, ?_, ?_⟩
  · exact (hbytes _ hmem' 0x1011 ⟨by decide, by decide⟩).1 [] ramSegment [] hsegs hinside
      ⟨by decide, by decide⟩ (by simp)
  · refine (hbytes _ hmem' 0x1020 ⟨by decide, by decide⟩).2 hmem fun seg hseg _ hhas => ?_
    rw [hsegs] at hseg
    obtain rfl := mem_singleton.1 hseg
    exact absurd hhas.2 (by decide)

end Athrill
