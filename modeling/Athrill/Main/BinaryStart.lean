import Athrill.Loader.LoadMemory
import Athrill.Main.Memmap
import Athrill.Mpu.FlatBus
import Athrill.Mpu.Window

/-!
# Starting a raw file (`main/main.cpp`)

With `-b`, `main` reads the memory configuration and copies the file to address 0 with `binary_load`. Main
result: `binary_start_ok_iff`.
-/

namespace Athrill

open List Option

variable {W : Nat}

/-! ## The start-up -/

def mainBinary (lines : List (MemmapLine W)) (data : List UInt8) (s : MpuState W) :
    Option (Except Int Unit × MpuState W) :=
  match cpuemuLoadMemmap lines with
  | .error _ => some (.error (-1), s)
  | .ok _ => (binaryLoad data 0 s).map fun r => (.ok (), r.2)

def MemmapConfig.memory (c : MemmapConfig W) : List (MemmapEntry W) :=
  (c.rom ++ c.ram).filter (·.type != .malloc)

/-- The file is where a region has its addresses, no write leaves a buffer, and a file that fits nowhere is
refused. -/
structure BinaryStartOk (map : List (MpuAddressRegionType W)) (c : MemmapConfig W) (data : List UInt8)
    (result : Option (Except Int Unit × MpuState W)) : Prop where
  loaded : (∃ e ∈ c.memory, ∀ i < data.length, e.Has i) →
    ∃ s, result = some (.ok (), s) ∧ ∀ i, (hi : i < data.length) →
      ∃ s', mpuGetData8 s (BitVec.ofNat W i) = some (.ok data[i].toNat, s')
  inside : result ≠ none
  refused : ((∃ e ∈ c.memory, e.Has 0) ∨ ∃ x ∈ map, regionCovers x 0 1 = true) →
    (¬ ∃ e ∈ c.memory, ∀ i < data.length, e.Has i) →
    (¬ ∃ x ∈ map, regionCovers x 0 1 = true ∧ data.length ≤ x.size.toNat) →
    ∃ code s, result = some (.error code, s) ∧ s.addressMap = ⟨map, []⟩

/-! ## The target's own regions -/

structure PlainBelow (map : List (MpuAddressRegionType W)) (n : Nat) : Prop where
  plain : ∀ x ∈ map, ∀ i < n, regionCovers x (BitVec.ofNat W i) 1 = true → PlainRegion x
  disjoint : ∀ i < n, ∀ {j k : Nat} {x y : MpuAddressRegionType W}, map[j]? = some x →
    map[k]? = some y → regionCovers x (BitVec.ofNat W i) 1 = true →
    regionCovers y (BitVec.ofNat W i) 1 = true → j = k

section
variable {map map' : List (MpuAddressRegionType W)} {n : Nat}

theorem PlainBelow.of_shape (hshape : map'.map (·.shape) = map.map (·.shape)) (h : PlainBelow map n) :
    PlainBelow map' n := by
  constructor
  · intro x' hx' i hi hcov
    obtain ⟨j, hj⟩ := mem_iff_getElem?.1 hx'
    obtain ⟨x, hx, hs⟩ := getElem?_of_shape hshape hj
    rw [regionCovers_of_shape hs] at hcov
    exact (h.plain x (mem_of_getElem? hx) i hi hcov).of_shape hs
  · intro i hi j k x' y' hx' hy' hcx hcy
    obtain ⟨x, hx, hxs⟩ := getElem?_of_shape hshape hx'
    obtain ⟨y, hy, hys⟩ := getElem?_of_shape hshape hy'
    rw [regionCovers_of_shape hxs] at hcx
    rw [regionCovers_of_shape hys] at hcy
    exact h.disjoint i hi hx hy hcx hcy

theorem PlainBelow.selects (h : PlainBelow map n) {j : Nat} {x : MpuAddressRegionType W}
    (hx : map[j]? = some x) {i : Nat} (hi : i < n)
    (hcov : regionCovers x (BitVec.ofNat W i) 1 = true) (previous : Int) :
    Selects ⟨map, []⟩ previous (BitVec.ofNat W i) 1 (.map j) x := by
  have hp := h.plain x (mem_of_getElem? hx) i hi hcov
  have hat : regionAt ⟨map, []⟩ (.map j) = some x := hx
  refine hp.selects hcov (searchRegionFrom_of_not_shadowed hat hp.hasData hcov (fun ref y hsh hy => ?_) _) hat
  cases ref with
  | dynamicMap k => cases hy
  | map k =>
    have hlt : k < j := hsh
    by_contra hycov
    exact absurd (h.disjoint i hi hy hx (Bool.not_eq_false _ ▸ hycov) hcov) (Nat.ne_of_lt hlt)

variable {j : Nat} {x : MpuAddressRegionType W} {data : List UInt8} {p q : Int}

theorem PlainBelow.binaryLoad_eq (h : PlainBelow map data.length) (hn : 0 < data.length)
    (hx : map[j]? = some x) (hcov : regionCovers x 0 1 = true) {buf : HostBuffer} (hbuf : x.data = some buf) :
    binaryLoad data 0 ⟨⟨map, []⟩, p, q⟩ = (hostWrite buf 0 data).map fun buf' =>
      (.ok, { (searchRegion ⟨⟨map, []⟩, p, q⟩ 0 1).2 with
        addressMap := setRegionData ⟨map, []⟩ (.map j) buf' }) := by
  have hat : regionAt ⟨map, []⟩ (.map j) = some x := hx
  have hptr := (h.selects hx hn hcov p).getPointer (q := q)
  rw [BitVec.toNat_ofNat, Nat.zero_mod, Nat.zero_sub] at hptr
  have hwrite : pointerWrite ⟨map, []⟩ (.map j) 0 data =
      (hostWrite buf 0 data).map (setRegionData ⟨map, []⟩ (.map j)) := by
    rw [pointerWrite, hat, bind_some, hbuf]
  rw [binaryLoad, show mpuGetPointer ⟨⟨map, []⟩, p, q⟩ 0 = _ from hptr]
  show (pointerWrite ⟨map, []⟩ (.map j) 0 data).bind _ = _
  rw [hwrite, bind_map]
  cases hostWrite buf 0 data <;> rfl

theorem PlainBelow.start_eq (h : PlainBelow map n) (hn : 0 < n) (hx : map[j]? = some x)
    (hcov : regionCovers x 0 1 = true) : x.start.toNat = 0 := by
  have hlow : x.start.toNat ≤ (0#W).toNat :=
    ((h.plain x (mem_of_getElem? hx) 0 hn hcov).has_of_covers hcov).1
  rw [BitVec.toNat_ofNat, Nat.zero_mod] at hlow
  omega

theorem PlainBelow.getData8 (h : PlainBelow map n) (hn : 0 < n) (hx : map[j]? = some x)
    (hcov : regionCovers x 0 1 = true) {buf : HostBuffer} (hbuf : x.data = some buf) {i : Nat}
    (hi : i < n) {b : UInt8} (hb : buf[i]? = some b) :
    ∃ s, mpuGetData8 ⟨⟨map, []⟩, p, q⟩ (BitVec.ofNat W i) = some (.ok b.toNat, s) := by
  have hp := h.plain x (mem_of_getElem? hx) 0 hn hcov
  have hstart := h.start_eq hn hx hcov
  have hat : regionAt ⟨map, []⟩ (.map j) = some x := hx
  obtain ⟨hlt, rfl⟩ := List.getElem?_eq_some_iff.1 hb
  have hlen : buf.length = x.size.toNat := by
    obtain ⟨_, hbuf', hlen⟩ := hp.data
    rw [some.inj (hbuf.symm.trans hbuf'), hlen]
  have hnat : (BitVec.ofNat W i).toNat = i := by
    have := x.size.isLt
    exact Nat.mod_eq_of_lt (by omega)
  have hcovi : regionCovers x (BitVec.ofNat W i) 1 = true := by
    rw [regionCovers_one_iff hp.mask hp.below, MpuAddressRegionType.Has, hnat]
    omega
  have hidx : (BitVec.ofNat W i).toNat - x.start.toNat = i := by omega
  have hread := (h.selects hx hi hcovi q).getData8 (p := p) hbuf (by omega)
  simp only [hidx] at hread
  exact ⟨_, hread⟩

section
variable (h : PlainBelow map data.length) (hn : 0 < data.length) (hx : map[j]? = some x)
  (hcov : regionCovers x 0 1 = true)
include h hn hx hcov

theorem PlainBelow.binaryLoad_fits (hfits : data.length ≤ x.size.toNat) :
    ∃ s, binaryLoad data 0 ⟨⟨map, []⟩, p, q⟩ = some (.ok, s) ∧ ∀ i, (hi : i < data.length) →
      ∃ s', mpuGetData8 s (BitVec.ofNat W i) = some (.ok data[i].toNat, s') := by
  obtain ⟨buf, hbuf, hlen⟩ := (h.plain x (mem_of_getElem? hx) 0 hn hcov).data
  obtain ⟨buf', hwrite⟩ : ∃ buf', hostWrite buf 0 data = some buf' :=
    hostWrite_isSome_iff.2 (.inr ⟨le_refl _, by simpa [hlen] using hfits⟩)
  have h' := h.of_shape (modify_withData_shape hx hbuf (length_hostWrite hwrite))
  refine ⟨_, by rw [h.binaryLoad_eq hn hx hcov hbuf, hwrite, map_some], fun i hi => ?_⟩
  refine h'.getData8 hn (getElem?_modify_withData hx (some buf')).1 hcov rfl hi ?_
  rw [getElem?_hostWrite hwrite, if_pos ⟨Nat.zero_le _, by simpa using hi⟩, Int.toNat_zero, Nat.sub_zero,
    getElem?_eq_getElem hi]

theorem PlainBelow.binaryLoad_overflow (hbig : x.size.toNat < data.length) :
    binaryLoad data 0 ⟨⟨map, []⟩, p, q⟩ = none := by
  obtain ⟨buf, hbuf, hlen⟩ := (h.plain x (mem_of_getElem? hx) 0 hn hcov).data
  have hnone : hostWrite buf 0 data = none := by
    rw [hostWrite, if_neg (ne_nil_of_length_pos hn), if_neg (by simp [hlen]; omega)]
  rw [h.binaryLoad_eq hn hx hcov hbuf, hnone, map_none]

end

theorem binaryLoad_no_region (hnone : ∀ x ∈ map, regionCovers x 0 1 = false) (data : List UInt8) (p q : Int) :
    ∃ p', binaryLoad data 0 ⟨⟨map, []⟩, p, q⟩ = some (.segv, ⟨⟨map, []⟩, p', q⟩) := by
  have hsel : (searchRegion ⟨⟨map, []⟩, p, q⟩ (0 : AthrillAddrType W) 1).1 = none :=
    searchRegionFrom_eq_none hnone p
  refine ⟨(searchRegion ⟨⟨map, []⟩, p, q⟩ (0 : AthrillAddrType W) 1).2.previousIndex, ?_⟩
  rw [binaryLoad, mpuGetPointer, hsel]
  rfl

end

/-! ## Raw files -/

section
variable {map : List (MpuAddressRegionType W)} {c : MemmapConfig W} {data : List UInt8} {p q : Int}

theorem binaryStartOk_of_loaded {s : MpuState W} (hread : ∀ i, (hi : i < data.length) →
      ∃ s', mpuGetData8 s (BitVec.ofNat W i) = some (.ok data[i].toNat, s'))
    (hroom : ∃ x ∈ map, regionCovers x 0 1 = true ∧ data.length ≤ x.size.toNat) :
    BinaryStartOk map c data (some (.ok (), s)) where
  loaded := fun _ => ⟨s, rfl, hread⟩
  inside := by simp
  refused := fun _ _ h => absurd hroom h

theorem binaryStartOk_unchanged_iff (hn : 0 < data.length) (hnone : ∀ x ∈ map, regionCovers x 0 1 = false) :
    BinaryStartOk map c data (some (.ok (), ⟨⟨map, []⟩, p, q⟩)) ↔ ∀ e ∈ c.memory, ¬ e.Has 0 := by
  have hregion : ¬ ∃ x ∈ map, regionCovers x 0 1 = true := by
    rintro ⟨x, hx, hcov⟩
    exact Bool.false_ne_true ((hnone x hx).symm.trans hcov)
  constructor
  · intro hok e he hzero
    by_cases hcovers : ∃ e ∈ c.memory, ∀ i < data.length, e.Has i
    · -- the first byte of the file cannot even be read
      obtain ⟨s, hs, hread⟩ := hok.loaded hcovers
      obtain ⟨s', hget⟩ := hread 0 hn
      obtain rfl := congrArg Prod.snd (some.inj hs)
      rw [mpuGetData8, mpuGetData_of_not_covers hnone] at hget
      cases hget
    · have hroom : ¬ ∃ x ∈ map, regionCovers x 0 1 = true ∧ data.length ≤ x.size.toNat :=
        fun h => hregion (h.imp fun _ h => ⟨h.1, h.2.1⟩)
      obtain ⟨code, s, hs, -⟩ := hok.refused (.inl ⟨e, he, hzero⟩) hcovers hroom
      cases hs
  · intro hempty
    refine ⟨?_, by simp, ?_⟩
    · rintro ⟨e, he, hall⟩
      exact absurd (hall 0 hn) (hempty e he)
    · rintro (⟨e, he, hzero⟩ | h) _ _
      · exact absurd hzero (hempty e he)
      · exact absurd h hregion

end

/-- **What a start-up with a raw file does.** Over a target whose own regions at the addresses of the
file are plain memory without overlaps, it does what it is for exactly if one of these regions has room
for the file at address 0, or neither the target nor the configuration has a region there. -/
theorem binary_start_ok_iff {map : List (MpuAddressRegionType W)} {lines : List (MemmapLine W)}
    {c : MemmapConfig W} (hlines : cpuemuLoadMemmap lines = .ok c) {data : List UInt8}
    (hn : 0 < data.length) (hmap : PlainBelow map data.length) (p q : Int) :
    BinaryStartOk map c data (mainBinary lines data ⟨⟨map, []⟩, p, q⟩) ↔
      (∃ x ∈ map, regionCovers x 0 1 = true ∧ data.length ≤ x.size.toNat) ∨
        (∀ x ∈ map, regionCovers x 0 1 = false) ∧ ∀ e ∈ c.memory, ¬ e.Has 0 := by
  have hmain : mainBinary lines data ⟨⟨map, []⟩, p, q⟩ =
      (binaryLoad data 0 ⟨⟨map, []⟩, p, q⟩).map fun r => (.ok (), r.2) := by
    rw [mainBinary, hlines]
  rw [hmain]
  by_cases hregion : ∃ x ∈ map, regionCovers x 0 1 = true
  · obtain ⟨x, hx, hcov⟩ := hregion
    obtain ⟨j, hj⟩ := mem_iff_getElem?.1 hx
    rw [or_iff_left fun h => Bool.false_ne_true ((h.1 x hx).symm.trans hcov)]
    by_cases hfits : data.length ≤ x.size.toNat
    · obtain ⟨s, hload, hread⟩ := hmap.binaryLoad_fits (p := p) (q := q) hn hj hcov hfits
      rw [hload, map_some]
      exact iff_of_true (binaryStartOk_of_loaded hread ⟨x, hx, hcov, hfits⟩) ⟨x, hx, hcov, hfits⟩
    · rw [hmap.binaryLoad_overflow hn hj hcov (by omega), map_none]
      refine iff_of_false (fun h => h.inside rfl) ?_
      rintro ⟨y, hy, hcovy, hfitsy⟩
      obtain ⟨k, hk⟩ := mem_iff_getElem?.1 hy
      obtain rfl := hmap.disjoint 0 hn hj hk hcov hcovy
      obtain rfl := some.inj (hj.symm.trans hk)
      exact hfits hfitsy
  · have hnone : ∀ x ∈ map, regionCovers x 0 1 = false := fun x hx =>
      Bool.eq_false_iff.2 fun hcov => hregion ⟨x, hx, hcov⟩
    obtain ⟨p', hload⟩ := binaryLoad_no_region hnone data p q
    rw [hload, map_some, binaryStartOk_unchanged_iff hn hnone,
      or_iff_right fun h => hregion (h.imp fun _ h => ⟨h.1, h.2.1⟩), and_iff_right hnone]

def ramAtZero : List (MemmapLine 32) := [.ram 0 1 none]

def targetRam (size : AthrillAddrType 32) : MpuAddressRegionType 32 :=
  romRamRegion (fun _ => 0) .ram 0 size none

theorem plainBelow_targetRam {size : AthrillAddrType 32} (n : Nat) : PlainBelow [targetRam size] n := by
  have hplain : PlainRegion (targetRam size) := by
    refine plainRegion_romRam ?_ (by decide) fun h => (by cases h)
    have := size.isLt
    simpa using this
  refine ⟨fun x hx _ _ _ => List.mem_singleton.1 hx ▸ hplain, fun _ _ {j k x y} hj hk _ _ => ?_⟩
  have hj' := (List.getElem?_eq_some_iff.1 hj).1
  have hk' := (List.getElem?_eq_some_iff.1 hk).1
  simp only [length_singleton, Nat.lt_one_iff] at hj' hk'
  rw [hj', hk']

theorem binary_start_ok_target : BinaryStartOk [targetRam 16]
    ⟨[], [memmapEntry .ram 0 1 none none], []⟩ [1, 2, 3]
    (mainBinary ramAtZero [1, 2, 3] ⟨⟨[targetRam 16], []⟩, -1, -1⟩) :=
  (binary_start_ok_iff rfl (by decide) (plainBelow_targetRam 3) (-1) (-1)).2
    (.inl ⟨_, .head _, by decide, by decide⟩)

/-- Without a region of the target the start-up goes on, but the file is not in the memory; with one of
two bytes it is written outside the buffer. -/
theorem binary_start_not_loaded : ∃ c s, cpuemuLoadMemmap ramAtZero = .ok c ∧
    (∃ e ∈ c.memory, ∀ i < 3, e.Has i) ∧
    mainBinary ramAtZero [1, 2, 3] ⟨⟨[], []⟩, -1, -1⟩ = some (.ok (), s) ∧
    mpuGetData8 s 0 = some (.error .segv, s) ∧
    mainBinary ramAtZero [1, 2, 3] ⟨⟨[targetRam 2], []⟩, -1, -1⟩ = none := by
  refine ⟨_, ⟨⟨[], []⟩, -1, -1⟩, rfl, ⟨_, .head _, fun i hi => ⟨Nat.zero_le _, ?_⟩⟩, rfl, rfl, rfl⟩
  exact Nat.lt_of_lt_of_le hi (by decide)

end Athrill
