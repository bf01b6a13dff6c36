import Athrill.Mpu.Cells
import Athrill.Mpu.Window

/-!
# Ranges of host memory

`mpu_get_host_memory` gives a host pointer for a whole range of guest addresses.
-/

namespace Athrill

open Bytes Writes Option BitVec

variable {W : Nat}

def pointerRead (m : MpuAddressMapType W) (ref : MpuRegionRef) (off n : Nat) : Option (List UInt8) :=
  ((regionAt m ref).bind (·.data)).bind (hostRead · off n)

structure PlainRange (m : MpuAddressMapType W) (ref : MpuRegionRef) (region : MpuAddressRegionType W)
    (a n : Nat) : Prop where
  pointer : regionAt m ref = some region
  window : isMemoryWindow region = true
  low : region.start.toNat ≤ a
  high : a + n ≤ region.start.toNat + region.size.toNat
  below : region.start.toNat + region.size.toNat < 2 ^ W

def WindowBuffersFit (m : MpuAddressMapType W) : Prop :=
  ∀ ref region, regionAt m ref = some region → isMemoryWindow region = true →
    ∀ buf, region.data = some buf → buf.length = region.size.toNat

section
variable {m m' : MpuAddressMapType W} {ref : MpuRegionRef} {region : MpuAddressRegionType W}
  {a n : Nat}

theorem mask_of_isMemoryWindow (h : isMemoryWindow region = true) : region.mask = allOnes W := by
  simp only [isMemoryWindow, Bool.and_eq_true, beq_iff_eq] at h
  exact h.1.2

theorem PlainRange.buffer (h : PlainRange m ref region a n) (hfit : WindowBuffersFit m) :
    ∃ buf, (regionAt m ref).bind (·.data) = some buf ∧ a - region.start.toNat + n ≤ buf.length := by
  have hwindow := h.window
  simp only [isMemoryWindow, Bool.and_eq_true] at hwindow
  obtain ⟨buf, hbuf⟩ := isSome_iff_exists.1 hwindow.1.1.1
  have hlen := hfit ref region h.pointer h.window buf hbuf
  have hlow := h.low
  have hhigh := h.high
  exact ⟨buf, by rw [h.pointer, bind_some, hbuf], by omega⟩

theorem PlainRange.guestCell_eq (h : PlainRange m ref region a n) (hdisj : m.DisjointRegions)
    {x : AthrillAddrType W} (hlow : a ≤ x.toNat) (hhigh : x.toNat < a + n) :
    guestCell m x = some (ref, x.toNat - region.start.toNat) := by
  have hmask := mask_of_isMemoryWindow h.window
  have hrlow := h.low
  have hrhigh := h.high
  have hcov : regionCovers region x 1 = true :=
    (regionCovers_one_iff hmask h.below).2 ⟨by omega, by omega⟩
  rw [guestCell_of_covers hdisj h.pointer hcov, hmask, and_allOnes,
    toNat_sub_of_le (le_def.2 (by omega))]

theorem PlainRange.of_guestCell (h : PlainRange m ref region a n) {x : AthrillAddrType W}
    {c : HostCell} (hcell : guestCell m x = some c) (href : c.1 = ref) :
    region.start.toNat ≤ x.toNat ∧ c.2 = x.toNat - region.start.toNat := by
  obtain ⟨y, hy, hcov, hoff⟩ := region_of_guestCell hcell
  rw [href, h.pointer] at hy
  cases hy
  have hmask := mask_of_isMemoryWindow h.window
  have hhas := (regionCovers_one_iff hmask h.below).1 hcov
  refine ⟨hhas.1, ?_⟩
  rw [hoff, hmask, and_allOnes, toNat_sub_of_le (le_def.2 hhas.1)]

theorem plainRange_of_mpuGetHostMemory {s : MpuState W} {addr size : AthrillAddrType W} {write : Bool}
    {p : MpuRegionRef × Nat} (h : (mpuGetHostMemory s addr size write).1 = .ok (some p)) :
    ∃ region, PlainRange s.addressMap p.1 region addr.toNat size.toNat ∧
      p.2 = addr.toNat - region.start.toNat ∧ (write = true → region.type = .globalMemory) := by
  unfold mpuGetHostMemory at h
  split_ifs at h with hzero hwrap
  · cases h
  · dsimp only at h
    split at h
    · cases h
    · next ref hsel =>
      split at h
      · cases h
      · next region hregion =>
        split_ifs at h with hwin
        obtain rfl := some.inj (Except.ok.inj h)
        rw [Bool.and_eq_true] at hwin
        obtain ⟨hwindow, hwritable⟩ := hwin
        obtain ⟨x, hx, hcov⟩ := regionCovers_of_select hsel
        obtain rfl := some.inj (hx.symm.trans hregion)
        have hbelow := below_of_regionCovers hcov
        obtain ⟨hhas, -, hend⟩ := (regionCovers_iff (mask_of_isMemoryWindow hwindow) hbelow).1 hcov
        -- the end of the access does not wrap either
        have hnowrap : (addr + size).toNat = addr.toNat + size.toNat := by
          rw [lt_def] at hwrap
          have hcases := toNat_add_cases addr size
          have hsize := size.isLt
          omega
        refine ⟨x, ⟨hx, hwindow, hhas.1, by omega, hbelow⟩,
          toNat_sub_of_le (le_def.2 hhas.1), ?_⟩
        rintro rfl
        simpa using hwritable

theorem mpuGetHostMemory_eq_null {s : MpuState W} {addr size : AthrillAddrType W} {write : Bool}
    (h : (mpuGetHostMemory s addr size write).1 = .ok none) : size = 0 := by
  unfold mpuGetHostMemory at h
  split_ifs at h with hzero hwrap
  · exact hzero
  · dsimp only at h
    split at h
    · cases h
    · split at h
      · cases h
      · split_ifs at h
        cases h

/-! ## Copies -/

structure ReadsRange (m : MpuAddressMapType W) (a : Nat) (bytes : List UInt8) : Prop where
  guest : ∀ x : AthrillAddrType W, a ≤ x.toNat → x.toNat < a + bytes.length →
    guestByte m x = bytes[x.toNat - a]?
  region : bytes ≠ [] → ∃ ref region, PlainRange m ref region a bytes.length

structure WritesRange (m m' : MpuAddressMapType W) (a : Nat) (bytes : List UInt8) : Prop where
  guest : ∀ x : AthrillAddrType W, guestByte m' x =
    if a ≤ x.toNat ∧ x.toNat < a + bytes.length then bytes[x.toNat - a]? else guestByte m x
  region : bytes ≠ [] → ∃ ref region, PlainRange m ref region a bytes.length ∧
    region.type = .globalMemory ∧
    cellByte m' = apply (cellByte m) (cellWrites ref (a - region.start.toNat) bytes)
  shape : m'.shape = m.shape
  nil : bytes = [] → m' = m

theorem readsRange_nil : ReadsRange m a [] :=
  ⟨fun x hlow hhigh => absurd hhigh (by simpa using hlow), fun h => absurd rfl h⟩

theorem writesRange_nil : WritesRange m m a [] where
  guest x := by rw [if_neg (by simp)]
  region h := absurd rfl h
  shape := rfl
  nil _ := rfl

theorem PlainRange.pointerRead (h : PlainRange m ref region a n) (hdisj : m.DisjointRegions)
    (hfit : WindowBuffersFit m) :
    ∃ bytes, pointerRead m ref (a - region.start.toNat) n = some bytes ∧ bytes.length = n ∧
      ReadsRange m a bytes := by
  obtain ⟨buf, hbuf, hin⟩ := h.buffer hfit
  have hlow := h.low
  refine ⟨slice buf (a - region.start.toNat) n, ?_, length_slice hin, ⟨?_, ?_⟩⟩
  · rw [Athrill.pointerRead, hbuf, bind_some, hostRead, if_pos hin]
  · intro x hxlow hxhigh
    rw [length_slice hin] at hxhigh
    have hcell : cellByte m (ref, x.toNat - region.start.toNat) = buf[x.toNat - region.start.toNat]? := by
      rw [cellByte, hbuf, bind_some]
    have hoff : a - region.start.toNat + (x.toNat - a) = x.toNat - region.start.toNat := by omega
    rw [guestByte, h.guestCell_eq hdisj hxlow hxhigh, bind_some, hcell,
      getElem?_slice (by omega), hoff]
  · intro _
    exact ⟨ref, region, by rwa [length_slice hin]⟩

theorem PlainRange.pointerWrite {bytes : List UInt8} (h : PlainRange m ref region a bytes.length)
    (hglobal : region.type = .globalMemory) (hdisj : m.DisjointRegions) (hfit : WindowBuffersFit m)
    (hne : bytes ≠ []) :
    ∃ m', pointerWrite m ref (a - region.start.toNat : Nat) bytes = some m' ∧
      WritesRange m m' a bytes := by
  obtain ⟨buf, hbuf, hin⟩ := h.buffer hfit
  obtain ⟨buf', hwrite⟩ := (@hostWrite_isSome_iff buf (a - region.start.toNat : Nat) bytes).2
    (.inr ⟨by omega, by omega⟩)
  have hput : Athrill.pointerWrite m ref (a - region.start.toNat : Nat) bytes =
      some (setRegionData m ref buf') := by
    unfold Athrill.pointerWrite
    rw [hbuf]
    simp only [hwrite, map_some]
  have hshape := pointerWrite_shape hput
  have hcells := cellByte_pointerWrite hput
  refine ⟨_, hput, ⟨fun x => ?_, fun _ => ⟨ref, region, h, hglobal, hcells⟩, hshape,
    fun hnil => absurd hnil hne⟩⟩
  have hlow := h.low
  rw [guestByte, guestCell_congr hshape, hcells]
  split_ifs with hx
  · have hsome : x.toNat - region.start.toNat - (a - region.start.toNat) = x.toNat - a := by omega
    have hlt : x.toNat - a < bytes.length := by omega
    rw [h.guestCell_eq hdisj hx.1 hx.2, bind_some, apply, last_cellWrites,
      if_pos ⟨rfl, by omega⟩, hsome, List.getElem?_eq_getElem hlt, some_or]
  · cases hcell : guestCell m x with
    | none => rw [guestByte, hcell]; rfl
    | some c =>
      have hlast : last c (cellWrites ref (a - region.start.toNat) bytes) = none := by
        rw [last_cellWrites]
        split_ifs with hc
        · obtain ⟨hxlow, hoff⟩ := h.of_guestCell hcell hc.1
          exact List.getElem?_eq_none (by omega)
        · rfl
      rw [guestByte, hcell, bind_some, bind_some, apply, hlast, none_or]

end

/-! ## Maps of one shape -/

theorem WindowBuffersFit.of_shape {m m' : MpuAddressMapType W} (hshape : m'.shape = m.shape)
    (h : WindowBuffersFit m) : WindowBuffersFit m' := by
  intro ref region' hregion' hwindow' buf' hbuf'
  obtain ⟨region, hr, hfields⟩ := exists_regionAt_of_shape hshape hregion'
  obtain ⟨htype, -, -, hsize, hmask, hops, hlen⟩ := MpuAddressRegionType.fields_of_shape hfields
  rw [hbuf'] at hlen
  obtain ⟨buf, hbuf, hbuflen⟩ := map_eq_some_iff.1 hlen.symm
  have hwindow : isMemoryWindow region = true := by
    simp only [isMemoryWindow, hbuf', htype, hmask, hops, isSome_some] at hwindow'
    simpa only [isMemoryWindow, hbuf, isSome_some] using hwindow'
  rw [hsize, ← h ref region hr hwindow buf hbuf, hbuflen]

end Athrill
