import Athrill.Mpu.Plain

/-!
# Memory windows

`mpu_get_memory_window` gives a target the buffer of a region, and the target may keep it. Main result:
`memory_window_agrees`.
-/

namespace Athrill

open Bytes Machine MemoSearch List Option

variable {W : Nat}

/-! ## Regions that the search can prefer -/

variable {ref : MpuRegionRef} {s s' : MpuState W} {addr : AthrillAddrType W} {m : MpuAddressMapType W}
  {region : MpuAddressRegionType W} {buf : HostBuffer}

/-- No region that is searched before `ref` covers the address. -/
def NotShadowed (m : MpuAddressMapType W) (ref : MpuRegionRef) (addr : AthrillAddrType W) : Prop :=
  ∀ ref' x, Shadows m ref' ref → regionAt m ref' = some x → regionCovers x addr 1 = false

theorem NotShadowed.of_shape {m m' : MpuAddressMapType W} (hshape : m'.shape = m.shape)
    (h : NotShadowed m ref addr) :
    NotShadowed m' ref addr := by
  have hlive : ∀ i : Nat, (m'.dynamicMap[i]?).any hasData = true →
      (m.dynamicMap[i]?).any hasData = true := by
    intro i hi
    obtain ⟨x', hx', hdata⟩ := (any_eq_true _ _).1 hi
    have hat : regionAt m' (.dynamicMap i) = some x' := hx'
    obtain ⟨x, hx, hs⟩ := exists_regionAt_of_shape hshape hat
    refine (any_eq_true _ _).2 ⟨x, hx, ?_⟩
    rw [hasData, ← isSome_data_shape, ← hs, isSome_data_shape]
    exact hdata
  intro ref' x' hshadow' hx'
  obtain ⟨x, hx, hxs⟩ := exists_regionAt_of_shape hshape hx'
  have hshadow : Shadows m ref' ref := by
    cases ref' with
    | dynamicMap i =>
      cases ref with
      | dynamicMap j => exact hshadow'.imp_right fun hne => ⟨hne.1, hlive i hne.2⟩
      | map j => trivial
    | map i =>
      cases ref with
      | dynamicMap j => exact hshadow'
      | map j => exact hshadow'
  rw [regionCovers_of_shape hxs]
  exact h ref' x hshadow hx

/-! ## Histories -/

theorem mpuGetData_addressMap {w : BusWidth}
    {r : Except StdReturnType Nat} (h : mpuGetData w s addr = some (r, s')) :
    s'.addressMap = s.addressMap := by
  unfold mpuGetData at h
  dsimp only at h
  split at h
  · cases h
    rfl
  · split at h
    · cases h
    · obtain ⟨data, -, heq⟩ := map_eq_some_iff.1 h
      cases heq
      rfl

theorem mpuPutData_shape {w : BusWidth} {data : BitVec (8 * w.bytes)} {ret : StdReturnType}
    (h : mpuPutData w s addr data = some (ret, s')) :
    s'.addressMap.shape = s.addressMap.shape := by
  unfold mpuPutData at h
  dsimp only at h
  split at h
  · cases h
    rfl
  · split at h
    · cases h
      rfl
    · split_ifs at h
      · cases h
        rfl
      · split at h
        · cases h
        · obtain ⟨m, hm, heq⟩ := map_eq_some_iff.1 h
          cases heq
          exact pointerWrite_shape hm

theorem busStep_shape {e : BusAccess W} {o : BusAnswer}
    (h : busStep s e = some (s', o)) : s'.addressMap.shape = s.addressMap.shape := by
  cases e with
  | getData w addr =>
    obtain ⟨⟨r, s₁⟩, hget, heq⟩ := map_eq_some_iff.1 h
    cases heq
    exact congrArg MpuAddressMapType.shape (mpuGetData_addressMap hget)
  | putData w addr data =>
    obtain ⟨⟨r, s₁⟩, hput, heq⟩ := map_eq_some_iff.1 h
    cases heq
    exact mpuPutData_shape hput
  | getPointer addr =>
    cases h
    rfl
  | getMemoryWindow addr =>
    cases h
    rw [mpuGetMemoryWindow_addressMap]
  | getHostMemory addr size write =>
    cases h
    rw [mpuGetHostMemory_addressMap]

theorem run_busStep_shape {es : List (BusAccess W)} {os : List BusAnswer}
    (h : run busStep s es = some (s', os)) : s'.addressMap.shape = s.addressMap.shape :=
  run_invariant (fun t => t.addressMap.shape = s.addressMap.shape)
    (fun _ _ _ _ hinv hstep => (busStep_shape hstep).trans hinv) es rfl h

/-! ## Windows -/

def BuffersFit (m : MpuAddressMapType W) : Prop :=
  ∀ ref region, regionAt m ref = some region → ∀ buf, region.data = some buf →
    buf.length = region.size.toNat

/-- A byte read or written on the bus is the byte of the window, and writes fail if it is not writable. -/
def WindowAgrees (s : MpuState W) (w : MemoryWindow W) (addr : AthrillAddrType W) : Prop :=
  ∃ buf, (regionAt s.addressMap w.data).bind (·.data) = some buf ∧
    addr.toNat - w.start.toNat < buf.length ∧
    (∃ s', mpuGetData8 s addr =
      some (.ok (buf.getD (addr.toNat - w.start.toNat) 0).toNat, s')) ∧
    ∀ data, ∃ ret s', mpuPutData8 s addr data = some (ret, s') ∧ (ret = .ok ↔ w.writable = true) ∧
      (regionAt s'.addressMap w.data).bind (·.data) =
        some (if w.writable then buf.set (addr.toNat - w.start.toNat) (UInt8.ofNat data.toNat)
          else buf)

theorem mpuGetMemoryWindow_eq_ok {s : MpuState W} {w : MemoryWindow W}
    (h : (mpuGetMemoryWindow s addr).1 = .ok w) :
    ∃ region buf, (searchRegion s addr 1).1 = some w.data ∧
      regionAt s.addressMap w.data = some region ∧ region.data = some buf ∧
      region.ops = defaultMemoryOperation ∧ region.mask = BitVec.allOnes W ∧
      (region.type = .globalMemory ∨ region.type = .readonlyMemory) ∧ w.start = region.start ∧
      w.size = region.size ∧ w.writable = (region.type == .globalMemory) := by
  unfold mpuGetMemoryWindow at h
  dsimp only at h
  split at h
  · cases h
  · next ref hsel =>
    split at h
    · cases h
    · next region hregion =>
      split_ifs at h with hwin
      cases h
      simp only [isMemoryWindow, Bool.and_eq_true, Bool.or_eq_true, beq_iff_eq] at hwin
      obtain ⟨⟨⟨hdata, hops⟩, hmask⟩, htype⟩ := hwin
      obtain ⟨buf, hbuf⟩ := isSome_iff_exists.1 hdata
      refine ⟨region, buf, hsel, hregion, hbuf, ?_, hmask, htype, rfl, rfl, rfl⟩
      cases hopsEq : region.ops with
      | defaultMemory => rfl
      | device g => rw [hopsEq] at hops; cases hops

theorem regionCovers_of_select {previous : Int} {addr n : AthrillAddrType W}
    (h : (searchRegionFrom m previous addr n).1 = some ref) :
    ∃ region, regionAt m ref = some region ∧ regionCovers region addr n = true := by
  rw [(searchRegionFrom_eq m previous addr n).1] at h
  cases ref with
  | dynamicMap i =>
    obtain ⟨x, hx, -, hcov⟩ := covers_of_search (ofOutcome_eq_dynamicMap.1 h)
    exact ⟨x, hx, hcov⟩
  | map i =>
    cases ho : (search coversAccess hasData m.dynamicMap (memoOf previous) (addr, n)).1 with
    | found j => rw [ho] at h; cases h
    | dead => rw [ho] at h; cases h
    | absent =>
      rw [ho] at h
      obtain ⟨j, hj, heq⟩ := map_eq_some_iff.1 h
      obtain rfl := MpuRegionRef.map.inj heq
      exact (findIdx?_regionCovers_eq_some.1 hj).1

theorem hostWrite_singleton {off : Nat} (h : off < buf.length) (b : UInt8) :
    hostWrite buf off [b] = some (buf.set off b) := by
  rw [hostWrite, if_neg (by simp), if_pos (by simp; omega), set_eq_take_append_cons_drop,
    if_pos h]
  simp

theorem windowAgrees_of_notShadowed {s : MpuState W} {w : MemoryWindow W}
    (hregion : regionAt s.addressMap w.data = some region) (hplain : PlainRegion region)
    (hstart : w.start = region.start) (hwritable : w.writable = (region.type == .globalMemory))
    {a : AthrillAddrType W} (ha : region.Has a.toNat) (hshadow : NotShadowed s.addressMap w.data a) :
    WindowAgrees s w a := by
  obtain ⟨buf, hbuf, hlen⟩ := hplain.data
  have hcov : regionCovers region a 1 = true := (regionCovers_one_iff hplain.mask hplain.below).2 ha
  have hsel : ∀ previous, Selects s.addressMap previous a 1 w.data region := fun previous =>
    hplain.selects hcov
      (searchRegionFrom_of_not_shadowed hregion hplain.hasData hcov hshadow previous) hregion
  have hlow := ha.1
  have hhigh := ha.2
  have hin : a.toNat - region.start.toNat < buf.length := by omega
  have hdata : (regionAt s.addressMap w.data).bind (·.data) = some buf := by
    rw [hregion, bind_some, hbuf]
  obtain ⟨m, p, q⟩ := s
  refine ⟨buf, hdata, by rw [hstart]; exact hin,
    ⟨(searchRegionR ⟨m, p, q⟩ a 1).2, ?_⟩, fun data => ?_⟩
  · rw [(hsel q).getData8 hbuf hin, hstart,
      getD_eq_getElem?_getD, getElem?_eq_getElem hin, getD_some]
  · rw [(hsel p).putData8 hbuf, hostWrite_singleton hin, hstart]
    rcases hplain.type with htype | htype
    · have hw : w.writable = true := by rw [hwritable, htype]; rfl
      rw [if_neg (by rw [htype]; decide), hw]
      exact ⟨_, _, rfl, by simp, by rw [regionAt_setRegionData hregion, if_pos rfl]; rfl⟩
    · have hw : w.writable = false := by rw [hwritable, htype]; rfl
      rw [if_pos htype, hw]
      exact ⟨_, _, rfl, by simp, hdata⟩

/-! ## Maps that `mpu_address_set_rom_ram` builds -/

def IsSetRomRam : MpuEvent W → Prop
  | .setRomRam _ _ _ size mmapAddr => ∀ file, mmapAddr = some file → file.length = size.toNat
  | _ => False

theorem length_data_romRamRegion {junk : Nat → UInt8} {getType : MpuAddressGetType}
    {addr size : AthrillAddrType W} {mmapAddr : Option HostBuffer}
    (hmmap : ∀ file, mmapAddr = some file → file.length = size.toNat)
    (h : (romRamRegion junk getType addr size mmapAddr).data = some buf) :
    buf.length = size.toNat := by
  cases getType with
  | rom =>
    cases h
    exact length_hostMalloc junk _
  | ram =>
    cases h
    exact length_hostCalloc _
  | mmap => exact hmmap buf h
  | malloc => cases h

theorem BuffersFit.setRomRam {e : MpuEvent W} {out : Option MpuRegionRef}
    (h : BuffersFit s.addressMap) (he : IsSetRomRam e) (hstep : mpuStep s e = some (s', out)) :
    BuffersFit s'.addressMap := by
  cases e with
  | setRomRam junk getType addr size mmapAddr =>
    obtain ⟨⟨m', buf⟩, hset, heq⟩ := map_eq_some_iff.1 hstep
    cases heq
    rcases mpuAddressSetRomRam_cases hset with ⟨-, rfl⟩ | ⟨-, rfl⟩
    · exact h
    · intro ref region hregion buf hbuf
      cases ref with
      | map i => exact h (.map i) region hregion buf hbuf
      | dynamicMap i =>
        have hi : (s.addressMap.dynamicMap ++
            [romRamRegion junk getType addr size mmapAddr])[i]? = some region := hregion
        rw [getElem?_append] at hi
        split_ifs at hi with hlt
        · exact h (.dynamicMap i) region hi buf hbuf
        · obtain rfl := mem_singleton.1 (mem_of_getElem? hi)
          exact length_data_romRamRegion he hbuf
  | setDev addr size exdev => exact he.elim
  | mallocData junk i => exact he.elim
  | access a => exact he.elim

theorem BuffersFit.of_shape {m m' : MpuAddressMapType W} (hshape : m'.shape = m.shape)
    (h : BuffersFit m) : BuffersFit m' := by
  intro ref region' hregion' buf' hbuf'
  obtain ⟨region, hregion, hs⟩ := exists_regionAt_of_shape hshape hregion'
  obtain ⟨-, -, -, hsize, -, -, hlen⟩ := MpuAddressRegionType.fields_of_shape hs
  rw [hbuf'] at hlen
  obtain ⟨buf, hbuf, hbuflen⟩ := map_eq_some_iff.1 hlen.symm
  rw [hsize, ← h ref region hregion buf hbuf, hbuflen]

/-- **Memory windows.** Take any map that `mpu_address_set_rom_ram` makes of a target's regions, and any
history of accesses. If `mpu_get_memory_window` then gives a window, the bus and the window agree after
every further history, at every address of the window that no region the search can prefer covers. -/
theorem memory_window_agrees {map : List (MpuAddressRegionType W)}
    (hmap : BuffersFit ⟨map, []⟩) {calls : List (MpuEvent W)} (hcalls : ∀ e ∈ calls, IsSetRomRam e)
    {s₀ s s' : MpuState W} {outs : List (Option MpuRegionRef)}
    (hbuild : run mpuStep (.init map) calls = some (s₀, outs)) {es es' : List (BusAccess W)}
    {os os' : List BusAnswer} (hrun : run busStep s₀ es = some (s, os)) {addr : AthrillAddrType W}
    {w : MemoryWindow W} (hwin : (mpuGetMemoryWindow s addr).1 = .ok w)
    (hrun' : run busStep (mpuGetMemoryWindow s addr).2 es' = some (s', os')) {a : AthrillAddrType W}
    (hlow : w.start.toNat ≤ a.toNat) (hhigh : a.toNat < w.start.toNat + w.size.toNat)
    (hshadow : NotShadowed s.addressMap w.data a) :
    WindowAgrees s' w a := by
  have hfit₀ : BuffersFit s₀.addressMap :=
    run_invariant_of_stepsMeet (fun t : MpuState W => BuffersFit t.addressMap)
      (fun _ _ _ _ hinv he hstep => hinv.setRomRam he hstep) calls hmap
      (stepsMeet_of_forall_mem hcalls _) hbuild
  have hshape : s'.addressMap.shape = s.addressMap.shape := by
    rw [run_busStep_shape hrun', mpuGetMemoryWindow_addressMap]
  obtain ⟨region, buf, hsel, hregion, hbuf, hops, hmask, htype, hstart, hsize, hwritable⟩ :=
    mpuGetMemoryWindow_eq_ok hwin
  obtain ⟨_, hregion₂, hcov⟩ := regionCovers_of_select hsel
  obtain rfl := some.inj (hregion.symm.trans hregion₂)
  have hlen : buf.length = region.size.toNat :=
    hfit₀.of_shape (run_busStep_shape hrun) _ _ hregion _ hbuf
  have hplain : PlainRegion region :=
    ⟨hmask, hops, htype, ⟨buf, hbuf, hlen⟩, below_of_regionCovers hcov⟩
  obtain ⟨region', hregion', hs⟩ := exists_regionAt_of_shape hshape.symm hregion
  obtain ⟨ht, -, hst, -⟩ := MpuAddressRegionType.fields_of_shape hs
  rw [hstart, hsize] at hhigh
  rw [hstart] at hlow
  exact windowAgrees_of_notShadowed hregion' (hplain.of_shape hs.symm) (hstart.trans hst)
    (ht ▸ hwritable) ((MpuAddressRegionType.has_of_shape hs.symm).2 ⟨hlow, hhigh⟩)
    (hshadow.of_shape hshape)

theorem memory_window_agrees_rom_ram :
    ∃ (s₀ s' : MpuState 32) (w : MemoryWindow 32) (os : List BusAnswer),
      run mpuStep (.init []) [.setRomRam (fun _ => 0) .rom 0 4 none,
        .setRomRam (fun _ => 0) .ram 4 4 none] = some (s₀, [none, none]) ∧
      (mpuGetMemoryWindow s₀ 4).1 = .ok w ∧
      run busStep (mpuGetMemoryWindow s₀ 4).2 [.putData .data8 6 7] = some (s', os) ∧
      WindowAgrees s' w 6 := by
  have hbuild : run mpuStep (.init []) [.setRomRam (fun _ => 0) .rom 0 4 none,
      .setRomRam (fun _ => 0) .ram 4 4 none] =
      some ((⟨⟨[], [romRamRegion (fun _ => 0) .rom 0 4 none,
        romRamRegion (fun _ => 0) .ram 4 4 none]⟩, -1, -1⟩ : MpuState 32), [none, none]) := rfl
  have hcalls : ∀ e ∈ [MpuEvent.setRomRam (W := 32) (fun _ => 0) .rom 0 4 none,
      .setRomRam (fun _ => 0) .ram 4 4 none], IsSetRomRam e := by
    intro e he
    rcases mem_pair.1 he with rfl | rfl
    · rintro file ⟨⟩
    · rintro file ⟨⟩
  have hwin : (mpuGetMemoryWindow (⟨⟨[], [romRamRegion (fun _ => 0) .rom 0 4 none,
      romRamRegion (fun _ => 0) .ram 4 4 none]⟩, -1, -1⟩ : MpuState 32) 4).1 =
      .ok ⟨4, 4, .dynamicMap 1, true⟩ := rfl
  obtain ⟨s', os, hrun⟩ : ∃ s' os, run busStep (mpuGetMemoryWindow (⟨⟨[],
      [romRamRegion (fun _ => 0) .rom 0 4 none, romRamRegion (fun _ => 0) .ram 4 4 none]⟩, -1, -1⟩ :
      MpuState 32) 4).2 [.putData .data8 6 7] = some (s', os) := ⟨_, _, rfl⟩
  refine ⟨_, s', _, os, hbuild, hwin, hrun, memory_window_agrees (fun ref region hregion => ?_)
    hcalls hbuild (run_nil _ _) hwin hrun (by decide) (by decide) fun ref x hs hx => ?_⟩
  · cases ref with
    | dynamicMap i => cases hregion
    | map i => cases hregion
  · match ref, hs, hx with
    | .dynamicMap 0, _, hx =>
      cases hx
      decide
    | .dynamicMap 1, hs, _ => simp [Shadows] at hs

/-- RAM at [4, 8) and RAM at [0, 16): a window at 0 is the second, which the write memo then keeps; the
byte written at 4 goes there, and the read memo selects the first. -/
theorem memory_window_overlap_disagrees :
    ∃ (s₀ s' : MpuState 32) (w : MemoryWindow 32) (os : List BusAnswer),
      run mpuStep (.init []) [.setRomRam (fun _ => 0) .ram 4 4 none,
        .setRomRam (fun _ => 0) .ram 0 16 none] = some (s₀, [none, none]) ∧
      (mpuGetMemoryWindow s₀ 0).1 = .ok w ∧
      run busStep (mpuGetMemoryWindow s₀ 0).2 [.putData .data8 4 7] = some (s', os) ∧
      w.start.toNat ≤ (4 : BitVec 32).toNat ∧ (4 : BitVec 32).toNat < w.start.toNat + w.size.toNat ∧
      ¬ WindowAgrees s' w 4 := by
  refine ⟨_, _, _, _, rfl, rfl, rfl, by decide, by decide, ?_⟩
  rintro ⟨buf, hbuf, -, ⟨t, hget⟩, -⟩
  cases hbuf
  have hread := (Prod.mk.inj (some.inj hget)).1
  exact absurd hread (by decide)

end Athrill
