import Athrill.Loader.Reload
import Athrill.Main.Memmap

/-!
# Virtual load addresses

A line of the memory configuration can have the flag `V`: segments of its region are to be loaded at their
virtual addresses instead of their physical ones. Main result: `documented_addresses_iff`.
-/

namespace Athrill

open List Option

variable {W : Nat}

/-! ## Calls of `load_segment` -/

section
variable {σ : Type} {loadSegment : SegmentCall → σ → Option (StdReturnType × σ)}

def logged (loadSegment : SegmentCall → σ → Option (StdReturnType × σ)) (c : SegmentCall)
    (s : σ × List SegmentCall) : Option (StdReturnType × σ × List SegmentCall) :=
  (loadSegment c s.1).map fun r => (r.1, r.2, s.2 ++ [c])

def ElfPhdr.callAt (p : ElfPhdr) (addr : Nat) : SegmentCall := ⟨p.offset, addr, p.filesz, p.memsz⟩

theorem loadLoop_logged {refused : ElfPhdr → Bool} {img : ElfImage} {h : ElfHeaderView} {is : List Nat}
    (hread : ∀ i ∈ is, elfPhdrAt img h i = .ok (phdrAt img h i)) {s s' : σ}
    (hload : loadLoop loadSegment refused img h is s = some (.ok, s')) (log : List SegmentCall) :
    loadLoop (logged loadSegment) refused img h is (s, log) = some (.ok, s',
      log ++ ((is.map (phdrAt img h)).filter (·.type == ptLoad)).map fun p => p.callAt p.paddr) := by
  induction is generalizing s log with
  | nil =>
    cases hload
    simp [loadLoop]
  | cons i is ih =>
    have ih := fun {s : σ} => ih (s := s) fun j hj => hread j (.tail _ hj)
    rw [loadLoop, hread i (.head _)] at hload ⊢
    dsimp only at hload ⊢
    by_cases htype : (phdrAt img h i).type = ptLoad
    · rw [if_neg (not_not.2 htype)] at hload ⊢
      rw [map_cons, filter_cons_of_pos (by simp [htype]), map_cons, append_cons]
      split_ifs at hload ⊢ with href
      · cases hload
      · unfold logged
        split at hload
        · cases hload
        · next s₁ hcall =>
          rw [hcall]
          exact ih hload _
        · next s₁ hcall =>
          rw [hcall]
          exact ih hload _
        · cases hload
    · rw [if_pos htype] at hload ⊢
      rw [map_cons, filter_cons_of_neg (by simp [htype])]
      exact ih hload log

end

def loadCalls (refused : ElfPhdr → Bool) (img : ElfImage) (memap : MemoryAddressMapType W)
    (s : MpuState W) : Option (List SegmentCall) :=
  (loadLoop
    (logged fun c => loadSegmentAt img c.offset c.loadAddr c.fileSize c.memorySize memap)
    refused img (headerAt img) (range (headerAt img).phnum) (s, [])).map (·.2.2)

def elfLoadCalls (junk : Nat → UInt8) (img : ElfImage) (memap : MemoryAddressMapType W)
    (s : MpuState W) : Option (List SegmentCall) :=
  (elfMapMemory junk memap s.addressMap).bind fun m =>
    loadCalls (elfRefused W (headerAt img)) img memap { s with addressMap := m }

def elfReloadCalls (img : ElfImage) (memap : MemoryAddressMapType W) (s : MpuState W) :
    Option (List SegmentCall) :=
  (clearRegions (memap.rom ++ memap.ram.filter (·.type != .malloc)) s).bind fun r =>
    loadCalls (fun _ => false) img memap r.2

section
variable {memap : MemoryAddressMapType W} {img : ElfImage} {machine : Nat}

theorem loadCalls_eq (hok : ImageOk img) {refused : ElfPhdr → Bool} {s s' : MpuState W}
    (hload : loadPrograms refused img (headerAt img) memap (range (headerAt img).phnum) s =
      some (.ok, s')) :
    loadCalls refused img memap s = some ((elfSegments img).map fun p => p.callAt p.paddr) := by
  rw [loadCalls, loadLoop_logged hok.elfPhdrAt_ok hload []]
  rfl

theorem elfLoadCalls_eq {junk : Nat → UInt8} {st st' : ElfLoaderState W} {entry : AthrillAddrType W}
    (hload : elfLoad machine junk img memap st = some (.ok entry, st')) :
    elfLoadCalls junk img memap st.mpu =
      some ((elfSegments img).map fun p => p.callAt p.paddr) := by
  obtain ⟨hok, -, hprog⟩ := elfLoad_ok hload
  rw [elfClassLoadProgram_eq] at hprog
  obtain ⟨m, hmap, hprog⟩ := bind_eq_some_iff.1 hprog
  rw [elfLoadCalls, hmap, bind_some, loadCalls_eq hok hprog]

theorem elfReloadCalls_eq (hok : ImageOk img) {ehdr : List UInt8}
    (hehdr : (img.memcpy 0 (ehdrSize (headerAt img).is64)).toOption = some ehdr)
    (hcheck : elfClassCheck machine (headerAt img) ehdr = true) {s s' : MpuState W}
    (hreload : elfReload machine img memap s = some (.ok, s')) :
    elfReloadCalls img memap s = some ((elfSegments img).map fun p => p.callAt p.paddr) := by
  rw [elfReload_eq hok hehdr hcheck] at hreload
  obtain ⟨⟨ret, s₁⟩, hclear, hprog⟩ := bind_eq_some_iff.1 hreload
  dsimp only at hprog
  split_ifs at hprog with hret
  · exact absurd (congrArg Prod.fst (some.inj hprog)) hret
  · rw [elfReloadCalls, hclear, bind_some, loadCalls_eq hok hprog]

end

/-! ## The documented addresses -/

section
variable (belongs : MemmapEntry W → ElfPhdr → Prop) (c : MemmapConfig W) (p : ElfPhdr)

/-- A region with `region_elf_load_from_vaddr` set has the segment. -/
def LoadedFromVaddr : Prop :=
  ∃ e ∈ c.rom ++ c.ram, e.regionElfLoadFromVaddr = true ∧ belongs e p

def DocumentedAddr (addr : Nat) : Prop :=
  (LoadedFromVaddr belongs c p → addr = p.vaddr) ∧ (¬ LoadedFromVaddr belongs c p → addr = p.paddr)

/-- Each segment is loaded at the address that the manual gives. -/
def DocumentedCalls (img : ElfImage) (calls : Option (List SegmentCall)) : Prop :=
  ∃ cs, calls = some cs ∧ List.Forall₂
    (fun p call => ∃ addr, DocumentedAddr belongs c p addr ∧ call = p.callAt addr) (elfSegments img) cs

end

theorem documentedCalls_paddr_iff {belongs : MemmapEntry W → ElfPhdr → Prop} {c : MemmapConfig W}
    {img : ElfImage} :
    DocumentedCalls belongs c img (some ((elfSegments img).map fun p => p.callAt p.paddr)) ↔
      ∀ p ∈ elfSegments img, LoadedFromVaddr belongs c p → p.vaddr = p.paddr := by
  have hcall : ∀ p : ElfPhdr,
      (∃ addr, DocumentedAddr belongs c p addr ∧ p.callAt p.paddr = p.callAt addr) ↔
        (LoadedFromVaddr belongs c p → p.vaddr = p.paddr) := by
    intro p
    constructor
    · rintro ⟨addr, haddr, heq⟩ hflag
      have := congrArg SegmentCall.loadAddr heq
      exact (haddr.1 hflag).symm.trans this.symm
    · exact fun h => ⟨p.paddr, ⟨fun hflag => (h hflag).symm, fun _ => rfl⟩, rfl⟩
  rw [DocumentedCalls]
  simp only [some.injEq, exists_eq_left', forall₂_map_right_iff, forall₂_same, hcall]

/-- **Where segments are loaded.** Whatever it means that a segment belongs to a region: after `elf_load`
has succeeded, it and every `elf_reload` that succeeds have loaded every segment at its documented
address exactly if every segment of a region with the flag `V` has the same virtual and physical
address. -/
theorem documented_addresses_iff (belongs : MemmapEntry W → ElfPhdr → Prop) (c : MemmapConfig W)
    {machine : Nat} {junk : Nat → UInt8} {img : ElfImage} {st st' : ElfLoaderState W}
    {entry : AthrillAddrType W}
    (hload : elfLoad machine junk img c.addressMap st = some (.ok entry, st')) :
    (DocumentedCalls belongs c img (elfLoadCalls junk img c.addressMap st.mpu) ∧
      ∀ s s', elfReload machine img c.addressMap s = some (.ok, s') →
        DocumentedCalls belongs c img (elfReloadCalls img c.addressMap s)) ↔
    ∀ p ∈ elfSegments img, LoadedFromVaddr belongs c p → p.vaddr = p.paddr := by
  obtain ⟨hok, ⟨ehdr, hehdr, hcheck⟩, -⟩ := elfLoad_ok hload
  rw [elfLoadCalls_eq hload, documentedCalls_paddr_iff]
  refine and_iff_left_of_imp fun haddr s s' hreload => ?_
  rw [elfReloadCalls_eq hok hehdr hcheck hreload, documentedCalls_paddr_iff]
  exact haddr

def vaddrLines : List (MemmapLine 32) := [.rom 0 1 none, .ram 0x1000 1 (some ['V'.toNat.toUInt8])]

def vaddrConfig : MemmapConfig 32 where
  rom := [memmapEntry .rom 0 1 none none]
  ram := [memmapEntry .ram 0x1000 1 none (some ['V'.toNat.toUInt8])]
  dev := []

example : cpuemuLoadMemmap vaddrLines = .ok vaddrConfig := rfl

theorem documented_addresses_equal : ∃ st, elfLoad 0 (fun _ => 7) ramImage vaddrConfig.addressMap
      ⟨⟨⟨[], []⟩, -1, -1⟩, .init⟩ = some (.ok 0, st) ∧
    LoadedFromVaddr (fun e p => p.Inside [e.toMemoryAddressType]) vaddrConfig ramSegment ∧
    DocumentedCalls (fun e p => p.Inside [e.toMemoryAddressType]) vaddrConfig ramImage
      (elfLoadCalls (fun _ => 7) ramImage vaddrConfig.addressMap ⟨⟨[], []⟩, -1, -1⟩) := by
  obtain ⟨st, hload⟩ : ∃ st, elfLoad 0 (fun _ => 7) ramImage vaddrConfig.addressMap
      ⟨⟨⟨[], []⟩, -1, -1⟩, .init⟩ = some (.ok 0, st) := ramImage_load
  have hsegs : elfSegments ramImage = [ramSegment] := by decide +kernel
  refine ⟨st, hload, ⟨_, .tail _ (.head _), rfl, by decide⟩, ?_⟩
  refine ((documented_addresses_iff _ vaddrConfig hload).2 fun p hp _ => ?_).1
  rw [hsegs, mem_singleton] at hp
  rw [hp]
  rfl

def vaddrImage : ElfImage := ⟨programElf32 ⟨⟨ptLoad, 221, 2, 4⟩, 0x1110, 0x1010⟩, by decide +kernel⟩

/-- Both loads leave its first byte at the physical address and nothing at the virtual one. -/
theorem vaddr_flag_ignored : ∃ c st s', cpuemuLoadMemmap vaddrLines = .ok c ∧
    LoadedFromVaddr (fun e p => e.Has p.vaddr ∧ e.Has p.paddr) c
      ⟨⟨ptLoad, 221, 2, 4⟩, 0x1110, 0x1010⟩ ∧
    elfLoad 0 (fun _ => 7) vaddrImage c.addressMap ⟨⟨⟨[], []⟩, -1, -1⟩, .init⟩ = some (.ok 0, st) ∧
    elfReload 0 vaddrImage c.addressMap st.mpu = some (.ok, s') ∧
    [st.mpu, s'].map (fun s => [0x1010, 0x1110].map fun a => (mpuGetData8 s a).map (·.1.toOption)) =
      [[some (some 1), some (some 0)], [some (some 1), some (some 0)]] := by
  have hrun : (elfLoad 0 (fun _ => 7) vaddrImage vaddrConfig.addressMap
      ⟨⟨⟨[], []⟩, -1, -1⟩, .init⟩).bind
      (fun r => (elfReload 0 vaddrImage vaddrConfig.addressMap r.2.mpu).map fun r' =>
        (r.1.toOption, r'.1, decide ([r.2.mpu, r'.2].map (fun s =>
          [0x1010, 0x1110].map fun a => (mpuGetData8 s a).map (·.1.toOption)) =
          [[some (some 1), some (some 0)], [some (some 1), some (some 0)]]))) =
      some (some 0, .ok, true) := by
    decide +kernel
  obtain ⟨⟨res, st⟩, hload, hrun⟩ := bind_eq_some_iff.1 hrun
  obtain ⟨⟨ret, s'⟩, hreload, hrun⟩ := map_eq_some_iff.1 hrun
  simp only [Prod.mk.injEq] at hrun
  obtain ⟨hres, rfl, hreads⟩ := hrun
  refine ⟨vaddrConfig, st, s', rfl, ⟨_, .tail _ (.head _), rfl, ?_⟩, ?_, hreload,
    of_decide_eq_true hreads⟩
  · exact ⟨⟨by decide, by decide⟩, ⟨by decide, by decide⟩⟩
  · cases res with
    | error err => cases hres
    | ok entry => exact some.inj hres ▸ hload

end Athrill
