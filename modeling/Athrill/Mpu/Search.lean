import Athrill.Lib.MemoSearch
import Athrill.Mpu.Map

/-!
# Which region an access selects

Each search of the bus is a first-match search with a memo (`Athrill.Lib.MemoSearch`) over the dynamic
regions, followed by the regions of the target. Main result: `search_region_refines_unoptimized_iff`.
-/

namespace Athrill

open Machine MemoSearch

variable {W : Nat}

/-! ## The searches as memo searches -/

def coversAccess (region : MpuAddressRegionType W) (k : AthrillAddrType W × AthrillAddrType W) :
    Bool :=
  regionCovers region k.1 k.2

theorem findIdx?_regionCovers_eq_some {rs : List (MpuAddressRegionType W)}
    {addr n : AthrillAddrType W} {i : Nat} :
    rs.findIdx? (regionCovers · addr n) = some i ↔
      (∃ x, rs[i]? = some x ∧ regionCovers x addr n = true) ∧
      ∀ j < i, ∀ y, rs[j]? = some y → regionCovers y addr n = false :=
  @findIdx?_covers_eq_some _ _ coversAccess rs (addr, n) i

abbrev hasData (region : MpuAddressRegionType W) : Bool := region.data.isSome

def memoOf (previous : Int) : Option Nat := if previous < 0 then none else some previous.toNat

@[simp] theorem memoOf_natCast (i : Nat) : memoOf (i : Int) = some i := by
  simp [memoOf]

def ofOutcome (m : MpuAddressMapType W) (addr size : AthrillAddrType W) :
    Outcome → Option MpuRegionRef
  | .found i => some (.dynamicMap i)
  | .dead => none
  | .absent => (m.map.findIdx? (regionCovers · addr size)).map .map

variable {m : MpuAddressMapType W} {region : MpuAddressRegionType W}

theorem ofOutcome_eq_dynamicMap {addr size : AthrillAddrType W} {o : Outcome} {i : Nat} :
    ofOutcome m addr size o = some (.dynamicMap i) ↔ o = .found i := by
  cases o <;> simp [ofOutcome]

section
variable (m : MpuAddressMapType W) (previous : Int) (addr size : AthrillAddrType W)

theorem previousRegionCovers_eq :
    previousRegionCovers m previous addr size =
      memoHit coversAccess hasData m.dynamicMap (memoOf previous) (addr, size) := by
  unfold previousRegionCovers memoHit memoOf
  by_cases hneg : previous < 0
  · simp [hneg]
  by_cases hlen : m.dynamicMap.length ≤ previous.toNat
  · simp [hneg, hlen, Option.filter]
  · have hlt : previous.toNat < m.dynamicMap.length := by omega
    simp only [hneg, hlen, or_self, if_false, List.getElem?_eq_getElem hlt, Option.filter_some,
      Option.any_some, hasData, coversAccess]
    cases (m.dynamicMap[previous.toNat]).data <;>
      cases regionCovers (m.dynamicMap[previous.toNat]) addr size <;> rfl

theorem searchRegionUnoptimized_eq :
    searchRegionUnoptimized m addr size =
      ofOutcome m addr size (firstMatch coversAccess hasData m.dynamicMap (addr, size)) := by
  simp only [searchRegionUnoptimized, firstMatch, coversAccess]
  cases m.dynamicMap.findIdx? (regionCovers · addr size) with
  | none => rfl
  | some i =>
    by_cases hlive : (m.dynamicMap[i]?).any hasData = true
    · simp only [if_pos hlive, ofOutcome]
    · simp only [if_neg hlive, ofOutcome]

theorem searchRegionFrom_eq :
    (searchRegionFrom m previous addr size).1 = ofOutcome m addr size
        (search coversAccess hasData m.dynamicMap (memoOf previous) (addr, size)).1 ∧
      memoOf (searchRegionFrom m previous addr size).2 =
        (search coversAccess hasData m.dynamicMap (memoOf previous) (addr, size)).2 := by
  unfold searchRegionFrom search
  rw [previousRegionCovers_eq]
  cases memoHit coversAccess hasData m.dynamicMap (memoOf previous) (addr, size) with
  | some i => exact ⟨rfl, rfl⟩
  | none =>
    simp only [firstMatch, coversAccess]
    cases m.dynamicMap.findIdx? (regionCovers · addr size) with
    | none => exact ⟨rfl, rfl⟩
    | some i =>
      by_cases hlive : (m.dynamicMap[i]?).any hasData = true
      · simp only [if_pos hlive, ofOutcome, memoOf_natCast, and_self]
      · simp only [if_neg hlive, ofOutcome, and_self]

theorem searchRegionFrom_eq_unoptimized_iff :
    (searchRegionFrom m previous addr size).1 = searchRegionUnoptimized m addr size ↔
      (search coversAccess hasData m.dynamicMap (memoOf previous) (addr, size)).1 =
        firstMatch coversAccess hasData m.dynamicMap (addr, size) := by
  rw [(searchRegionFrom_eq m previous addr size).1, searchRegionUnoptimized_eq]
  refine ⟨fun h => ?_, fun h => by rw [h]⟩
  cases hm : memoHit coversAccess hasData m.dynamicMap (memoOf previous) (addr, size) with
  | none => exact search_of_memoHit_none hm
  | some i =>
    rw [search_of_memoHit hm] at h ⊢
    exact (ofOutcome_eq_dynamicMap.1 h.symm).symm

/-! ## Maps that the build functions make -/

def Built : Prop :=
  ∀ (j : Nat) (y : MpuAddressRegionType W), m.dynamicMap[j]? = some y →
    y.mask = BitVec.allOnes W ∧
    ∀ i < j, ∀ x, m.dynamicMap[i]? = some x → regionCovers x y.start y.size = false

end

theorem Built.append (h : Built m) (hmask : region.mask = BitVec.allOnes W)
    (hnone : mpuAddressSearchRegion m region.start region.size = none) :
    Built (m.addRegion region) := by
  have hfree : ∀ x ∈ m.dynamicMap, regionCovers x region.start region.size = false := by
    simpa [mpuAddressSearchRegion, List.findIdx?_eq_none_iff] using hnone
  rw [MpuAddressMapType.addRegion]
  intro j y hy
  have hold : ∀ {i : Nat} {x}, i < m.dynamicMap.length →
      (m.dynamicMap ++ [region])[i]? = some x → m.dynamicMap[i]? = some x := by
    intro i x hi hx
    rwa [List.getElem?_append_left hi] at hx
  rcases Nat.lt_trichotomy j m.dynamicMap.length with hj | hj | hj
  · obtain ⟨hmask', hlow⟩ := h j y (hold hj hy)
    exact ⟨hmask', fun i hi x hx => hlow i hi x (hold (Nat.lt_trans hi hj) hx)⟩
  · subst hj
    obtain rfl : region = y := by simpa using hy
    exact ⟨hmask, fun i hi x hx => hfree x (List.mem_of_getElem? (hold hi hx))⟩
  · have : (m.dynamicMap ++ [region])[j]? = none := by simp; omega
    rw [this] at hy
    cases hy

theorem Built.mallocData (h : Built m) (junk : Nat → UInt8) (l : Nat) :
    Built (mpuMallocRegionData junk m l) := by
  -- every region of the new map has the range and mask of the old one at its index
  have hold : ∀ {i : Nat} {x}, (mpuMallocRegionData junk m l).dynamicMap[i]? = some x →
      ∃ x', m.dynamicMap[i]? = some x' ∧ x.start = x'.start ∧ x.size = x'.size ∧
        x.mask = x'.mask := by
    intro i x hx
    simp only [mpuMallocRegionData, List.getElem?_modify] at hx
    obtain ⟨x', hx', rfl⟩ := Option.map_eq_some_iff.1 hx
    exact ⟨x', hx', by split_ifs <;> exact ⟨rfl, rfl, rfl⟩⟩
  intro j y hy
  obtain ⟨y', hy', hstart, hsize, hmask⟩ := hold hy
  obtain ⟨hmask', hlow⟩ := h j y' hy'
  refine ⟨hmask.trans hmask', fun i hi x hx => ?_⟩
  obtain ⟨x', hx', hstart', hsize', hmask''⟩ := hold hx
  have := hlow i hi x' hx'
  simpa only [regionCovers, hstart, hsize, hstart', hsize', hmask''] using this

@[simp] theorem mpuAccess_addressMap (s : MpuState W) (a : MpuAccess W) :
    (mpuAccess s a).2.addressMap = s.addressMap := by
  cases a <;> rfl

@[simp] theorem mpuAccesses_addressMap (as : List (MpuAccess W)) (s : MpuState W) :
    (mpuAccesses s as).addressMap = s.addressMap := by
  induction as generalizing s with
  | nil => rfl
  | cons a as ih => rw [mpuAccesses, ih, mpuAccess_addressMap]

theorem Built.step {s s' : MpuState W} {e : MpuEvent W} {out : Option MpuRegionRef}
    (h : Built s.addressMap) (hstep : mpuStep s e = some (s', out)) : Built s'.addressMap := by
  cases e with
  | setRomRam junk getType addr size mmapAddr =>
    obtain ⟨⟨m', buf⟩, hset, heq⟩ := Option.map_eq_some_iff.1 hstep
    cases heq
    rcases mpuAddressSetRomRam_cases hset with ⟨-, rfl⟩ | ⟨hnone, rfl⟩
    · exact h
    · exact h.append rfl hnone
  | setDev addr size exdev =>
    cases hstep
    show Built (mpuAddressSetDev s.addressMap addr size exdev).1
    rcases mpuAddressSetDev_cases s.addressMap addr size exdev with heq | ⟨dev, hnone, heq⟩
    · rwa [heq]
    · rw [heq]
      exact h.append rfl hnone
  | mallocData junk i =>
    cases hstep
    exact h.mallocData junk i
  | access a =>
    cases hstep
    rwa [mpuAccess_addressMap]

theorem built_of_run {map : List (MpuAddressRegionType W)} {es : List (MpuEvent W)}
    {s : MpuState W} {outs : List (Option MpuRegionRef)}
    (hrun : run mpuStep (.init map) es = some (s, outs)) : Built s.addressMap :=
  run_invariant (fun s => Built s.addressMap) (fun _ _ _ _ => Built.step) es
    (fun _ _ hy => by simp [MpuState.init] at hy) hrun

/-! ## When the memo is invisible -/

theorem regionCovers_own {addr size : AthrillAddrType W}
    (hmask : region.mask = BitVec.allOnes W) (h : regionCovers region addr size = true) :
    regionCovers region region.start region.size = true := by
  simp only [regionCovers, hmask, BitVec.and_allOnes, Bool.and_eq_true, decide_eq_true_eq] at h ⊢
  have hlt : region.start < region.start + region.size := lt_of_le_of_lt h.1.1 h.1.2
  exact ⟨⟨le_refl _, hlt⟩, hlt, le_refl _⟩

theorem toNat_one_of_regionCovers {addr : AthrillAddrType W}
    (h : regionCovers region addr 1 = true) : (1 : BitVec W).toNat = 1 := by
  cases W with
  | zero =>
    simp only [regionCovers, Bool.and_eq_true, decide_eq_true_eq] at h
    have hlt := h.1.2
    rw [BitVec.lt_def] at hlt
    exact absurd (region.start + region.size).isLt (by omega)
  | succ W => simp

theorem searchRegionFrom_eq_unoptimized (h : Separated coversAccess hasData m.dynamicMap) (previous : Int)
    (addr size : AthrillAddrType W) :
    (searchRegionFrom m previous addr size).1 = searchRegionUnoptimized m addr size :=
  (searchRegionFrom_eq_unoptimized_iff m previous addr size).2 (search_eq_firstMatch h _ _)

theorem separated_of_searchRegion_eq {s : MpuState W} (hbuilt : Built s.addressMap)
    (h : ∀ as addr size, (searchRegion (mpuAccesses s as) addr size).1 =
      searchRegionUnoptimized s.addressMap addr size) :
    Separated coversAccess hasData s.addressMap.dynamicMap := by
  have hsearch : ∀ as addr size,
      (search coversAccess hasData s.addressMap.dynamicMap
          (memoOf (mpuAccesses s as).previousIndex) (addr, size)).1 =
        firstMatch coversAccess hasData s.addressMap.dynamicMap (addr, size) := by
    intro as addr size
    have := h as addr size
    rw [searchRegion, mpuAccesses_addressMap] at this
    exact (searchRegionFrom_eq_unoptimized_iff _ _ _ _).1 this
  intro i j x y hij hx hy hlive k hcov
  obtain ⟨hmask, hlow⟩ := hbuilt j y hy
  have hown : coversAccess y (y.start, y.size) = true := regionCovers_own hmask hcov.2
  rcases search_ne_firstMatch (memoOf s.previousIndex) hij hx hy hlive hcov hown
      fun l hl z hz => hlow l hl z hz with hne | hne
  · exact hne (hsearch [] y.start y.size)
  · -- the access to the later region leaves its index in the memo
    have := hsearch [.write y.start y.size] k.1 k.2
    simp only [mpuAccesses, mpuAccess, searchRegion, (searchRegionFrom_eq _ _ _ _).2] at this
    exact hne this

/-- **When the optimised searches are the plain one.** In every state of the bus, the two searches
select, after every further history of accesses, the region of the search without memo, and a read
goes to the region of the write before it, exactly when no access is covered by a region that has a
buffer and by an earlier region. -/
theorem search_region_refines_unoptimized_iff {map : List (MpuAddressRegionType W)}
    {es : List (MpuEvent W)} {s : MpuState W} {outs : List (Option MpuRegionRef)}
    (hrun : run mpuStep (.init map) es = some (s, outs)) :
    (∀ (as : List (MpuAccess W)) (addr size : AthrillAddrType W),
      (searchRegion (mpuAccesses s as) addr size).1 =
        searchRegionUnoptimized s.addressMap addr size ∧
      (searchRegionR (mpuAccesses s as) addr size).1 =
        searchRegionUnoptimized s.addressMap addr size ∧
      ∀ r, (searchRegion (mpuAccesses s as) addr size).1 = some r →
        (searchRegionR (searchRegion (mpuAccesses s as) addr size).2 addr size).1 = some r) ↔
    ∀ (i j : Nat) (x y : MpuAddressRegionType W), i < j →
      s.addressMap.dynamicMap[i]? = some x → s.addressMap.dynamicMap[j]? = some y →
      y.data.isSome = true →
      ∀ addr size, ¬ (regionCovers x addr size = true ∧ regionCovers y addr size = true) := by
  constructor
  · intro h i j x y hij hx hy hlive addr size
    exact separated_of_searchRegion_eq (built_of_run hrun) (fun as addr size => (h as addr size).1)
      i j x y hij hx hy hlive (addr, size)
  · intro h as addr size
    have hsep : Separated coversAccess hasData s.addressMap.dynamicMap :=
      fun i j x y hij hx hy hlive k => h i j x y hij hx hy hlive k.1 k.2
    simp only [searchRegion, searchRegionR, mpuAccesses_addressMap,
      searchRegionFrom_eq_unoptimized hsep, true_and]
    exact fun _ hr => hr

def addRam (addr size : AthrillAddrType 32) : MpuEvent 32 := .setRomRam (fun _ => 0) .ram addr size none

theorem search_region_refines_unoptimized_adjacent :
    ∃ s outs, run mpuStep (.init []) [addRam 0x1000 0x1000, addRam 0x2000 0x1000] = some (s, outs) ∧
      ∀ (as : List (MpuAccess 32)) (addr size : AthrillAddrType 32),
        (searchRegion (mpuAccesses s as) addr size).1 =
          searchRegionUnoptimized s.addressMap addr size ∧
        (searchRegionR (mpuAccesses s as) addr size).1 =
          searchRegionUnoptimized s.addressMap addr size ∧
        ∀ r, (searchRegion (mpuAccesses s as) addr size).1 = some r →
          (searchRegionR (searchRegion (mpuAccesses s as) addr size).2 addr size).1 = some r := by
  have hrun : run mpuStep (.init []) [addRam 0x1000 0x1000, addRam 0x2000 0x1000] =
      some (⟨⟨[], [romRamRegion (fun _ => 0) .ram 0x1000 0x1000 none,
        romRamRegion (fun _ => 0) .ram 0x2000 0x1000 none]⟩, -1, -1⟩, [none, none]) := rfl
  refine ⟨_, _, hrun, (search_region_refines_unoptimized_iff hrun).2 ?_⟩
  intro i j x y hij hx hy _ addr size ⟨hcx, hcy⟩
  obtain ⟨rfl, rfl⟩ : i = 0 ∧ j = 1 := by
    have hlen := (List.getElem?_eq_some_iff.1 hy).1
    simp only [List.length_cons, List.length_nil] at hlen
    omega
  cases hx
  cases hy
  simp only [regionCovers, romRamRegion, BitVec.and_allOnes, Bool.and_eq_true,
    decide_eq_true_eq] at hcx hcy
  exact lt_irrefl _ (lt_of_lt_of_le hcx.1.2 hcy.1.1)

/-- A RAM region added after one that it encloses. A write at 0 remembers the enclosing region; the
write at 0x1000 then goes to it, while the search without memo, and the read that follows, select the
enclosed one. -/
theorem search_region_memo_shows :
    (run mpuStep (.init [])
        [addRam 0x1000 0x1000, addRam 0 0x3000, .access (.write 0 4), .access (.write 0x1000 4),
          .access (.read 0x1000 4)]).map
        (fun r => (r.2, searchRegionUnoptimized r.1.addressMap 0x1000 4)) =
      some ([none, none, some (.dynamicMap 1), some (.dynamicMap 1), some (.dynamicMap 0)],
        some (.dynamicMap 0)) := by
  decide +kernel

end Athrill
