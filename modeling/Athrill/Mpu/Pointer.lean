import Athrill.Mpu.Search

/-!
# Host pointers into regions

`mpu_get_pointer` gives the host address behind a guest address, without a size.
-/

namespace Athrill

open List MemoSearch Option MpuAddressRegionType

variable {W : Nat}

section
variable (m : MpuAddressMapType W)

def regionAt : MpuRegionRef → Option (MpuAddressRegionType W)
  | .dynamicMap i => m.dynamicMap[i]?
  | .map i => m.map[i]?

def pointerInRegion (addr : AthrillAddrType W) :
    Option MpuRegionRef → Except StdReturnType (MpuRegionRef × Int)
  | none => .error .segv
  | some ref =>
    match regionAt m ref with
    | none => .error .segv
    | some region =>
      match region.ops.getPointer with
      | none => .error .invalid
      | some getPointer =>
        match getPointer region.start (addr &&& region.mask) with
        | .error err => .error err
        | .ok off => .ok (ref, off)

def mpuGetPointer (s : MpuState W) (addr : AthrillAddrType W) :
    Except StdReturnType (MpuRegionRef × Int) × MpuState W :=
  let r := searchRegion s addr 1
  (pointerInRegion s.addressMap addr r.1, r.2)

def hostWrite (buf : HostBuffer) (off : Int) (bytes : List UInt8) : Option HostBuffer :=
  if bytes = [] then some buf
  else if 0 ≤ off ∧ off.toNat + bytes.length ≤ buf.length then
    some (buf.take off.toNat ++ bytes ++ buf.drop (off.toNat + bytes.length))
  else none

def MpuAddressRegionType.withData (region : MpuAddressRegionType W) (data : Option HostBuffer) :
    MpuAddressRegionType W := { region with data := data }

def setRegionData (ref : MpuRegionRef) (buf : HostBuffer) : MpuAddressMapType W :=
  match ref with
  | .dynamicMap i => { m with dynamicMap := m.dynamicMap.modify i (·.withData (some buf)) }
  | .map i => { m with map := m.map.modify i (·.withData (some buf)) }

def pointerWrite (ref : MpuRegionRef) (off : Int) (bytes : List UInt8) : Option (MpuAddressMapType W) :=
  match (regionAt m ref).bind (·.data) with
  | none => none
  | some buf => (hostWrite buf off bytes).map (setRegionData m ref)

/-! ## The shape of a map -/

def MpuAddressRegionType.shape (region : MpuAddressRegionType W) : MpuAddressRegionType W :=
  region.withData (region.data.map fun buf => replicate buf.length 0)

def MpuAddressMapType.shape : MpuAddressMapType W :=
  ⟨m.map.map (·.shape), m.dynamicMap.map (·.shape)⟩

@[simp] theorem regionCovers_shape (region : MpuAddressRegionType W)
    (addr size : AthrillAddrType W) : regionCovers region.shape addr size =
      regionCovers region addr size := rfl

@[simp] theorem isSome_data_shape (region : MpuAddressRegionType W) :
    region.shape.data.isSome = region.data.isSome := by
  simp [shape, withData]

theorem MpuAddressRegionType.fields_of_shape {region region' : MpuAddressRegionType W}
    (h : region'.shape = region.shape) :
    region'.type = region.type ∧ region'.isMalloc = region.isMalloc ∧ region'.start = region.start ∧
      region'.size = region.size ∧ region'.mask = region.mask ∧ region'.ops = region.ops ∧
      region'.data.map length = region.data.map length := by
  have hfield : ∀ {β : Type} (f : MpuAddressRegionType W → β), (∀ r, f r.shape = f r) →
      f region' = f region := fun f hf => by rw [← hf region', h, hf]
  refine ⟨hfield type fun _ => rfl, hfield isMalloc fun _ => rfl, hfield start fun _ => rfl,
    hfield size fun _ => rfl, hfield mask fun _ => rfl, hfield ops fun _ => rfl,
    hfield (fun r => r.data.map length) fun r => ?_⟩
  simp [shape, withData, Function.comp_def]

theorem regionAt_shape (ref : MpuRegionRef) : regionAt m.shape ref = (regionAt m ref).map (·.shape) := by
  cases ref <;> simp [regionAt, MpuAddressMapType.shape]

theorem searchRegionFrom_shape (previous : Int) (addr size : AthrillAddrType W) :
    searchRegionFrom m.shape previous addr size = searchRegionFrom m previous addr size := by
  have hfind : ∀ xs : List (MpuAddressRegionType W),
      (xs.map (·.shape)).findIdx? (regionCovers · addr size) =
        xs.findIdx? (regionCovers · addr size) := by
    intro xs
    rw [findIdx?_map]
    rfl
  have hprev : previousRegionCovers m.shape previous addr size =
      previousRegionCovers m previous addr size := by
    simp only [previousRegionCovers, MpuAddressMapType.shape, length_map, getElem?_map]
    split_ifs
    · rfl
    · cases m.dynamicMap[previous.toNat]? with
      | none => rfl
      | some region =>
        simp only [Option.map_some, regionCovers_shape, ← Option.not_isSome, isSome_data_shape]
  have hany : ∀ i : Nat, ((m.dynamicMap.map (·.shape))[i]?).any hasData =
      (m.dynamicMap[i]?).any hasData := by
    intro i
    rw [getElem?_map]
    cases m.dynamicMap[i]? <;> simp
  unfold searchRegionFrom
  rw [hprev]
  simp only [MpuAddressMapType.shape, hfind, hany]

end

theorem searchRegionFrom_congr {m m' : MpuAddressMapType W} (h : m'.shape = m.shape)
    (previous : Int) (addr size : AthrillAddrType W) :
    searchRegionFrom m' previous addr size = searchRegionFrom m previous addr size := by
  rw [← searchRegionFrom_shape m', h, searchRegionFrom_shape]

theorem length_hostWrite {buf buf' : HostBuffer} {off : Int} {bytes : List UInt8}
    (h : hostWrite buf off bytes = some buf') : buf'.length = buf.length := by
  unfold hostWrite at h
  split_ifs at h with hnil hin
  · exact congrArg length (Option.some.inj h).symm
  · cases h
    simp only [length_append, length_take, length_drop]
    omega

theorem hostWrite_isSome_iff {buf : HostBuffer} {off : Int} {bytes : List UInt8} :
    (∃ buf', hostWrite buf off bytes = some buf') ↔
      bytes = [] ∨ 0 ≤ off ∧ off + bytes.length ≤ buf.length := by
  unfold hostWrite
  by_cases hnil : bytes = []
  · simp [hnil]
  · simp only [hnil, if_false, false_or]
    split_ifs with hin
    · exact ⟨fun _ => ⟨hin.1, by omega⟩, fun _ => ⟨_, rfl⟩⟩
    · simp only [exists_false, false_iff]
      exact fun h => hin ⟨h.1, by omega⟩

theorem setRegionData_shape {m : MpuAddressMapType W} {ref : MpuRegionRef}
    {buf buf' : HostBuffer} (hbuf : (regionAt m ref).bind (·.data) = some buf)
    (hlen : buf'.length = buf.length) : (setRegionData m ref buf').shape = m.shape := by
  have hmod : ∀ (xs : List (MpuAddressRegionType W)) (i : Nat),
      (xs[i]?).bind (·.data) = some buf →
      (xs.modify i (·.withData (some buf'))).map (·.shape) = xs.map (·.shape) := by
    intro xs i hx
    apply ext_getElem?
    intro j
    simp only [getElem?_map, getElem?_modify]
    by_cases hij : i = j
    · subst hij
      obtain ⟨region, hregion, hdata⟩ := Option.bind_eq_some_iff.1 hx
      simp [hregion, shape, withData, hdata, hlen]
    · simp [hij]
  cases ref with
  | dynamicMap i => simp only [setRegionData, MpuAddressMapType.shape, hmod _ _ hbuf]
  | map i => simp only [setRegionData, MpuAddressMapType.shape, hmod _ _ hbuf]

theorem regionAt_setRegionData {m : MpuAddressMapType W} {ref : MpuRegionRef}
    {region : MpuAddressRegionType W} (hregion : regionAt m ref = some region) (buf : HostBuffer)
    (ref' : MpuRegionRef) : regionAt (setRegionData m ref buf) ref' =
      if ref' = ref then some (region.withData (some buf)) else regionAt m ref' := by
  cases ref <;> cases ref' <;>
    simp only [setRegionData, regionAt, getElem?_modify, MpuRegionRef.dynamicMap.injEq,
      MpuRegionRef.map.injEq, reduceCtorEq, if_false] at hregion ⊢
  all_goals
    split_ifs with h h'
    · subst h
      simp_all
    · exact absurd h.symm h'
    · exact absurd (Eq.symm ‹_›) h
    · simp

theorem pointerWrite_shape {m m' : MpuAddressMapType W} {ref : MpuRegionRef} {off : Int}
    {bytes : List UInt8} (h : pointerWrite m ref off bytes = some m') : m'.shape = m.shape := by
  unfold pointerWrite at h
  cases hbuf : (regionAt m ref).bind (·.data) with
  | none => rw [hbuf] at h; cases h
  | some buf =>
    rw [hbuf] at h
    obtain ⟨buf', hwrite, rfl⟩ := Option.map_eq_some_iff.1 h
    exact setRegionData_shape hbuf (length_hostWrite hwrite)

/-! ## Regions that a search can prefer -/

/-- A search can select the first region although the second one covers the access, too. -/
def Shadows (m : MpuAddressMapType W) : MpuRegionRef → MpuRegionRef → Prop
  | .dynamicMap i, .dynamicMap j => i < j ∨ i ≠ j ∧ (m.dynamicMap[i]?).any hasData = true
  | .dynamicMap _, .map _ => True
  | .map _, .dynamicMap _ => False
  | .map i, .map j => i < j

theorem Shadows.ne {m : MpuAddressMapType W} {ref ref' : MpuRegionRef} (h : Shadows m ref ref') :
    ref ≠ ref' := by
  rintro rfl
  cases ref with
  | dynamicMap i => exact h.elim (Nat.lt_irrefl i) fun h => h.1 rfl
  | map i => exact Nat.lt_irrefl i h

section
variable {m : MpuAddressMapType W} {ref : MpuRegionRef} {region : MpuAddressRegionType W}
  {addr n : AthrillAddrType W} (hregion : regionAt m ref = some region)
  (hdata : region.data.isSome = true) (hcov : regionCovers region addr n = true)
include hregion hdata hcov

theorem searchRegionFrom_of_not_shadowed
    (hnot : ∀ ref' x, Shadows m ref' ref → regionAt m ref' = some x → regionCovers x addr n = false)
    (previous : Int) : (searchRegionFrom m previous addr n).1 = some ref := by
  rw [(searchRegionFrom_eq m previous addr n).1]
  cases ref with
  | dynamicMap j =>
    refine ofOutcome_eq_dynamicMap.2 (search_eq_found hregion hdata hcov ?_ ?_ _)
    · exact fun i hi x hx => hnot (.dynamicMap i) x (.inl hi) hx
    · intro i x hx hlive hxcov
      by_contra hne
      have := hnot (.dynamicMap i) x (.inr ⟨hne, by rw [hx]; exact hlive⟩) hx
      exact absurd hxcov (by simp [coversAccess, this])
  | map j =>
    have habsent : ∀ x ∈ m.dynamicMap, coversAccess x (addr, n) = false := by
      intro x hx
      obtain ⟨i, hi⟩ := mem_iff_getElem?.1 hx
      exact hnot (.dynamicMap i) x trivial hi
    have hfind : m.map.findIdx? (regionCovers · addr n) = some j :=
      findIdx?_regionCovers_eq_some.2
        ⟨⟨region, hregion, hcov⟩, fun i hi x hx => hnot (.map i) x hi hx⟩
    rw [search_eq_absent habsent, ofOutcome, hfind]
    rfl

theorem searchRegionFrom_of_only
    (honly : ∀ ref' x, regionAt m ref' = some x → regionCovers x addr n = true → ref' = ref)
    (previous : Int) : (searchRegionFrom m previous addr n).1 = some ref := by
  refine searchRegionFrom_of_not_shadowed hregion hdata hcov (fun ref' x hsh hx => ?_) previous
  exact Bool.eq_false_iff.2 fun hxcov => hsh.ne (honly ref' x hx hxcov)

end

theorem exists_regionAt_of_shape {m m' : MpuAddressMapType W} {ref : MpuRegionRef}
    (h : m'.shape = m.shape) {x' : MpuAddressRegionType W} (hx' : regionAt m' ref = some x') :
    ∃ x, regionAt m ref = some x ∧ x'.shape = x.shape := by
  have hmap := regionAt_shape m' ref
  rw [h, regionAt_shape m ref, hx', map_some] at hmap
  obtain ⟨x, hx, hs⟩ := map_eq_some_iff.1 hmap
  exact ⟨x, hx, hs.symm⟩

theorem bind_regionAt_congr {m m' : MpuAddressMapType W} (h : m'.shape = m.shape) {β : Type}
    {f : MpuAddressRegionType W → Option β} (hf : ∀ region, f region.shape = f region)
    (ref : MpuRegionRef) : (regionAt m' ref).bind f = (regionAt m ref).bind f := by
  have hshape : ∀ m : MpuAddressMapType W, (regionAt m.shape ref).bind f = (regionAt m ref).bind f := by
    intro m
    rw [regionAt_shape, bind_map]
    exact congrArg _ (funext hf)
  rw [← hshape, h, hshape]

theorem regionCovers_of_shape {x x' : MpuAddressRegionType W} (h : x'.shape = x.shape)
    (addr n : AthrillAddrType W) : regionCovers x' addr n = regionCovers x addr n := by
  rw [← regionCovers_shape x', h, regionCovers_shape]

end Athrill
