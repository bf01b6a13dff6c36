import Athrill.Peripheral.Syscall

/-!
# What the parts of a syscall handler do

The rules of the primitives that the handlers are made of.
-/

namespace Athrill

open Bytes StateExcept List Option SyscallState

variable {W : Nat}

/-! ## The argument block -/

def SyscallState.field (s : SyscallState W) (arg : GuestPointer W) (off : Nat) : BitVec 32 :=
  BitVec.ofNat 32 (leValue (s.bytes arg off 4))

def ArgInside (s : SyscallState W) (arg : GuestPointer W) : Prop :=
  (s.access arg 0 syscallArgSize).Inside

/-! ## States that differ in contents -/

structure Alike (s s' : SyscallState W) : Prop where
  shape : s'.heap.bus.addressMap.shape = s.heap.bus.addressMap.shape
  previous : s'.heap.bus.previousIndex = s.heap.bus.previousIndex

theorem pointerInRegion_shape (m : MpuAddressMapType W) (addr : AthrillAddrType W)
    (r : Option MpuRegionRef) : pointerInRegion m.shape addr r = pointerInRegion m addr r := by
  cases r with
  | none => rfl
  | some ref =>
    simp only [pointerInRegion, regionAt_shape]
    cases regionAt m ref with
    | none => rfl
    | some region => rfl

section
variable {s s' : SyscallState W} {p q : GuestPointer W} {off n k : Nat} {bytes : List UInt8}
  {addr : BitVec 32}

theorem Alike.search (h : Alike s s') (a size : AthrillAddrType W) :
    searchRegionFrom s'.heap.bus.addressMap s'.heap.bus.previousIndex a size =
      searchRegionFrom s.heap.bus.addressMap s.heap.bus.previousIndex a size := by
  rw [h.previous, searchRegionFrom_congr h.shape]

theorem Alike.lookup (h : Alike s s') (addr : BitVec 32) : s'.lookup addr = s.lookup addr := by
  simp only [SyscallState.lookup, mpuGetPointer, searchRegion, h.search]
  rw [← pointerInRegion_shape, h.shape, pointerInRegion_shape]

theorem Alike.regionOf (h : Alike s s') (p : GuestPointer W) :
    (s'.regionOf p).map (·.shape) = (s.regionOf p).map (·.shape) := by
  cases hp : p.ref with
  | none => simp only [SyscallState.regionOf, hp, bind_none, map_none]
  | some ref => simp only [SyscallState.regionOf, hp, bind_some, ← regionAt_shape, h.shape]

theorem RegionAccess.inside_shape (a : RegionAccess W) :
    (⟨a.addr, a.region.map (·.shape), a.off, a.len⟩ : RegionAccess W).Inside ↔ a.Inside := by
  unfold RegionAccess.Inside
  cases a.region with
  | none => simp
  | some region =>
    cases hdata : region.data with
    | none => simp [MpuAddressRegionType.shape, MpuAddressRegionType.withData, hdata]
    | some buf =>
      simp only [map_some, mem_def, some.injEq, exists_eq_left',
        MpuAddressRegionType.shape, MpuAddressRegionType.withData, hdata, length_replicate]
      rfl

theorem Alike.inside_iff (h : Alike s s') :
    (s'.access p off n).Inside ↔ (s.access p off n).Inside := by
  rw [← RegionAccess.inside_shape, ← RegionAccess.inside_shape (s.access p off n)]
  simp only [access, h.regionOf]

theorem alike_written (s : SyscallState W) (p : GuestPointer W) (off : Nat) (bytes : List UInt8) :
    Alike s (s.written p off bytes) := by
  refine ⟨?_, rfl⟩
  show ((p.ref.bind fun ref => pointerWrite s.heap.bus.addressMap ref (p.off + off) bytes).getD
    s.heap.bus.addressMap).shape = _
  cases hw : p.ref.bind fun ref => pointerWrite s.heap.bus.addressMap ref (p.off + off) bytes with
  | none => rfl
  | some m =>
    obtain ⟨ref, -, hm⟩ := bind_eq_some_iff.1 hw
    exact pointerWrite_shape hm

@[simp] theorem inside_written :
    ((s.written q k bytes).access p off n).Inside ↔ (s.access p off n).Inside :=
  (alike_written s q k bytes).inside_iff

@[simp] theorem lookup_written : (s.written q k bytes).lookup addr = s.lookup addr :=
  (alike_written s q k bytes).lookup addr

theorem lookupUnchecked_of_ok {a : BitVec 32} {p : GuestPointer W} (hp : s.lookup a = .ok p) :
    s.lookupUnchecked a = p := by
  rw [lookupUnchecked, hp]

@[simp] theorem access_looked : (s.looked addr).access p off n = s.access p off n := rfl

@[simp] theorem field_looked : (s.looked addr).field p off = s.field p off := rfl

@[simp] theorem string_looked : (s.looked addr).string p = s.string p := rfl

@[simp] theorem fileTop_looked {host : HostOs} : (s.looked addr).fileTop host = s.fileTop host := rfl

theorem inside_part (h : (s.access p 0 k).Inside) (hle : off + n ≤ k) : (s.access p off n).Inside := by
  rcases h with h | ⟨region, hregion, hcov, buf, hbuf, hlow, hhigh⟩
  · simp only [access] at h
    exact .inl (by simp only [access]; omega)
  · simp only [access] at hlow hhigh
    refine .inr ⟨region, hregion, hcov, buf, hbuf, ?_, ?_⟩ <;> simp only [access] <;> omega

variable {arg : GuestPointer W} {name : CString}

theorem ArgInside.access (h : ArgInside s arg) (hle : off + n ≤ syscallArgSize) :
    (s.access arg off n).Inside :=
  inside_part h hle

@[simp] theorem argInside_written :
    ArgInside (s.written q k bytes) arg ↔ ArgInside s arg := inside_written

@[simp] theorem argInside_looked :
    ArgInside (s.looked addr) arg ↔ ArgInside s arg := .rfl

@[simp] theorem argInside_setDir {i : Fin 10} {d : DirElement} :
    ArgInside (s.setDir i d) arg ↔ ArgInside s arg := .rfl

section
variable {arg : GuestPointer W} {i : Fin 10} {d : DirElement} {host : HostOs}

@[simp] theorem lookup_setDir : (s.setDir i d).lookup addr = s.lookup addr := rfl

@[simp] theorem field_setDir : (s.setDir i d).field p off = s.field p off := rfl

@[simp] theorem string_setDir : (s.setDir i d).string p = s.string p := rfl

@[simp] theorem fileTop_setDir : (s.setDir i d).fileTop host = s.fileTop host := rfl

end

/-! ## Contents -/

theorem getElem?_buffer_of_hostWrite {buf buf' : HostBuffer}
    (hdata : (s.regionOf p).bind (·.data) = some buf)
    (hwrite : hostWrite buf (p.off + off) bytes = some buf') :
    ((s.written p off bytes).buffer q)[k]? =
      if q.ref = p.ref ∧ (p.off + off).toNat ≤ k ∧ k < (p.off + off).toNat + bytes.length then
        bytes[k - (p.off + off).toNat]?
      else (s.buffer q)[k]? := by
  obtain ⟨region, hregion, hbuf⟩ := bind_eq_some_iff.1 hdata
  obtain ⟨ref, href, hat⟩ := bind_eq_some_iff.1 hregion
  have hold : (regionAt s.heap.bus.addressMap ref).bind (·.data) = some buf := by
    rw [hat]
    exact hbuf
  have hmap : (s.written p off bytes).heap.bus.addressMap = setRegionData s.heap.bus.addressMap ref buf' := by
    show (p.ref.bind fun ref => pointerWrite s.heap.bus.addressMap ref (p.off + off) bytes).getD _ = _
    rw [href, bind_some, pointerWrite, hold]
    dsimp only
    rw [hwrite]
    rfl
  by_cases hq : q.ref = p.ref
  · have hself : (s.written p off bytes).buffer q = buf' := by
      rw [buffer, regionOf, hmap, hq, href, bind_some, regionAt_setRegionData hat, if_pos rfl]
      rfl
    have hold' : s.buffer q = buf := by
      rw [buffer, regionOf, hq, href, bind_some, hold, getD_some]
    rw [hself, hold', getElem?_hostWrite hwrite]
    simp only [hq, true_and]
  · rw [if_neg fun h => hq h.1]
    congr 1
    cases hqr : q.ref with
    | none => simp only [buffer, regionOf, hqr, bind_none]
    | some ref' =>
      have hne' : ref' ≠ ref := fun h => hq (by rw [hqr, href, h])
      simp only [buffer, regionOf, hqr, bind_some, hmap, regionAt_setRegionData hat, if_neg hne']

section
variable (hin : (s.access p off bytes.length).Inside) (hne : bytes ≠ [])
include hin hne

theorem getElem?_buffer_written :
    ((s.written p off bytes).buffer q)[k]? =
      if q.ref = p.ref ∧ (p.off + off).toNat ≤ k ∧ k < (p.off + off).toNat + bytes.length then
        bytes[k - (p.off + off).toNat]?
      else (s.buffer q)[k]? := by
  rcases hin with h | ⟨region, hregion, -, buf, hbuf, hlow, hhigh⟩
  · exact absurd (length_eq_zero_iff.1 h) hne
  obtain ⟨buf', hwrite⟩ : ∃ buf', hostWrite buf (p.off + off) bytes = some buf' :=
    hostWrite_isSome_iff.2 (.inr ⟨hlow, hhigh⟩)
  exact getElem?_buffer_of_hostWrite (bind_eq_some_iff.2 ⟨region, hregion, hbuf⟩) hwrite

theorem bytes_written :
    (s.written p off bytes).bytes p off bytes.length = bytes := by
  have hslice : (s.written p off bytes).bytes p off bytes.length = slice bytes 0 bytes.length := by
    refine slice_congr fun k hk => ?_
    rw [getElem?_buffer_written hin hne, if_pos ⟨rfl, by omega, by omega⟩, Nat.zero_add,
      Nat.add_sub_cancel_left]
  rw [hslice, slice, drop_zero, take_length]

theorem bytes_written_of_apart (hlow : 0 ≤ p.off) (hapart : k + n ≤ off ∨ off + bytes.length ≤ k) :
    (s.written p off bytes).bytes p k n = s.bytes p k n := by
  refine slice_congr fun j hj => ?_
  rw [getElem?_buffer_written hin hne, if_neg]
  omega

end

theorem nonneg_of_inside (hin : (s.access p 0 n).Inside) (hn : 0 < n) : 0 ≤ p.off := by
  rcases hin with h | ⟨region, -, -, buf, -, hlow, -⟩
  · exact absurd h (Nat.ne_of_gt hn)
  · simpa [access] using hlow

theorem exists_buffer_of_inside (hin : (s.access p off n).Inside) (hn : 0 < n) :
    ∃ region, s.regionOf p = some region ∧ regionCovers region p.addr 1 = true ∧
      region.data = some (s.buffer p) := by
  rcases hin with h | ⟨region, hregion, hcov, buf, hbuf, -⟩
  · exact absurd h (Nat.ne_of_gt hn)
  · refine ⟨region, hregion, hcov, ?_⟩
    have hregion' : s.regionOf p = some region := hregion
    have hbuf' : region.data = some buf := hbuf
    rw [buffer, hregion', bind_some, hbuf', getD_some]

theorem string_written (hin : (s.access p 0 (name.bytes ++ [0]).length).Inside) :
    ((s.written p 0 (name.bytes ++ [0])).buffer p).drop p.off.toNat =
      name.bytes ++ 0 :: ((s.written p 0 (name.bytes ++ [0])).buffer p).drop
        (p.off.toNat + (name.bytes ++ [0]).length) := by
  have hback := bytes_written hin (by simp)
  have hoff : (p.off + (0 : Nat)).toNat = p.off.toNat := by simp
  rw [bytes, slice, hoff] at hback
  rw [← take_append_drop (name.bytes ++ [0]).length
    (((s.written p 0 (name.bytes ++ [0])).buffer p).drop p.off.toNat), hback, drop_drop]
  simp

theorem takeWhile_name (name : CString) (rest : List UInt8) :
    (name.bytes ++ 0 :: rest).takeWhile (· ≠ 0) = name.bytes := by
  rw [takeWhile_append_of_pos fun b hb => by simpa using name.ne_zero b hb]
  simp

theorem bytes_string_written (hin : (s.access p 0 (name.bytes ++ [0]).length).Inside) :
    ((s.written p 0 (name.bytes ++ [0])).string p).bytes = name.bytes := by
  show takeWhile _ _ = _
  rw [string_written hin, takeWhile_name]

end

/-! ## Memory requests -/

section
variable {s : SyscallState W} {p : GuestPointer W} {off n : Nat} {junk : Nat → UInt8} {size : BitVec 32}

theorem regionOf_getMemory {region : MpuAddressRegionType W} (hregion : s.regionOf p = some region)
    {buf : HostBuffer} (hdata : region.data = some buf) :
    (s.withHeap (heapGetMemory junk s.heap size).2).regionOf p = some region := by
  obtain ⟨ref, href, hat⟩ := bind_eq_some_iff.1 hregion
  show p.ref.bind (regionAt (heapGetMemory junk s.heap size).2.bus.addressMap) = _
  rw [href, bind_some]
  simp only [heapGetMemory]
  split
  · exact hat
  · cases ref with
    | map i => exact hat
    | dynamicMap i =>
      have hi : s.heap.bus.addressMap.dynamicMap[i]? = some region := hat
      rw [regionAt, getElem?_mallocRegionData, hi, map_some]
      split_ifs
      · rw [hdata, getD_some, ← hdata]
      · rfl

theorem inside_getMemory (hin : (s.access p off n).Inside) :
    ((s.withHeap (heapGetMemory junk s.heap size).2).access p off n).Inside := by
  rcases Nat.eq_zero_or_pos n with hn | hn
  · exact .inl hn
  · obtain ⟨region, hregion, -, hdata⟩ := exists_buffer_of_inside hin hn
    rwa [access, regionOf_getMemory hregion hdata, ← hregion]

theorem argInside_getMemory {arg : GuestPointer W} (harg : ArgInside s arg) :
    ArgInside (s.withHeap (heapGetMemory junk s.heap size).2) arg := inside_getMemory harg

end

/-! ## What the primitives do -/

section
variable {e : Prop} {s : SyscallState W} {p : GuestPointer W} {off n : Nat} {Q : Unit → SyscallState W → Prop}
  {v : Int} {addr : BitVec 32}

@[simp] theorem wp_touch : Wp e (touch p off n) s Q ↔ if (s.access p off n).Inside then Q () s else e := by
  simp [touch]

@[simp] theorem wp_load {Q : List UInt8 → SyscallState W → Prop} : Wp e (load p off n) s Q ↔
    if (s.access p off n).Inside then Q (s.bytes p off n) s else e := by
  simp [load]

@[simp] theorem wp_store {bytes : List UInt8} : Wp e (store p off bytes) s Q ↔
    if (s.access p off bytes.length).Inside then Q () (s.written p off bytes) else e := by
  simp [store]

@[simp] theorem wp_fill {bytes : List UInt8} : Wp e (fill p n bytes) s Q ↔
    if (s.access p 0 n).Inside then Q () (s.written p 0 (bytes.take n)) else e := by
  simp [fill]

@[simp] theorem wp_loadString {Q : CString → SyscallState W → Prop} : Wp e (loadString p) s Q ↔
    if (s.access p 0 (s.stringSpan p)).Inside then Q (s.string p) s else e := by
  simp [loadString]

@[simp] theorem wp_useOwn {size len : Nat} {i : Int} : Wp e (useOwn size i len : Syscall W Unit) s Q ↔
    if 0 ≤ i ∧ i + len ≤ size then Q () s else e := by
  simp [useOwn]

@[simp] theorem wp_onPointer {failed : StdReturnType → Syscall W Unit} {found : GuestPointer W → Syscall W Unit} :
    Wp e (onPointer addr failed found) s Q ↔
      (∀ err, s.lookup addr = .error err → Wp e (failed err) (s.looked addr) Q) ∧
      ∀ p, s.lookup addr = .ok p → Wp e (found p) (s.looked addr) Q := by
  simp only [onPointer, wp_bind, wp_get, wp_modify]
  cases s.lookup addr <;> simp

@[simp] theorem wp_orReturn {err : StdReturnType} : Wp e (orReturn err) s Q ↔ Q () s := wp_pure

@[simp] theorem wp_orAssert {err : StdReturnType} : Wp e (orAssert err) s Q ↔ e := wp_throw

@[simp] theorem wp_mallocGetMemory {host : HostOs} {size : BitVec 32} {Q : BitVec 32 → SyscallState W → Prop} :
    Wp e (mallocGetMemory host size) s Q ↔
      Q (heapGetMemory host.junk s.heap size).1 (s.withHeap (heapGetMemory host.junk s.heap size).2) := by
  simp [mallocGetMemory]

theorem wp_getVirtualFileName {host : HostOs} {size : Nat} {Q : CString → SyscallState W → Prop} :
    Wp True (getVirtualFileName host p size) s Q ↔ ((s.access p 0 (s.stringSpan p)).Inside →
      (0 : Int) + ((((s.fileTop host).append slash).append (s.string p)).bytes.length + 1 : Nat) ≤ size →
        Q (((s.fileTop host).append slash).append (s.string p)) (s.withTop (s.fileTop host))) := by
  simp only [getVirtualFileName, wp_bind, wp_get, wp_modify, wp_loadString, wp_useOwn,
    wp_pure, le_refl, true_and, if_true_right]
  rfl

variable {arg : GuestPointer W}

theorem wp_argField (harg : ArgInside s arg) (h : off + 4 ≤ 32) {Q : BitVec 32 → SyscallState W → Prop} :
    Wp e (argField arg off) s Q ↔ Q (s.field arg off) s := by
  have hin : (s.access arg off 4).Inside := harg.access h
  simp [argField, hin, field]

theorem wp_argInt (harg : ArgInside s arg) (h : off + 4 ≤ 32) {Q : Int → SyscallState W → Prop} :
    Wp e (argInt arg off) s Q ↔ Q (s.field arg off).toInt s := by
  simp [argInt, wp_argField harg h]

def SyscallState.withArg (s : SyscallState W) (arg : GuestPointer W) (off n : Nat) (v : Int) :
    SyscallState W :=
  s.written arg off (Bytes.leBytes n (BitVec.ofInt (8 * n) v).toNat)

theorem wp_setArg (harg : ArgInside s arg) (h : off + n ≤ 32) :
    Wp e (setArg arg off n v) s Q ↔ Q () (s.withArg arg off n v) := by
  have hin : (s.access arg off n).Inside := harg.access h
  simp [setArg, hin, withArg]

@[simp] theorem argInside_withArg : ArgInside (s.withArg arg off n v) p ↔ ArgInside s p :=
  argInside_written

@[simp] theorem lookup_withArg :
    (s.withArg arg off n v).lookup addr = s.lookup addr := lookup_written

theorem field_withArg (harg : ArgInside s arg) (h : off + 4 ≤ 32) (v : BitVec 32) :
    (s.withArg arg off 4 v.toInt).field arg off = v := by
  have hin : (s.access arg off (Bytes.leBytes 4 v.toNat).length).Inside := by
    rw [length_leBytes]
    exact harg.access h
  have hback := bytes_written hin (by simp [Bytes.leBytes])
  rw [length_leBytes] at hback
  rw [field, withArg, BitVec.ofInt_toInt, hback, leValue_leBytes]
  exact BitVec.eq_of_toNat_eq (by simpa using v.isLt)

theorem field_withArg_ofInt (harg : ArgInside s arg) (h : off + 4 ≤ 32) (v : Int) :
    (s.withArg arg off 4 v).field arg off = BitVec.ofInt 32 v := by
  have hsame : s.withArg arg off 4 v = s.withArg arg off 4 (BitVec.ofInt 32 v).toInt := by
    simp only [withArg, Nat.reduceMul, BitVec.ofInt_toInt]
  rw [hsame, field_withArg harg h]

theorem field_withArg_of_apart (harg : ArgInside s arg) (h : off + n ≤ 32) (hn : 0 < n) {k : Nat}
    (hapart : k + 4 ≤ off ∨ off + n ≤ k) (v : Int) :
    (s.withArg arg off n v).field arg k = s.field arg k := by
  have hlen := length_leBytes n (BitVec.ofInt (8 * n) v).toNat
  have hin : (s.access arg off (Bytes.leBytes n (BitVec.ofInt (8 * n) v).toNat).length).Inside := by
    rw [hlen]
    exact harg.access h
  have hne : Bytes.leBytes n (BitVec.ofInt (8 * n) v).toNat ≠ [] := by
    rw [← length_pos_iff, hlen]
    exact hn
  rw [field, withArg, bytes_written_of_apart hin hne
    (nonneg_of_inside harg (by decide)) (by rw [hlen]; exact hapart)]
  rfl

theorem wp_setRetValue (harg : ArgInside s arg) :
    Wp e (setRetValue arg v) s Q ↔ Q () (s.withArg arg 4 4 v) :=
  wp_setArg harg (by decide)

end

/-! ## Mapped addresses -/

def SyscallState.Mapped : SyscallState W → List (BitVec 32) → Prop
  | _, [] => True
  | s, a :: as => (∃ p, s.lookup a = .ok p) ∧ (s.looked a).Mapped as

section
variable {s : SyscallState W} {arg p : GuestPointer W} {r : Option (GuestPointer W)} {a fds f : BitVec 32}

@[simp] theorem mapped_cons {as : List (BitVec 32)} :
    s.Mapped (a :: as) ↔ (∃ p, s.lookup a = .ok p) ∧ (s.looked a).Mapped as := .rfl

/-! ## Sets of files -/

def SyscallState.fdSet (s : SyscallState W) (fds : BitVec 32) :
    Except StdReturnType (Option (GuestPointer W)) :=
  if fds = 0 then .ok none else (s.lookup fds).map some

def SyscallState.fdSetNext (s : SyscallState W) (fds : BitVec 32) : SyscallState W :=
  if fds = 0 then s else s.looked fds

theorem access_fdSetNext {off n : Nat} :
    (s.fdSetNext fds).access p off n = s.access p off n := by
  unfold fdSetNext
  split_ifs <;> rfl

theorem field_fdSetNext {off : Nat} :
    (s.fdSetNext fds).field arg off = s.field arg off := by
  unfold fdSetNext
  split_ifs <;> rfl

theorem argInside_fdSetNext : ArgInside (s.fdSetNext fds) arg ↔ ArgInside s arg := by
  unfold fdSetNext
  split_ifs <;> rfl

theorem filter_fds (hf : f ≠ 0) (fs : List (BitVec 32)) :
    (f :: fs).filter (· ≠ 0) = f :: fs.filter (· ≠ 0) :=
  filter_cons_of_pos (decide_eq_true hf)

theorem mapped_fds {fs : List (BitVec 32)} :
    s.Mapped ((f :: fs).filter (· ≠ 0)) ↔
      (∃ r, s.fdSet f = .ok r) ∧ (s.fdSetNext f).Mapped (fs.filter (· ≠ 0)) := by
  by_cases hf : f = 0
  · simp [hf, fdSet, fdSetNext]
  · rw [filter_fds hf, mapped_cons, fdSet, fdSetNext, if_neg hf, if_neg hf]
    cases s.lookup f <;> simp [Except.map]

def SyscallState.writtenFds (s : SyscallState W) (r : Option (GuestPointer W)) (fds : BitVec 64) :
    SyscallState W :=
  r.elim s fun p => s.written p 0 (Bytes.leBytes 8 fds.toNat)

@[simp] theorem inside_writtenFds {fds : BitVec 64}
    {off n : Nat} : ((s.writtenFds r fds).access p off n).Inside ↔ (s.access p off n).Inside := by
  cases r with
  | none => rfl
  | some q => exact inside_written

@[simp] theorem argInside_writtenFds {fds : BitVec 64} :
    ArgInside (s.writtenFds r fds) arg ↔ ArgInside s arg := inside_writtenFds

end

/-! ## Requests -/

def failingHost : HostOs where
  junk := fun _ => 0
  setReuseAddr := fun _ => ⟨-1, 1⟩
  bind := fun _ _ _ => ⟨-1, 1⟩
  listen := fun _ _ => ⟨-1, 1⟩
  accept := fun _ => (⟨-1, 1⟩, ⟨0, 0, 0⟩)
  connect := fun _ _ _ => ⟨-1, 1⟩
  select := fun _ _ _ => (⟨-1, 1⟩, 0, 0, 0)
  send := fun _ _ => ⟨-1, 1⟩
  recv := fun _ _ => (⟨-1, 1⟩, [])
  opendir := fun _ => none
  readdir := fun _ => ([], 0)
  closedir := fun _ => -1
  stat := fun _ => none
  virtfsTop := none

/-- A RAM of 64 bytes at `0x1000` that holds `data`, with the directory table `t`. -/
def guestRam (data : List UInt8) (t : DirTable) : SyscallState 32 where
  heap :=
    { bus :=
        { addressMap :=
            { map := []
              dynamicMap := [{ romRamRegion (fun _ => 0) .ram 0x1000 64 none with data := some data }] }
          previousIndex := -1
          previousIndexR := -1 }
      malloc := ⟨[]⟩
      regionIndex := fun _ _ => 0 }
  virtualFileTop := none
  dirTable := t

def ramArg : GuestPointer 32 := ⟨0x1000, some (.dynamicMap 0), 0⟩

theorem argInside_guestRam {data : List UInt8} (hlen : data.length = 64) (t : DirTable) :
    ArgInside (guestRam data t) ramArg := by
  have hcovers : regionCovers (romRamRegion (fun _ => 0) .ram 0x1000 64 none) (0x1000 : BitVec 32) 1 = true := by
    decide
  exact .inr ⟨_, rfl, hcovers, _, rfl, Int.le_refl 0, by simp [access, ramArg, syscallArgSize, hlen]⟩

def sendState (len : Nat) : SyscallState 32 :=
  guestRam ([8, 0, 0, 0] ++ replicate 8 0 ++ [3, 0, 0, 0] ++ [0x20, 0x10, 0, 0] ++ Bytes.leBytes 4 len ++
    replicate 40 0) fun _ => ⟨false, ⟨[], by simp⟩, none⟩

end Athrill
