import Athrill.Peripheral.SyscallSteps
import Athrill.Peripheral.SyscallSteps

/-!
# The guest's `calloc` (`device/peripheral/athrill_syscall_device.c`)

`athrill_syscall_calloc` multiplies the number and the size of the members as 32-bit numbers before it asks
for memory. Main result: `athrill_syscall_calloc_ok_iff`.
-/

namespace Athrill

open Bytes StateExcept List Option SyscallState

variable {W : Nat}

/-! ## What the guest expects -/

def callocBytes (s : SyscallState W) (arg : GuestPointer W) : Nat :=
  (s.field arg 12).toNat * (s.field arg 16).toNat

structure CallocBlock (starts : List (MallocSizeType → AthrillAddrType W)) (taken : List (BitVec 32))
    (bytes : Nat) (rptr : BitVec 32) (s' : SyscallState W) (d : MallocBlock) : Prop where
  of : d.Of starts
  addr : d.addr starts = rptr
  fresh : rptr ∉ taken
  heap : HeapOk starts s'.heap (rptr :: taken)
  holds : bytes ≤ mallocMemsize d.size
  zero : ∀ j < bytes, ∃ bus, mpuGetData8 s'.heap.bus (d.busAddr starts j) = some (.ok 0, bus)

/-- A result other than 0 is a new block of zeros, and a request for more than any block holds returns 0. -/
structure CallocOk (host : HostOs) (starts : List (MallocSizeType → AthrillAddrType W))
    (taken : List (BitVec 32)) (s : SyscallState W) (arg : GuestPointer W) : Prop where
  block : ∀ s', athrillSyscallCalloc host arg s = .ok ((), s') → s'.field arg 20 ≠ 0 →
    ∃ d, CallocBlock starts taken (callocBytes s arg) (s'.field arg 20) s' d
  large : 16384 < callocBytes s arg →
    ∃ s', athrillSyscallCalloc host arg s = .ok ((), s') ∧ s'.field arg 20 = 0

/-- The product fits 32 bits, or no block serves what is left of it. -/
def CallocFits (starts : List (MallocSizeType → AthrillAddrType W)) (taken : List (BitVec 32))
    (s : SyscallState W) (arg : GuestPointer W) : Prop :=
  callocBytes s arg < 2 ^ 32 ∨ 16384 < callocBytes s arg % 2 ^ 32 ∨
    ∀ d, FirstFree starts taken (s.field arg 16 * s.field arg 12) d → d.addr starts = 0

/-- No free block overlaps the argument of the call. -/
def ArgHeld (starts : List (MallocSizeType → AthrillAddrType W)) (taken : List (BitVec 32))
    (s : SyscallState W) (arg : GuestPointer W) : Prop :=
  ∀ d : MallocBlock, d.Of starts → d.addr starts ∉ taken →
    arg.ref = some (.dynamicMap (s.heap.regionIndex d.group d.size)) →
    arg.off + syscallArgSize ≤ d.offset 0 ∨ d.offset (mallocMemsize d.size) ≤ arg.off

section
variable {starts : List (MallocSizeType → AthrillAddrType W)} {taken : List (BitVec 32)} {host : HostOs}
  {s : SyscallState W} {arg : GuestPointer W} {d : MallocBlock} {Q : Unit → SyscallState W → Prop}

/-! ## The handler -/

def callocStored (host : HostOs) (s : SyscallState W) (arg : GuestPointer W) : SyscallState W :=
  (s.withHeap (heapGetMemory host.junk s.heap (s.field arg 16 * s.field arg 12)).2).withArg arg 20 4
    (heapGetMemory host.junk s.heap (s.field arg 16 * s.field arg 12)).1.toInt

theorem argInside_callocStored (harg : ArgInside s arg) : ArgInside (callocStored host s arg) arg :=
  argInside_withArg.2 (argInside_getMemory harg)

theorem field_callocStored (harg : ArgInside s arg) : (callocStored host s arg).field arg 20 =
    (heapGetMemory host.junk s.heap (s.field arg 16 * s.field arg 12)).1 :=
  field_withArg (argInside_getMemory harg) (by decide) _

theorem returns_calloc (harg : ArgInside s arg) (hnmemb : s.field arg 12 ≠ 0) (hsize : s.field arg 16 ≠ 0) :
    Returns (athrillSyscallCalloc host arg) s Q ↔
      if (callocStored host s arg).field arg 20 = 0 then Q () (callocStored host s arg)
      else ∃ p, (callocStored host s arg).lookup ((callocStored host s arg).field arg 20) = .ok p ∧
        ((callocStored host s arg).access p 0 (s.field arg 16 * s.field arg 12).toNat).Inside ∧
        Q () (((callocStored host s arg).looked ((callocStored host s arg).field arg 20)).written p 0
          (replicate (s.field arg 16 * s.field arg 12).toNat 0)) := by
  have hstored : ArgInside (callocStored host s arg) arg := argInside_callocStored harg
  have hdef : (s.withHeap (heapGetMemory host.junk s.heap (s.field arg 16 * s.field arg 12)).2).withArg arg
      20 4 (heapGetMemory host.junk s.heap (s.field arg 16 * s.field arg 12)).1.toInt =
      callocStored host s arg := rfl
  simp (disch := decide) only [returns_iff, athrillSyscallCalloc, wp_bind, wp_argField harg, wp_ite,
    if_neg hsize, if_neg hnmemb, wp_mallocGetMemory, wp_setArg (argInside_getMemory harg), hdef,
    wp_argField hstored, wp_pure, wp_onPointer, wp_orAssert, wp_store, if_false_right, length_replicate,
    access_looked]
  split_ifs
  · rfl
  · cases (callocStored host s arg).lookup ((callocStored host s arg).field arg 20) with
    | error err => simp
    | ok p => simp

def SyscallState.blockPointer (s : SyscallState W) (starts : List (MallocSizeType → AthrillAddrType W))
    (d : MallocBlock) : GuestPointer W :=
  ⟨(d.addr starts).setWidth W, some (.dynamicMap (s.heap.regionIndex d.group d.size)), (d.offset 0 : Int)⟩

section
variable (hok : HeapOk starts s.heap taken) (ha : MallocAddressable starts) (hd : d.Of starts)
  (htop : d.BelowTop starts) (htaken : d.addr starts ∈ taken)
include hok ha hd htop htaken

theorem HeapOk.lookup :
    s.lookup (d.addr starts) = .ok (s.blockPointer starts d) := by
  obtain ⟨bus, hget, -⟩ := hok.getPointer ha hd htop htaken rfl
  rw [SyscallState.lookup, hget]
  rfl

theorem HeapOk.inside {n : Nat} (hn : n ≤ mallocMemsize d.size) :
    (s.access (s.blockPointer starts d) 0 n).Inside := by
  obtain ⟨region, hmap, hplain⟩ := hok.exists_plain hd htop htaken
  obtain ⟨buf, hbuf, hlen⟩ := hplain.data
  rw [hmap.size_eq] at hlen
  have hhas := hmap.has hd ha (mallocMemsize_pos d.size)
  rw [MallocBlock.busAddr, BitVec.add_zero] at hhas
  have hend := hd.offset_le
  rw [MallocBlock.offset_add] at hend
  refine .inr
    ⟨region, hmap.region_eq, (regionCovers_one_iff hplain.mask hplain.below).2 hhas, buf, hbuf, ?_, ?_⟩
  · simp [access, blockPointer]
  · simp only [access, blockPointer]
    omega

end

theorem byte_eq_getElem?_buffer (j : Nat) :
    s.heap.byte d j = (s.buffer (s.blockPointer starts d))[d.offset j]? := by
  have hbuffer : s.buffer (s.blockPointer starts d) = (s.heap.buffer d.group d.size).getD [] := rfl
  rw [hbuffer, Heap.byte]
  cases s.heap.buffer d.group d.size <;> rfl

theorem HeapOk.write_block (hok : HeapOk starts s.heap taken) (hd : d.Of starts)
    (htaken : d.addr starts ∈ taken) {bytes : List UInt8} (hfit : bytes.length ≤ mallocMemsize d.size)
    (harg : 0 ≤ arg.off) (hapart : arg.ref = (s.blockPointer starts d).ref →
      arg.off + syscallArgSize ≤ d.offset 0 ∨ d.offset (mallocMemsize d.size) ≤ arg.off) :
    (∀ j < bytes.length, (s.written (s.blockPointer starts d) 0 bytes).heap.byte d j = bytes[j]?) ∧
      ∀ off, off + 4 ≤ syscallArgSize →
        (s.written (s.blockPointer starts d) 0 bytes).field arg off = s.field arg off := by
  obtain ⟨buf, hbuf, hlen⟩ := hok.exists_buffer hd htaken
  have hend := hd.offset_le
  rw [MallocBlock.offset_add d (mallocMemsize d.size)] at hend hapart
  have hoff : (s.blockPointer starts d).off + (0 : Nat) = (d.offset 0 : Int) := by
    simp [blockPointer]
  obtain ⟨buf', hwrite⟩ : ∃ buf', hostWrite buf ((s.blockPointer starts d).off + (0 : Nat)) bytes =
      some buf' := hostWrite_isSome_iff.2 (.inr (by omega))
  have hafter : ∀ {q : GuestPointer W} {k : Nat}, _ := fun {q k} =>
    @getElem?_buffer_of_hostWrite W s (s.blockPointer starts d) q 0 k bytes buf buf' hbuf hwrite
  simp only [hoff, Int.toNat_natCast] at hafter
  constructor
  · intro j hj
    rw [@byte_eq_getElem?_buffer W starts]
    refine hafter.trans ?_
    rw [MallocBlock.offset_add d j, if_pos ⟨rfl, by omega, by omega⟩, Nat.add_sub_cancel_left]
  · intro off hle
    rw [SyscallState.field, SyscallState.field, SyscallState.bytes, SyscallState.bytes]
    congr 2
    refine slice_congr fun k hk => ?_
    rw [hafter, if_neg]
    rintro ⟨href, hlow, hhigh⟩
    have := hapart href
    omega

theorem HeapOk.calloc (hok : HeapOk starts s.heap taken) (hdisj : UnitsDisjoint starts)
    (ha : MallocAddressable starts) (harg : ArgInside s arg) (hheld : ArgHeld starts taken s arg)
    (hnmemb : s.field arg 12 ≠ 0) (hsize : s.field arg 16 ≠ 0)
    (hfirst : FirstFree starts taken (s.field arg 16 * s.field arg 12) d) (htop : d.BelowTop starts)
    (hzero : d.addr starts ≠ 0) (host : HostOs) :
    Returns (athrillSyscallCalloc host arg) s fun _ s' => s'.field arg 20 = d.addr starts ∧
      HeapOk starts s'.heap (d.addr starts :: taken) ∧
      ∀ j < (s.field arg 16 * s.field arg 12).toNat, s'.heap.byte d j = some 0 := by
  obtain ⟨hget, hok₁⟩ := hok.getMemory_of_firstFree hdisj ha host.junk hfirst
  have hrptr : (callocStored host s arg).field arg 20 = d.addr starts := by
    rw [field_callocStored harg, hget]
  have hok₂ : HeapOk starts (callocStored host s arg).heap (d.addr starts :: taken) :=
    hok₁.of_shape (alike_written _ _ _ _).shape
  have hok₃ : HeapOk starts ((callocStored host s arg).looked (d.addr starts)).heap
      (d.addr starts :: taken) := hok₂.of_shape rfl
  have hlen : (replicate (s.field arg 16 * s.field arg 12).toNat (0 : UInt8)).length =
      (s.field arg 16 * s.field arg 12).toNat := length_replicate
  obtain ⟨hbytes, hfields⟩ := hok₃.write_block hfirst.of (.head _) (by rw [hlen]; exact hfirst.large)
    (nonneg_of_inside harg (by decide)) (hheld d hfirst.of hfirst.free)
  rw [returns_calloc harg hnmemb hsize, hrptr, if_neg hzero]
  refine ⟨_, hok₂.lookup ha hfirst.of htop (.head _), hok₂.inside ha hfirst.of htop (.head _) hfirst.large,
    ?_, hok₃.of_shape (alike_written _ _ _ _).shape, fun j hj => ?_⟩
  · exact (hfields 20 (by decide)).trans hrptr
  · refine (hbytes j (by rwa [hlen])).trans ?_
    rw [getElem?_replicate, if_pos hj]

theorem HeapOk.calloc_top (hok : HeapOk starts s.heap taken) (hdisj : UnitsDisjoint starts)
    (ha : MallocAddressable starts) (hstatic : StaticApart starts s.heap.bus.addressMap)
    (harg : ArgInside s arg) (hnmemb : s.field arg 12 ≠ 0) (hsize : s.field arg 16 ≠ 0)
    (hfirst : FirstFree starts taken (s.field arg 16 * s.field arg 12) d) (htop : ¬ d.BelowTop starts)
    (hzero : d.addr starts ≠ 0) (host : HostOs) : ¬ Returns (athrillSyscallCalloc host arg) s Q := by
  obtain ⟨hget, hok₁⟩ := hok.getMemory_of_firstFree hdisj ha host.junk hfirst
  have hrptr : (callocStored host s arg).field arg 20 = d.addr starts := by
    rw [field_callocStored harg, hget]
  obtain ⟨err, bus, hpointer⟩ :=
    hok₁.getPointer_top ha (hstatic.heapGetMemory host.junk _) hfirst.of htop rfl
  have hlookup : (callocStored host s arg).lookup (d.addr starts) = .error err := by
    rw [callocStored, lookup_withArg]
    simp only [SyscallState.lookup, SyscallState.withHeap, hpointer, Except.map]
  rw [returns_calloc harg hnmemb hsize, hrptr, if_neg hzero, hlookup]
  simp

theorem calloc_zero (harg : ArgInside s arg) (hnmemb : s.field arg 12 ≠ 0) (hsize : s.field arg 16 ≠ 0)
    (hget : (heapGetMemory host.junk s.heap (s.field arg 16 * s.field arg 12)).1 = 0) :
    Returns (athrillSyscallCalloc host arg) s fun _ s' => s'.field arg 20 = 0 := by
  have hrptr : (callocStored host s arg).field arg 20 = 0 := by rw [field_callocStored harg, hget]
  rw [returns_calloc harg hnmemb hsize, if_pos hrptr]
  exact hrptr

theorem mallocMemsize_le (i : MallocSizeType) : mallocMemsize i ≤ 16384 :=
  mallocMemsize_mono.monotone (Fin.le_last i)

theorem toNat_callocSize : (s.field arg 16 * s.field arg 12).toNat = callocBytes s arg % 2 ^ 32 := by
  rw [BitVec.toNat_mul, callocBytes, Nat.mul_comm]

theorem HeapOk.callocBlock {s' : SyscallState W} (hok : HeapOk starts s'.heap (d.addr starts :: taken))
    (ha : MallocAddressable starts) (hfirst : FirstFree starts taken (s.field arg 16 * s.field arg 12) d)
    (htop : d.BelowTop starts) (hfits : callocBytes s arg < 2 ^ 32)
    (hzeros : ∀ j < (s.field arg 16 * s.field arg 12).toNat, s'.heap.byte d j = some 0) :
    CallocBlock starts taken (callocBytes s arg) (d.addr starts) s' d := by
  have hbytes : (s.field arg 16 * s.field arg 12).toNat = callocBytes s arg := by
    rw [toNat_callocSize, Nat.mod_eq_of_lt hfits]
  have hholds : callocBytes s arg ≤ mallocMemsize d.size := hbytes ▸ hfirst.large
  refine ⟨hfirst.of, rfl, hfirst.free, hok, hholds, fun j hj => ?_⟩
  obtain ⟨buf, hbuf, hlt, ⟨bus, hget⟩, -⟩ :=
    hok.windowAgrees ha hfirst.of htop (.head _) (hj.trans_le hholds)
  have hbuffer : s'.heap.buffer d.group d.size = some buf := hbuf
  have hbyte := hzeros j (hbytes ▸ hj)
  rw [Heap.byte, hbuffer, bind_some] at hbyte
  have hoff : (d.busAddr starts j).toNat - (s'.heap.window starts d).start.toNat = d.offset j := by
    rw [hfirst.of.toNat_busAddr ha (hj.trans_le hholds), MallocBlock.start, MallocBlock.offset]
    show mallocUnitStart starts d.group d.size + _ + j - mallocUnitStart starts d.group d.size = _
    omega
  refine ⟨bus, hget.trans ?_⟩
  rw [hoff, getD_eq_getElem?_getD, hbyte]
  rfl

/-- **The guest's `calloc`.** On a good heap, of a guest that holds its argument block, for every number
and size of members other than 0: a result other than 0 is the address of a new block that holds the
members and reads as zero, and a request for more than 16384 bytes returns 0, if and only if the number of
bytes fits 32 bits, or what is left of it modulo 2³² cannot be served. -/
theorem athrill_syscall_calloc_ok_iff (hok : HeapOk starts s.heap taken) (hdisj : UnitsDisjoint starts)
    (ha : MallocAddressable starts) (hstatic : StaticApart starts s.heap.bus.addressMap)
    (harg : ArgInside s arg) (hheld : ArgHeld starts taken s arg) (hnmemb : 1 ≤ (s.field arg 12).toNat)
    (hsize : 1 ≤ (s.field arg 16).toNat) (host : HostOs) :
    CallocOk host starts taken s arg ↔ CallocFits starts taken s arg := by
  have hnmemb' : s.field arg 12 ≠ 0 := fun h => by simp [h] at hnmemb
  have hsize' : s.field arg 16 ≠ 0 := fun h => by simp [h] at hsize
  have hzero : (heapGetMemory host.junk s.heap (s.field arg 16 * s.field arg 12)).1 = 0 →
      CallocOk host starts taken s arg := by
    intro hget
    obtain ⟨_, s', hresult, hfield⟩ := calloc_zero harg hnmemb' hsize' hget
    refine ⟨fun s'' hresult' hne => ?_, fun _ => ⟨s', hresult, hfield⟩⟩
    obtain ⟨-, rfl⟩ := Prod.mk.inj (Except.ok.inj (hresult.symm.trans hresult'))
    exact absurd hfield hne
  rcases hok.getMemory hdisj ha host.junk (s.field arg 16 * s.field arg 12) with
    ⟨hfail, hex⟩ | ⟨d, hfirst, hget, -⟩
  · exact iff_of_true (hzero (by rw [hfail])) (.inr (.inr fun d hfirst => absurd hex hfirst.not_exhausted))
  by_cases haddr : d.addr starts = 0
  · exact iff_of_true (hzero (hget.trans haddr)) (.inr (.inr fun d' hfirst' => hfirst.unique hfirst' ▸ haddr))
  have hlarge := hfirst.large.trans (mallocMemsize_le d.size)
  rw [toNat_callocSize] at hlarge
  -- what is left can be served, so that the condition is that nothing is lost
  have hcond : CallocFits starts taken s arg ↔ callocBytes s arg < 2 ^ 32 :=
    or_iff_left fun h => h.elim (fun hlost => absurd hlarge (Nat.not_le.2 hlost))
      fun hnone => haddr (hnone d hfirst)
  have hsmall : callocBytes s arg < 2 ^ 32 → ¬ 16384 < callocBytes s arg := by
    intro hfits
    rw [Nat.mod_eq_of_lt hfits] at hlarge
    exact Nat.not_lt.2 hlarge
  rw [hcond]
  by_cases htop : d.BelowTop starts
  · obtain ⟨_, s', hresult, hfield, hok', hzeros⟩ :=
      hok.calloc hdisj ha harg hheld hnmemb' hsize' hfirst htop haddr host
    constructor
    · intro hcall
      by_contra hover
      obtain ⟨s'', hresult', hfield'⟩ := hcall.large (by omega)
      obtain ⟨-, rfl⟩ := Prod.mk.inj (Except.ok.inj (hresult.symm.trans hresult'))
      exact haddr (hfield.symm.trans hfield')
    · intro hfits
      refine ⟨fun s'' hresult' _ => ?_, fun hover => absurd hover (hsmall hfits)⟩
      obtain ⟨-, rfl⟩ := Prod.mk.inj (Except.ok.inj (hresult.symm.trans hresult'))
      rw [hfield]
      exact ⟨d, hok'.callocBlock ha hfirst htop hfits hzeros⟩
  · have hnever := fun Q => @HeapOk.calloc_top W starts taken s arg d Q hok hdisj ha hstatic harg hnmemb'
      hsize' hfirst htop haddr host
    constructor
    · intro hcall
      by_contra hover
      obtain ⟨s', hresult, -⟩ := hcall.large (by omega)
      exact hnever (fun _ _ => True) ⟨(), s', hresult, trivial⟩
    · intro hfits
      refine ⟨fun s' hresult _ => ?_, fun hover => absurd hover (hsmall hfits)⟩
      exact absurd ⟨(), s', hresult, trivial⟩ (hnever fun _ _ => True)

end

/-! ## Requests for members of 32 bytes -/

def callocArgument (nmemb : BitVec 32) : List UInt8 :=
  replicate 12 0 ++ Bytes.leBytes 4 nmemb.toNat ++ Bytes.leBytes 4 32 ++ replicate 12 0

def callocState (nmemb : BitVec 32) : SyscallState 32 where
  heap := (heapGetMemory (fun i => (callocArgument nmemb).getD i 0) (groupHeap 0x10000000) 64).2
  virtualFileTop := none
  dirTable := fun _ => ⟨false, .ofBytes [], none⟩

def callocArg (nmemb : BitVec 32) : GuestPointer 32 :=
  (callocState nmemb).blockPointer [groupStarts 0x10000000] ⟨0, 1, 0⟩

section
variable (nmemb : BitVec 32)

theorem callocState_ok : HeapOk [groupStarts 0x10000000] (callocState nmemb).heap [0x10100000] ∧
    (callocState nmemb).heap.buffer 0 1 =
      some (hostMalloc (fun i => (callocArgument nmemb).getD i 0) mpuMallocUnitBytes) := by
  obtain ⟨hr, hf⟩ := shrinkHeap_units
  have hfirst : FirstFree [groupStarts 0x10000000] [] 64 ⟨0, 1, 0⟩ :=
    firstFree_of_exact ⟨by decide, by decide⟩ (by simp) rfl (by simp)
  have hok := @heapOk_groupHeap 0x10000000 (by decide) (by decide)
  refine ⟨(hok.getMemory_of_firstFree hr.disjoint hf.addressable _ hfirst).2,
    (hok.buffer_of_firstFree hr.disjoint hf.addressable _ hfirst (by decide) 1).trans ?_⟩
  rw [if_pos rfl, buffer_groupHeap, getD_none]

theorem callocState_field {off v : Nat} (hoff : off + 4 ≤ 32)
    (hv : slice (callocArgument nmemb) off 4 = Bytes.leBytes 4 v) :
    (callocState nmemb).field (callocArg nmemb) off = BitVec.ofNat 32 v := by
  have hbuffer : (callocState nmemb).buffer (callocArg nmemb) =
      hostMalloc (fun i => (callocArgument nmemb).getD i 0) mpuMallocUnitBytes := by
    show ((callocState nmemb).heap.buffer 0 1).getD [] = _
    rw [(callocState_ok nmemb).2, getD_some]
  have hlen : (callocArgument nmemb).length = 32 := by simp [callocArgument]
  have hbytes : (callocState nmemb).bytes (callocArg nmemb) off 4 = Bytes.leBytes 4 v := by
    rw [← hv, bytes, hbuffer]
    refine slice_congr fun k hk => ?_
    have hstart : ((callocArg nmemb).off + off).toNat = off := by simp [callocArg, blockPointer,
      MallocBlock.offset]
    have hroom : off + k < mpuMallocUnitBytes := Nat.lt_of_lt_of_le (by omega) (show 32 ≤ _ by decide)
    rw [hstart, hostMalloc, getElem?_map, getElem?_range hroom, map_some,
      getD_eq_getElem?_getD, getElem?_eq_getElem (by omega), getD_some]
  rw [field, hbytes, leValue_leBytes]
  exact BitVec.eq_of_toNat_eq (by simp)

theorem callocState_fields : (callocState nmemb).field (callocArg nmemb) 12 = nmemb ∧
    (callocState nmemb).field (callocArg nmemb) 16 = 32 := by
  constructor
  · rw [callocState_field nmemb (by decide) (v := nmemb.toNat) rfl, BitVec.ofNat_toNat, BitVec.setWidth_eq]
  · exact callocState_field nmemb (by decide) rfl

theorem callocState_held : ArgInside (callocState nmemb) (callocArg nmemb) ∧
    ArgHeld [groupStarts 0x10000000] [0x10100000] (callocState nmemb) (callocArg nmemb) := by
  obtain ⟨hr, hf⟩ := shrinkHeap_units
  have hof : (⟨0, 1, 0⟩ : MallocBlock).Of [groupStarts 0x10000000] := ⟨by decide, by decide⟩
  constructor
  · exact (callocState_ok nmemb).1.inside hf.addressable hof (hf.belowTop hof) (by decide) (by decide)
  · rintro ⟨g, i, k⟩ hd hfree href
    obtain rfl : g = 0 := Nat.lt_one_iff.1 hd.group
    have hindex : (1 : MallocSizeType).val = i.val := MpuRegionRef.dynamicMap.inj (some.inj href)
    obtain rfl : 1 = i := Fin.ext hindex
    have hk : k ≠ 0 := fun hk => hfree (by subst hk; decide)
    have hsize : mallocMemsize 1 = 64 := rfl
    have harg : (callocArg nmemb).off = 0 := rfl
    have hblock : syscallArgSize = 32 := rfl
    simp only [MallocBlock.offset, hsize, harg, hblock]
    omega

end

theorem athrill_syscall_calloc_ok_one :
    CallocOk failingHost [groupStarts 0x10000000] [0x10100000] (callocState 1) (callocArg 1) := by
  obtain ⟨hr, hf⟩ := shrinkHeap_units
  obtain ⟨hnmemb, hsize⟩ := callocState_fields 1
  obtain ⟨harg, hheld⟩ := callocState_held 1
  have hstatic : StaticApart [groupStarts 0x10000000] (callocState 1).heap.bus.addressMap := by
    intro x hx
    dsimp only [callocState] at hx
    rw [map_heapGetMemory] at hx
    cases hx
  refine (athrill_syscall_calloc_ok_iff (callocState_ok 1).1 hr.disjoint hf.addressable hstatic harg hheld
    (by rw [hnmemb]; decide) (by rw [hsize]; decide) failingHost).2 (.inl ?_)
  rw [callocBytes, hnmemb, hsize]
  decide

/-- With 134217729 members the product of the handler is 32, and the guest gets a block of 32 bytes. -/
theorem athrill_syscall_calloc_short :
    callocBytes (callocState 134217729) (callocArg 134217729) = 2 ^ 32 + 32 ∧
    ∃ s', athrillSyscallCalloc failingHost (callocArg 134217729) (callocState 134217729) =
        .ok ((), s') ∧
      s'.field (callocArg 134217729) 20 = 0x10000000 ∧
      (⟨0, 0, 0⟩ : MallocBlock).addr [groupStarts 0x10000000] = 0x10000000 ∧ mallocMemsize 0 = 32 := by
  obtain ⟨hr, hf⟩ := shrinkHeap_units
  obtain ⟨hnmemb, hsize⟩ := callocState_fields 134217729
  obtain ⟨harg, hheld⟩ := callocState_held 134217729
  have hfirst : FirstFree [groupStarts 0x10000000] [0x10100000]
      ((callocState 134217729).field (callocArg 134217729) 16 *
        (callocState 134217729).field (callocArg 134217729) 12) ⟨0, 0, 0⟩ := by
    rw [hnmemb, hsize]
    exact firstFree_of_exact ⟨by decide, by decide⟩ (by decide) rfl (by simp)
  obtain ⟨_, s', hresult, hfield, -⟩ := (callocState_ok 134217729).1.calloc hr.disjoint hf.addressable harg
    hheld (by rw [hnmemb]; decide) (by rw [hsize]; decide) hfirst (hf.belowTop hfirst.of) (by decide)
    failingHost
  refine ⟨?_, s', hresult, hfield, by decide, rfl⟩
  rw [callocBytes, hnmemb, hsize]
  rfl

end Athrill
