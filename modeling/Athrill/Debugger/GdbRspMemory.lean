import Mathlib.Tactic.IntervalCases
import Athrill.Debugger.GdbRspWrites

/-!
# Memory through the server

Over plain RAM the packets `M` and `m` write and read guest bytes: a read gives back, in hexadecimal digits,
what the write to its range has stored, and the other bytes stay as they were
(`gdb_memory_read_after_write`).
-/

namespace Athrill

open Bytes Strtoul Writes List Option

/-! ## Digits -/

theorem hexEncode_cons (b : UInt8) (data : List UInt8) : hexEncode (b :: data) =
    hexChar (b.toNat / 16) :: hexChar (b.toNat % 16) :: hexEncode data := rfl

theorem length_hexEncode (data : List UInt8) : (hexEncode data).length = 2 * data.length := by
  induction data with
  | nil => rfl
  | cons b data ih =>
    rw [hexEncode_cons, length_cons, length_cons, ih, length_cons]
    omega

theorem hexDecode_hexEncode (data : List UInt8) : hexDecode (hexEncode data) = some data := by
  induction data with
  | nil => rfl
  | cons b data ih =>
    have hb := b.toNat_lt
    have hhigh : hexDigit (hexChar (b.toNat / 16)) = some (b.toNat / 16) := hexDigit_hexChar (by omega)
    have hlow : hexDigit (hexChar (b.toNat % 16)) = some (b.toNat % 16) := hexDigit_hexChar (by omega)
    have hvalue : UInt8.ofNat (16 * (b.toNat / 16) + b.toNat % 16) = b := by
      rw [Nat.div_add_mod, UInt8.ofNat_toNat]
    rw [hexEncode_cons, hexDecode, hhigh, hlow, ih]
    simp only [hvalue]

variable {address : BitVec 32} {text data : List UInt8}

theorem hexDecode_cons_cons {hi lo : UInt8}
    (h : hexDecode (hi :: lo :: text) = some data) : ∃ v w rest, hexDigit hi = some v ∧
      hexDigit lo = some w ∧ hexDecode text = some rest ∧ data = UInt8.ofNat (16 * v + w) :: rest := by
  rw [hexDecode] at h
  split at h
  · next v w rest hv hw hrest => exact ⟨v, w, rest, hv, hw, hrest, (some.inj h).symm⟩
  · cases h

theorem length_of_hexDecode (h : hexDecode text = some data) :
    data.length = text.length / 2 := by
  induction text using goodBytes.induct generalizing data with
  | case1 hi lo text v w hlo hhi ih =>
    obtain ⟨-, -, rest, -, -, hrest, rfl⟩ := hexDecode_cons_cons h
    rw [length_cons, ih hrest, length_cons, length_cons]
    omega
  | case2 hi lo text hbad =>
    obtain ⟨v, w, -, hv, hw, -⟩ := hexDecode_cons_cons h
    exact absurd hw (hbad v w hv)
  | case3 text hshort =>
    rw [hexDecode.eq_2 text hshort] at h
    cases h
    rcases text with - | ⟨a, - | ⟨b, text⟩⟩
    · rfl
    · simp
    · exact absurd rfl (hshort a b text)

/-! ## Ranges -/

variable {W : Nat} {ρ : Type}

def rangeAddr (W : Nat) (address : BitVec 32) (i : Nat) : AthrillAddrType W :=
  (address + BitVec.ofNat 32 i).setWidth W

theorem rangeAddr_zero (address : BitVec 32) : rangeAddr W address 0 = address.setWidth W := by
  simp [rangeAddr]

theorem rangeAddr_succ (address : BitVec 32) (i : Nat) :
    rangeAddr W address (i + 1) = rangeAddr W (address + 1) i := by
  have hsum : BitVec.ofNat 32 (i + 1) = 1 + BitVec.ofNat 32 i := by
    rw [BitVec.ofNat_add, BitVec.add_comm]
    rfl
  rw [rangeAddr, rangeAddr, hsum, BitVec.add_assoc]

theorem rangeAddr_inj (hW : 32 ≤ W) {i j : Nat} (hi : i < 2 ^ 32)
    (hj : j < 2 ^ 32) (h : rangeAddr W address i = rangeAddr W address j) : i = j := by
  have hnat := congrArg BitVec.toNat h
  simp only [rangeAddr, BitVec.toNat_setWidth_of_le hW, BitVec.toNat_add, BitVec.toNat_ofNat] at hnat
  have haddr := address.isLt
  omega

def rangeWrites (W : Nat) (address : BitVec 32) : List UInt8 → List (AthrillAddrType W × UInt8)
  | [] => []
  | b :: data => (address.setWidth W, b) :: rangeWrites W (address + 1) data

theorem last_rangeWrites_eq_none {data : List UInt8} {x : AthrillAddrType W}
    (h : ∀ i < data.length, x ≠ rangeAddr W address i) : last x (rangeWrites W address data) = none := by
  induction data generalizing address with
  | nil => rfl
  | cons b data ih =>
    have hfirst : address.setWidth W ≠ x := by
      have hne := h 0 (Nat.succ_pos _)
      rw [rangeAddr_zero] at hne
      exact hne.symm
    have hrest : last x (rangeWrites W (address + 1) data) = none := by
      refine ih fun i hi => ?_
      rw [← rangeAddr_succ]
      exact h (i + 1) (Nat.succ_lt_succ hi)
    rw [rangeWrites, last, hrest, if_neg hfirst, none_or]

theorem last_rangeWrites (hW : 32 ≤ W) {data : List UInt8}
    (hlen : data.length ≤ 2 ^ 32) {i : Nat} (hi : i < data.length) :
    last (rangeAddr W address i) (rangeWrites W address data) = some data[i] := by
  induction data generalizing address i with
  | nil => cases hi
  | cons b data ih =>
    rw [length_cons] at hlen hi
    rw [rangeWrites, last]
    cases i with
    | zero =>
      have hrest : last (rangeAddr W address 0) (rangeWrites W (address + 1) data) = none := by
        refine last_rangeWrites_eq_none fun j hj heq => ?_
        rw [← rangeAddr_succ] at heq
        exact absurd (rangeAddr_inj hW (by omega) (by omega) heq) (Nat.succ_ne_zero j).symm
      rw [hrest, if_pos (rangeAddr_zero address).symm, none_or, getElem_cons_zero]
    | succ i =>
      rw [rangeAddr_succ, ih (by omega) (by omega), some_or, getElem_cons_succ]

def RangeInRam (m : MpuAddressMapType W) (address : BitVec 32) (length : Nat) : Prop :=
  ∀ i < length, PlainRam m (rangeAddr W address i)

section
variable {m m' : MpuAddressMapType W} {address : BitVec 32} {length : Nat}

theorem RangeInRam.of_shape (h : RangeInRam m address length) (hshape : m'.shape = m.shape) :
    RangeInRam m' address length :=
  fun i hi => (h i hi).of_shape hshape

theorem RangeInRam.head (h : RangeInRam m address (length + 1)) : PlainRam m (address.setWidth W) :=
  rangeAddr_zero address ▸ h 0 (Nat.succ_pos _)

theorem RangeInRam.tail (h : RangeInRam m address (length + 1)) : RangeInRam m (address + 1) length :=
  fun i hi => rangeAddr_succ address i ▸ h (i + 1) (Nat.succ_lt_succ hi)

end

/-! ## Packets -/

theorem hexDecode_of_writeBytes {bus bus' : MpuState W} {text : List UInt8}
    (h : writeBytes bus address text = some (true, bus')) : ∃ data, hexDecode text = some data := by
  induction text using goodBytes.induct generalizing bus address with
  | case1 hi lo text v w hlo hhi ih =>
    simp only [writeBytes, hhi, hlo] at h
    split at h
    · cases h
    · next err bus₁ hput =>
      split_ifs at h with herr
      · obtain ⟨data, hdata⟩ := ih h
        exact ⟨UInt8.ofNat (16 * v + w) :: data, by simp only [hexDecode, hhi, hlo, hdata]⟩
      · cases h
  | case2 hi lo text hbad =>
    rw [writeBytes] at h
    split at h
    · next v w hv hw => exact absurd hw (hbad v w hv)
    · cases h
  | case3 text hshort => exact ⟨[], hexDecode.eq_2 text hshort⟩

theorem writeBytes_of_ram {bus : MpuState W} (hdisj : bus.addressMap.DisjointRegions)
    (hdata : hexDecode text = some data) (hram : RangeInRam bus.addressMap address data.length) :
    ∃ bus', writeBytes bus address text = some (true, bus') ∧
      bus'.addressMap.shape = bus.addressMap.shape ∧
      guestByte bus'.addressMap = apply (guestByte bus.addressMap) (rangeWrites W address data) := by
  induction text using goodBytes.induct generalizing bus address data with
  | case1 hi lo text v w hlo hhi ih =>
    obtain ⟨v', w', rest, hv, hw, hrest, rfl⟩ := hexDecode_cons_cons hdata
    rw [length_cons] at hram
    obtain ⟨bus₁, hput, hshape, hbyte⟩ := mpuPutData8_of_ram hdisj hram.head (BitVec.ofNat 8 (16 * v' + w'))
    obtain ⟨bus', hwrite, hshape', hbytes⟩ :=
      ih (MpuAddressMapType.DisjointRegions.of_shape hshape hdisj) hrest (hram.tail.of_shape hshape)
    refine ⟨bus', ?_, hshape'.trans hshape, ?_⟩
    · simp only [writeBytes, hv, hw, hput, if_true, hwrite]
    · rw [hbytes, hbyte, BitVec.toNat_ofNat, UInt8.ofNat_mod_size, ← apply_cons, rangeWrites]
  | case2 hi lo text hbad =>
    obtain ⟨v, w, -, hv, hw, -⟩ := hexDecode_cons_cons hdata
    exact absurd hw (hbad v w hv)
  | case3 text hshort =>
    rw [hexDecode.eq_2 text hshort] at hdata
    cases hdata
    exact ⟨bus, writeBytes.eq_2 bus address text hshort, rfl, apply_nil.symm⟩

theorem readBytes_of_ram {bus : MpuState W} (hdisj : bus.addressMap.DisjointRegions) {n : Nat}
    (hram : RangeInRam bus.addressMap address n) :
    ∃ data bus', readBytes bus address n = some (some data, bus') ∧ bus'.addressMap = bus.addressMap ∧
      data.length = n ∧
      ∀ i (hi : i < data.length), guestByte bus.addressMap (rangeAddr W address i) = some data[i] := by
  induction n generalizing bus address with
  | zero => exact ⟨[], bus, rfl, rfl, rfl, fun i hi => by cases hi⟩
  | succ n ih =>
    obtain ⟨b, bus₁, hget, hmap, hbyte⟩ := mpuGetData8_of_ram hdisj hram.head
    have hram₁ : RangeInRam bus₁.addressMap (address + 1) n := by rw [hmap]; exact hram.tail
    obtain ⟨data, bus', hread, hmap', hlen, hbytes⟩ := ih (hmap ▸ hdisj) hram₁
    refine ⟨b :: data, bus', ?_, hmap'.trans hmap, by rw [length_cons, hlen], ?_⟩
    · simp only [readBytes, hget, hread, map_some, UInt8.ofNat_toNat]
    · intro i hi
      cases i with
      | zero => rw [rangeAddr_zero, hbyte, getElem_cons_zero]
      | succ i =>
        rw [rangeAddr_succ, ← hmap, hbytes i (Nat.lt_of_succ_lt_succ hi), getElem_cons_succ]

def readRequest (text : List UInt8) : Option (BitVec 32 × Nat) :=
  (strchr 44 text).bind fun p =>
    if p.1.length ≥ 32 then none
    else
      (parseHexU32 p.1).bind fun address => (parseHexU32 p.2).bind fun length =>
        if length.toNat > gdbDataSize then none else some (address, length.toNat)

section
variable {T : GdbTarget W ρ} {s : GdbState W ρ}

theorem dispatchPacket_reads (T : GdbTarget W ρ) (s : GdbState W ρ) (text input : List UInt8) :
    dispatchPacket T s (109 :: text) input = dispatchReadMemory T s text := by
  simp [dispatchPacket, ascii]

section
variable {text : List UInt8} {address : BitVec 32} {length : Nat}
  (h : readRequest text = some (address, length))
include h

theorem readRequest_eq_some :
    ∃ p len, strchr 44 text = some p ∧ p.1.length < 32 ∧ parseHexU32 p.1 = some address ∧
      parseHexU32 p.2 = some len ∧ len.toNat = length ∧ length ≤ gdbDataSize := by
  obtain ⟨p, hp, h⟩ := bind_eq_some_iff.1 h
  split_ifs at h with hshort
  obtain ⟨address', haddress, h⟩ := bind_eq_some_iff.1 h
  obtain ⟨len, hlen, h⟩ := bind_eq_some_iff.1 h
  split_ifs at h with hsize
  cases h
  exact ⟨p, len, hp, Nat.not_le.1 hshort, haddress, hlen, rfl, Nat.not_lt.1 hsize⟩

theorem dispatchReadMemory_of_readBytes {data : List UInt8} {bus : MpuState W}
  (hread : readBytes s.bus address length = some (some data, bus)) :
    dispatchReadMemory T s text = sendReply T { s with bus := bus } (hexEncode data) := by
  obtain ⟨p, len, hp, hshort, haddress, hlen, rfl, hsize⟩ := readRequest_eq_some h
  simp only [dispatchReadMemory, hp, ge_iff_le, Nat.not_le.2 hshort, haddress, hlen,
    Nat.not_lt.2 hsize, hread, if_false]

end

/-- Over RAM a packet `m` after a packet `M` for the same range is answered with the bytes of the packet
`M`, in lowercase digits that fit a packet; the guest bytes outside the range are as they were before the
two. The digits of any bytes are read back as these bytes. -/
theorem gdb_memory_read_after_write (hW : 32 ≤ W) {o : GdbOutcome W ρ} {address : BitVec 32}
    {length : Nat} {write digits read input : List UInt8}
    (hdisj : s.bus.addressMap.DisjointRegions) (hram : RangeInRam s.bus.addressMap address length)
    (hwrite : memoryRequest write = some (address, digits)) (hlen : digits.length = 2 * length)
    (ho : dispatchPacket T s (77 :: write) input = some o) (hok : o.reply = some replyOk)
    (hread : readRequest read = some (address, length)) (input' : List UInt8) :
    (∃ data o', hexDecode digits = some data ∧
        dispatchPacket T o.state (109 :: read) input' = some o' ∧ o'.reply = some (hexEncode data) ∧
        (hexEncode data).length ≤ rspPacketSize ∧
        ∀ x, (∀ i < length, x ≠ rangeAddr W address i) →
          guestByte o'.state.bus.addressMap x = guestByte s.bus.addressMap x) ∧
      ∀ bytes, hexDecode (hexEncode bytes) = some bytes := by
  refine ⟨?_, hexDecode_hexEncode⟩
  rw [(dispatchPacket_writes T s write input).1] at ho
  obtain ⟨hnone, -⟩ | ⟨address', digits', done, bus, hsome, hloop, hstate, hreply⟩ :=
    dispatchWriteMemory_cases ho
  · rw [hnone] at hwrite
    cases hwrite
  cases hsome.symm.trans hwrite
  have hdone : done = true := by
    rw [hok] at hreply
    cases done
    · exact absurd (some.inj hreply) (by decide)
    · rfl
  subst hdone
  -- what the write leaves
  obtain ⟨data, hdata⟩ := hexDecode_of_writeBytes hloop
  have hcount : data.length = length := by
    have := length_of_hexDecode hdata
    omega
  obtain ⟨bus', hloop', hshape, hbytes⟩ := writeBytes_of_ram hdisj hdata (hcount ▸ hram)
  obtain rfl := (Prod.mk.inj (some.inj (hloop.symm.trans hloop'))).2
  -- what the read finds
  obtain ⟨found, bus', hfound, hmap, hfoundLen, hfoundBytes⟩ :=
    readBytes_of_ram (MpuAddressMapType.DisjointRegions.of_shape hshape hdisj) (hram.of_shape hshape)
  obtain ⟨-, -, -, -, -, -, -, hsize⟩ := readRequest_eq_some hread
  have heq : found = data := by
    refine ext_getElem (hfoundLen.trans hcount.symm) fun i hi hi' => ?_
    have hfirst := hfoundBytes i hi
    have hsmall : data.length ≤ 2 ^ 32 := by
      rw [hcount]
      exact hsize.trans (by decide)
    rw [hbytes, apply, last_rangeWrites hW hsmall hi', some_or] at hfirst
    exact (some.inj hfirst).symm
  subst heq
  have hreply' : dispatchPacket T o.state (109 :: read) input' =
      sendReply T { s with bus := bus' } (hexEncode found) := by
    rw [dispatchPacket_reads, hstate]
    exact dispatchReadMemory_of_readBytes hread hfound
  refine ⟨found, _, hdata, hreply', rfl, ?_, ?_⟩
  · rw [length_hexEncode, hcount]
    exact Nat.mul_le_mul_left 2 hsize
  · intro x hx
    show guestByte bus'.addressMap x = _
    rw [hmap, hbytes, apply, last_rangeWrites_eq_none (hcount ▸ hx), none_or]

end

theorem gdb_memory_read_after_write_two :
    ∃ o o', dispatchPacket haltedTarget ramState (writePacket ['0', 'a', 'F', 'F']) [] = some o ∧
      dispatchPacket haltedTarget o.state (ascii ['m', '1', '0', '0', '0', ',', '2']) [] = some o' ∧
      o'.reply = some (ascii ['0', 'a', 'f', 'f']) ∧
      guestByte o'.state.bus.addressMap 0x1002 = some 0 := by
  have honly : ∀ ref x, regionAt ramState.bus.addressMap ref = some x → ref = .dynamicMap 0 := by
    rintro ((_ | i) | i) x hx
    · rfl
    · cases hx
    · cases hx
  have hdisj : ramState.bus.addressMap.DisjointRegions :=
    fun ref ref' x y _ hx hy _ _ => (honly ref x hx).trans (honly ref' y hy).symm
  have hplain : PlainRegion (romRamRegion (fun _ => 0) .ram (0x1000 : BitVec 32) 64 none) :=
    plainRegion_romRam (by decide) (by decide) (fun h => by cases h)
  have hram : RangeInRam ramState.bus.addressMap 0x1000 2 := by
    intro i hi
    refine ⟨.dynamicMap 0, _, rfl, hplain, rfl, ?_⟩
    interval_cases i <;> decide
  have hwrite : memoryRequest ((writePacket ['0', 'a', 'F', 'F']).drop 1) =
    some (0x1000, ascii ['0', 'a', 'F', 'F']) := by decide
  have hread : readRequest (ascii ['1', '0', '0', '0', ',', '2']) = some (0x1000, 2) := by decide
  obtain ⟨o, ho, hok⟩ : ∃ o, dispatchPacket haltedTarget ramState
      (writePacket ['0', 'a', 'F', 'F']) [] = some o ∧ o.reply = some replyOk := ⟨_, rfl, rfl⟩
  obtain ⟨⟨data, o', hdata, ho', hreply, -, hframe⟩, -⟩ :=
    gdb_memory_read_after_write (le_refl 32) hdisj hram hwrite rfl ho hok hread []
  have hbytes : data = [10, 255] := some.inj (hdata.symm.trans (by decide))
  subst hbytes
  exact ⟨o, o', ho, ho', hreply, hframe 0x1002 fun i hi => by interval_cases i <;> decide⟩

end Athrill
