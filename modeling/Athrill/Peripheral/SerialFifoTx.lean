import Athrill.Lib.Run
import Athrill.Peripheral.SerialFifo

/-!
# Transmitting over the serial FIFO

A guest moves bytes one at a time to `wr_dev_buffer` and from there, with the TX command, to `wr`, which the
transmitting thread drains. Main result: `serial_tx_lossless_iff`.
-/

namespace Athrill

open List CommFifoBufferType SerialFifoChannel

/-! ## The write path in a tick -/

theorem serialFifoTxLoop_spec (n : Nat) {dev wr : CommFifoBufferType} (hdev : dev.Ok) (hwr : wr.Ok) :
    ∃ dev' wr', serialFifoTxLoop n dev wr = (dev', wr') ∧ dev'.Ok ∧ wr'.Ok ∧
      dev'.maxSize = dev.maxSize ∧ dev'.count ≤ dev.count ∧
      wr'.contents ++ dev'.contents = wr.contents ++ dev.contents := by
  induction n generalizing dev wr with
  | zero => exact ⟨dev, wr, rfl, hdev, hwr, rfl, Nat.le_refl _, rfl⟩
  | succ n ih =>
    rw [serialFifoTxLoop]
    split_ifs with hfull
    · exact ⟨dev, wr, rfl, hdev, hwr, rfl, Nat.le_refl _, rfl⟩
    have hroom : wr.count < wr.maxSize := isFull_eq_false.1 (by simpa using hfull)
    obtain ⟨err, dev₁, hget, hdev₁, hmax₁, hcont₁⟩ := commFifoBufferGet_spec hdev 1
    have hfst := commFifoBufferGet_one_fst dev
    rw [hget] at hfst ⊢
    by_cases hzero : dev.count = 0
    · rw [if_pos hzero] at hfst
      cases hfst
      have hnil : dev.contents = [] := by
        rw [← length_eq_zero_iff, length_contents, hzero]
      refine ⟨dev₁, wr, rfl, hdev₁, hwr, hmax₁, ?_, by rw [hcont₁, hnil, drop_nil]⟩
      rw [← length_contents, hcont₁, hnil]
      exact Nat.zero_le _
    · rw [if_neg hzero] at hfst
      cases hfst
      obtain ⟨_, wr₁, hadd, hwr₁, -, hcontw⟩ := commFifoBufferAdd_spec hwr (dev.contents.take 1)
      have htake : (dev.contents.take 1).take (wr.maxSize - wr.count) = dev.contents.take 1 :=
        take_of_length_le (Nat.le_trans (length_take_le ..) (by omega))
      obtain ⟨dev', wr', hloop, hdev', hwr', hmax', hle', hcont'⟩ := ih hdev₁ hwr₁
      refine ⟨dev', wr', ?_, hdev', hwr', hmax'.trans hmax₁, Nat.le_trans hle' ?_, ?_⟩
      · simp only [hadd]
        exact hloop
      · rw [← length_contents, hcont₁, length_drop,
          length_contents]
        exact Nat.sub_le ..
      · rw [hcont', hcontw, htake, hcont₁, append_assoc, take_append_drop]

structure SerialTxTick (t t' : SerialFifoTxSide) : Prop where
  isOpen : t'.isOpen = t.isOpen
  disableCpuIo : t'.disableCpuIo = t.disableCpuIo
  status : t'.status =
    if t.wrDevBuffer.isFull = false then serialFifoWriteStatusCanData
    else serialFifoWriteStatusDataFull
  cmd : t'.cmd ≠ serialFifoWriteCmdMove
  wr_ok : t'.wr.Ok
  dev_ok : t'.wrDevBuffer.Ok
  maxSize : t'.wrDevBuffer.maxSize = t.wrDevBuffer.maxSize
  move : t.cmd = serialFifoWriteCmdMove → t'.wr = t.wr ∧ t'.wrDevBuffer.contents =
    t.wrDevBuffer.contents ++ [t.ptr].take (t.wrDevBuffer.maxSize - t.wrDevBuffer.count)
  other : t.cmd ≠ serialFifoWriteCmdMove → t'.wrDevBuffer.count ≤ t.wrDevBuffer.count ∧
    t'.wr.contents ++ t'.wrDevBuffer.contents = t.wr.contents ++ t.wrDevBuffer.contents

theorem serialFifoWriteCmdNone_ne_move : serialFifoWriteCmdNone ≠ serialFifoWriteCmdMove := by
  decide

section
variable {fd : Nat} {mid : List UInt8} {c : SerialFifoChannel}

theorem txSide_writeTx (fd : Nat) (c : SerialFifoChannel) :
    (doSerialFifoCpuWriteTx fd c).txSide =
      let r := serialFifoTxLoop c.wrDevBuffer.count c.wrDevBuffer c.wr
      { c.txSide with
        wrDevBuffer := r.1
        wr := r.2
        cmd := if r.1.count = 0 then serialFifoWriteCmdNone else c.regs .writeCmd } := by
  simp only [doSerialFifoCpuWriteTx]
  split_ifs <;> rfl

theorem serialTxTick_write (hwr : c.wr.Ok) (hdev : c.wrDevBuffer.Ok) :
    SerialTxTick c.txSide (doSerialFifoCpuWrite fd c).txSide := by
  rw [doSerialFifoCpuWrite, serialFifoWriteStatus_eq]
  generalize hst : (if c.wrDevBuffer.isFull = false then serialFifoWriteStatusCanData
    else serialFifoWriteStatusDataFull) = st
  have hcmd : (c.put .writeStatus st).regs .writeCmd = c.regs .writeCmd := rfl
  rw [serialFifoWriteCommand, hcmd]
  split_ifs with hmove htx
  · obtain ⟨_, dev', hadd, hdev', hmax', hcont'⟩ :=
      commFifoBufferAdd_spec hdev [c.regs .writePtr]
    have hdev₁ : (commFifoBufferAdd (c.put .writeStatus st).wrDevBuffer
        [(c.put .writeStatus st).regs .writePtr]).2.1 = dev' := congrArg (·.2.1) hadd
    rw [hdev₁]
    exact ⟨rfl, rfl, hst.symm, serialFifoWriteCmdNone_ne_move, hwr, hdev', hmax',
      fun _ => ⟨rfl, hcont'⟩, fun hne => absurd hmove hne⟩
  · obtain ⟨dev', wr', hloop, hdev', hwr', hmax', hle', hcont'⟩ :=
      serialFifoTxLoop_spec c.wrDevBuffer.count hdev hwr
    rw [txSide_writeTx]
    simp only [put, hloop]
    refine ⟨rfl, rfl, hst.symm, ?_, hwr', hdev', hmax', fun heq => absurd heq hmove,
      fun _ => ⟨hle', hcont'⟩⟩
    dsimp only
    split_ifs
    · exact serialFifoWriteCmdNone_ne_move
    · exact hmove
  · exact ⟨rfl, rfl, hst.symm, hmove, hwr, hdev, rfl, fun heq => absurd heq hmove,
      fun _ => ⟨Nat.le_refl _, rfl⟩⟩

theorem serialTxTick_tick (hopen : c.isOpen = true) (hio : c.disableCpuIo = false) (hwr : c.wr.Ok)
    (hdev : c.wrDevBuffer.Ok) :
    SerialTxTick c.txSide (serialFifoTickChannel fd mid c).1.txSide := by
  rw [serialFifoTickChannel, if_neg (by simp [hopen]), if_neg (by simp [hio]), txSide_intr]
  have hside := txSide_read fd mid c
  have hwr' : (doSerialFifoCpuRead fd mid c).wr = c.wr := congrArg SerialFifoTxSide.wr hside
  have hdev' : (doSerialFifoCpuRead fd mid c).wrDevBuffer = c.wrDevBuffer :=
    congrArg SerialFifoTxSide.wrDevBuffer hside
  rw [← hside]
  exact serialTxTick_write (hwr' ▸ hwr) (hdev' ▸ hdev)

end

/-! ## The guest that transmits -/

structure SerialTxGuest where
  moved : List UInt8
  sawNone : Bool
  sawCan : Bool
  sawCanLate : Bool
  justMoved : Bool
  deriving DecidableEq

def IsTxMove (access : Option (SerialFifoReg × Option UInt8)) : Prop :=
  access = some (.writeCmd, some serialFifoWriteCmdMove)

instance decidableIsTxMove (access : Option (SerialFifoReg × Option UInt8)) :
    Decidable (IsTxMove access) :=
  inferInstanceAs (Decidable (access = some (.writeCmd, some serialFifoWriteCmdMove)))

def SerialTxGuest.observe (g : SerialTxGuest) (c : SerialFifoChannel)
    (access : Option (SerialFifoReg × Option UInt8)) : SerialTxGuest :=
  if IsTxMove access then
    { moved := g.moved ++ [c.regs .writePtr], sawNone := false, sawCan := false,
      sawCanLate := false, justMoved := true }
  else if access = some (.writeCmd, none) then
    { g with
      sawNone := g.sawNone || c.regs .writeCmd == serialFifoWriteCmdNone
      justMoved := false }
  else if access = some (.writeStatus, none) then
    let can := c.regs .writeStatus == serialFifoWriteStatusCanData
    { g with
      sawCan := g.sawCan || can
      sawCanLate := g.sawCanLate || can && !g.justMoved
      justMoved := false }
  else { g with justMoved := false }

/-- The device, the bytes sent, and what the guest has seen. -/
structure SerialTxState where
  dev : SerialFifoDevice
  sent : List UInt8
  guest : SerialTxGuest

def SerialTxState.access (s : SerialTxState) (ch : Fin 8) (e : SerialFifoClock) :
    Option (SerialFifoReg × Option UInt8) :=
  e.instr.access s.dev.baseAddr ch

def serialTxNext (ch : Fin 8) (s : SerialTxState) (e : SerialFifoClock) : SerialTxState where
  dev := serialFifoClock s.dev e
  sent := s.sent ++ serialFifoSent s.dev e ch
  guest := s.guest.observe (s.dev.channel ch) (s.access ch e)

def serialTxStep (ch : Fin 8) (s : SerialTxState) (e : SerialFifoClock) :
    Option (SerialTxState × Unit) :=
  some (serialTxNext ch s e, ())

def serialTxStart (d : SerialFifoDevice) : SerialTxState where
  dev := (athrillDeviceSupplyClockSerialFifo (fun _ => []) d).1
  sent := []
  guest := ⟨[], false, false, false, false⟩

/-- The device as its initialisation leaves it, with the channel in use. -/
structure SerialTxFresh (ch : Fin 8) (d : SerialFifoDevice) : Prop where
  base : d.baseAddr ≠ 0
  isOpen : (d.channel ch).isOpen = true
  cpuIo : (d.channel ch).disableCpuIo = false
  wr : ∃ junk size, (d.channel ch).wr = commFifoBufferCreate junk size
  dev : ∃ junk, (d.channel ch).wrDevBuffer = commFifoBufferCreate junk 16
  cmd : (d.channel ch).regs .writeCmd = serialFifoWriteCmdNone

/-- Sent bytes, `wr` and `wr_dev_buffer` are the moved bytes in order: none is lost or duplicated. -/
def SerialTxState.Lossless (s : SerialTxState) (ch : Fin 8) : Prop :=
  s.sent ++ (s.dev.channel ch).wr.contents ++ (s.dev.channel ch).wrDevBuffer.contents =
    s.guest.moved

structure SerialTxOk (ch : Fin 8) (s : SerialTxState) : Prop where
  base : s.dev.baseAddr ≠ 0
  isOpen : (s.dev.channel ch).isOpen = true
  cpuIo : (s.dev.channel ch).disableCpuIo = false
  wr_ok : (s.dev.channel ch).wr.Ok
  dev_ok : (s.dev.channel ch).wrDevBuffer.Ok
  cmd : (s.dev.channel ch).regs .writeCmd ≠ serialFifoWriteCmdMove

section
variable {ch : Fin 8} {s s' : SerialTxState} {e : SerialFifoClock}

structure SerialTxClock (ch : Fin 8) (s : SerialTxState) (e : SerialFifoClock)
    (s' : SerialTxState) : Prop where
  ok : SerialTxOk ch s'
  maxSize : (s'.dev.channel ch).wrDevBuffer.maxSize = (s.dev.channel ch).wrDevBuffer.maxSize
  status : (s'.dev.channel ch).regs .writeStatus =
    if (s.dev.channel ch).wrDevBuffer.isFull = false then serialFifoWriteStatusCanData
    else serialFifoWriteStatusDataFull
  move : IsTxMove (s.access ch e) →
    s'.sent ++ (s'.dev.channel ch).wr.contents ++ (s'.dev.channel ch).wrDevBuffer.contents =
      s.sent ++ (s.dev.channel ch).wr.contents ++ (s.dev.channel ch).wrDevBuffer.contents ++
        [(s.dev.channel ch).regs .writePtr].take
          ((s.dev.channel ch).wrDevBuffer.maxSize - (s.dev.channel ch).wrDevBuffer.count)
  other : ¬ IsTxMove (s.access ch e) →
    (s'.dev.channel ch).wrDevBuffer.count ≤ (s.dev.channel ch).wrDevBuffer.count ∧
    s'.sent ++ (s'.dev.channel ch).wr.contents ++ (s'.dev.channel ch).wrDevBuffer.contents =
      s.sent ++ (s.dev.channel ch).wr.contents ++ (s.dev.channel ch).wrDevBuffer.contents

theorem serialFifoBefore_txSide (hs : SerialTxOk ch s) (e : SerialFifoClock) :
    let b := serialFifoBefore s.dev e ch
    b.isOpen = true ∧ b.disableCpuIo = false ∧ b.wr.Ok ∧
      b.wrDevBuffer = (s.dev.channel ch).wrDevBuffer ∧
      b.regs = ((s.dev.channel ch).exec (s.access ch e)).regs ∧
      serialFifoSent s.dev e ch ++ b.wr.contents = (s.dev.channel ch).wr.contents := by
  obtain ⟨_, wr₁, hget, hwr₁, -, hcont₁⟩ := commFifoBufferGet_spec hs.wr_ok (e.drain ch)
  have hexec := (s.dev.channel ch).exec_eq (s.access ch e)
  simp only [SerialTxState.access] at hexec ⊢
  rw [serialFifoBefore, hexec]
  simp only [serialFifoSent, serialFifoSend, serialFifoReceive, hget]
  refine ⟨hs.isOpen, hs.cpuIo, hwr₁, trivial, trivial, ?_⟩
  rw [hcont₁, take_append_drop]

theorem serialTxClock_next (hs : SerialTxOk ch s) (e : SerialFifoClock) :
    SerialTxClock ch s e (serialTxNext ch s e) := by
  obtain ⟨hopen, hio, hwr, hdev, hregs, hsent⟩ := serialFifoBefore_txSide hs e
  have hchannel : (serialTxNext ch s e).dev.channel ch =
      (serialFifoTickChannel s.dev.fd (e.mid ch) (serialFifoBefore s.dev e ch)).1 :=
    serialFifoClock_channel hs.base e ch
  have htick : SerialTxTick (serialFifoBefore s.dev e ch).txSide
      ((serialTxNext ch s e).dev.channel ch).txSide := by
    rw [hchannel]
    exact serialTxTick_tick hopen hio hwr (hdev ▸ hs.dev_ok)
  have hcmd : (serialFifoBefore s.dev e ch).regs .writeCmd = serialFifoWriteCmdMove ↔
      IsTxMove (s.access ch e) := by
    rw [hregs]
    exact exec_regs_eq_iff hs.cmd
  refine ⟨⟨?_, htick.isOpen.trans hopen, htick.disableCpuIo.trans hio, htick.wr_ok, htick.dev_ok,
    htick.cmd⟩, ?_, ?_, fun hmove => ?_, fun hmove => ?_⟩
  · exact (serialFifoClock_baseAddr s.dev e).symm ▸ hs.base
  · exact htick.maxSize.trans (congrArg (·.maxSize) hdev)
  · rw [← hdev]
    exact htick.status
  · obtain ⟨hwr', hcont'⟩ := htick.move (hcmd.2 hmove)
    have hptr : (serialFifoBefore s.dev e ch).regs .writePtr = (s.dev.channel ch).regs .writePtr := by
      rw [hregs, hmove]
      rfl
    change s.sent ++ serialFifoSent s.dev e ch ++ (txSide _).wr.contents ++
      (txSide _).wrDevBuffer.contents = _
    rw [hwr', hcont', ← hsent]
    simp only [txSide, hdev, hptr, append_assoc]
  · obtain ⟨hle, hcont'⟩ := htick.other (fun heq => hmove (hcmd.1 heq))
    refine ⟨Nat.le_trans hle (Nat.le_of_eq (congrArg (·.count) hdev)), ?_⟩
    change s.sent ++ serialFifoSent s.dev e ch ++ (txSide _).wr.contents ++
      (txSide _).wrDevBuffer.contents = _
    rw [append_assoc, hcont', ← hsent]
    simp only [txSide, hdev, append_assoc]

/-! ## Runs -/

def TxHasRoom (ch : Fin 8) (s : SerialTxState) (e : SerialFifoClock) : Prop :=
  IsTxMove (s.access ch e) → (s.dev.channel ch).wrDevBuffer.isFull = false

/-- A MOVE is issued only after NONE and CAN_DATA have been read since the last one. -/
def TxProtocol (ch : Fin 8) (s : SerialTxState) (e : SerialFifoClock) : Prop :=
  IsTxMove (s.access ch e) → s.guest.sawNone = true ∧ s.guest.sawCan = true

instance decidableTxProtocol (ch : Fin 8) (s : SerialTxState) (e : SerialFifoClock) :
    Decidable (TxProtocol ch s e) :=
  inferInstanceAs (Decidable (_ → _ ∧ _))

def TxLate (ch : Fin 8) (s : SerialTxState) (e : SerialFifoClock) : Prop :=
  IsTxMove (s.access ch e) → s.guest.sawCanLate = true

instance decidableTxLate (ch : Fin 8) (s : SerialTxState) (e : SerialFifoClock) :
    Decidable (TxLate ch s e) :=
  inferInstanceAs (Decidable (_ → _))

theorem take_singleton_eq_iff {b : UInt8} {n : Nat} : [b].take n = [b] ↔ 0 < n := by
  cases n <;> simp

theorem lossless_next_iff (hs : SerialTxOk ch s) (hl : s.Lossless ch) :
    (serialTxNext ch s e).Lossless ch ↔ TxHasRoom ch s e := by
  have hclock := serialTxClock_next hs e
  unfold SerialTxState.Lossless TxHasRoom
  by_cases hmove : IsTxMove (s.access ch e)
  · have hguest : (serialTxNext ch s e).guest.moved =
        s.guest.moved ++ [(s.dev.channel ch).regs .writePtr] := by
      simp [serialTxNext, SerialTxGuest.observe, hmove]
    rw [hclock.move hmove, hguest, ← hl, append_cancel_left_eq, take_singleton_eq_iff,
      isFull_eq_false]
    simp only [hmove, forall_const]
    omega
  · have hguest : (serialTxNext ch s e).guest.moved = s.guest.moved := by
      simp only [serialTxNext, SerialTxGuest.observe, if_neg hmove]
      split_ifs <;> rfl
    rw [(hclock.other hmove).2, hguest]
    exact iff_of_true hl fun h => absurd h hmove

structure SerialTxLateOk (ch : Fin 8) (s : SerialTxState) : Prop extends SerialTxOk ch s where
  late : s.guest.sawCanLate = true → (s.dev.channel ch).wrDevBuffer.isFull = false
  status : s.guest.justMoved = false →
    (s.dev.channel ch).regs .writeStatus = serialFifoWriteStatusCanData →
    (s.dev.channel ch).wrDevBuffer.isFull = false

theorem SerialTxLateOk.next (hs : SerialTxLateOk ch s) : SerialTxLateOk ch (serialTxNext ch s e) := by
  have hclock := serialTxClock_next hs.toSerialTxOk e
  by_cases hmove : IsTxMove (s.access ch e)
  · -- the MOVE resets what the guest knows
    have hguest : (serialTxNext ch s e).guest.sawCanLate = false ∧
        (serialTxNext ch s e).guest.justMoved = true := by
      simp [serialTxNext, SerialTxGuest.observe, hmove]
    exact ⟨hclock.ok, by simp [hguest.1], by simp [hguest.2]⟩
  · -- without a MOVE the buffer does not grow
    have hkeep : (s.dev.channel ch).wrDevBuffer.isFull = false →
        ((serialTxNext ch s e).dev.channel ch).wrDevBuffer.isFull = false := by
      simp only [isFull_eq_false, hclock.maxSize]
      exact fun h => Nat.lt_of_le_of_lt (hclock.other hmove).1 h
    refine ⟨hclock.ok, fun hlate => hkeep ?_, fun _ hcan => hkeep ?_⟩
    · simp only [serialTxNext, SerialTxGuest.observe, if_neg hmove] at hlate
      split_ifs at hlate with h₁ h₂
      · exact hs.late hlate
      · simp only [Bool.or_eq_true, Bool.and_eq_true, beq_iff_eq, Bool.not_eq_true'] at hlate
        obtain hlate | ⟨hcan, hjust⟩ := hlate
        · exact hs.late hlate
        · exact hs.status hjust hcan
      · exact hs.late hlate
    · rw [hclock.status] at hcan
      split_ifs at hcan with hroom
      · exact hroom
      · exact absurd hcan (by decide)

theorem serialTxLateOk_start {d : SerialFifoDevice} (hd : SerialTxFresh ch d) :
    SerialTxLateOk ch (serialTxStart d) ∧ (serialTxStart d).Lossless ch := by
  obtain ⟨junkw, size, hwr⟩ := hd.wr
  obtain ⟨junk, hdev⟩ := hd.dev
  have hdevice := athrillDeviceSupplyClockSerialFifo_fst hd.base fun _ => []
  have htick : SerialTxTick (d.channel ch).txSide ((serialTxStart d).dev.channel ch).txSide := by
    rw [serialTxStart, hdevice]
    exact serialTxTick_tick hd.isOpen hd.cpuIo (hwr ▸ ok_create ..)
      (hdev ▸ ok_create ..)
  have hcmd : (d.channel ch).txSide.cmd ≠ serialFifoWriteCmdMove := by
    rw [show (d.channel ch).txSide.cmd = _ from hd.cmd]
    exact serialFifoWriteCmdNone_ne_move
  obtain ⟨hle, hcont⟩ := htick.other hcmd
  simp only [txSide, hwr, hdev, contents_create,
    append_nil, append_eq_nil_iff] at hle hcont
  have hroom : ((serialTxStart d).dev.channel ch).wrDevBuffer.isFull = false := by
    rw [isFull_eq_false]
    have hmax := htick.maxSize
    simp only [txSide, hdev] at hmax
    rw [hmax]
    exact Nat.lt_of_le_of_lt hle (Nat.zero_lt_succ 15)
  refine ⟨⟨⟨(congrArg (·.baseAddr) hdevice).trans_ne hd.base, htick.isOpen.trans hd.isOpen, htick.disableCpuIo.trans hd.cpuIo,
    htick.wr_ok, htick.dev_ok, htick.cmd⟩, fun _ => hroom, fun _ _ => hroom⟩, ?_⟩
  rw [SerialTxState.Lossless, hcont.1, hcont.2]
  rfl

/-- **Transmitting without loss.** On a channel as its initialisation leaves it, for every guest and
every behaviour of the threads: no moved byte is ever lost or duplicated if and only if every MOVE is
issued while `wr_dev_buffer` has room. A guest that follows the protocol has this if it does not rely
on a status read directly after its MOVE. -/
theorem serial_tx_lossless_iff {d : SerialFifoDevice} (hd : SerialTxFresh ch d)
    (es : List SerialFifoClock) :
    ((∀ pre s os, pre <+: es → Machine.run (serialTxStep ch) (serialTxStart d) pre = some (s, os) →
        s.Lossless ch) ↔
      Machine.StepsMeet (serialTxStep ch) (TxHasRoom ch) (serialTxStart d) es) ∧
    (Machine.StepsMeet (serialTxStep ch) (fun s e => TxProtocol ch s e ∧ TxLate ch s e)
        (serialTxStart d) es →
      ∀ pre s os, pre <+: es →
        Machine.run (serialTxStep ch) (serialTxStart d) pre = some (s, os) → s.Lossless ch) := by
  obtain ⟨hlate, hstart⟩ := serialTxLateOk_start hd
  have hok : ∀ pre s os, Machine.run (serialTxStep ch) (serialTxStart d) pre = some (s, os) →
      SerialTxOk ch s := by
    intro pre s os hrun
    refine Machine.run_invariant (SerialTxOk ch) (fun s e s' o hs hstep => ?_) pre
      hlate.toSerialTxOk hrun
    cases hstep
    exact (serialTxClock_next hs e).ok
  have hiff : (∀ pre s os, pre <+: es →
      Machine.run (serialTxStep ch) (serialTxStart d) pre = some (s, os) →
        SerialTxOk ch s ∧ s.Lossless ch) ↔
      Machine.StepsMeet (serialTxStep ch) (TxHasRoom ch) (serialTxStart d) es := by
    refine Machine.forall_prefix_iff_stepsMeet _ (fun s e hs => ?_) es ⟨hlate.toSerialTxOk, hstart⟩
    refine ⟨serialTxNext ch s e, (), rfl, ?_⟩
    rw [and_iff_right (serialTxClock_next hs.1 e).ok]
    exact lossless_next_iff hs.1 hs.2
  have hexact : (∀ pre s os, pre <+: es →
      Machine.run (serialTxStep ch) (serialTxStart d) pre = some (s, os) → s.Lossless ch) ↔
      Machine.StepsMeet (serialTxStep ch) (TxHasRoom ch) (serialTxStart d) es := by
    rw [← hiff]
    exact ⟨fun h pre s os hpre hrun => ⟨hok pre s os hrun, h pre s os hpre hrun⟩,
      fun h pre s os hpre hrun => (h pre s os hpre hrun).2⟩
  refine ⟨hexact, fun hmeet => hexact.2 ?_⟩
  refine Machine.StepsMeet.imp (D := TxHasRoom ch) (SerialTxLateOk ch)
    (fun s e s' o hs _ hstep => ?_) (fun s e hs hc hmove => hs.late (hc.2 hmove)) hlate hmeet
  cases hstep
  exact hs.next

end

theorem serialTxFresh_serialFifoSample : SerialTxFresh 0 serialFifoSample :=
  ⟨by decide, rfl, rfl, ⟨_, _, rfl⟩, ⟨_, rfl⟩, rfl⟩

def txPoll : List SerialFifoClock :=
  [.ofInstr (.load (serialFifoSampleAddr .writeStatus)),
    .ofInstr (.load (serialFifoSampleAddr .writeCmd))]

def txMoveByte (b : UInt8) : List SerialFifoClock :=
  [.ofInstr (.store (serialFifoSampleAddr .writePtr) b),
    .ofInstr (.store (serialFifoSampleAddr .writeCmd) serialFifoWriteCmdMove)]

theorem serial_tx_lossless_first :
    ∃ s os, Machine.run (serialTxStep 0) (serialTxStart serialFifoSample)
      (txPoll ++ txMoveByte 7) = some (s, os) ∧ s.guest.moved = [7] ∧ s.Lossless 0 := by
  have hmoved : ((Machine.run (serialTxStep 0) (serialTxStart serialFifoSample)
      (txPoll ++ txMoveByte 7)).map fun p => p.1.guest.moved) = some [7] := by
    decide +kernel
  obtain ⟨⟨s, os⟩, hrun, hp⟩ := Option.map_eq_some_iff.1 hmoved
  refine ⟨s, os, hrun, hp, (serial_tx_lossless_iff serialTxFresh_serialFifoSample
    (txPoll ++ txMoveByte 7)).2 ?_ _ s os (prefix_refl _) hrun⟩
  decide +kernel

def txOverrun : List SerialFifoClock :=
  txPoll ++ (replicate 16 (txMoveByte 0 ++ txPoll)).flatten ++ txMoveByte 1

/-- A guest that follows the protocol loses its seventeenth byte. -/
theorem serial_tx_loses_byte :
    SerialTxFresh 0 serialFifoSample ∧
    Machine.StepsMeet (serialTxStep 0) (TxProtocol 0) (serialTxStart serialFifoSample) txOverrun ∧
    ¬ ∀ pre s os, pre <+: txOverrun →
      Machine.run (serialTxStep 0) (serialTxStart serialFifoSample) pre = some (s, os) → s.Lossless 0 := by
  refine ⟨serialTxFresh_serialFifoSample, by decide +kernel, fun h => ?_⟩
  have hlen : ((Machine.run (serialTxStep 0) (serialTxStart serialFifoSample) txOverrun).map fun p =>
      (p.1.sent.length + (p.1.dev.channel 0).wr.count + (p.1.dev.channel 0).wrDevBuffer.count,
        p.1.guest.moved.length)) = some (16, 17) := by
    decide +kernel
  obtain ⟨⟨s, os⟩, hrun, hp⟩ := Option.map_eq_some_iff.1 hlen
  obtain ⟨hsum, hmoved⟩ := Prod.mk.inj hp
  dsimp only at hsum hmoved
  have hall := congrArg length (h txOverrun s os (prefix_refl _) hrun)
  simp only [length_append, length_contents] at hall
  omega

end Athrill
