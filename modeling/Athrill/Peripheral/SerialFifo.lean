import Athrill.Peripheral.CommBuffer

/-!
# The serial FIFO device (`device/peripheral/serial/fifo/serial_fifo.c`)

Each of the eight channels has six registers of one byte in the guest's memory, at `base + offset of the
register + channel`.
-/

namespace Athrill

/-! ## Registers -/

inductive SerialFifoReg
  | writeStatus
  | writeCmd
  | writePtr
  | readStatus
  | readCmd
  | readPtr
  deriving DecidableEq, Repr

def serialFifoMaxChannelNum : Nat := 8

def SerialFifoReg.off : SerialFifoReg → Nat
  | .writeStatus => serialFifoMaxChannelNum * 0
  | .writeCmd => serialFifoMaxChannelNum * 1
  | .writePtr => serialFifoMaxChannelNum * 2
  | .readStatus => serialFifoMaxChannelNum * 3
  | .readCmd => serialFifoMaxChannelNum * 4
  | .readPtr => serialFifoMaxChannelNum * 5

def serialFifoAddr (base : AthrillAddrType 32) (reg : SerialFifoReg) (ch : Fin 8) :
    AthrillAddrType 32 :=
  base + BitVec.ofNat 32 reg.off + BitVec.ofNat 32 ch

def serialFifoRegAt (off : Nat) : Option (SerialFifoReg × Fin 8) :=
  let ch : Fin 8 := ⟨off % 8, Nat.mod_lt _ (by decide)⟩
  match off / 8 with
  | 0 => some (.writeStatus, ch)
  | 1 => some (.writeCmd, ch)
  | 2 => some (.writePtr, ch)
  | 3 => some (.readStatus, ch)
  | 4 => some (.readCmd, ch)
  | 5 => some (.readPtr, ch)
  | _ => none

def serialFifoReg (base addr : AthrillAddrType 32) : Option (SerialFifoReg × Fin 8) :=
  serialFifoRegAt (addr - base).toNat

def serialFifoWriteStatusCanData : UInt8 := 0
def serialFifoWriteStatusDataFull : UInt8 := 1
def serialFifoWriteCmdNone : UInt8 := 0
def serialFifoWriteCmdMove : UInt8 := 1
def serialFifoWriteCmdTx : UInt8 := 2
def serialFifoReadStatusNoData : UInt8 := 0
def serialFifoReadStatusDataIn : UInt8 := 1
def serialFifoReadCmdNone : UInt8 := 0
def serialFifoReadCmdMove : UInt8 := 1

/-! ## Channels -/

structure SerialFifoChannel where
  isOpen : Bool
  disableCpuIo : Bool
  rd : CommFifoBufferType
  rdIntno : Nat
  rdIntoff : Nat
  rdRaiseDelayCount : Nat
  rdRaiseIntr : Bool
  wr : CommFifoBufferType
  wrDevBuffer : CommFifoBufferType
  wrIntno : Nat
  wrIntoff : Nat
  wrRaiseDelayCount : Nat
  wrRaiseIntr : Bool
  regs : SerialFifoReg → UInt8

def SerialFifoChannel.put (c : SerialFifoChannel) (reg : SerialFifoReg) (v : UInt8) :
    SerialFifoChannel :=
  { c with regs := Function.update c.regs reg v }

def serialFifoReadStatus (fd : Nat) (c : SerialFifoChannel) : SerialFifoChannel :=
  if c.rd.isEmpty then c.put .readStatus serialFifoReadStatusNoData
  else
    let c := c.put .readStatus serialFifoReadStatusDataIn
    if c.rd.count ≥ c.rdIntoff ∧ c.rdRaiseIntr = false then
      { c with rdRaiseDelayCount := fd, rdRaiseIntr := true }
    else c

def serialFifoReadCommand (c : SerialFifoChannel) : SerialFifoChannel :=
  if c.regs .readCmd = serialFifoReadCmdMove then
    let (err, rd, data) := commFifoBufferGet c.rd 1
    let c := { c with rd := rd }
    let c := if err = .ok then c.put .readPtr (data.headD 0) else c
    c.put .readCmd serialFifoReadCmdNone
  else c

def serialFifoReceive (bytes : List UInt8) (c : SerialFifoChannel) : SerialFifoChannel :=
  { c with rd := (commFifoBufferAdd c.rd bytes).2.1 }

def doSerialFifoCpuRead (fd : Nat) (mid : List UInt8) (c : SerialFifoChannel) : SerialFifoChannel :=
  serialFifoReadCommand (serialFifoReceive mid (serialFifoReadStatus fd c))

def serialFifoTxLoop :
    Nat → CommFifoBufferType → CommFifoBufferType → CommFifoBufferType × CommFifoBufferType
  | 0, dev, wr => (dev, wr)
  | n + 1, dev, wr =>
    if wr.isFull then (dev, wr)
    else
      match commFifoBufferGet dev 1 with
      | (.ok, dev', data) => serialFifoTxLoop n dev' (commFifoBufferAdd wr data).2.1
      | (_, dev', _) => (dev', wr)

def doSerialFifoCpuWriteTx (fd : Nat) (c : SerialFifoChannel) : SerialFifoChannel :=
  let (dev, wr) := serialFifoTxLoop c.wrDevBuffer.count c.wrDevBuffer c.wr
  let c := { c with wrDevBuffer := dev, wr := wr }
  let c :=
    if c.wrDevBuffer.count ≤ c.wrIntoff then { c with wrRaiseDelayCount := fd, wrRaiseIntr := true }
    else c
  if c.wrDevBuffer.count = 0 then c.put .writeCmd serialFifoWriteCmdNone else c

def serialFifoWriteStatus (c : SerialFifoChannel) : SerialFifoChannel :=
  if c.wrDevBuffer.isFull = false then c.put .writeStatus serialFifoWriteStatusCanData
  else c.put .writeStatus serialFifoWriteStatusDataFull

theorem serialFifoWriteStatus_eq (c : SerialFifoChannel) :
    serialFifoWriteStatus c =
      c.put .writeStatus (if c.wrDevBuffer.isFull = false then serialFifoWriteStatusCanData
        else serialFifoWriteStatusDataFull) := by
  unfold serialFifoWriteStatus
  split_ifs <;> rfl

def serialFifoWriteCommand (fd : Nat) (c : SerialFifoChannel) : SerialFifoChannel :=
  if c.regs .writeCmd = serialFifoWriteCmdMove then
    { c with wrDevBuffer := (commFifoBufferAdd c.wrDevBuffer [c.regs .writePtr]).2.1 }.put
      .writeCmd serialFifoWriteCmdNone
  else if c.regs .writeCmd = serialFifoWriteCmdTx then doSerialFifoCpuWriteTx fd c
  else c

def doSerialFifoCpuWrite (fd : Nat) (c : SerialFifoChannel) : SerialFifoChannel :=
  serialFifoWriteCommand fd (serialFifoWriteStatus c)

def doSerialFifoCpuIntr (c : SerialFifoChannel) : SerialFifoChannel × List Nat :=
  let (c, rdRaised) : SerialFifoChannel × List Nat :=
    if c.rdRaiseIntr = true then
      if c.rdRaiseDelayCount = 0 then ({ c with rdRaiseIntr := false }, [c.rdIntno])
      else ({ c with rdRaiseDelayCount := c.rdRaiseDelayCount - 1 }, [])
    else (c, [])
  let (c, wrRaised) : SerialFifoChannel × List Nat :=
    if c.wrRaiseIntr = true then
      if c.wrRaiseDelayCount = 0 then ({ c with wrRaiseIntr := false }, [c.wrIntno])
      else ({ c with wrRaiseDelayCount := c.wrRaiseDelayCount - 1 }, [])
    else (c, [])
  (c, rdRaised ++ wrRaised)

def serialFifoTickChannel (fd : Nat) (mid : List UInt8) (c : SerialFifoChannel) :
    SerialFifoChannel × List Nat :=
  if c.isOpen = false then (c, [])
  else if c.disableCpuIo = true then (c, [])
  else doSerialFifoCpuIntr (doSerialFifoCpuWrite fd (doSerialFifoCpuRead fd mid c))

/-! ## The device -/

structure SerialFifoDevice where
  baseAddr : AthrillAddrType 32
  fd : Nat
  channel : Fin 8 → SerialFifoChannel

def athrillDeviceSupplyClockSerialFifo (mid : Fin 8 → List UInt8) (d : SerialFifoDevice) :
    SerialFifoDevice × List Nat :=
  if d.baseAddr = 0 then (d, [])
  else
    ({ d with channel := fun i => (serialFifoTickChannel d.fd (mid i) (d.channel i)).1 },
      (List.finRange 8).flatMap fun i => (serialFifoTickChannel d.fd (mid i) (d.channel i)).2)

/-! ## The guest and the threads -/

inductive GuestInstr
  | load (addr : AthrillAddrType 32)
  | store (addr : AthrillAddrType 32) (v : UInt8)
  | other
  deriving DecidableEq

def GuestInstr.access (instr : GuestInstr) (base : AthrillAddrType 32) (ch : Fin 8) :
    Option (SerialFifoReg × Option UInt8) :=
  match instr with
  | .load addr =>
    match serialFifoReg base addr with
    | some (reg, i) => if i = ch then some (reg, none) else none
    | none => none
  | .store addr v =>
    match serialFifoReg base addr with
    | some (reg, i) => if i = ch then some (reg, some v) else none
    | none => none
  | .other => none

def SerialFifoChannel.exec (c : SerialFifoChannel) :
    Option (SerialFifoReg × Option UInt8) → SerialFifoChannel
  | some (reg, some v) => c.put reg v
  | _ => c

def serialFifoSend (n : Nat) (c : SerialFifoChannel) : SerialFifoChannel × List UInt8 :=
  let (_, wr, bytes) := commFifoBufferGet c.wr n
  ({ c with wr := wr }, bytes)

/-- An instruction of the guest, what the threads take from `wr` and add to `rd`, and the tick. -/
structure SerialFifoClock where
  instr : GuestInstr
  drain : Fin 8 → Nat
  arrive : Fin 8 → List UInt8
  mid : Fin 8 → List UInt8

def serialFifoBefore (d : SerialFifoDevice) (e : SerialFifoClock) (ch : Fin 8) : SerialFifoChannel :=
  let c := (d.channel ch).exec (e.instr.access d.baseAddr ch)
  serialFifoReceive (e.arrive ch) (serialFifoSend (e.drain ch) c).1

def serialFifoClock (d : SerialFifoDevice) (e : SerialFifoClock) : SerialFifoDevice :=
  (athrillDeviceSupplyClockSerialFifo e.mid { d with channel := serialFifoBefore d e }).1

def serialFifoSent (d : SerialFifoDevice) (e : SerialFifoClock) (ch : Fin 8) : List UInt8 :=
  (serialFifoSend (e.drain ch) (d.channel ch)).2

def serialFifoAccepted (bytes : List UInt8) (c : SerialFifoChannel) : List UInt8 :=
  bytes.take (commFifoBufferAdd c.rd bytes).2.2

theorem serialFifoClock_baseAddr (d : SerialFifoDevice) (e : SerialFifoClock) :
    (serialFifoClock d e).baseAddr = d.baseAddr := by
  simp only [serialFifoClock, athrillDeviceSupplyClockSerialFifo]
  split_ifs <;> rfl

theorem athrillDeviceSupplyClockSerialFifo_fst {d : SerialFifoDevice} (hbase : d.baseAddr ≠ 0)
    (mid : Fin 8 → List UInt8) : (athrillDeviceSupplyClockSerialFifo mid d).1 =
      { d with channel := fun i => (serialFifoTickChannel d.fd (mid i) (d.channel i)).1 } := by
  rw [athrillDeviceSupplyClockSerialFifo, if_neg hbase]

theorem serialFifoClock_channel {d : SerialFifoDevice} (hbase : d.baseAddr ≠ 0)
    (e : SerialFifoClock) (ch : Fin 8) :
    (serialFifoClock d e).channel ch =
      (serialFifoTickChannel d.fd (e.mid ch) (serialFifoBefore d e ch)).1 := by
  rw [serialFifoClock, athrillDeviceSupplyClockSerialFifo_fst (by exact hbase)]

theorem SerialFifoChannel.exec_eq (c : SerialFifoChannel) (access : Option (SerialFifoReg × Option UInt8)) :
    c.exec access = { c with regs := (c.exec access).regs } := by
  rcases access with _ | ⟨reg, _ | v⟩ <;> rfl

theorem SerialFifoChannel.exec_regs_eq_iff {c : SerialFifoChannel}
    {access : Option (SerialFifoReg × Option UInt8)} {reg : SerialFifoReg} {v : UInt8}
    (hc : c.regs reg ≠ v) : (c.exec access).regs reg = v ↔ access = some (reg, some v) := by
  rcases access with _ | ⟨reg', _ | v'⟩
  · exact iff_of_false hc (by simp)
  · exact iff_of_false hc (by simp)
  · by_cases hreg : reg = reg'
    · subst hreg
      simp [SerialFifoChannel.exec, SerialFifoChannel.put]
    · refine iff_of_false ?_ (by simp [Ne.symm hreg])
      simpa [SerialFifoChannel.exec, SerialFifoChannel.put, Function.update_of_ne hreg] using hc

def serialFifoSample : SerialFifoDevice where
  baseAddr := 0x1000
  fd := 1024
  channel _ :=
    { isOpen := true, disableCpuIo := false
      rd := commFifoBufferCreate (fun _ => 0) 64
      rdIntno := 0, rdIntoff := 0, rdRaiseDelayCount := 0, rdRaiseIntr := false
      wr := commFifoBufferCreate (fun _ => 0) 64
      wrDevBuffer := commFifoBufferCreate (fun _ => 0) 16
      wrIntno := 0, wrIntoff := 0, wrRaiseDelayCount := 0, wrRaiseIntr := false
      regs := fun _ => 0 }

def serialFifoSampleAddr (reg : SerialFifoReg) : AthrillAddrType 32 := serialFifoAddr 0x1000 reg 0

def SerialFifoClock.ofInstr (instr : GuestInstr) : SerialFifoClock :=
  ⟨instr, fun _ => 0, fun _ => [], fun _ => []⟩

/-! ## What each part of a tick keeps

The read path and the write path of a channel touch different buffers and registers. -/

structure SerialFifoTxSide where
  isOpen : Bool
  disableCpuIo : Bool
  wr : CommFifoBufferType
  wrDevBuffer : CommFifoBufferType
  status : UInt8
  cmd : UInt8
  ptr : UInt8

structure SerialFifoRxSide where
  isOpen : Bool
  disableCpuIo : Bool
  rd : CommFifoBufferType
  status : UInt8
  cmd : UInt8
  ptr : UInt8

def SerialFifoChannel.txSide (c : SerialFifoChannel) : SerialFifoTxSide where
  isOpen := c.isOpen
  disableCpuIo := c.disableCpuIo
  wr := c.wr
  wrDevBuffer := c.wrDevBuffer
  status := c.regs .writeStatus
  cmd := c.regs .writeCmd
  ptr := c.regs .writePtr

def SerialFifoChannel.rxSide (c : SerialFifoChannel) : SerialFifoRxSide where
  isOpen := c.isOpen
  disableCpuIo := c.disableCpuIo
  rd := c.rd
  status := c.regs .readStatus
  cmd := c.regs .readCmd
  ptr := c.regs .readPtr

section
variable (fd n : Nat) (bytes mid : List UInt8) (c : SerialFifoChannel)

@[simp] theorem txSide_receive : (serialFifoReceive bytes c).txSide = c.txSide := rfl

@[simp] theorem txSide_readStatus : (serialFifoReadStatus fd c).txSide = c.txSide := by
  simp only [serialFifoReadStatus]
  split_ifs <;> rfl

@[simp] theorem txSide_readCommand : (serialFifoReadCommand c).txSide = c.txSide := by
  simp only [serialFifoReadCommand]
  split_ifs <;> rfl

@[simp] theorem txSide_read : (doSerialFifoCpuRead fd mid c).txSide = c.txSide := by
  simp only [doSerialFifoCpuRead, txSide_readCommand, txSide_receive, txSide_readStatus]

@[simp] theorem txSide_intr : (doSerialFifoCpuIntr c).1.txSide = c.txSide := by
  simp only [doSerialFifoCpuIntr]
  split_ifs <;> rfl

@[simp] theorem rxSide_writeTx : (doSerialFifoCpuWriteTx fd c).rxSide = c.rxSide := by
  simp only [doSerialFifoCpuWriteTx]
  split_ifs <;> rfl

@[simp] theorem rxSide_writeStatus : (serialFifoWriteStatus c).rxSide = c.rxSide := by
  simp only [serialFifoWriteStatus]
  split_ifs <;> rfl

@[simp] theorem rxSide_write : (doSerialFifoCpuWrite fd c).rxSide = c.rxSide := by
  simp only [doSerialFifoCpuWrite, serialFifoWriteCommand]
  split_ifs
  · exact rxSide_writeStatus c
  · rw [rxSide_writeTx, rxSide_writeStatus]
  · exact rxSide_writeStatus c

@[simp] theorem rxSide_intr : (doSerialFifoCpuIntr c).1.rxSide = c.rxSide := by
  simp only [doSerialFifoCpuIntr]
  split_ifs <;> rfl

end

end Athrill
