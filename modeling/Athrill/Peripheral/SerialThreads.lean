import Athrill.Lib.Run
import Athrill.Peripheral.SerialFifo

/-!
# The threads of a serial channel (`serial_fifo.c`, `athrill_mpthread.c`)

A channel's receiving thread reads bytes from a pipe into `rd`, its transmitting thread writes the bytes of
`wr` to a pipe, and the thread of the CPU takes from `rd` and adds to `wr` in every tick. Main results:
`serial_fifo_turns_follow`, `serial_fifo_threads_keep_bytes`.
-/

namespace Athrill

open Machine List CommFifoBufferType

/-! ## The threads -/

inductive RxPhase
  | poll
  | read
  | lock (data : UInt8)
  | add (data : UInt8)
  | unlock
  | failed
  deriving DecidableEq, Repr

inductive TxPhase
  | poll
  | lock
  | get
  | unlock (data : UInt8)
  | write (data : UInt8)
  | failed
  deriving DecidableEq, Repr

inductive CpuPhase
  | idle
  | readStatus
  | readCount
  | readCommand
  | readLock
  | readGet
  | readUnlock (data : Option UInt8)
  | readStore (data : Option UInt8)
  | write
  | txLock
  | txLoop (rounds : Nat)
  | txUnlock
  | txFinish
  | intr
  deriving DecidableEq, Repr

/-- A channel with its threads, and the bytes that have gone through each place of it. -/
structure SerialThreads where
  channel : SerialFifoChannel
  rxMutex : Bool
  txMutex : Bool
  rx : RxPhase
  tx : TxPhase
  cpu : CpuPhase
  received : List UInt8
  putRd : List UInt8
  putWr : List UInt8
  attempts : List (UInt8 × Bool)

def SerialThreads.written (s : SerialThreads) : List UInt8 := (s.attempts.filter fun a => a.2).map Prod.fst

def serialRxThreadStep (input : Option UInt8) (s : SerialThreads) : SerialThreads :=
  match s.rx with
  | .poll => if s.channel.rd.isFull then s else { s with rx := .read }
  | .read =>
    match input with
    | none => { s with rx := .poll }
    | some data => { s with rx := .lock data, received := s.received ++ [data] }
  | .lock data => if s.rxMutex then s else { s with rxMutex := true, rx := .add data }
  | .add data =>
    let (err, rd, res) := commFifoBufferAdd s.channel.rd [data]
    { s with
      channel := { s.channel with rd := rd }
      putRd := s.putRd ++ [data].take res
      rx := if err = .ok then .unlock else .failed }
  | .unlock => { s with rxMutex := false, rx := .poll }
  | .failed => s

def serialTxThreadStep (ok : Bool) (s : SerialThreads) : SerialThreads :=
  match s.tx with
  | .poll => if s.channel.wr.count = 0 then s else { s with tx := .lock }
  | .lock => if s.txMutex then s else { s with txMutex := true, tx := .get }
  | .get =>
    let (err, wr, data) := commFifoBufferGet s.channel.wr 1
    { s with
      channel := { s.channel with wr := wr }
      tx := if err = .ok then .unlock (data.headD 0) else .failed }
  | .unlock data => { s with txMutex := false, tx := .write data }
  | .write data => { s with attempts := s.attempts ++ [(data, ok)], tx := .poll }
  | .failed => s

def serialTxRound (s : SerialThreads) (rounds : Nat) : SerialThreads :=
  if s.channel.wr.isFull then { s with cpu := .txUnlock }
  else
    match commFifoBufferGet s.channel.wrDevBuffer 1 with
    | (.ok, dev, data) =>
      let (_, wr, res) := commFifoBufferAdd s.channel.wr data
      { s with
        channel := { s.channel with wrDevBuffer := dev, wr := wr }
        putWr := s.putWr ++ data.take res
        cpu := .txLoop rounds }
    | (_, dev, _) => { s with channel := { s.channel with wrDevBuffer := dev }, cpu := .txUnlock }

def serialTxFinish (fd : Nat) (c : SerialFifoChannel) : SerialFifoChannel :=
  let c :=
    if c.wrDevBuffer.count ≤ c.wrIntoff then { c with wrRaiseDelayCount := fd, wrRaiseIntr := true } else c
  if c.wrDevBuffer.count = 0 then c.put .writeCmd serialFifoWriteCmdNone else c

def serialCpuStep (fd : Nat) (s : SerialThreads) : SerialThreads :=
  let c := s.channel
  match s.cpu with
  | .idle =>
    if c.isOpen = false then s
    else if c.disableCpuIo = true then s
    else { s with cpu := .readStatus }
  | .readStatus =>
    if c.rd.isEmpty then { s with channel := c.put .readStatus serialFifoReadStatusNoData, cpu := .readCommand }
    else { s with channel := c.put .readStatus serialFifoReadStatusDataIn, cpu := .readCount }
  | .readCount =>
    if c.rd.count ≥ c.rdIntoff ∧ c.rdRaiseIntr = false then
      { s with channel := { c with rdRaiseDelayCount := fd, rdRaiseIntr := true }, cpu := .readCommand }
    else { s with cpu := .readCommand }
  | .readCommand =>
    if c.regs .readCmd = serialFifoReadCmdMove then { s with cpu := .readLock } else { s with cpu := .write }
  | .readLock => if s.rxMutex then s else { s with rxMutex := true, cpu := .readGet }
  | .readGet =>
    let (err, rd, data) := commFifoBufferGet c.rd 1
    { s with
      channel := { c with rd := rd }
      cpu := .readUnlock (if err = .ok then some (data.headD 0) else none) }
  | .readUnlock data => { s with rxMutex := false, cpu := .readStore data }
  | .readStore data =>
    let c := match data with
      | some b => c.put .readPtr b
      | none => c
    { s with channel := c.put .readCmd serialFifoReadCmdNone, cpu := .write }
  | .write =>
    let c := serialFifoWriteStatus c
    if c.regs .writeCmd = serialFifoWriteCmdMove then
      { s with
        channel := { c with wrDevBuffer := (commFifoBufferAdd c.wrDevBuffer [c.regs .writePtr]).2.1 }.put
          .writeCmd serialFifoWriteCmdNone
        cpu := .intr }
    else if c.regs .writeCmd = serialFifoWriteCmdTx then { s with channel := c, cpu := .txLock }
    else { s with channel := c, cpu := .intr }
  | .txLock => if s.txMutex then s else { s with txMutex := true, cpu := .txLoop c.wrDevBuffer.count }
  | .txLoop 0 => { s with cpu := .txUnlock }
  | .txLoop (rounds + 1) => serialTxRound s rounds
  | .txUnlock => { s with txMutex := false, cpu := .txFinish }
  | .txFinish => { s with channel := serialTxFinish fd c, cpu := .intr }
  | .intr => { s with channel := (doSerialFifoCpuIntr c).1, cpu := .idle }

/-- Who moves: the receiving thread, the transmitting thread, the device, or the guest. -/
inductive SerialMove
  | rx (input : Option UInt8)
  | tx (ok : Bool)
  | tick
  | guest (reg : SerialFifoReg) (v : UInt8)

def serialThreadsStep (fd : Nat) (s : SerialThreads) : SerialMove → SerialThreads × Unit
  | .rx input => (serialRxThreadStep input s, ())
  | .tx ok => (serialTxThreadStep ok s, ())
  | .tick => (serialCpuStep fd s, ())
  | .guest reg v => (if s.cpu = .idle then { s with channel := s.channel.put reg v } else s, ())

def SerialThreads.start (c : SerialFifoChannel) (junk : Nat → UInt8) (size devSize : Nat) : SerialThreads where
  channel := { c with
    rd := commFifoBufferCreate junk size
    wr := commFifoBufferCreate junk size
    wrDevBuffer := commFifoBufferCreate junk devSize }
  rxMutex := false
  txMutex := false
  rx := .poll
  tx := .poll
  cpu := .idle
  received := []
  putRd := []
  putWr := []
  attempts := []

/-! ## A tick that nothing interrupts -/

section
variable {fd : Nat} {s s' s'' : SerialThreads}

def CpuLeads (fd : Nat) (s s' : SerialThreads) : Prop := ∃ n, (serialCpuStep fd)^[n] s = s'

theorem CpuLeads.of_step (h : serialCpuStep fd s = s') : CpuLeads fd s s' := ⟨1, h⟩

theorem CpuLeads.trans (h : CpuLeads fd s s') (h' : CpuLeads fd s' s'') : CpuLeads fd s s'' := by
  obtain ⟨n, rfl⟩ := h
  obtain ⟨m, rfl⟩ := h'
  exact ⟨m + n, Function.iterate_add_apply _ m n s⟩

theorem cpuLeads_readStatus (s : SerialThreads) :
    CpuLeads fd { s with cpu := .readStatus }
      { s with channel := serialFifoReadStatus fd s.channel, cpu := .readCommand } := by
  cases hempty : s.channel.rd.isEmpty with
  | true => exact .of_step (by simp [serialCpuStep, serialFifoReadStatus, hempty])
  | false =>
    have hdata : CpuLeads fd { s with cpu := .readStatus }
        { s with channel := s.channel.put .readStatus serialFifoReadStatusDataIn, cpu := .readCount } :=
      .of_step (by simp [serialCpuStep, hempty])
    refine hdata.trans (.of_step ?_)
    simp only [serialCpuStep, serialFifoReadStatus, hempty, Bool.false_eq_true, if_false]
    split_ifs <;> rfl

theorem cpuLeads_readCommand (fd : Nat) (s : SerialThreads) (hfree : s.rxMutex = false) :
    CpuLeads fd { s with cpu := .readCommand }
      { s with channel := serialFifoReadCommand s.channel, cpu := .write } := by
  by_cases hcmd : s.channel.regs .readCmd = serialFifoReadCmdMove
  · -- test, lock, get, unlock, store
    refine ⟨5, ?_⟩
    simp only [Function.iterate_succ, Function.comp_apply, Function.iterate_zero, id_eq, serialCpuStep,
      serialFifoReadCommand, hcmd, hfree, if_true, Bool.false_eq_true, if_false]
    split_ifs <;> rfl
  · exact .of_step (by simp [serialCpuStep, serialFifoReadCommand, hcmd])

section
variable (fd n : Nat) (s : SerialThreads)

theorem cpuLeads_txLoop :
    ∃ putWr, CpuLeads fd { s with cpu := .txLoop n } { s with
      channel := { s.channel with
        wrDevBuffer := (serialFifoTxLoop n s.channel.wrDevBuffer s.channel.wr).1
        wr := (serialFifoTxLoop n s.channel.wrDevBuffer s.channel.wr).2 }
      putWr := putWr
      cpu := .txUnlock } := by
  induction n generalizing s with
  | zero => exact ⟨s.putWr, .of_step rfl⟩
  | succ n ih =>
    rw [serialFifoTxLoop]
    cases hfull : s.channel.wr.isFull with
    | true => exact ⟨s.putWr, .of_step (by simp [serialCpuStep, serialTxRound, hfull])⟩
    | false =>
      cases hget : commFifoBufferGet s.channel.wrDevBuffer 1 with
      | mk err rest =>
        obtain ⟨dev, data⟩ := rest
        by_cases herr : err = .ok
        · subst herr
          have hround : CpuLeads fd { s with cpu := .txLoop (n + 1) } { s with
              channel := { s.channel with wrDevBuffer := dev, wr := (commFifoBufferAdd s.channel.wr data).2.1 }
              putWr := s.putWr ++ data.take (commFifoBufferAdd s.channel.wr data).2.2
              cpu := .txLoop n } :=
            .of_step (by simp [serialCpuStep, serialTxRound, hfull, hget])
          obtain ⟨putWr, hrest⟩ := ih { s with
              channel := { s.channel with wrDevBuffer := dev, wr := (commFifoBufferAdd s.channel.wr data).2.1 }
              putWr := s.putWr ++ data.take (commFifoBufferAdd s.channel.wr data).2.2 }
          exact ⟨putWr, hround.trans hrest⟩
        · refine ⟨s.putWr, .of_step ?_⟩
          cases err <;> first
            | exact absurd rfl herr
            | simp [serialCpuStep, serialTxRound, hfull, hget]

theorem cpuLeads_write (hfree : s.txMutex = false) :
    ∃ putWr, CpuLeads fd { s with cpu := .write }
      { s with channel := doSerialFifoCpuWrite fd s.channel, putWr := putWr, cpu := .intr } := by
  set c := serialFifoWriteStatus s.channel with hc
  by_cases hmove : c.regs .writeCmd = serialFifoWriteCmdMove
  · exact ⟨s.putWr, .of_step (by
      simp [serialCpuStep, doSerialFifoCpuWrite, serialFifoWriteCommand, ← hc, hmove])⟩
  by_cases htx : c.regs .writeCmd = serialFifoWriteCmdTx
  · have htest : CpuLeads fd { s with cpu := .write } { s with channel := c, cpu := .txLock } :=
      .of_step (by simp only [serialCpuStep, ← hc, if_neg hmove, if_pos htx])
    have hlock : CpuLeads fd { s with channel := c, cpu := .txLock }
        { s with channel := c, txMutex := true, cpu := .txLoop c.wrDevBuffer.count } :=
      .of_step (by simp [serialCpuStep, hfree])
    obtain ⟨putWr, hloop⟩ := cpuLeads_txLoop fd c.wrDevBuffer.count { s with channel := c, txMutex := true }
    have hwrite : doSerialFifoCpuWrite fd s.channel = doSerialFifoCpuWriteTx fd c := by
      simp only [doSerialFifoCpuWrite, serialFifoWriteCommand, ← hc, if_neg hmove, if_pos htx]
    refine ⟨putWr, htest.trans (hlock.trans (hloop.trans ⟨2, ?_⟩))⟩
    rw [hwrite, hfree]
    rfl
  · exact ⟨s.putWr, .of_step (by
      simp [serialCpuStep, doSerialFifoCpuWrite, serialFifoWriteCommand, ← hc, hmove, htx])⟩

theorem serialFifoReceive_nil (c : SerialFifoChannel) : serialFifoReceive [] c = c := by
  have hsame : (commFifoBufferAdd c.rd []).2.1 = c.rd := by
    unfold commFifoBufferAdd
    split_ifs <;> rfl
  rw [serialFifoReceive, hsame]

theorem cpuLeads_tick (hidle : s.cpu = .idle) (hrx : s.rxMutex = false) (htx : s.txMutex = false) :
    ∃ putWr, CpuLeads fd s
      { s with channel := (serialFifoTickChannel fd [] s.channel).1, putWr := putWr } := by
  unfold serialFifoTickChannel
  by_cases hopen : s.channel.isOpen = false
  · rw [if_pos hopen]
    exact ⟨s.putWr, 0, rfl⟩
  by_cases hio : s.channel.disableCpuIo = true
  · rw [if_neg hopen, if_pos hio]
    exact ⟨s.putWr, 0, rfl⟩
  rw [if_neg hopen, if_neg hio]
  have hstart : CpuLeads fd s { s with cpu := .readStatus } :=
    .of_step (by simp only [serialCpuStep, hidle, if_neg hopen, if_neg hio])
  have hread : doSerialFifoCpuRead fd [] s.channel = serialFifoReadCommand (serialFifoReadStatus fd s.channel) :=
    congrArg serialFifoReadCommand (serialFifoReceive_nil _)
  have hcommand := cpuLeads_readCommand fd { s with channel := serialFifoReadStatus fd s.channel } hrx
  obtain ⟨putWr, hwrite⟩ := cpuLeads_write fd { s with channel := doSerialFifoCpuRead fd [] s.channel } htx
  rw [← hread] at hcommand
  refine ⟨putWr, hstart.trans ((cpuLeads_readStatus s).trans (hcommand.trans (hwrite.trans (.of_step ?_))))⟩
  rw [hidle]
  rfl

theorem after_replicate_tick :
    Machine.after (serialThreadsStep fd) s (List.replicate n .tick) = (serialCpuStep fd)^[n] s := by
  induction n generalizing s with
  | zero => rfl
  | succ n ih => exact ih (serialCpuStep fd s)

/-- A turn of the guest: it writes a register, or the clock goes on and the device is called. -/
def serialTurn (c : SerialFifoChannel) : Option (SerialFifoReg × UInt8) → SerialFifoChannel
  | none => (serialFifoTickChannel fd [] c).1
  | some (reg, v) => c.put reg v

end

def SerialMove.IsCpu : SerialMove → Prop
  | .tick | .guest _ _ => True
  | .rx _ | .tx _ => False

/-- **The plain device is a run of the threads.** Every sequence of register writes and device calls does to a
channel what a run of the CPU thread alone does, if that thread is between two calls and no mutex is taken. -/
theorem serial_fifo_turns_follow (turns : List (Option (SerialFifoReg × UInt8))) (hidle : s.cpu = .idle)
    (hrx : s.rxMutex = false) (htx : s.txMutex = false) :
    ∃ moves putWr, (∀ m ∈ moves, SerialMove.IsCpu m) ∧ Machine.after (serialThreadsStep fd) s moves =
      { s with channel := turns.foldl (serialTurn fd) s.channel, putWr := putWr } := by
  induction turns generalizing s with
  | nil => exact ⟨[], s.putWr, List.forall_mem_nil _, rfl⟩
  | cons turn turns ih =>
    cases turn with
    | none =>
      obtain ⟨putWr, n, hn⟩ := @cpuLeads_tick fd s hidle hrx htx
      obtain ⟨moves, putWr', hcpu, hafter⟩ := @ih
        { s with channel := (serialFifoTickChannel fd [] s.channel).1, putWr := putWr } hidle hrx htx
      refine ⟨List.replicate n .tick ++ moves, putWr', fun m hm => ?_, ?_⟩
      · obtain hm | hm := List.mem_append.1 hm
        · rw [List.eq_of_mem_replicate hm]
          trivial
        · exact hcpu m hm
      · rw [Machine.after_append, after_replicate_tick, hn, hafter]
        rfl
    | some w =>
      obtain ⟨reg, v⟩ := w
      obtain ⟨moves, putWr', hcpu, hafter⟩ := @ih { s with channel := s.channel.put reg v } hidle hrx htx
      refine ⟨.guest reg v :: moves, putWr', List.forall_mem_cons.2 ⟨trivial, hcpu⟩, ?_⟩
      rw [Machine.after, serialThreadsStep, if_pos hidle, hafter]
      rfl

/-- The guest stores a byte and lets the device take it. -/
theorem serial_fifo_turns_follow_sample :
    let s := SerialThreads.start (serialFifoSample.channel 0) (fun _ => 0) 64 16
    ∃ moves putWr, (∀ m ∈ moves, SerialMove.IsCpu m) ∧ Machine.after (serialThreadsStep 1024) s moves =
      { s with
        channel := [some (.writePtr, 0x61), some (.writeCmd, serialFifoWriteCmdMove), none].foldl (serialTurn 1024)
          s.channel
        putWr := putWr } :=
  serial_fifo_turns_follow _ rfl rfl rfl

end

/-! ## What holds between the steps -/

def RxPhase.holds : RxPhase → Bool
  | .add _ | .unlock => true
  | _ => false

def TxPhase.holds : TxPhase → Bool
  | .get | .unlock _ => true
  | _ => false

def CpuPhase.holdsRx : CpuPhase → Bool
  | .readGet | .readUnlock _ => true
  | _ => false

def CpuPhase.holdsTx : CpuPhase → Bool
  | .txLoop _ | .txUnlock => true
  | _ => false

def RxPhase.inFlight : RxPhase → List UInt8
  | .lock data | .add data => [data]
  | _ => []

def TxPhase.inFlight : TxPhase → List UInt8
  | .unlock data | .write data => [data]
  | _ => []

def RxPhase.Fits (rd : CommFifoBufferType) : RxPhase → Prop
  | .poll | .unlock => True
  | .read | .lock _ | .add _ => rd.count < rd.maxSize
  | .failed => False

def TxPhase.Fits (wr : CommFifoBufferType) : TxPhase → Prop
  | .poll | .unlock _ | .write _ => True
  | .lock | .get => 0 < wr.count
  | .failed => False

structure MutexOk (mutex a b : Bool) : Prop where
  locked : mutex = (a || b)
  exclusive : (a && b) = false

structure ThreadsOk (s : SerialThreads) : Prop where
  rd : s.channel.rd.Ok
  wr : s.channel.wr.Ok
  dev : s.channel.wrDevBuffer.Ok
  rxFits : s.rx.Fits s.channel.rd
  txFits : s.tx.Fits s.channel.wr
  rxMutex : MutexOk s.rxMutex s.rx.holds s.cpu.holdsRx
  txMutex : MutexOk s.txMutex s.tx.holds s.cpu.holdsTx
  received : s.received = s.putRd ++ s.rx.inFlight
  putWr : s.putWr = s.attempts.map Prod.fst ++ s.tx.inFlight ++ s.channel.wr.contents

/-! ## Mutexes -/

section
variable {mutex a b : Bool}

theorem MutexOk.symm (h : MutexOk mutex a b) : MutexOk mutex b a :=
  ⟨by rw [h.locked, Bool.or_comm], by rw [Bool.and_comm, h.exclusive]⟩

theorem MutexOk.acquire (h : MutexOk mutex a b) (hfree : mutex = false) : MutexOk true true b := by
  have hnone := h.locked.symm.trans hfree
  rw [Bool.or_eq_false_iff] at hnone
  exact ⟨rfl, by rw [hnone.2]; rfl⟩

theorem MutexOk.release (h : MutexOk mutex true b) : MutexOk false false b := by
  have hother := h.exclusive
  rw [Bool.true_and] at hother
  exact ⟨by rw [hother]; rfl, rfl⟩

end

/-! ## The receiving and the transmitting thread -/

section
variable {s : SerialThreads}

theorem ThreadsOk.rxStep (h : ThreadsOk s) (input : Option UInt8) :
    ThreadsOk (serialRxThreadStep input s) := by
  have hrx := h.rxFits
  have hmutex := h.rxMutex
  have hrec := h.received
  unfold serialRxThreadStep
  cases hphase : s.rx with
  | poll =>
    rw [hphase] at hmutex hrec
    dsimp only
    split_ifs with hfull
    · exact h
    · exact { h with
        rxFits := isFull_eq_false.1 (by simpa using hfull)
        rxMutex := hmutex
        received := hrec }
  | read =>
    rw [hphase] at hrx hmutex hrec
    cases input with
    | none => exact { h with rxFits := trivial, rxMutex := hmutex, received := hrec }
    | some data =>
      refine { h with rxFits := hrx, rxMutex := hmutex, received := ?_ }
      dsimp only
      rw [hrec]
      simp [RxPhase.inFlight]
  | lock data =>
    rw [hphase] at hrx hmutex hrec
    dsimp only
    split_ifs with hlocked
    · exact h
    · exact { h with rxFits := hrx, rxMutex := hmutex.acquire (by simpa using hlocked), received := hrec }
  | add data =>
    rw [hphase] at hrx hmutex hrec
    obtain ⟨rd', hadd, hrd', -, -⟩ := commFifoBufferAdd_one h.rd hrx data
    simp only [hadd, if_true]
    refine { h with rd := hrd', rxFits := trivial, rxMutex := hmutex, received := ?_ }
    rw [hrec]
    simp [RxPhase.inFlight]
  | unlock =>
    rw [hphase] at hmutex hrec
    exact { h with rxFits := trivial, rxMutex := hmutex.release, received := hrec }
  | failed =>
    rw [hphase] at hrx
    exact hrx.elim

theorem ThreadsOk.txStep (h : ThreadsOk s) (ok : Bool) : ThreadsOk (serialTxThreadStep ok s) := by
  have htx := h.txFits
  have hmutex := h.txMutex
  have hput := h.putWr
  unfold serialTxThreadStep
  cases hphase : s.tx with
  | poll =>
    rw [hphase] at hmutex hput
    dsimp only
    split_ifs with hzero
    · exact h
    · exact { h with txFits := Nat.pos_of_ne_zero hzero, txMutex := hmutex, putWr := hput }
  | lock =>
    rw [hphase] at htx hmutex hput
    dsimp only
    split_ifs with hlocked
    · exact h
    · exact { h with txFits := htx, txMutex := hmutex.acquire (by simpa using hlocked), putWr := hput }
  | get =>
    rw [hphase] at htx hmutex hput
    obtain ⟨b, bs, hbs⟩ : ∃ b bs, s.channel.wr.contents = b :: bs :=
      exists_cons_of_length_pos (by rw [length_contents]; exact htx)
    obtain ⟨wr', hget, hwr', -, hcont⟩ := commFifoBufferGet_one_of_cons h.wr hbs
    rw [hbs] at hput
    simp only [hget, if_true]
    refine { h with wr := hwr', txFits := trivial, txMutex := hmutex, putWr := ?_ }
    rw [hput]
    simp [hcont, TxPhase.inFlight]
  | unlock data =>
    rw [hphase] at hmutex hput
    exact { h with txFits := trivial, txMutex := hmutex.release, putWr := hput }
  | write data =>
    rw [hphase] at hmutex hput
    refine { h with txFits := trivial, txMutex := hmutex, putWr := ?_ }
    rw [hput]
    simp [TxPhase.inFlight]
  | failed =>
    rw [hphase] at htx
    exact htx.elim

/-! ## The thread of the CPU -/

theorem RxPhase.Fits.of_le {phase : RxPhase} {rd rd' : CommFifoBufferType} (h : phase.Fits rd)
    (hmax : rd'.maxSize = rd.maxSize) (hle : rd'.count ≤ rd.count) : phase.Fits rd' := by
  cases phase with
  | poll | unlock => trivial
  | read | lock data | add data =>
    have hroom : rd.count < rd.maxSize := h
    rw [← hmax] at hroom
    exact Nat.lt_of_le_of_lt hle hroom
  | failed => exact h.elim

theorem TxPhase.Fits.of_le {phase : TxPhase} {wr wr' : CommFifoBufferType} (h : phase.Fits wr)
    (hle : wr.count ≤ wr'.count) : phase.Fits wr' := by
  cases phase with
  | poll | unlock data | write data => trivial
  | lock | get =>
    have hbyte : 0 < wr.count := h
    exact Nat.lt_of_lt_of_le hbyte hle
  | failed => exact h.elim

theorem ThreadsOk.cpu_other (h : ThreadsOk s) {c : SerialFifoChannel} {before after : CpuPhase}
    (hcpu : s.cpu = before) (hrd : c.rd = s.channel.rd) (hwr : c.wr = s.channel.wr) (hdev : c.wrDevBuffer.Ok)
    (hrx : after.holdsRx = before.holdsRx) (htx : after.holdsTx = before.holdsTx) :
    ThreadsOk { s with channel := c, cpu := after } := by
  subst hcpu
  exact
    { rd := hrd ▸ h.rd
      wr := hwr ▸ h.wr
      dev := hdev
      rxFits := hrd ▸ h.rxFits
      txFits := hwr ▸ h.txFits
      rxMutex := hrx ▸ h.rxMutex
      txMutex := htx ▸ h.txMutex
      received := h.received
      putWr := hwr ▸ h.putWr }

theorem ThreadsOk.txRound (h : ThreadsOk s) {rounds : Nat} (hphase : s.cpu = .txLoop (rounds + 1)) :
    ThreadsOk (serialTxRound s rounds) := by
  have hrxm := h.rxMutex
  have htxm := h.txMutex
  rw [hphase] at hrxm htxm
  unfold serialTxRound
  split_ifs with hfull
  · exact { h with rxMutex := hrxm, txMutex := htxm }
  cases hcont : s.channel.wrDevBuffer.contents with
  | nil =>
    rw [commFifoBufferGet_of_nil hcont]
    exact { h with rxMutex := hrxm, txMutex := htxm }
  | cons b bs =>
    have hroom : s.channel.wr.count < s.channel.wr.maxSize :=
      isFull_eq_false.1 (by simpa using hfull)
    obtain ⟨dev', hget, hdev', -, -⟩ := commFifoBufferGet_one_of_cons h.dev hcont
    obtain ⟨wr', hadd, hwr', -, hcontw⟩ := commFifoBufferAdd_one h.wr hroom b
    have hle : s.channel.wr.count ≤ wr'.count := by
      rw [← length_contents, ← length_contents, hcontw, length_append]
      exact Nat.le_add_right ..
    simp only [hget, hadd]
    refine { h with
      wr := hwr', dev := hdev', txFits := h.txFits.of_le hle, rxMutex := hrxm, txMutex := htxm, putWr := ?_ }
    rw [h.putWr, hcontw, append_assoc]
    rfl

theorem serialTxFinish_buffers (fd : Nat) (c : SerialFifoChannel) :
    (serialTxFinish fd c).rd = c.rd ∧ (serialTxFinish fd c).wr = c.wr ∧
      (serialTxFinish fd c).wrDevBuffer = c.wrDevBuffer := by
  unfold serialTxFinish
  dsimp only
  split_ifs <;> exact ⟨rfl, rfl, rfl⟩

theorem ThreadsOk.cpuStep (h : ThreadsOk s) (fd : Nat) : ThreadsOk (serialCpuStep fd s) := by
  have hrxm := h.rxMutex
  have htxm := h.txMutex
  unfold serialCpuStep
  cases hphase : s.cpu with
  | idle =>
    dsimp only
    split_ifs
    · exact h
    · exact h
    · exact h.cpu_other hphase rfl rfl h.dev rfl rfl
  | readStatus =>
    dsimp only
    split_ifs
    · exact h.cpu_other hphase rfl rfl h.dev rfl rfl
    · exact h.cpu_other hphase rfl rfl h.dev rfl rfl
  | readCount =>
    dsimp only
    split_ifs
    · exact h.cpu_other hphase rfl rfl h.dev rfl rfl
    · exact h.cpu_other hphase rfl rfl h.dev rfl rfl
  | readCommand =>
    dsimp only
    split_ifs
    · exact h.cpu_other hphase rfl rfl h.dev rfl rfl
    · exact h.cpu_other hphase rfl rfl h.dev rfl rfl
  | readLock =>
    rw [hphase] at hrxm htxm
    dsimp only
    split_ifs with hlocked
    · exact h
    · exact { h with rxMutex := (hrxm.symm.acquire (by simpa using hlocked)).symm, txMutex := htxm }
  | readGet =>
    rw [hphase] at hrxm htxm
    obtain ⟨err, rd', hget, hrd', hmax, hcont⟩ := commFifoBufferGet_spec h.rd 1
    have hle : rd'.count ≤ s.channel.rd.count := by
      rw [← length_contents, ← length_contents, hcont, length_drop]
      exact Nat.sub_le ..
    simp only [hget]
    exact { h with rd := hrd', rxFits := h.rxFits.of_le hmax hle, rxMutex := hrxm, txMutex := htxm }
  | readUnlock data =>
    rw [hphase] at hrxm htxm
    exact { h with rxMutex := hrxm.symm.release.symm, txMutex := htxm }
  | readStore data =>
    cases data with
    | none => exact h.cpu_other hphase rfl rfl h.dev rfl rfl
    | some b => exact h.cpu_other hphase rfl rfl h.dev rfl rfl
  | write =>
    dsimp only
    rw [serialFifoWriteStatus_eq]
    generalize (if s.channel.wrDevBuffer.isFull = false then serialFifoWriteStatusCanData
      else serialFifoWriteStatusDataFull) = status
    split_ifs
    · obtain ⟨_, dev', hadd, hdev', -, -⟩ :=
        commFifoBufferAdd_spec h.dev [s.channel.regs .writePtr]
      exact h.cpu_other hphase rfl rfl ((congrArg (·.2.1) hadd).symm ▸ hdev') rfl rfl
    all_goals exact h.cpu_other hphase rfl rfl h.dev rfl rfl
  | txLock =>
    rw [hphase] at hrxm htxm
    dsimp only
    split_ifs with hlocked
    · exact h
    · exact { h with rxMutex := hrxm, txMutex := (htxm.symm.acquire (by simpa using hlocked)).symm }
  | txLoop rounds =>
    cases rounds with
    | zero => exact h.cpu_other hphase rfl rfl h.dev rfl rfl
    | succ rounds => exact h.txRound hphase
  | txUnlock =>
    rw [hphase] at hrxm htxm
    exact { h with rxMutex := hrxm, txMutex := htxm.symm.release.symm }
  | txFinish =>
    obtain ⟨hrd, hwr, hdev⟩ := serialTxFinish_buffers fd s.channel
    exact h.cpu_other hphase hrd hwr (hdev.symm ▸ h.dev) rfl rfl
  | intr =>
    have htx : (doSerialFifoCpuIntr s.channel).1.txSide = s.channel.txSide := txSide_intr s.channel
    have hrx : (doSerialFifoCpuIntr s.channel).1.rxSide = s.channel.rxSide := rxSide_intr s.channel
    have hdev : (doSerialFifoCpuIntr s.channel).1.wrDevBuffer = s.channel.wrDevBuffer :=
      congrArg SerialFifoTxSide.wrDevBuffer htx
    exact h.cpu_other hphase (congrArg SerialFifoRxSide.rd hrx) (congrArg SerialFifoTxSide.wr htx)
      (hdev.symm ▸ h.dev) rfl rfl

/-! ## Every interleaving -/

theorem threadsOk_start (c : SerialFifoChannel) (junk : Nat → UInt8) (size devSize : Nat) :
    ThreadsOk (.start c junk size devSize) where
  rd := ok_create junk size
  wr := ok_create junk size
  dev := ok_create junk devSize
  rxFits := trivial
  txFits := trivial
  rxMutex := ⟨rfl, rfl⟩
  txMutex := ⟨rfl, rfl⟩
  received := rfl
  putWr := rfl

theorem ThreadsOk.step (h : ThreadsOk s) (fd : Nat) (move : SerialMove) :
    ThreadsOk (serialThreadsStep fd s move).1 := by
  cases move with
  | rx input => exact h.rxStep input
  | tx ok => exact h.txStep ok
  | tick => exact h.cpuStep fd
  | guest reg v =>
    simp only [serialThreadsStep]
    split_ifs
    · exact h.cpu_other rfl rfl rfl h.dev rfl rfl
    · exact h

theorem written_begins {attempts : List (UInt8 × Bool)}
    (hend : attempts.Pairwise fun x y => y.2 = true → x.2 = true) :
    (attempts.filter fun a => a.2).map Prod.fst <+: attempts.map Prod.fst := by
  induction attempts with
  | nil => exact prefix_refl _
  | cons x l ih =>
    obtain ⟨hx, hl⟩ := pairwise_cons.1 hend
    cases hok : x.2 with
    | true =>
      rw [filter_cons_of_pos (by simpa using hok), map_cons, map_cons]
      exact cons_prefix_cons.2 ⟨rfl, ih hl⟩
    | false =>
      have hnone : (x :: l).filter (fun a => a.2) = [] := by
        refine filter_eq_nil_iff.2 fun y hy => ?_
        rcases mem_cons.1 hy with rfl | hy
        · simp [hok]
        · exact fun hyok => by simpa [hok] using hx y hy hyok
      rw [hnone]
      exact nil_prefix

/-- **No assertion fails and no byte changes its place.** In every interleaving of the threads and the guest,
with any results of `read` and `write`: neither of the two threads has failed its assertion; the bytes that were
put into `rd` are those that were read from the pipe, but for one that the thread is about to add; the bytes
given to `write` are in order the first ones of those put into `wr`, so that those written are, too, unless a
byte was written after one that was not; and no mutex is held by two threads. -/
theorem serial_fifo_threads_keep_bytes (fd : Nat) (c : SerialFifoChannel) (junk : Nat → UInt8)
    (size devSize : Nat) (moves : List SerialMove) :
    let s := after (serialThreadsStep fd) (.start c junk size devSize) moves
    (s.rx ≠ .failed ∧ s.tx ≠ .failed) ∧ s.received = s.putRd ++ s.rx.inFlight ∧
      s.attempts.map Prod.fst <+: s.putWr ∧
      ((s.attempts.Pairwise fun x y => y.2 = true → x.2 = true) → s.written <+: s.putWr) ∧
      (s.rx.holds && s.cpu.holdsRx) = false ∧ (s.tx.holds && s.cpu.holdsTx) = false := by
  intro s
  have h : ThreadsOk s := after_invariant ThreadsOk (fun t move ht => ht.step fd move) moves
    (threadsOk_start c junk size devSize)
  have hgiven : s.attempts.map Prod.fst <+: s.putWr := by
    rw [h.putWr, append_assoc]
    exact prefix_append ..
  refine ⟨⟨fun hrx => ?_, fun htx => ?_⟩, h.received, hgiven, fun hend => (written_begins hend).trans hgiven,
    h.rxMutex.exclusive, h.txMutex.exclusive⟩
  · have hfits := h.rxFits
    rw [hrx] at hfits
    exact hfits
  · have hfits := h.txFits
    rw [htx] at hfits
    exact hfits

end

def lostByte : List SerialMove :=
  let move (b : UInt8) : List SerialMove :=
    [.guest .writePtr b, .guest .writeCmd serialFifoWriteCmdMove] ++ replicate 5 .tick
  move 0x61 ++ move 0x62 ++ [.guest .writeCmd serialFifoWriteCmdTx] ++ replicate 11 .tick ++
    replicate 5 (.tx false) ++ replicate 5 (.tx true)

/-- A byte that cannot be written is dropped, and the next one is written. -/
theorem serial_fifo_tx_drops_byte :
    let s := after (serialThreadsStep 1024) (.start (serialFifoSample.channel 0) (fun _ => 0) 64 16) lostByte
    s.putWr = [0x61, 0x62] ∧ s.written = [0x62] ∧ ¬ s.written <+: s.putWr := by
  decide

end Athrill
