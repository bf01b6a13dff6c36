import Athrill.Lib.Run
import Athrill.Peripheral.SerialFifo

/-!
# Receiving over the serial FIFO

The receiving thread adds bytes to `rd`; a guest takes them one at a time with the MOVE command and reads
them in the data register. Main result: `serial_rx_prefix`.
-/

namespace Athrill

open List CommFifoBufferType

/-! ## The read path in a tick -/

structure SerialRxTick (acc : List UInt8) (t t' : SerialFifoRxSide) : Prop where
  isOpen : t'.isOpen = t.isOpen
  disableCpuIo : t'.disableCpuIo = t.disableCpuIo
  status : t'.status =
    if t.rd.isEmpty then serialFifoReadStatusNoData else serialFifoReadStatusDataIn
  cmd : t'.cmd ≠ serialFifoReadCmdMove
  rd_ok : t'.rd.Ok
  move : t.cmd = serialFifoReadCmdMove → ∀ b bs, t.rd.contents ++ acc = b :: bs →
    t'.rd.contents = bs ∧ t'.ptr = b
  other : t.cmd ≠ serialFifoReadCmdMove → t'.rd.contents = t.rd.contents ++ acc ∧ t'.ptr = t.ptr

theorem serialFifoReadCmdNone_ne_move : serialFifoReadCmdNone ≠ serialFifoReadCmdMove := by
  decide

section
variable {fd : Nat} {bytes mid : List UInt8} {c : SerialFifoChannel}

theorem serialFifoReceive_spec (hok : c.rd.Ok) (bytes : List UInt8) :
    (serialFifoReceive bytes c).rd.Ok ∧
      (serialFifoReceive bytes c).rd.contents = c.rd.contents ++ serialFifoAccepted bytes c := by
  obtain ⟨_, rd', hadd, hok', -, hcont'⟩ := commFifoBufferAdd_spec hok bytes
  simp only [serialFifoReceive, serialFifoAccepted, hadd]
  refine ⟨hok', ?_⟩
  rw [hcont', Nat.min_comm, ← take_take, take_length]

theorem rxSide_readStatus (fd : Nat) (c : SerialFifoChannel) :
    (serialFifoReadStatus fd c).rxSide =
      { c.rxSide with
        status := if c.rd.isEmpty then serialFifoReadStatusNoData
          else serialFifoReadStatusDataIn } := by
  simp only [serialFifoReadStatus]
  split_ifs <;> rfl

theorem rxSide_readCommand_of_cons (hok : c.rd.Ok) (hcmd : c.regs .readCmd = serialFifoReadCmdMove)
    {b : UInt8} {bs : List UInt8} (hcont : c.rd.contents = b :: bs) :
    ∃ rd', rd'.Ok ∧ rd'.contents = bs ∧ (serialFifoReadCommand c).rxSide =
      { c.rxSide with rd := rd', cmd := serialFifoReadCmdNone, ptr := b } := by
  obtain ⟨err, rd', hget, hok', -, hcont'⟩ := commFifoBufferGet_spec hok 1
  have hfst := commFifoBufferGet_one_fst c.rd
  have hcount : c.rd.count ≠ 0 := by
    rw [← length_contents, hcont]
    exact Nat.succ_ne_zero _
  rw [hget, if_neg hcount] at hfst
  cases hfst
  rw [hcont] at hget hcont'
  refine ⟨rd', hok', hcont', ?_⟩
  simp only [serialFifoReadCommand, if_pos hcmd, hget, if_true]
  rfl

theorem rxSide_readCommand_of_nil (hok : c.rd.Ok) (hcmd : c.regs .readCmd = serialFifoReadCmdMove)
    (hcont : c.rd.contents = []) :
    ∃ rd', rd'.Ok ∧ (serialFifoReadCommand c).rxSide =
      { c.rxSide with rd := rd', cmd := serialFifoReadCmdNone } := by
  obtain ⟨err, rd', hget, hok', -, -⟩ := commFifoBufferGet_spec hok 1
  have hfst := commFifoBufferGet_one_fst c.rd
  have hcount : c.rd.count = 0 := by rw [← length_contents, hcont]; rfl
  rw [hget, if_pos hcount] at hfst
  cases hfst
  refine ⟨rd', hok', ?_⟩
  simp only [serialFifoReadCommand, if_pos hcmd, hget, reduceCtorEq, if_false]
  rfl

theorem serialRxTick_read (hok : c.rd.Ok) (mid : List UInt8) :
    SerialRxTick (serialFifoAccepted mid c) c.rxSide (doSerialFifoCpuRead fd mid c).rxSide := by
  have hside := rxSide_readStatus fd c
  set c₁ := serialFifoReadStatus fd c
  have hrd : c₁.rd = c.rd := congrArg SerialFifoRxSide.rd hside
  have hacc : serialFifoAccepted mid c₁ = serialFifoAccepted mid c := by
    rw [serialFifoAccepted, hrd]
    rfl
  obtain ⟨hok₂, hcont₂⟩ := serialFifoReceive_spec (hrd.symm ▸ hok : c₁.rd.Ok) mid
  rw [hrd, hacc] at hcont₂
  have hside₂ : (serialFifoReceive mid c₁).rxSide =
      { c₁.rxSide with rd := (serialFifoReceive mid c₁).rd } := rfl
  rw [hside] at hside₂
  rw [doSerialFifoCpuRead]
  set c₂ := serialFifoReceive mid c₁
  have hcmd : c₂.regs .readCmd = c.regs .readCmd := congrArg SerialFifoRxSide.cmd hside₂
  by_cases hmove : c.regs .readCmd = serialFifoReadCmdMove
  · cases hcont : c₂.rd.contents with
    | nil =>
      obtain ⟨rd', hok', hside'⟩ := rxSide_readCommand_of_nil hok₂ (hcmd.trans hmove) hcont
      rw [hside', hside₂]
      refine ⟨rfl, rfl, rfl, serialFifoReadCmdNone_ne_move, hok', fun _ b bs heq => ?_,
        fun hne => absurd hmove hne⟩
      cases hcont.symm.trans (hcont₂.trans heq)
    | cons b bs =>
      obtain ⟨rd', hok', hcont', hside'⟩ :=
        rxSide_readCommand_of_cons hok₂ (hcmd.trans hmove) hcont
      rw [hside', hside₂]
      refine ⟨rfl, rfl, rfl, serialFifoReadCmdNone_ne_move, hok', fun _ b' bs' heq => ?_,
        fun hne => absurd hmove hne⟩
      obtain ⟨rfl, rfl⟩ := cons.inj (hcont.symm.trans (hcont₂.trans heq))
      exact ⟨hcont', rfl⟩
  · rw [serialFifoReadCommand, if_neg (hcmd ▸ hmove), hside₂]
    exact ⟨rfl, rfl, rfl, hmove, hok₂, fun heq => absurd heq hmove, fun _ => ⟨hcont₂, rfl⟩⟩

theorem serialRxTick_tick (hopen : c.isOpen = true) (hio : c.disableCpuIo = false) (hok : c.rd.Ok)
    (mid : List UInt8) :
    SerialRxTick (serialFifoAccepted mid c) c.rxSide (serialFifoTickChannel fd mid c).1.rxSide := by
  rw [serialFifoTickChannel, if_neg (by simp [hopen]), if_neg (by simp [hio]), rxSide_intr,
    rxSide_write]
  exact serialRxTick_read hok mid

end

/-! ## The guest that receives -/

inductive SerialRxPhase
  | idle
  | moved
  | ready
  deriving DecidableEq

structure SerialRxGuest where
  got : List UInt8
  phase : SerialRxPhase
  sawNone : Bool
  sawData : Bool
  sawDataLate : Bool
  justMoved : Bool

def IsRxMove (access : Option (SerialFifoReg × Option UInt8)) : Prop :=
  access = some (.readCmd, some serialFifoReadCmdMove)

instance decidableIsRxMove (access : Option (SerialFifoReg × Option UInt8)) :
    Decidable (IsRxMove access) :=
  inferInstanceAs (Decidable (access = some (.readCmd, some serialFifoReadCmdMove)))

def storesReadPtr : Option (SerialFifoReg × Option UInt8) → Bool
  | some (.readPtr, some _) => true
  | _ => false

def SerialRxGuest.observe (g : SerialRxGuest) (c : SerialFifoChannel)
    (access : Option (SerialFifoReg × Option UInt8)) : SerialRxGuest :=
  if IsRxMove access then
    { g with
      phase := .moved, sawNone := false, sawData := false, sawDataLate := false, justMoved := true }
  else if access = some (.readCmd, none) then
    let isNone := c.regs .readCmd == serialFifoReadCmdNone
    { g with
      sawNone := g.sawNone || isNone
      phase := if g.phase = .moved ∧ isNone = true then .ready else g.phase
      justMoved := false }
  else if access = some (.readStatus, none) then
    let dataIn := c.regs .readStatus == serialFifoReadStatusDataIn
    { g with
      sawData := g.sawData || dataIn
      sawDataLate := g.sawDataLate || dataIn && !g.justMoved
      justMoved := false }
  else if access = some (.readPtr, none) ∧ g.phase = .ready then
    { g with got := g.got ++ [c.regs .readPtr], phase := .idle, justMoved := false }
  else { g with justMoved := false }

/-- The device, the bytes that arrived, and what the guest has seen. -/
structure SerialRxState where
  dev : SerialFifoDevice
  received : List UInt8
  guest : SerialRxGuest

def SerialRxState.access (s : SerialRxState) (ch : Fin 8) (e : SerialFifoClock) :
    Option (SerialFifoReg × Option UInt8) :=
  e.instr.access s.dev.baseAddr ch

def serialRxArrived (ch : Fin 8) (s : SerialRxState) (e : SerialFifoClock) : List UInt8 :=
  serialFifoAccepted (e.arrive ch) (s.dev.channel ch) ++
    serialFifoAccepted (e.mid ch) (serialFifoBefore s.dev e ch)

def serialRxNext (ch : Fin 8) (s : SerialRxState) (e : SerialFifoClock) : SerialRxState where
  dev := serialFifoClock s.dev e
  received := s.received ++ serialRxArrived ch s e
  guest := s.guest.observe (s.dev.channel ch) (s.access ch e)

def serialRxStep (ch : Fin 8) (s : SerialRxState) (e : SerialFifoClock) :
    Option (SerialRxState × Unit) :=
  some (serialRxNext ch s e, ())

def serialRxStart (d : SerialFifoDevice) : SerialRxState where
  dev := (athrillDeviceSupplyClockSerialFifo (fun _ => []) d).1
  received := []
  guest := ⟨[], .idle, false, false, false, false⟩

/-- The device as its initialisation leaves it, with the channel in use. -/
structure SerialRxFresh (ch : Fin 8) (d : SerialFifoDevice) : Prop where
  base : d.baseAddr ≠ 0
  isOpen : (d.channel ch).isOpen = true
  cpuIo : (d.channel ch).disableCpuIo = false
  rd : ∃ junk size, (d.channel ch).rd = commFifoBufferCreate junk size
  cmd : (d.channel ch).regs .readCmd = serialFifoReadCmdNone

structure SerialRxOk (ch : Fin 8) (s : SerialRxState) : Prop where
  base : s.dev.baseAddr ≠ 0
  isOpen : (s.dev.channel ch).isOpen = true
  cpuIo : (s.dev.channel ch).disableCpuIo = false
  rd_ok : (s.dev.channel ch).rd.Ok
  cmd : (s.dev.channel ch).regs .readCmd ≠ serialFifoReadCmdMove

structure SerialRxClock (ch : Fin 8) (s : SerialRxState) (e : SerialFifoClock)
    (s' : SerialRxState) : Prop where
  ok : SerialRxOk ch s'
  move : IsRxMove (s.access ch e) →
    ∀ b bs, (s.dev.channel ch).rd.contents ++ serialRxArrived ch s e = b :: bs →
      (s'.dev.channel ch).rd.contents = bs ∧ (s'.dev.channel ch).regs .readPtr = b
  other : ¬ IsRxMove (s.access ch e) →
    (s'.dev.channel ch).rd.contents = (s.dev.channel ch).rd.contents ++ serialRxArrived ch s e
  ptr : ¬ IsRxMove (s.access ch e) → storesReadPtr (s.access ch e) = false →
    (s'.dev.channel ch).regs .readPtr = (s.dev.channel ch).regs .readPtr
  status : ¬ IsRxMove (s.access ch e) →
    (s'.dev.channel ch).regs .readStatus = serialFifoReadStatusDataIn →
    (s'.dev.channel ch).rd.contents ≠ []

section
variable {ch : Fin 8} {s s' : SerialRxState} {e : SerialFifoClock}

theorem serialFifoBefore_rxSide (hs : SerialRxOk ch s) (e : SerialFifoClock) :
    let b := serialFifoBefore s.dev e ch
    b.isOpen = true ∧ b.disableCpuIo = false ∧ b.rd.Ok ∧
      b.regs = ((s.dev.channel ch).exec (s.access ch e)).regs ∧
      b.rd.contents = (s.dev.channel ch).rd.contents ++
        serialFifoAccepted (e.arrive ch) (s.dev.channel ch) := by
  have hexec := (s.dev.channel ch).exec_eq (s.access ch e)
  simp only [SerialRxState.access] at hexec ⊢
  rw [serialFifoBefore, hexec]
  obtain ⟨hok, hcont⟩ := serialFifoReceive_spec hs.rd_ok (e.arrive ch)
  exact ⟨hs.isOpen, hs.cpuIo, hok, rfl, hcont⟩

theorem exec_readPtr {c : SerialFifoChannel} {access : Option (SerialFifoReg × Option UInt8)}
    (h : storesReadPtr access = false) : (c.exec access).regs .readPtr = c.regs .readPtr := by
  rcases access with _ | ⟨reg, _ | v⟩
  · rfl
  · rfl
  · cases reg <;> first | rfl | cases h

theorem serialRxClock_next (hs : SerialRxOk ch s) (e : SerialFifoClock) :
    SerialRxClock ch s e (serialRxNext ch s e) := by
  obtain ⟨hopen, hio, hok, hregs, hcont⟩ := serialFifoBefore_rxSide hs e
  have hchannel : (serialRxNext ch s e).dev.channel ch =
      (serialFifoTickChannel s.dev.fd (e.mid ch) (serialFifoBefore s.dev e ch)).1 :=
    serialFifoClock_channel hs.base e ch
  have htick : SerialRxTick (serialFifoAccepted (e.mid ch) (serialFifoBefore s.dev e ch))
      (serialFifoBefore s.dev e ch).rxSide ((serialRxNext ch s e).dev.channel ch).rxSide := by
    rw [hchannel]
    exact serialRxTick_tick hopen hio hok (e.mid ch)
  have hcmd : (serialFifoBefore s.dev e ch).rxSide.cmd = serialFifoReadCmdMove ↔
      IsRxMove (s.access ch e) := by
    rw [SerialFifoChannel.rxSide, hregs]
    exact SerialFifoChannel.exec_regs_eq_iff hs.cmd
  have hall : (serialFifoBefore s.dev e ch).rxSide.rd.contents ++
      serialFifoAccepted (e.mid ch) (serialFifoBefore s.dev e ch) =
        (s.dev.channel ch).rd.contents ++ serialRxArrived ch s e := by
    rw [serialRxArrived, ← append_assoc, ← hcont]
    rfl
  have hother : ¬ IsRxMove (s.access ch e) →
      ((serialRxNext ch s e).dev.channel ch).rd.contents =
          (s.dev.channel ch).rd.contents ++ serialRxArrived ch s e ∧
        ((serialRxNext ch s e).dev.channel ch).regs .readPtr =
          (serialFifoBefore s.dev e ch).regs .readPtr := by
    intro hmove
    obtain ⟨hrd, hptr⟩ := htick.other fun heq => hmove (hcmd.1 heq)
    exact ⟨hrd.trans hall, hptr⟩
  refine ⟨⟨?_, htick.isOpen.trans hopen, htick.disableCpuIo.trans hio, htick.rd_ok, htick.cmd⟩,
    fun hmove b bs heq => ?_, fun hmove => (hother hmove).1, fun hmove hptr => ?_,
    fun hmove hst => ?_⟩
  · exact (serialFifoClock_baseAddr s.dev e).symm ▸ hs.base
  · exact htick.move (hcmd.2 hmove) b bs (hall.trans heq)
  · rw [(hother hmove).2, hregs]
    exact exec_readPtr hptr
  · -- DATA_IN is published from the buffer before the tick, which keeps its bytes
    have hempty : ¬ (serialFifoBefore s.dev e ch).rd.isEmpty = true := by
      intro hempty
      have hst' := htick.status
      rw [if_pos (show (serialFifoBefore s.dev e ch).rxSide.rd.isEmpty = true from hempty)] at hst'
      exact absurd (hst'.symm.trans hst) (by decide)
    rw [CommFifoBufferType.isEmpty_iff] at hempty
    rw [(hother hmove).1, ← hall]
    exact fun hnil => hempty (append_eq_nil_iff.1 hnil).1

/-! ## Runs -/

def RxProtocol (ch : Fin 8) (s : SerialRxState) (e : SerialFifoClock) : Prop :=
  (IsRxMove (s.access ch e) →
    s.guest.phase = .idle ∧ s.guest.sawNone = true ∧ s.guest.sawData = true) ∧
  storesReadPtr (s.access ch e) = false

instance decidableRxProtocol (ch : Fin 8) (s : SerialRxState) (e : SerialFifoClock) :
    Decidable (RxProtocol ch s e) :=
  inferInstanceAs (Decidable ((_ → _ ∧ _ ∧ _) ∧ _))

/-- A MOVE finds a byte in `rd` or a byte arriving. -/
def RxHasData (ch : Fin 8) (s : SerialRxState) (e : SerialFifoClock) : Prop :=
  IsRxMove (s.access ch e) →
    (s.dev.channel ch).rd.isEmpty = false ∨ serialRxArrived ch s e ≠ []

/-- A MOVE follows a DATA_IN that was not read right after the MOVE before. -/
def RxLate (ch : Fin 8) (s : SerialRxState) (e : SerialFifoClock) : Prop :=
  IsRxMove (s.access ch e) → s.guest.sawDataLate = true

instance decidableRxLate (ch : Fin 8) (s : SerialRxState) (e : SerialFifoClock) :
    Decidable (RxLate ch s e) :=
  inferInstanceAs (Decidable (_ → _))

def SerialRxState.pending (s : SerialRxState) (ch : Fin 8) : List UInt8 :=
  if s.guest.phase = .idle then [] else [(s.dev.channel ch).regs .readPtr]

structure SerialRxRunOk (ch : Fin 8) (s : SerialRxState) : Prop extends SerialRxOk ch s where
  bytes : s.received = s.guest.got ++ s.pending ch ++ (s.dev.channel ch).rd.contents
  late : s.guest.sawDataLate = true → (s.dev.channel ch).rd.contents ≠ []
  status : s.guest.justMoved = false →
    (s.dev.channel ch).regs .readStatus = serialFifoReadStatusDataIn →
    (s.dev.channel ch).rd.contents ≠ []

theorem SerialRxGuest.late_of_observe {g : SerialRxGuest} {c : SerialFifoChannel}
    {access : Option (SerialFifoReg × Option UInt8)} (hmove : ¬ IsRxMove access)
    (h : (g.observe c access).sawDataLate = true) :
    g.sawDataLate = true ∨
      g.justMoved = false ∧ c.regs .readStatus = serialFifoReadStatusDataIn := by
  rw [SerialRxGuest.observe, if_neg hmove] at h
  by_cases hcmd : access = some (.readCmd, none)
  · rw [if_pos hcmd] at h
    exact .inl h
  rw [if_neg hcmd] at h
  by_cases hstatus : access = some (.readStatus, none)
  · rw [if_pos hstatus] at h
    simp only [Bool.or_eq_true, Bool.and_eq_true, beq_iff_eq, Bool.not_eq_true'] at h
    exact h.imp_right And.symm
  rw [if_neg hstatus] at h
  split_ifs at h <;> exact .inl h

theorem append_ne_nil_of_hasData (hdata : RxHasData ch s e) (hmove : IsRxMove (s.access ch e)) :
    (s.dev.channel ch).rd.contents ++ serialRxArrived ch s e ≠ [] := by
  intro hnil
  obtain ⟨hrd, harr⟩ := append_eq_nil_iff.1 hnil
  obtain hempty | hne := hdata hmove
  · rw [CommFifoBufferType.isEmpty_iff.2 hrd] at hempty
    cases hempty
  · exact hne harr

theorem SerialRxRunOk.next_move (hs : SerialRxRunOk ch s) (hidle : s.guest.phase = .idle)
    (hdata : RxHasData ch s e) (hmove : IsRxMove (s.access ch e)) :
    SerialRxRunOk ch (serialRxNext ch s e) := by
  have hclock := serialRxClock_next hs.toSerialRxOk e
  obtain ⟨b, bs, hcons⟩ := exists_cons_of_ne_nil (append_ne_nil_of_hasData hdata hmove)
  obtain ⟨hrd, hptr⟩ := hclock.move hmove b bs hcons
  have hguest : (serialRxNext ch s e).guest =
      { s.guest with
        phase := .moved, sawNone := false, sawData := false, sawDataLate := false,
        justMoved := true } := by
    simp [serialRxNext, SerialRxGuest.observe, hmove]
  have hbytes : s.received = s.guest.got ++ (s.dev.channel ch).rd.contents := by
    rw [hs.bytes, SerialRxState.pending, if_pos hidle, append_nil]
  refine ⟨hclock.ok, ?_, by simp [hguest], by simp [hguest]⟩
  rw [SerialRxState.pending, hguest, hptr, hrd]
  change s.received ++ serialRxArrived ch s e = _
  rw [hbytes, append_assoc, hcons]
  simp

theorem SerialRxRunOk.next_other (hs : SerialRxRunOk ch s)
    (hstore : storesReadPtr (s.access ch e) = false) (hmove : ¬ IsRxMove (s.access ch e)) :
    SerialRxRunOk ch (serialRxNext ch s e) := by
  have hclock := serialRxClock_next hs.toSerialRxOk e
  have hrd := hclock.other hmove
  have hptr := hclock.ptr hmove hstore
  have hkeep : (s.dev.channel ch).rd.contents ≠ [] →
      ((serialRxNext ch s e).dev.channel ch).rd.contents ≠ [] := by
    rw [hrd]
    exact fun hne hnil => hne (append_eq_nil_iff.1 hnil).1
  -- whatever the guest reads, the byte in the data register is either still pending or now read
  have hread : (serialRxNext ch s e).guest.got ++ (serialRxNext ch s e).pending ch =
      s.guest.got ++ s.pending ch := by
    simp only [SerialRxState.pending, hptr]
    simp only [serialRxNext, SerialRxGuest.observe, if_neg hmove]
    split_ifs <;> simp_all
  refine ⟨hclock.ok, ?_, fun hlate => hkeep ?_, fun _ hst => hclock.status hmove hst⟩
  · rw [hread, hrd, ← append_assoc, ← hs.bytes]
    rfl
  · obtain hlate | ⟨hjust, hdata⟩ := SerialRxGuest.late_of_observe hmove hlate
    · exact hs.late hlate
    · exact hs.status hjust hdata

theorem SerialRxRunOk.next (hs : SerialRxRunOk ch s) (hproto : RxProtocol ch s e)
    (hdata : RxHasData ch s e) : SerialRxRunOk ch (serialRxNext ch s e) := by
  by_cases hmove : IsRxMove (s.access ch e)
  · exact hs.next_move (hproto.1 hmove).1 hdata hmove
  · exact hs.next_other hproto.2 hmove

theorem serialRxRunOk_start {d : SerialFifoDevice} (hd : SerialRxFresh ch d) :
    SerialRxRunOk ch (serialRxStart d) := by
  obtain ⟨junk, size, hrd⟩ := hd.rd
  have hdevice := athrillDeviceSupplyClockSerialFifo_fst hd.base fun _ => []
  have htick : SerialRxTick (serialFifoAccepted [] (d.channel ch)) (d.channel ch).rxSide
      ((serialRxStart d).dev.channel ch).rxSide := by
    rw [serialRxStart, hdevice]
    exact serialRxTick_tick hd.isOpen hd.cpuIo (hrd ▸ ok_create ..) []
  have hcmd : (d.channel ch).rxSide.cmd ≠ serialFifoReadCmdMove := by
    rw [show (d.channel ch).rxSide.cmd = _ from hd.cmd]
    exact serialFifoReadCmdNone_ne_move
  have hnil : ((serialRxStart d).dev.channel ch).rd.contents = [] := by
    have hcont := (htick.other hcmd).1
    simpa [SerialFifoChannel.rxSide, hrd, serialFifoAccepted] using hcont
  have hstatus : ((serialRxStart d).dev.channel ch).regs .readStatus =
      serialFifoReadStatusNoData := by
    have hst := htick.status
    rwa [if_pos (by simp [SerialFifoChannel.rxSide, hrd, CommFifoBufferType.isEmpty_iff])] at hst
  refine ⟨⟨(congrArg (·.baseAddr) hdevice).trans_ne hd.base, htick.isOpen.trans hd.isOpen, htick.disableCpuIo.trans hd.cpuIo,
    htick.rd_ok, htick.cmd⟩, ?_, (fun h => by cases h), fun _ hst => ?_⟩
  · rw [hnil]
    rfl
  · exact absurd (hstatus.symm.trans hst) (by decide)

/-- **Receiving in order.** On a channel as its initialisation leaves it, for every guest that follows
the protocol and every behaviour of the threads: if every MOVE finds a byte, then at every time the
bytes the guest has read are a prefix of the bytes received. A guest has this if it does not rely on a
status read directly after its MOVE. -/
theorem serial_rx_prefix {d : SerialFifoDevice} (hd : SerialRxFresh ch d)
    (es : List SerialFifoClock)
    (hes : Machine.StepsMeet (serialRxStep ch)
        (fun s e => RxProtocol ch s e ∧ (RxHasData ch s e ∨ RxLate ch s e)) (serialRxStart d) es)
    {s : SerialRxState} {os : List Unit}
    (hrun : Machine.run (serialRxStep ch) (serialRxStart d) es = some (s, os)) :
    s.guest.got <+: s.received := by
  have hok : SerialRxRunOk ch s := by
    refine Machine.run_invariant_of_stepsMeet (SerialRxRunOk ch) (fun s e s' o hs hc hstep => ?_)
      es (serialRxRunOk_start hd) hes hrun
    cases hstep
    obtain ⟨hproto, hdata | hlate⟩ := hc
    · exact hs.next hproto hdata
    · refine hs.next hproto fun hmove => .inl ?_
      rw [Bool.eq_false_iff, Ne, CommFifoBufferType.isEmpty_iff]
      exact hs.late (hlate hmove)
  rw [hok.bytes, append_assoc]
  exact prefix_append _ _

end

theorem serialRxFresh_serialFifoSample : SerialRxFresh 0 serialFifoSample :=
  ⟨by decide, rfl, rfl, ⟨_, _, rfl⟩, rfl⟩

def rxLoad (reg : SerialFifoReg) : SerialFifoClock := .ofInstr (.load (serialFifoSampleAddr reg))

def rxMove : SerialFifoClock :=
  .ofInstr (.store (serialFifoSampleAddr .readCmd) serialFifoReadCmdMove)

def rxFirst : List SerialFifoClock :=
  [{ SerialFifoClock.ofInstr .other with arrive := fun _ => [5] }, rxLoad .readStatus,
    rxLoad .readCmd, rxMove, rxLoad .readCmd, rxLoad .readPtr]

theorem serial_rx_prefix_first :
    ∃ s os, Machine.run (serialRxStep 0) (serialRxStart serialFifoSample) rxFirst = some (s, os) ∧
      s.guest.got = [5] ∧ s.guest.got <+: s.received := by
  have hgot : ((Machine.run (serialRxStep 0) (serialRxStart serialFifoSample) rxFirst).map
      fun p => p.1.guest.got) = some [5] := by
    decide +kernel
  have hmeet : Machine.StepsMeet (serialRxStep 0) (fun s e => RxProtocol 0 s e ∧ RxLate 0 s e)
      (serialRxStart serialFifoSample) rxFirst := by
    decide +kernel
  obtain ⟨⟨s, os⟩, hrun, hp⟩ := Option.map_eq_some_iff.1 hgot
  refine ⟨s, os, hrun, hp, serial_rx_prefix serialRxFresh_serialFifoSample rxFirst ?_ hrun⟩
  exact hmeet.imp (fun _ => True) (fun _ _ _ _ _ _ _ => trivial)
    (fun _ _ _ hc => ⟨hc.1, .inr hc.2⟩) trivial

def rxRepeat : List SerialFifoClock :=
  [{ SerialFifoClock.ofInstr .other with arrive := fun _ => [5] }, rxLoad .readStatus,
    rxLoad .readCmd, rxMove, rxLoad .readStatus, rxLoad .readCmd, rxLoad .readPtr,
    rxMove, rxLoad .readCmd, rxLoad .readPtr]

/-- A guest that follows the protocol reads the one byte received twice. -/
theorem serial_rx_repeats_byte :
    SerialRxFresh 0 serialFifoSample ∧
    Machine.StepsMeet (serialRxStep 0) (RxProtocol 0) (serialRxStart serialFifoSample) rxRepeat ∧
    ∃ s os, Machine.run (serialRxStep 0) (serialRxStart serialFifoSample) rxRepeat = some (s, os) ∧
      s.guest.got = [5, 5] ∧ s.received = [5] ∧ ¬ s.guest.got <+: s.received := by
  refine ⟨serialRxFresh_serialFifoSample, by decide +kernel, ?_⟩
  have hgot : ((Machine.run (serialRxStep 0) (serialRxStart serialFifoSample) rxRepeat).map
      fun p => (p.1.guest.got, p.1.received)) = some ([5, 5], [5]) := by
    decide +kernel
  obtain ⟨⟨s, os⟩, hrun, hp⟩ := Option.map_eq_some_iff.1 hgot
  obtain ⟨hg, hr⟩ := Prod.mk.inj hp
  dsimp only at hg hr
  refine ⟨s, os, hrun, hg, hr, ?_⟩
  rw [hg, hr]
  decide

end Athrill
