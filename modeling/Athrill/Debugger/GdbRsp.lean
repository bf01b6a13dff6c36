import Athrill.Lib.Strtoul
import Athrill.Debugger.BreakPoint
import Athrill.Mpu.Access

/-!
# The GDB server (`debugger/rsp/gdb_rsp.c`)

A client sends frames `$payload#hh` over a connection.
-/

namespace Athrill

open Bytes Strtoul List

def rspPacketSize : Nat := 8192

/-! ## Frames -/

def addChecksum (checksum : Nat) (payload : List UInt8) : Nat :=
  payload.foldl (fun checksum ch => (checksum + ch.toNat) % 256) checksum

inductive RspRead
  | ended
  | refused
  | packet (payload : List UInt8)
  deriving DecidableEq, Repr

def RspRead.len : RspRead → Int
  | .ended => 0
  | .refused => -1
  | .packet payload => payload.length

def RspRead.payload : RspRead → List UInt8
  | .packet payload => payload
  | _ => []

structure RspReceived where
  read : RspRead
  sent : List UInt8
  rest : List UInt8
  closed : Bool
  deriving DecidableEq, Repr

inductive PayloadEnd
  | closed
  | full (rest : List UInt8)
  | done (checksum : Nat) (packet rest : List UInt8)

def readPayload (capacity checksum : Nat) (packet : List UInt8) : List UInt8 → PayloadEnd
  | [] => .closed
  | ch :: rest =>
    if ch = 35 then .done checksum packet rest
    else if packet.length + 1 ≥ capacity then .full rest
    else readPayload capacity ((checksum + ch.toNat) % 256) (packet ++ [ch]) rest

def checksumAccepted (c₀ c₁ : UInt8) (checksum : Nat) : Bool :=
  let parsed := strtoul (CString.ofBytes [c₀, c₁]).bytes
  parsed.rest = [] ∧ parsed.value % 2 ^ 32 = checksum

def readPacket (input : List UInt8) (capacity : Nat) : RspReceived :=
  match input.dropWhile (· ≠ 36) with
  | [] => ⟨.ended, [], [], true⟩
  | _ :: input =>
    match readPayload capacity 0 [] input with
    | .closed => ⟨.ended, [], [], true⟩
    | .full rest => ⟨.ended, [], rest, false⟩
    | .done checksum packet (c₀ :: c₁ :: rest) =>
      if checksumAccepted c₀ c₁ checksum then ⟨.packet packet, [43], rest, false⟩
      else ⟨.refused, [45], rest, false⟩
    | .done _ _ _ => ⟨.ended, [], [], true⟩

def hexChar (n : Nat) : UInt8 := UInt8.ofNat (if n < 10 then 48 + n else 87 + n)

theorem hexDigit_hexChar {n : Nat} (h : n < 16) : hexDigit (hexChar n) = some n := by
  have hmod : ∀ m, m < 256 → (UInt8.ofNat m).toNat = m := fun m hm => UInt8.toNat_ofNat_of_lt hm
  unfold hexChar
  split_ifs with h10
  · simp only [hexDigit, UInt8.le_iff_toNat_le, UInt8.reduceToNat, hmod (48 + n) (by omega)]
    rw [if_pos (by omega), Nat.add_sub_cancel_left]
  · simp only [hexDigit, UInt8.le_iff_toNat_le, UInt8.reduceToNat, hmod (87 + n) (by omega)]
    rw [if_neg (by omega), if_pos (by omega), Nat.add_sub_cancel_left]

def hexEncode (data : List UInt8) : List UInt8 :=
  data.flatMap fun b => [hexChar (b.toNat / 16), hexChar (b.toNat % 16)]

def sendPacket (packet : CString) : Option (List UInt8) :=
  if packet.bytes.length > rspPacketSize then none
  else
    some (36 :: packet.bytes ++ 35 :: hexEncode [UInt8.ofNat (addChecksum 0 packet.bytes)])

/-! ## Sessions -/

structure RspDispatched (σ : Type) where
  state : σ
  taken : Nat
  shouldClose : Bool
  result : Int

abbrev RspDispatcher (σ : Type) : Type := σ → List UInt8 → List UInt8 → Option (RspDispatched σ)

inductive RspEvent
  | sent (ch : UInt8)
  | dispatched (payload : List UInt8)
  deriving DecidableEq, Repr

/-- The end of a session, with what the loop has done. -/
structure RspSession (σ : Type) where
  state : σ
  events : List RspEvent
  closed : Bool
  stopped : Bool

def RspSession.after {σ : Type} (events : List RspEvent) (e : RspSession σ) : RspSession σ :=
  { e with events := events ++ e.events }

theorem readPayload_rest_lt {capacity checksum checksum' : Nat} {packet packet' input rest : List UInt8}
    (h : readPayload capacity checksum packet input = .done checksum' packet' rest) :
    rest.length < input.length := by
  induction input generalizing checksum packet with
  | nil => cases h
  | cons ch input ih =>
    rw [readPayload] at h
    split_ifs at h
    · cases h
      exact Nat.lt_succ_self _
    · exact (ih h).trans (Nat.lt_succ_self _)

theorem readPacket_rest_lt {input : List UInt8} {capacity : Nat}
    (h : (readPacket input capacity).read.len ≠ 0) :
    (readPacket input capacity).rest.length < input.length := by
  unfold readPacket at h ⊢
  have hdrop := (dropWhile_suffix (l := input) fun b => decide (b ≠ 36)).length_le
  split at h
  · exact absurd rfl h
  · next input' heq =>
    rw [heq, length_cons] at hdrop
    split at h
    · exact absurd rfl h
    · exact absurd rfl h
    · next c₀ c₁ rest hdone =>
      have hlt := readPayload_rest_lt hdone
      simp only [length_cons] at hlt
      split <;> dsimp only <;> omega
    · exact absurd rfl h

def sessionLoop {σ : Type} (dispatch : RspDispatcher σ) (s : σ) (input : List UInt8) :
    Option (RspSession σ) :=
  let r := readPacket input (rspPacketSize + 1)
  if h : r.read.len = 0 then some ⟨s, r.sent.map .sent, r.closed, false⟩
  else if r.read.len < 0 then
    (sessionLoop dispatch s r.rest).map (·.after (r.sent.map .sent))
  else
    let events := r.sent.map .sent ++ [.dispatched r.read.payload]
    (dispatch s r.read.payload r.rest).bind fun d =>
      let closed := decide (r.rest.length < d.taken)
      if d.result > 0 then some ⟨d.state, events, closed, true⟩
      else if d.result < 0 ∨ d.shouldClose then some ⟨d.state, events, closed, false⟩
      else (sessionLoop dispatch d.state (r.rest.drop d.taken)).map (·.after events)
termination_by input.length
decreasing_by
  · exact readPacket_rest_lt h
  · rw [length_drop]
    exact (Nat.sub_le _ _).trans_lt (readPacket_rest_lt h)

/-! ## The target -/

structure GdbState (W : Nat) (ρ : Type) where
  bus : MpuState W
  regs : ρ
  breaks : BreakState

structure AwaitRound where
  readable : Bool
  debugMode : Bool
  deriving DecidableEq, Repr

/-- The functions of `gdb_rsp_target.h`, and what the CPU does in a step and until it stops. -/
structure GdbTarget (W : Nat) (ρ : Type) where
  regCount : Nat
  regSize : Nat → Nat
  readReg : ρ → Nat → Option (List UInt8)
  writeReg : ρ → Nat → List UInt8 → Bool × ρ
  setPc : ρ → BitVec 32 → ρ
  step : GdbState W ρ → GdbState W ρ
  cont : GdbState W ρ → GdbState W ρ × List AwaitRound
  sends : List UInt8 → Bool
  regSize_lt : ∀ reg, regSize reg < 2 ^ 31
  length_readReg : ∀ regs reg data, readReg regs reg = some data → data.length = regSize reg

/-- The end of `dispatch_packet`, with the packet it sends if it does. -/
structure GdbOutcome (W : Nat) (ρ : Type) where
  state : GdbState W ρ
  reply : Option (List UInt8)
  taken : Nat
  shouldClose : Bool
  result : Int

variable {W : Nat} {ρ : Type} (T : GdbTarget W ρ)

def GdbTarget.sendPacket (packet : List UInt8) : Int :=
  if packet.length > rspPacketSize then -1 else if T.sends packet then 0 else -1

def sendReply (s : GdbState W ρ) (packet : List UInt8) : Option (GdbOutcome W ρ) :=
  some ⟨s, some packet, 0, false, T.sendPacket packet⟩

/-- The replies `"OK"`, `"E01"`, `"E02"` and `"E03"`. -/
def replyOk : List UInt8 := ascii ['O', 'K']

@[inherit_doc replyOk]
def replyE01 : List UInt8 := ascii ['E', '0', '1']

@[inherit_doc replyOk]
def replyE02 : List UInt8 := ascii ['E', '0', '2']

@[inherit_doc replyOk]
def replyE03 : List UInt8 := ascii ['E', '0', '3']

/-! ## Texts -/

def strchr (c : UInt8) (text : List UInt8) : Option (List UInt8 × List UInt8) :=
  match text.dropWhile (· ≠ c) with
  | [] => none
  | _ :: after => some (text.takeWhile (· ≠ c), after)

def parseHexU32 (text : List UInt8) : Option (BitVec 32) :=
  let parsed := strtoul text
  if parsed.rest.length = text.length ∨ parsed.rest ≠ [] ∨ parsed.erange ∨ parsed.value > 0xffffffff then
    none
  else some (BitVec.ofNat 32 parsed.value)

def hexDecode : List UInt8 → Option (List UInt8)
  | hi :: lo :: text =>
    match hexDigit hi, hexDigit lo, hexDecode text with
    | some h, some l, some data => some (UInt8.ofNat (16 * h + l) :: data)
    | _, _, _ => none
  | _ => some []

def stopReply (signal : UInt8) : List UInt8 :=
  ascii ['T'] ++ hexEncode [signal] ++ ascii ['t', 'h', 'r', 'e', 'a', 'd', ':', '1', ';']

/-! ## Registers -/

def gdbDataSize : Nat := 4096

def readRegs (regs : ρ) : List Nat → Option (List UInt8)
  | [] => some []
  | reg :: rest =>
    if T.regSize reg > gdbDataSize then none
    else
      (readRegs regs rest).map fun text =>
        match T.readReg regs reg with
        | some data => hexEncode data ++ text
        | none => replicate (2 * T.regSize reg) 120 ++ text

def dispatchReadRegs (s : GdbState W ρ) : Option (GdbOutcome W ρ) :=
  (readRegs T s.regs (range T.regCount)).bind fun text =>
    if text.length > rspPacketSize then none else sendReply T s text

def dispatchReadReg (s : GdbState W ρ) (text : List UInt8) : Option (GdbOutcome W ρ) :=
  match parseHexU32 text with
  | none => sendReply T s replyE01
  | some regno =>
    if regno.toNat ≥ T.regCount then sendReply T s replyE01
    else if T.regSize regno.toNat > gdbDataSize then none
    else
      match T.readReg s.regs regno.toNat with
      | none => sendReply T s (replicate (2 * T.regSize regno.toNat) 120)
      | some data => sendReply T s (hexEncode data)

def countX (text : List UInt8) : Nat := (text.takeWhile (· = 120)).length

def writeReg (s : GdbState W ρ) (regno : BitVec 32) (text : List UInt8) : Option (GdbOutcome W ρ) :=
  let size := T.regSize regno.toNat
  if text.length ≠ size * 2 then sendReply T s replyE01
  else if countX text = size * 2 then sendReply T s replyOk
  else
    match hexDecode text with
    | none => sendReply T s replyE01
    | some data =>
      let r := T.writeReg s.regs regno.toNat data
      sendReply T { s with regs := r.2 } (if r.1 then replyOk else replyE02)

def dispatchWriteReg (s : GdbState W ρ) (text : List UInt8) : Option (GdbOutcome W ρ) :=
  match strchr 61 text with
  | none => sendReply T s replyE01
  | some (reg, value) =>
    match parseHexU32 reg with
    | none => sendReply T s replyE01
    | some regno =>
      if regno.toNat ≥ T.regCount then sendReply T s replyE01 else writeReg T s regno value

def writeRegs : List Nat → ρ → List UInt8 → List UInt8 × ρ
  | [], regs, cursor => (if cursor = [] then replyOk else replyE01, regs)
  | reg :: rest, regs, cursor =>
    let size := T.regSize reg
    if cursor.length < size * 2 then (replyE01, regs)
    else if countX cursor ≥ size * 2 then writeRegs rest regs (cursor.drop (size * 2))
    else
      match hexDecode (cursor.take (size * 2)) with
      | none => (replyE01, regs)
      | some data =>
        let r := T.writeReg regs reg data
        if r.1 then writeRegs rest r.2 (cursor.drop (size * 2)) else (replyE02, r.2)

def dispatchWriteRegs (s : GdbState W ρ) (text : List UInt8) : Option (GdbOutcome W ρ) :=
  let r := writeRegs T (range T.regCount) s.regs text
  sendReply T { s with regs := r.2 } r.1

/-! ## Memory -/

def readBytes (bus : MpuState W) (address : BitVec 32) : Nat → Option (Option (List UInt8) × MpuState W)
  | 0 => some (some [], bus)
  | n + 1 =>
    match mpuGetData8 bus (address.setWidth W) with
    | none => none
    | some (.error _, bus) => some (none, bus)
    | some (.ok b, bus) =>
      (readBytes bus (address + 1) n).map fun r => (r.1.map (UInt8.ofNat b :: ·), r.2)

def dispatchReadMemory (s : GdbState W ρ) (text : List UInt8) : Option (GdbOutcome W ρ) :=
  match strchr 44 text with
  | none => sendReply T s replyE01
  | some (addr, len) =>
    if addr.length ≥ 32 then sendReply T s replyE01
    else
      match parseHexU32 addr, parseHexU32 len with
      | some address, some length =>
        if length.toNat > gdbDataSize then sendReply T s replyE01
        else
          match readBytes s.bus address length.toNat with
          | none => none
          | some (none, bus) => sendReply T { s with bus := bus } replyE02
          | some (some data, bus) => sendReply T { s with bus := bus } (hexEncode data)
      | _, _ => sendReply T s replyE01

def writeBytes (bus : MpuState W) (address : BitVec 32) : List UInt8 → Option (Bool × MpuState W)
  | hi :: lo :: text =>
    match hexDigit hi, hexDigit lo with
    | some h, some l =>
      match mpuPutData8 bus (address.setWidth W) (BitVec.ofNat 8 (16 * h + l)) with
      | none => none
      | some (err, bus) =>
        if err = .ok then writeBytes bus (address + 1) text else some (false, bus)
    | _, _ => some (false, bus)
  | _ => some (true, bus)

def dispatchWriteMemory (s : GdbState W ρ) (text : List UInt8) : Option (GdbOutcome W ρ) :=
  match strchr 44 text with
  | none => sendReply T s replyE01
  | some (addr, text) =>
    match strchr 58 text with
    | none => sendReply T s replyE01
    | some (len, data) =>
      match parseHexU32 addr, parseHexU32 len with
      | some address, some length =>
        if length.toNat > gdbDataSize ∨ data.length ≠ length.toNat * 2 then sendReply T s replyE01
        else
          match writeBytes s.bus address data with
          | none => none
          | some (done, bus) =>
            sendReply T { s with bus := bus } (if done then replyOk else replyE02)
      | _, _ => sendReply T s replyE01

/-! ## Breakpoints -/

def findBreak (breaks : BreakState) (address : BitVec 32) : Option Nat :=
  (range breakSetsize).find? fun i => cpuctrlGetBreak breaks (BitVec.ofNat 32 i) = some address

def insertBreak (s : GdbState W ρ) (address : BitVec 32) : Option (GdbOutcome W ρ) :=
  let r := cpuctrlSetBreak s.breaks address .forever
  sendReply T { s with breaks := r.1 } (if r.2 then replyOk else replyE02)

def removeBreak (s : GdbState W ρ) (address : BitVec 32) : Option (GdbOutcome W ρ) :=
  match findBreak s.breaks address with
  | none => sendReply T s replyE03
  | some i =>
    (cpuctrlDelBreak s.breaks (BitVec.ofNat 32 i)).bind fun r =>
      sendReply T { s with breaks := r.1 } replyOk

def dispatchBreak (s : GdbState W ρ) (insert : Bool) (text : List UInt8) : Option (GdbOutcome W ρ) :=
  match strchr 44 text with
  | none => sendReply T s replyE01
  | some (type, text) =>
    match strchr 44 text with
    | none => sendReply T s replyE01
    | some (addr, size) =>
      if (strtoul type).value % 2 ^ 32 ≠ 0 then sendReply T s []
      else
        match parseHexU32 addr, parseHexU32 size with
        | some address, some size =>
          if size = 0 then sendReply T s replyE01
          else if insert then insertBreak T s address
          else removeBreak T s address
        | _, _ => sendReply T s []

/-! ## Resuming -/

structure AwaitEnd where
  taken : Nat
  signal : Option UInt8

def awaitStop : List AwaitRound → List UInt8 → Nat → UInt8 → Option AwaitEnd
  | [], _, _, _ => none
  | round :: rounds, input, taken, signal =>
    if round.readable then
      match input with
      | [] => some ⟨taken + 1, none⟩
      | ch :: input =>
        let signal := if ch = 3 then 2 else signal
        if round.debugMode then some ⟨taken + 1, some signal⟩
        else awaitStop rounds input (taken + 1) signal
    else if round.debugMode then some ⟨taken, some signal⟩
    else awaitStop rounds input taken signal

def resume (s : GdbState W ρ) (stepping : Bool) (input : List UInt8) : Option (GdbOutcome W ρ) :=
  if stepping then sendReply T (T.step s) (stopReply 5)
  else
    let r := T.cont s
    (awaitStop r.2 input 0 5).map fun e =>
      match e.signal with
      | none => ⟨r.1, none, e.taken, false, -1⟩
      | some signal => ⟨r.1, some (stopReply signal), e.taken, false, T.sendPacket (stopReply signal)⟩

def dispatchResume (s : GdbState W ρ) (packet input : List UInt8) : Option (GdbOutcome W ρ) :=
  let stepping := decide (packet.head? = some 115 ∨
    packet.take 7 = ascii ['v', 'C', 'o', 'n', 't', ';', 's'] ∨ [59, 115] <:+: packet)
  if packet.drop 1 ≠ [] ∧ packet.head? ≠ some 118 then
    match parseHexU32 (packet.drop 1) with
    | none => sendReply T s replyE01
    | some address => resume T { s with regs := T.setPc s.regs address } stepping input
  else resume T s stepping input

/-! ## All packets -/

def dispatchPacket (s : GdbState W ρ) (packet input : List UInt8) : Option (GdbOutcome W ρ) :=
  let text := packet.drop 1
  if packet.take 10 = ascii ['q', 'S', 'u', 'p', 'p', 'o', 'r', 't', 'e', 'd'] then
    sendReply T s (ascii ['P', 'a', 'c', 'k', 'e', 't', 'S', 'i', 'z', 'e', '=', '2', '0', '0', '0', ';',
      'v', 'C', 'o', 'n', 't', 'S', 'u', 'p', 'p', 'o', 'r', 't', 'e', 'd', '+'])
  else if packet = ascii ['?'] then sendReply T s (stopReply 5)
  else if packet = ascii ['q', 'A', 't', 't', 'a', 'c', 'h', 'e', 'd'] then sendReply T s (ascii ['1'])
  else if packet = ascii ['q', 'C'] then sendReply T s (ascii ['Q', 'C', '1'])
  else if packet = ascii ['q', 'f', 'T', 'h', 'r', 'e', 'a', 'd', 'I', 'n', 'f', 'o'] then
    sendReply T s (ascii ['m', '1'])
  else if packet = ascii ['q', 's', 'T', 'h', 'r', 'e', 'a', 'd', 'I', 'n', 'f', 'o'] then
    sendReply T s (ascii ['l'])
  else if packet.head? = some 72 then sendReply T s replyOk
  else if packet = ascii ['v', 'C', 'o', 'n', 't', '?'] then
    sendReply T s (ascii ['v', 'C', 'o', 'n', 't', ';', 'c', ';', 's'])
  else if packet = ascii ['D'] then
    some ⟨s, some replyOk, 0, true, T.sendPacket replyOk⟩
  else if packet.head? = some 107 then some ⟨s, none, 0, true, 1⟩
  else if packet.head? = some 103 then dispatchReadRegs T s
  else if packet.head? = some 112 then dispatchReadReg T s text
  else if packet.head? = some 80 then dispatchWriteReg T s text
  else if packet.head? = some 71 then dispatchWriteRegs T s text
  else if packet.head? = some 109 then dispatchReadMemory T s text
  else if packet.head? = some 90 then dispatchBreak T s true text
  else if packet.head? = some 122 then dispatchBreak T s false text
  else if packet.head? = some 99 ∨ packet.head? = some 115 ∨
      packet.take 7 = ascii ['v', 'C', 'o', 'n', 't', ';', 'c'] ∨
      packet.take 7 = ascii ['v', 'C', 'o', 'n', 't', ';', 's'] then dispatchResume T s packet input
  else if packet.head? = some 77 then dispatchWriteMemory T s text
  else sendReply T s []

def gdbDispatcher : RspDispatcher (GdbState W ρ) := fun s payload input =>
  (dispatchPacket T s (CString.ofBytes payload).bytes input).map fun o =>
    ⟨o.state, o.taken, o.shouldClose, o.result⟩

def haltedTarget : GdbTarget 32 Unit where
  regCount := 0
  regSize := fun _ => 0
  readReg := fun _ _ => none
  writeReg := fun regs _ _ => (false, regs)
  setPc := fun regs _ => regs
  step := id
  cont := fun s => (s, [⟨false, true⟩])
  sends := fun _ => true
  regSize_lt := fun _ => by decide
  length_readReg := fun _ _ _ h => by cases h

def haltedState : GdbState 32 Unit where
  bus := ⟨⟨[], []⟩, -1, -1⟩
  regs := ()
  breaks := BreakState.init

end Athrill
