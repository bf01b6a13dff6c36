import Athrill.Debugger.GdbRsp
import Athrill.Mpu.Cells

/-!
# Packets that write

The packets `M`, `G` and `P` are checked while they are carried out: `M` writes each byte before it looks at
the next digits, and `G` each register before it looks at the next one. Main result:
`gdb_error_reply_unchanged_iff`.
-/

namespace Athrill

open Bytes Strtoul Writes List Option

variable {W : Nat} {ρ : Type}

/-! ## Memory -/

def memoryRequest (text : List UInt8) : Option (BitVec 32 × List UInt8) :=
  (strchr 44 text).bind fun p => (strchr 58 p.2).bind fun q =>
    (parseHexU32 p.1).bind fun address => (parseHexU32 q.1).bind fun length =>
      if length.toNat > gdbDataSize ∨ q.2.length ≠ length.toNat * 2 then none else some (address, q.2)

def goodBytes : List UInt8 → List UInt8
  | hi :: lo :: text =>
    match hexDigit hi, hexDigit lo with
    | some h, some l => UInt8.ofNat (16 * h + l) :: goodBytes text
    | _, _ => []
  | _ => []

def putCells (bus : MpuState W) (address : BitVec 32) : List UInt8 → List (HostCell × UInt8)
  | [] => []
  | b :: bs =>
    match putCell bus (address.setWidth W) with
    | none => []
    | some c => (c, b) :: putCells (searchRegion bus (address.setWidth W) 1).2 (address + 1) bs

theorem putCells_congr {bus bus' : MpuState W} (hshape : bus'.addressMap.shape = bus.addressMap.shape)
    (hindex : bus'.previousIndex = bus.previousIndex) (address : BitVec 32) (bs : List UInt8) :
    putCells bus' address bs = putCells bus address bs := by
  induction bs generalizing bus bus' address with
  | nil => rfl
  | cons b bs ih =>
    have hnext : (searchRegion bus' (address.setWidth W) 1).2.previousIndex =
        (searchRegion bus (address.setWidth W) 1).2.previousIndex := by
      simp only [searchRegion, hindex, searchRegionFrom_congr hshape]
    rw [putCells, putCells, putCell_congr hshape hindex]
    cases putCell bus (address.setWidth W) with
    | none => rfl
    | some c =>
      have hrest := @ih (searchRegion bus (address.setWidth W) 1).2
        (searchRegion bus' (address.setWidth W) 1).2 hshape hnext (address + 1)
      exact congrArg _ hrest

section
variable {text : List UInt8} {bus bus' : MpuState W} {address : BitVec 32} {done : Bool}
  (h : writeBytes bus address text = some (done, bus'))
include h

theorem writeBytes_cells :
    cellByte bus'.addressMap = apply (cellByte bus.addressMap) (putCells bus address (goodBytes text)) ∧
      bus'.addressMap.shape = bus.addressMap.shape ∧
      (done = true ↔ (putCells bus address (goodBytes text)).length = text.length / 2) := by
  induction text using goodBytes.induct generalizing bus address with
  | case1 hi lo text v w hlo hhi ih =>
    have hgood : goodBytes (hi :: lo :: text) = UInt8.ofNat (16 * v + w) :: goodBytes text := by
      simp only [goodBytes, hhi, hlo]
    have hbyte : UInt8.ofNat (BitVec.ofNat 8 (16 * v + w)).toNat = UInt8.ofNat (16 * v + w) := by
      rw [BitVec.toNat_ofNat, UInt8.ofNat_mod_size]
    have hlen : (hi :: lo :: text).length / 2 = text.length / 2 + 1 := by
      simp only [length_cons]
      omega
    simp only [writeBytes, hhi, hlo] at h
    rw [hgood, hlen, putCells]
    cases hput : mpuPutData8 bus (address.setWidth W) (BitVec.ofNat 8 (16 * v + w)) with
    | none =>
      rw [hput] at h
      cases h
    | some r =>
      obtain ⟨err, bus₁⟩ := r
      simp only [hput] at h
      obtain ⟨hindex, hshape, ⟨hcell, herr, hmap⟩ | ⟨c, hcell, rfl, hbytes⟩⟩ := mpuPutData8_cases hput
      · -- the bus refuses the address: the loop ends here
        rw [if_neg herr] at h
        cases h
        simp [hcell, hmap]
      · rw [if_pos rfl] at h
        obtain ⟨hcells, hshape', hdone⟩ := ih h
        have hcongr := @putCells_congr W (searchRegion bus (address.setWidth W) 1).2 bus₁ hshape hindex
          (address + 1) (goodBytes text)
        rw [hcongr] at hcells hdone
        rw [hbytes, hbyte] at hcells
        simp only [hcell, length_cons, Nat.add_right_cancel_iff, hdone, and_true]
        exact ⟨by rw [hcells, ← apply_cons], hshape'.trans hshape⟩
  | case2 hi lo text hbad =>
    have hgood : goodBytes (hi :: lo :: text) = [] := by
      rw [goodBytes]
      split
      · next v w hv hw => exact absurd hw (hbad v w hv)
      · rfl
    have hend : writeBytes bus address (hi :: lo :: text) = some (false, bus) := by
      rw [writeBytes]
      split
      · next v w hv hw => exact absurd hw (hbad v w hv)
      · rfl
    cases hend.symm.trans h
    simp only [hgood, putCells, apply_nil, length_nil, length_cons, true_and, reduceCtorEq,
      false_iff]
    omega
  | case3 text hshort =>
    have hgood : goodBytes text = [] := goodBytes.eq_2 text hshort
    have hend : writeBytes bus address text = some (true, bus) := writeBytes.eq_2 bus address text hshort
    have hlen : text.length / 2 = 0 := by
      rcases text with - | ⟨a, - | ⟨b, text⟩⟩
      · simp
      · simp
      · exact absurd rfl (hshort a b text)
    cases hend.symm.trans h
    simp [hgood, putCells, hlen]

theorem writeBytes_unchanged_iff :
    bus'.addressMap = bus.addressMap ↔
      ∀ c b, last c (putCells bus address (goodBytes text)) = some b →
        cellByte bus.addressMap c = some b := by
  obtain ⟨hcells, hshape, -⟩ := writeBytes_cells h
  rw [← apply_eq_self_iff, ← hcells]
  exact ⟨fun heq => by rw [heq], eq_of_cellByte hshape⟩

end

def MemoryFits (bus : MpuState W) (text : List UInt8) : Prop :=
  ∀ address data, memoryRequest text = some (address, data) →
    (putCells bus address (goodBytes data)).length ≠ data.length / 2 →
    ∀ c b, last c (putCells bus address (goodBytes data)) = some b → cellByte bus.addressMap c = some b

/-! ## Registers -/

section
variable (T : GdbTarget W ρ)

def regRequest (text : List UInt8) : Option (Nat × List UInt8) :=
  (strchr 61 text).bind fun p => (parseHexU32 p.1).bind fun regno =>
    let size := T.regSize regno.toNat
    if regno.toNat ≥ T.regCount then none
    else if p.2.length ≠ size * 2 then none
    else if countX p.2 = size * 2 then none
    else (hexDecode p.2).map (regno.toNat, ·)

def RegFits (regs : ρ) (text : List UInt8) : Prop :=
  ∀ reg data, regRequest T text = some (reg, data) → (T.writeReg regs reg data).1 = false →
    (T.writeReg regs reg data).2 = regs

def regCalls : List Nat → List UInt8 → List (Nat × List UInt8) × Bool
  | [], cursor => ([], cursor = [])
  | reg :: rest, cursor =>
    let size := T.regSize reg
    if cursor.length < size * 2 then ([], false)
    else if countX cursor ≥ size * 2 then regCalls rest (cursor.drop (size * 2))
    else
      match hexDecode (cursor.take (size * 2)) with
      | none => ([], false)
      | some data =>
        let calls := regCalls rest (cursor.drop (size * 2))
        ((reg, data) :: calls.1, calls.2)

def runCalls : ρ → List (Nat × List UInt8) → Bool × ρ
  | regs, [] => (true, regs)
  | regs, call :: calls =>
    let r := T.writeReg regs call.1 call.2
    if r.1 then runCalls r.2 calls else (false, r.2)

def RegsFits (regs : ρ) (text : List UInt8) : Prop :=
  let calls := regCalls T (range T.regCount) text
  ¬ (calls.2 = true ∧ (runCalls T regs calls.1).1 = true) → (runCalls T regs calls.1).2 = regs

/-- A packet `M`, `G` or `P` that fails on the way has written what was there. -/
def PacketFits (s : GdbState W ρ) (packet : List UInt8) : Prop :=
  (packet.head? = some 77 → MemoryFits s.bus (packet.drop 1)) ∧
    (packet.head? = some 71 → RegsFits T s.regs (packet.drop 1)) ∧
    (packet.head? = some 80 → RegFits T s.regs (packet.drop 1))

/-- The reply is E01 or E02. -/
def GdbOutcome.IsError (o : GdbOutcome W ρ) : Prop := o.reply = some replyE01 ∨ o.reply = some replyE02

def GdbOutcome.Unchanged (o : GdbOutcome W ρ) (s : GdbState W ρ) : Prop :=
  o.state.bus.addressMap = s.bus.addressMap ∧ o.state.regs = s.regs

variable {T} {s : GdbState W ρ} {text : List UInt8} {o : GdbOutcome W ρ}

theorem writeRegs_calls (rs : List Nat) (regs : ρ) (cursor : List UInt8) :
    (writeRegs T rs regs cursor).2 = (runCalls T regs (regCalls T rs cursor).1).2 ∧
      ((writeRegs T rs regs cursor).1 = replyOk ∨ (writeRegs T rs regs cursor).1 = replyE01 ∨
        (writeRegs T rs regs cursor).1 = replyE02) ∧
      ((writeRegs T rs regs cursor).1 = replyOk ↔
        (regCalls T rs cursor).2 = true ∧ (runCalls T regs (regCalls T rs cursor).1).1 = true) := by
  have hE01 : replyE01 ≠ replyOk := by decide
  have hE02 : replyE02 ≠ replyOk := by decide
  induction rs generalizing regs cursor with
  | nil => by_cases hnil : cursor = [] <;> simp [writeRegs, regCalls, runCalls, hnil, hE01]
  | cons reg rs ih =>
    rw [writeRegs, regCalls]
    dsimp only
    split_ifs with hshort hx
    · simp [runCalls, hE01]
    · exact ih regs _
    · cases hexDecode (cursor.take (T.regSize reg * 2)) with
      | none => simp [runCalls, hE01]
      | some data =>
        simp only [runCalls]
        split_ifs with hok
        · exact ih _ _
        · simp [hE02]

/-! ## The packets -/

theorem dispatchWriteMemory_cases (h : dispatchWriteMemory T s text = some o) :
    (memoryRequest text = none ∧ o.state = s ∧ o.reply = some replyE01) ∨
      ∃ address data done bus, memoryRequest text = some (address, data) ∧
        writeBytes s.bus address data = some (done, bus) ∧ o.state = { s with bus := bus } ∧
        o.reply = some (if done then replyOk else replyE02) := by
  unfold dispatchWriteMemory at h
  unfold memoryRequest
  cases hp : strchr 44 text with
  | none =>
    simp only [hp] at h
    cases h
    exact .inl ⟨rfl, rfl, rfl⟩
  | some p =>
    simp only [hp, bind_some] at h ⊢
    cases hq : strchr 58 p.2 with
    | none =>
      simp only [hq] at h
      cases h
      exact .inl ⟨rfl, rfl, rfl⟩
    | some q =>
      simp only [hq, bind_some] at h ⊢
      cases ha : parseHexU32 p.1 with
      | none =>
        simp only [ha] at h
        cases h
        exact .inl ⟨rfl, rfl, rfl⟩
      | some address =>
        cases hl : parseHexU32 q.1 with
        | none =>
          simp only [ha, hl] at h
          cases h
          exact .inl ⟨rfl, rfl, rfl⟩
        | some length =>
          simp only [ha, hl, bind_some] at h ⊢
          split_ifs at h ⊢
          · cases h
            exact .inl ⟨rfl, rfl, rfl⟩
          · cases hw : writeBytes s.bus address q.2 with
            | none =>
              simp only [hw] at h
              cases h
            | some r =>
              simp only [hw] at h
              cases h
              exact .inr ⟨address, q.2, r.1, r.2, rfl, hw, rfl, rfl⟩

theorem dispatchWriteReg_cases (h : dispatchWriteReg T s text = some o) :
    (regRequest T text = none ∧ o.state = s) ∨
      ∃ reg data, regRequest T text = some (reg, data) ∧
        o.state = { s with regs := (T.writeReg s.regs reg data).2 } ∧
        o.reply = some (if (T.writeReg s.regs reg data).1 then replyOk else replyE02) := by
  unfold dispatchWriteReg writeReg at h
  unfold regRequest
  cases hp : strchr 61 text with
  | none =>
    simp only [hp] at h
    cases h
    exact .inl ⟨rfl, rfl⟩
  | some p =>
    simp only [hp, bind_some] at h ⊢
    cases hr : parseHexU32 p.1 with
    | none =>
      simp only [hr] at h
      cases h
      exact .inl ⟨rfl, rfl⟩
    | some regno =>
      simp only [hr, bind_some] at h ⊢
      split_ifs at h ⊢
      · cases h
        exact .inl ⟨rfl, rfl⟩
      · cases h
        exact .inl ⟨rfl, rfl⟩
      · cases h
        exact .inl ⟨rfl, rfl⟩
      · cases hd : hexDecode p.2 with
        | none =>
          simp only [hd] at h
          cases h
          exact .inl ⟨rfl, rfl⟩
        | some data =>
          simp only [hd] at h
          cases h
          exact .inr ⟨regno.toNat, data, rfl, rfl, rfl⟩

theorem dispatchPacket_writes (T : GdbTarget W ρ) (s : GdbState W ρ) (text input : List UInt8) :
    dispatchPacket T s (77 :: text) input = dispatchWriteMemory T s text ∧
      dispatchPacket T s (71 :: text) input = dispatchWriteRegs T s text ∧
      dispatchPacket T s (80 :: text) input = dispatchWriteReg T s text := by
  refine ⟨?_, ?_, ?_⟩ <;> simp [dispatchPacket, ascii]

theorem isError_iff {done : Bool} (h : o.reply = some (if done then replyOk else replyE02)) :
    o.IsError ↔ done = false := by
  have hE01 : replyE02 ≠ replyE01 := by decide
  have hOk : replyOk ≠ replyE01 ∧ replyOk ≠ replyE02 := by decide
  cases done <;> simp [GdbOutcome.IsError, h, hE01, hOk]

theorem memoryFits_iff (h : dispatchWriteMemory T s text = some o) :
    (o.IsError → o.Unchanged s) ↔ MemoryFits s.bus text := by
  obtain ⟨hreq, hstate, -⟩ | ⟨address, data, done, bus, hreq, hwrite, hstate, hreply⟩ :=
    dispatchWriteMemory_cases h
  · refine iff_of_true (fun _ => ?_) fun address data hsome => ?_
    · rw [GdbOutcome.Unchanged, hstate]
      exact ⟨rfl, rfl⟩
    · rw [hreq] at hsome
      cases hsome
  · obtain ⟨-, -, hdone⟩ := writeBytes_cells hwrite
    have hunchanged : o.Unchanged s ↔ bus.addressMap = s.bus.addressMap := by
      rw [GdbOutcome.Unchanged, hstate]
      exact and_iff_left rfl
    rw [isError_iff hreply, hunchanged, writeBytes_unchanged_iff hwrite, ← Bool.not_eq_true, hdone]
    constructor
    · intro hall address' data' hsome
      cases hreq.symm.trans hsome
      exact hall
    · exact fun hfits => hfits address data hreq

theorem regFits_iff (h : dispatchWriteReg T s text = some o) :
    (o.IsError → o.Unchanged s) ↔ RegFits T s.regs text := by
  obtain ⟨hreq, hstate⟩ | ⟨reg, data, hreq, hstate, hreply⟩ := dispatchWriteReg_cases h
  · refine iff_of_true (fun _ => ?_) fun reg data hsome => ?_
    · rw [GdbOutcome.Unchanged, hstate]
      exact ⟨rfl, rfl⟩
    · rw [hreq] at hsome
      cases hsome
  · have hunchanged : o.Unchanged s ↔ (T.writeReg s.regs reg data).2 = s.regs := by
      rw [GdbOutcome.Unchanged, hstate]
      exact and_iff_right rfl
    rw [isError_iff hreply, hunchanged]
    constructor
    · intro hall reg' data' hsome
      cases hreq.symm.trans hsome
      exact hall
    · exact fun hfits => hfits reg data hreq

theorem regsFits_iff (h : dispatchWriteRegs T s text = some o) :
    (o.IsError → o.Unchanged s) ↔ RegsFits T s.regs text := by
  obtain ⟨hregs, hreply, hok⟩ := @writeRegs_calls W ρ T (range T.regCount) s.regs text
  cases h
  have hunchanged : GdbOutcome.Unchanged
      ⟨{ s with regs := (writeRegs T (range T.regCount) s.regs text).2 },
        some (writeRegs T (range T.regCount) s.regs text).1, 0, false,
        T.sendPacket (writeRegs T (range T.regCount) s.regs text).1⟩ s ↔
      (runCalls T s.regs (regCalls T (range T.regCount) text).1).2 = s.regs := by
    rw [GdbOutcome.Unchanged, ← hregs]
    exact and_iff_right rfl
  have hE : replyE01 ≠ replyOk ∧ replyE02 ≠ replyOk := by decide
  rw [RegsFits, ← hok, hunchanged, GdbOutcome.IsError]
  refine imp_congr_left ?_
  constructor
  · rintro (herr | herr) hOk
    · exact hE.1 ((some.inj herr).symm.trans hOk)
    · exact hE.2 ((some.inj herr).symm.trans hOk)
  · intro hne
    rcases hreply with hOk | herr | herr
    · exact absurd hOk hne
    · exact .inl (congrArg some herr)
    · exact .inr (congrArg some herr)

/-- A packet that writes and is answered with an error leaves memory and registers as they were exactly
if the writes up to the error write what is there. -/
theorem gdb_error_reply_unchanged_iff {packet input : List UInt8}
    (hkind : packet.head? = some 77 ∨ packet.head? = some 71 ∨ packet.head? = some 80)
    (ho : dispatchPacket T s packet input = some o) :
    (o.IsError → o.Unchanged s) ↔ PacketFits T s packet := by
  cases packet with
  | nil => rcases hkind with h | h | h <;> cases h
  | cons c text =>
    obtain ⟨hM, hG, hP⟩ := dispatchPacket_writes T s text input
    rw [PacketFits, head?_cons, drop_one, tail_cons]
    rcases hkind with h | h | h
    · cases h
      rw [memoryFits_iff (hM.symm.trans ho)]
      simp
    · cases h
      rw [regsFits_iff (hG.symm.trans ho)]
      simp
    · cases h
      rw [regFits_iff (hP.symm.trans ho)]
      simp

end

/-! ## Two packets -/

def ramState : GdbState 32 Unit :=
  { haltedState with bus := ⟨⟨[], [romRamRegion (fun _ => 0) .ram 0x1000 64 none]⟩, -1, -1⟩ }

def writePacket (digits : List Char) : List UInt8 :=
  ascii (['M', '1', '0', '0', '0', ',', '2', ':'] ++ digits)

theorem gdb_error_reply_unchanged_zero :
    ∃ o, dispatchPacket haltedTarget ramState (writePacket ['0', '0', 'z', 'z']) [] = some o ∧
      o.IsError ∧ o.Unchanged ramState := by
  obtain ⟨o, ho, hreply⟩ : ∃ o, dispatchPacket haltedTarget ramState
      (writePacket ['0', '0', 'z', 'z']) [] = some o ∧ o.reply = some replyE02 := ⟨_, rfl, rfl⟩
  have hfits : MemoryFits ramState.bus ((writePacket ['0', '0', 'z', 'z']).drop 1) := by
    intro address data hreq hshort c b hlast
    have hreq' : memoryRequest ((writePacket ['0', '0', 'z', 'z']).drop 1) =
      some (0x1000, ascii ['0', '0', 'z', 'z']) := by decide
    cases hreq'.symm.trans hreq
    have hcells : putCells ramState.bus 0x1000 (goodBytes (ascii ['0', '0', 'z', 'z'])) =
      [((.dynamicMap 0, 0), 0)] := by decide
    rw [hcells, last, last_nil, none_or] at hlast
    split_ifs at hlast with hc
    subst hc
    cases hlast
    decide
  have hpacket : PacketFits haltedTarget ramState (writePacket ['0', '0', 'z', 'z']) :=
    ⟨fun _ => hfits, fun h => absurd h (by decide), fun h => absurd h (by decide)⟩
  exact ⟨o, ho, .inr hreply, (gdb_error_reply_unchanged_iff (.inl rfl) ho).2 hpacket (.inr hreply)⟩

/-- The packet `M1000,2:01zz` is answered with an error after it has written a byte. -/
theorem gdb_error_reply_after_write :
    (dispatchPacket haltedTarget ramState (writePacket ['0', '1', 'z', 'z']) []).map
        (fun o => (o.reply, cellByte o.state.bus.addressMap (.dynamicMap 0, 0))) =
      some (some replyE02, some 1) ∧
    cellByte ramState.bus.addressMap (.dynamicMap 0, 0) = some 0 := by
  decide

end Athrill
