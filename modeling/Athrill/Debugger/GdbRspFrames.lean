import Athrill.Debugger.GdbRsp

/-!
# Streams of frames

A client sends frames, with other bytes between them. Main result: `gdb_session_follows_iff`.
-/

namespace Athrill

open Bytes Strtoul List Option

/-! ## The checksum -/

def ChecksumDigits (c₀ c₁ : UInt8) (sum : Nat) : Prop :=
  ∃ v ∈ hexDigit c₀, ∃ w ∈ hexDigit c₁, 16 * v + w = sum

def OddChecksum (c₀ c₁ : UInt8) (sum : Nat) : Prop :=
  c₀ = 0 ∧ sum = 0 ∨ c₁ = 0 ∧ hexDigit c₀ = some sum ∨
    (isSpace c₀ = true ∨ c₀ = 43) ∧ hexDigit c₁ = some sum ∨ c₀ = 45 ∧ c₁ = 48 ∧ sum = 0

instance decidableChecksumDigits (c₀ c₁ : UInt8) (sum : Nat) : Decidable (ChecksumDigits c₀ c₁ sum) :=
  inferInstanceAs (Decidable (∃ v ∈ hexDigit c₀, ∃ w ∈ hexDigit c₁, 16 * v + w = sum))

theorem not_oddChecksum_of_digits {c₀ c₁ : UInt8} {sum : Nat} (h : ChecksumDigits c₀ c₁ sum) :
    ¬ OddChecksum c₀ c₁ sum := by
  obtain ⟨v, hv, w, hw, -⟩ := h
  obtain ⟨hspace, hminus, hplus, hzero⟩ := class_of_hexDigit hv
  obtain ⟨-, -, -, hzero'⟩ := class_of_hexDigit hw
  rintro (⟨h, -⟩ | ⟨h, -⟩ | ⟨h | h, -⟩ | ⟨h, -⟩)
  · exact hzero h
  · exact hzero' h
  · rw [hspace] at h
    cases h
  · exact hplus h
  · exact hminus h

theorem hexDigit_eq_zero {c : UInt8} (h : hexDigit c = some 0) : c = 48 := by
  simp only [hexDigit, UInt8.le_iff_toNat_le, UInt8.reduceToNat] at h
  simp only [← UInt8.toNat_inj, UInt8.reduceToNat]
  split_ifs at h with h₁ h₂ h₃
  · injection h
    omega
  · injection h
    omega
  · injection h
    omega

theorem checksumAccepted_iff {c₀ c₁ : UInt8} {sum : Nat} (hsum : sum < 256) :
    checksumAccepted c₀ c₁ sum = true ↔ ChecksumDigits c₀ c₁ sum ∨ OddChecksum c₀ c₁ sum := by
  have hzero : hexDigit 0 = none := rfl
  have hspace : isSpace 0 = false := rfl
  by_cases h₀ : c₀ = 0
  · subst h₀
    simp [checksumAccepted, CString.ofBytes, ChecksumDigits, OddChecksum, hzero, hspace, eq_comm]
  by_cases h₁ : c₁ = 0
  · subst h₁
    have htext : (CString.ofBytes [c₀, 0]).bytes = [c₀] := by simp [CString.ofBytes, h₀]
    cases hd₀ : hexDigit c₀ with
    | none =>
      have hrest : (strtoul [c₀]).rest ≠ [] := rest_strtoul_concat [] hd₀
      simp [checksumAccepted, htext, ChecksumDigits, OddChecksum, hzero, h₀, hd₀, hrest]
    | some v =>
      have hv := (hexDigit_eq_some hd₀).1
      simp [checksumAccepted, htext, strtoul_digit hd₀, ChecksumDigits, OddChecksum, hzero, h₀, hd₀]
      omega
  have htext : (CString.ofBytes [c₀, c₁]).bytes = [c₀, c₁] := by simp [CString.ofBytes, h₀, h₁]
  cases hd₁ : hexDigit c₁ with
  | none =>
    have hrest : (strtoul [c₀, c₁]).rest ≠ [] := rest_strtoul_concat [c₀] hd₁
    have hnot : c₁ ≠ 48 := by
      rintro rfl
      cases hd₁
    simp [checksumAccepted, htext, ChecksumDigits, OddChecksum, h₀, h₁, hd₁, hrest, hnot]
  | some w =>
    have hw := (hexDigit_eq_some hd₁).1
    cases hd₀ : hexDigit c₀ with
    | some v =>
      obtain ⟨hspace₀, hminus, hplus, -⟩ := class_of_hexDigit hd₀
      have hv := (hexDigit_eq_some hd₀).1
      simp [checksumAccepted, htext, strtoul_digits hd₀ hd₁, ChecksumDigits, OddChecksum, h₀, h₁, hd₀,
        hd₁, hspace₀, hminus, hplus]
      omega
    | none =>
      by_cases hminus : c₀ = 45
      · subst hminus
        have hplain : isSpace 45 = false := rfl
        have h48 : c₁ = 48 ↔ w = 0 := by
          constructor
          · rintro rfl
            exact (some.inj hd₁).symm
          · rintro rfl
            exact hexDigit_eq_zero hd₁
        simp [checksumAccepted, htext, strtoul_minus_digit hd₁, ChecksumDigits, OddChecksum, h₁, hd₀, hplain,
          h48]
        omega
      · by_cases hlead : isSpace c₀ = true ∨ c₀ = 43
        · simp [checksumAccepted, htext, strtoul_lead_digit hlead hd₁, ChecksumDigits, OddChecksum, h₀, h₁,
            hd₀, hd₁, hlead, hminus]
          omega
        · have hrest : (strtoul [c₀, c₁]).rest ≠ [] := by
            simp only [not_or, Bool.not_eq_true] at hlead
            exact rest_strtoul_pair_of_other hd₀ hlead.1 hminus hlead.2
          simp [checksumAccepted, htext, ChecksumDigits, OddChecksum, h₀, h₁, hd₀, hrest, hlead, hminus]

/-! ## Frames -/

structure RspFrame where
  gap : List UInt8
  payload : List UInt8
  c₀ : UInt8
  c₁ : UInt8
  gap_ne : ∀ b ∈ gap, b ≠ 36
  payload_ne : ∀ b ∈ payload, b ≠ 35
  length_le : payload.length ≤ rspPacketSize

namespace RspFrame

def bytes (f : RspFrame) : List UInt8 := f.gap ++ 36 :: (f.payload ++ [35, f.c₀, f.c₁])

def sum (f : RspFrame) : Nat := (f.payload.map UInt8.toNat).sum % 256

def Valid (f : RspFrame) : Prop := ChecksumDigits f.c₀ f.c₁ f.sum

def Odd (f : RspFrame) : Prop := OddChecksum f.c₀ f.c₁ f.sum

instance decidableValid (f : RspFrame) : Decidable f.Valid :=
  inferInstanceAs (Decidable (ChecksumDigits f.c₀ f.c₁ f.sum))

def events (f : RspFrame) : List RspEvent :=
  if f.Valid then [.sent 43, .dispatched f.payload] else [.sent 45]

theorem accepted_iff (f : RspFrame) : checksumAccepted f.c₀ f.c₁ f.sum = true ↔ f.Valid ∨ f.Odd :=
  checksumAccepted_iff (Nat.mod_lt _ (by decide))

end RspFrame

def frameStream (fs : List RspFrame) (tail : List UInt8) : List UInt8 :=
  fs.flatMap RspFrame.bytes ++ tail

theorem frameStream_cons (f : RspFrame) (fs : List RspFrame) (tail : List UInt8) :
    frameStream (f :: fs) tail = f.bytes ++ frameStream fs tail := by
  simp [frameStream]

theorem addChecksum_eq (payload : List UInt8) {checksum : Nat} (h : checksum < 256) :
    addChecksum checksum payload = (checksum + (payload.map UInt8.toNat).sum) % 256 := by
  induction payload generalizing checksum with
  | nil => exact (Nat.mod_eq_of_lt h).symm
  | cons ch payload ih =>
    have hstep := ih (Nat.mod_lt (checksum + ch.toNat) (by decide : 256 > 0))
    rw [addChecksum] at hstep ⊢
    rw [foldl_cons, hstep, map_cons, sum_cons]
    omega

theorem readPayload_append {payload packet : List UInt8} {capacity : Nat} (checksum : Nat)
    (rest : List UInt8) (hne : ∀ b ∈ payload, b ≠ 35) (hlen : packet.length + payload.length < capacity) :
    readPayload capacity checksum packet (payload ++ 35 :: rest) =
      .done (addChecksum checksum payload) (packet ++ payload) rest := by
  induction payload generalizing checksum packet with
  | nil => simp [readPayload, addChecksum]
  | cons ch payload ih =>
    rw [length_cons] at hlen
    have hroom : ¬ packet.length + 1 ≥ capacity := by omega
    have hlen' : (packet ++ [ch]).length + payload.length < capacity := by
      rw [length_append, length_singleton]
      omega
    rw [cons_append, readPayload, if_neg (hne ch mem_cons_self), if_neg hroom,
      ih _ (fun b hb => hne b (mem_cons_of_mem _ hb)) hlen', append_assoc]
    rfl

theorem readPacket_append {skipped : List UInt8} (h : ∀ b ∈ skipped, b ≠ 36) (input : List UInt8)
    (capacity : Nat) : readPacket (skipped ++ input) capacity = readPacket input capacity := by
  rw [readPacket, readPacket, dropWhile_append_of_pos]
  simpa using h

theorem readPacket_of_not_mem {input : List UInt8} (h : ∀ b ∈ input, b ≠ 36) (capacity : Nat) :
    readPacket input capacity = ⟨.ended, [], [], true⟩ := by
  rw [← append_nil input, readPacket_append h]
  rfl

theorem readPacket_frame (f : RspFrame) (rest : List UInt8) :
    readPacket (f.bytes ++ rest) (rspPacketSize + 1) =
      if checksumAccepted f.c₀ f.c₁ f.sum then ⟨.packet f.payload, [43], rest, false⟩
      else ⟨.refused, [45], rest, false⟩ := by
  have hsum : addChecksum 0 f.payload = f.sum := by
    rw [addChecksum_eq _ (by decide), Nat.zero_add, RspFrame.sum]
  have hbytes : f.bytes ++ rest = f.gap ++ 36 :: (f.payload ++ 35 :: f.c₀ :: f.c₁ :: rest) := by
    simp [RspFrame.bytes]
  have hlen : ([] : List UInt8).length + f.payload.length < rspPacketSize + 1 := by
    have := f.length_le
    simp only [length_nil]
    omega
  rw [hbytes, readPacket_append f.gap_ne, readPacket, dropWhile_cons_of_neg (by simp)]
  dsimp only
  rw [readPayload_append 0 _ f.payload_ne hlen, nil_append, hsum]

/-! ## The session -/

section
variable {σ : Type} {d : RspDispatcher σ} {s : σ} {input sent rest : List UInt8} {closed : Bool}

theorem sessionLoop_ended (h : readPacket input (rspPacketSize + 1) = ⟨.ended, sent, rest, closed⟩) :
    sessionLoop d s input = some ⟨s, sent.map .sent, closed, false⟩ := by
  rw [sessionLoop]
  simp [h, RspRead.len]

theorem sessionLoop_empty (h : readPacket input (rspPacketSize + 1) = ⟨.packet [], sent, rest, closed⟩) :
    sessionLoop d s input = some ⟨s, sent.map .sent, closed, false⟩ := by
  rw [sessionLoop]
  simp [h, RspRead.len]

theorem sessionLoop_refused (h : readPacket input (rspPacketSize + 1) = ⟨.refused, sent, rest, closed⟩) :
    sessionLoop d s input = (sessionLoop d s rest).map (·.after (sent.map .sent)) := by
  rw [sessionLoop]
  simp [h, RspRead.len]

theorem sessionLoop_packet {p : List UInt8} (hp : p ≠ [])
    (h : readPacket input (rspPacketSize + 1) = ⟨.packet p, sent, rest, closed⟩) :
    sessionLoop d s input = (d s p rest).bind fun r =>
      if r.result > 0 then
        some ⟨r.state, sent.map .sent ++ [.dispatched p], decide (rest.length < r.taken), true⟩
      else if r.result < 0 ∨ r.shouldClose then
        some ⟨r.state, sent.map .sent ++ [.dispatched p], decide (rest.length < r.taken), false⟩
      else
        (sessionLoop d r.state (rest.drop r.taken)).map
          (·.after (sent.map .sent ++ [.dispatched p])) := by
  rw [sessionLoop]
  simp [h, RspRead.len, RspRead.payload, hp]

theorem sessionLoop_drop {n : Nat} (h : ∀ b ∈ input.take n, b ≠ 36) :
    sessionLoop d s (input.drop n) = sessionLoop d s input := by
  have hread : readPacket (input.drop n) (rspPacketSize + 1) = readPacket input (rspPacketSize + 1) := by
    rw [← readPacket_append h, take_append_drop]
  rw [sessionLoop, hread, ← sessionLoop]

def RspDispatched.Continues (r : RspDispatched σ) : Prop := r.result = 0 ∧ r.shouldClose = false

theorem sessionLoop_dispatched {p : List UInt8} (hp : p ≠ []) {r : RspDispatched σ}
    (h : readPacket input (rspPacketSize + 1) = ⟨.packet p, sent, rest, closed⟩) (hr : d s p rest = some r) :
    (r.Continues → sessionLoop d s input = (sessionLoop d r.state (rest.drop r.taken)).map
        (·.after (sent.map .sent ++ [.dispatched p]))) ∧
      (¬ r.Continues → ∃ stopped, sessionLoop d s input = some
        ⟨r.state, sent.map .sent ++ [.dispatched p], decide (rest.length < r.taken), stopped⟩) := by
  rw [sessionLoop_packet hp h, hr, bind_some]
  constructor
  · rintro ⟨hresult, hclose⟩
    simp [hresult, hclose]
  · intro hnot
    split_ifs with hpos hneg
    · exact ⟨true, rfl⟩
    · exact ⟨false, rfl⟩
    · simp only [not_or, Bool.not_eq_true] at hneg
      exact absurd ⟨by omega, hneg.2⟩ hnot

/-! ## Streams -/

/-- The session dispatches the payloads of the valid frames, in order, answers `-` to the others and lasts until
the client closes the connection. -/
def SessionFollows (d : RspDispatcher σ) (s : σ) (fs : List RspFrame) (tail : List UInt8) : Prop :=
  ∃ e, sessionLoop d s (frameStream fs tail) = some e ∧ e.events = fs.flatMap RspFrame.events ∧
    e.closed = true

/-- A handler leaves the next frames when there is no `$` among the bytes that it takes from the connection. -/
def RspDispatched.Leaves (r : RspDispatched σ) (rest : List UInt8) : Prop := ∀ b ∈ rest.take r.taken, b ≠ 36

/-- No frame is odd, no valid one is empty, and the handler of each valid one leaves the frames behind it and does
not end the session before the client does. -/
def SessionFits (d : RspDispatcher σ) (tail : List UInt8) : σ → List RspFrame → Prop
  | _, [] => True
  | s, f :: fs =>
    ¬ f.Odd ∧
      if f.Valid then
        f.payload ≠ [] ∧ ∃ r, d s f.payload (frameStream fs tail) = some r ∧ r.Leaves (frameStream fs tail) ∧
          (r.Continues ∨ (frameStream fs tail).length < r.taken) ∧ SessionFits d tail r.state fs
      else SessionFits d tail s fs

/-- Along the session every handler leaves the frames behind its own, as for a client that waits for the answer
to a packet before it sends the next one. -/
def SessionLeaves (d : RspDispatcher σ) (tail : List UInt8) : σ → List RspFrame → Prop
  | _, [] => True
  | s, f :: fs =>
    if f.Valid then
      ∀ r, d s f.payload (frameStream fs tail) = some r →
        r.Leaves (frameStream fs tail) ∧ SessionLeaves d tail r.state fs
    else SessionLeaves d tail s fs

variable {tail : List UInt8} {fs : List RspFrame} {f : RspFrame}

theorem eq_nil_of_taken {n : Nat}
    (h : ∀ b ∈ (frameStream fs tail).take n, b ≠ 36) (hn : (frameStream fs tail).length < n) : fs = [] := by
  cases fs with
  | nil => rfl
  | cons f fs =>
    rw [take_of_length_le hn.le] at h
    refine absurd rfl (h 36 ?_)
    simp [frameStream_cons, RspFrame.bytes]

theorem sessionFollows_nil (h : ∀ b ∈ tail, b ≠ 36) : SessionFollows d s [] tail :=
  ⟨_, sessionLoop_ended (readPacket_of_not_mem h _), rfl, rfl⟩

theorem sessionFollows_after {s' : σ} (h : sessionLoop d s (frameStream (f :: fs) tail) =
      (sessionLoop d s' (frameStream fs tail)).map (·.after f.events)) :
    SessionFollows d s (f :: fs) tail ↔ SessionFollows d s' fs tail := by
  simp only [SessionFollows, h, map_eq_some_iff, flatMap_cons]
  constructor
  · rintro ⟨-, ⟨e, he, rfl⟩, hevents, hclosed⟩
    exact ⟨e, he, append_cancel_left hevents, hclosed⟩
  · rintro ⟨e, he, hevents, hclosed⟩
    exact ⟨_, ⟨e, he, rfl⟩, congrArg _ hevents, hclosed⟩

theorem dispatched_of_sessionFollows (hvalid : f.Valid)
    (hread : readPacket (frameStream (f :: fs) tail) (rspPacketSize + 1) =
      ⟨.packet f.payload, [43], frameStream fs tail, false⟩) (h : SessionFollows d s (f :: fs) tail) :
    f.payload ≠ [] ∧ ∃ r, d s f.payload (frameStream fs tail) = some r := by
  obtain ⟨e, he, hevents, -⟩ := h
  rw [flatMap_cons, RspFrame.events, if_pos hvalid] at hevents
  by_cases hp : f.payload = []
  · rw [hp] at hread
    rw [sessionLoop_empty hread] at he
    cases he
    simp at hevents
  · cases hr : d s f.payload (frameStream fs tail) with
    | none => simp [sessionLoop_packet hp hread, hr] at he
    | some r => exact ⟨hp, r, rfl⟩

theorem sessionFollows_valid (hvalid : f.Valid) (hp : f.payload ≠ [])
    (hread : readPacket (frameStream (f :: fs) tail) (rspPacketSize + 1) =
      ⟨.packet f.payload, [43], frameStream fs tail, false⟩) {r : RspDispatched σ}
    (hr : d s f.payload (frameStream fs tail) = some r) (htaken : r.Leaves (frameStream fs tail)) :
    SessionFollows d s (f :: fs) tail ↔
      (r.Continues ∨ (frameStream fs tail).length < r.taken) ∧ SessionFollows d r.state fs tail := by
  have hevents : f.events = [.sent 43, .dispatched f.payload] := if_pos hvalid
  obtain ⟨hgoes, hends⟩ := sessionLoop_dispatched hp hread hr
  by_cases hcont : r.Continues
  · rw [sessionFollows_after (by rw [hgoes hcont, sessionLoop_drop htaken, hevents]; rfl)]
    simp [hcont]
  · -- the session ends here: all is done only if the client has closed the connection
    obtain ⟨stopped, hend⟩ := hends hcont
    simp only [SessionFollows, hend, some.injEq, exists_eq_left', hcont, false_or]
    constructor
    · rintro ⟨-, hclosed⟩
      have hlt := of_decide_eq_true hclosed
      obtain rfl := eq_nil_of_taken htaken hlt
      rw [RspDispatched.Leaves, take_of_length_le hlt.le] at htaken
      exact ⟨hlt, sessionFollows_nil htaken⟩
    · rintro ⟨hlt, -⟩
      obtain rfl := eq_nil_of_taken htaken hlt
      simp [hevents, hlt]

theorem not_sessionFollows_odd (hvalid : ¬ f.Valid)
    (hread : readPacket (frameStream (f :: fs) tail) (rspPacketSize + 1) =
      ⟨.packet f.payload, [43], frameStream fs tail, false⟩) : ¬ SessionFollows d s (f :: fs) tail := by
  have hevents : f.events = [.sent 45] := if_neg hvalid
  rintro ⟨e, he, heq, -⟩
  have hhead : e.events.head? = some (.sent 45) := by rw [heq, flatMap_cons, hevents]; rfl
  by_cases hp : f.payload = []
  · rw [hp] at hread
    rw [sessionLoop_empty hread] at he
    cases he
    cases hhead
  cases hr : d s f.payload (frameStream fs tail) with
  | none =>
    rw [sessionLoop_packet hp hread, hr] at he
    cases he
  | some r =>
    obtain ⟨hgoes, hends⟩ := sessionLoop_dispatched hp hread hr
    by_cases hcont : r.Continues
    · rw [hgoes hcont] at he
      obtain ⟨e', -, rfl⟩ := map_eq_some_iff.1 he
      cases hhead
    · obtain ⟨stopped, hend⟩ := hends hcont
      rw [hend] at he
      cases he
      cases hhead

/-- A packet without `#` that fits the buffer is read back from its own frame. -/
def PacketsReturn : Prop :=
  ∀ packet : CString, (∀ b ∈ packet.bytes, b ≠ 35) → packet.bytes.length ≤ rspPacketSize →
    ∃ frame, sendPacket packet = some frame ∧ ∀ rest,
      readPacket (frame ++ rest) (rspPacketSize + 1) = ⟨.packet packet.bytes, [43], rest, false⟩

theorem packetsReturn : PacketsReturn := by
  intro packet hne hlen
  have hsum : addChecksum 0 packet.bytes = (packet.bytes.map UInt8.toNat).sum % 256 := by
    rw [addChecksum_eq _ (by decide), Nat.zero_add]
  generalize hc : addChecksum 0 packet.bytes = c at hsum
  have hlt : c < 256 := hsum ▸ Nat.mod_lt _ (by decide)
  let f : RspFrame := ⟨[], packet.bytes, hexChar (c / 16), hexChar (c % 16), by simp, hne, hlen⟩
  have hvalid : f.Valid :=
    ⟨_, hexDigit_hexChar (by omega), _, hexDigit_hexChar (by omega), (Nat.div_add_mod c 16).trans hsum⟩
  refine ⟨f.bytes, ?_, fun rest => ?_⟩
  · simp [sendPacket, Nat.not_lt.2 hlen, hc, f, RspFrame.bytes, hexEncode,
      Nat.mod_eq_of_lt hlt]
  · rw [readPacket_frame, if_pos (f.accepted_iff.2 (.inl hvalid))]

/-- The session follows every stream of frames of which none is odd, no valid one is empty and no handler ends
the session or takes a `$` of the frames behind its own. For handlers that leave those frames the condition is
exact. Packets that are sent are received. -/
theorem gdb_session_follows_iff (d : RspDispatcher σ) {tail : List UInt8} (htail : ∀ b ∈ tail, b ≠ 36)
    (s : σ) (fs : List RspFrame) :
    PacketsReturn ∧ (SessionFits d tail s fs → SessionFollows d s fs tail) ∧
      (SessionLeaves d tail s fs → (SessionFollows d s fs tail ↔ SessionFits d tail s fs)) := by
  refine ⟨packetsReturn, ?_⟩
  induction fs generalizing s with
  | nil => exact ⟨fun _ => sessionFollows_nil htail, fun _ => iff_of_true (sessionFollows_nil htail) trivial⟩
  | cons f fs ih =>
    have hread := readPacket_frame f (frameStream fs tail)
    rw [← frameStream_cons] at hread
    by_cases hvalid : f.Valid
    · have hodd : ¬ f.Odd := not_oddChecksum_of_digits hvalid
      rw [if_pos (f.accepted_iff.2 (.inl hvalid))] at hread
      rw [SessionFits, SessionLeaves, if_pos hvalid, if_pos hvalid, and_iff_right hodd]
      refine (and_iff_left_of_imp fun hfits hleaves => ⟨fun hfollows => ?_, hfits⟩).2 ?_
      · rintro ⟨hp, r, hr, htaken, hends, hfits⟩
        exact (sessionFollows_valid hvalid hp hread hr htaken).2 ⟨hends, (ih r.state).1 hfits⟩
      · obtain ⟨hp, r, hr⟩ := dispatched_of_sessionFollows hvalid hread hfollows
        obtain ⟨htaken, hrest⟩ := hleaves r hr
        obtain ⟨hends, hfollows⟩ := (sessionFollows_valid hvalid hp hread hr htaken).1 hfollows
        exact ⟨hp, r, hr, htaken, hends, ((ih r.state).2 hrest).1 hfollows⟩
    rw [SessionFits, SessionLeaves, if_neg hvalid, if_neg hvalid]
    by_cases hodd : f.Odd
    · rw [if_pos (f.accepted_iff.2 (.inr hodd))] at hread
      exact ⟨fun h => absurd hodd h.1, fun _ =>
        iff_of_false (not_sessionFollows_odd hvalid hread) fun h => h.1 hodd⟩
    · have hrefused : ¬ checksumAccepted f.c₀ f.c₁ f.sum = true := by
        rw [f.accepted_iff]
        exact not_or.2 ⟨hvalid, hodd⟩
      rw [if_neg hrefused] at hread
      have hevents : f.events = [.sent 45] := if_neg hvalid
      rw [sessionFollows_after (by rw [sessionLoop_refused hread, hevents]; rfl), and_iff_right hodd]
      exact ih s

end

/-! ## The packets of the server -/

section
variable {W : Nat} {ρ : Type} (T : GdbTarget W ρ)

def Untaken (o : Option (GdbOutcome W ρ)) : Prop := ∀ x ∈ o, x.taken = 0

@[simp] theorem untaken_none : Untaken (none : Option (GdbOutcome W ρ)) := fun _ h => by cases h

@[simp] theorem untaken_some_iff {o : GdbOutcome W ρ} : Untaken (some o) ↔ o.taken = 0 := by
  simp [Untaken]

@[simp] theorem untaken_ite_iff {c : Prop} [Decidable c] {o o' : Option (GdbOutcome W ρ)} :
    Untaken (if c then o else o') ↔ (c → Untaken o) ∧ (¬ c → Untaken o') := by
  split_ifs with h <;> simp [h]

section
variable (s : GdbState W ρ)
include s

@[simp] theorem untaken_sendReply (packet : List UInt8) :
    Untaken (sendReply T s packet) := untaken_some_iff.2 rfl

@[simp] theorem untaken_dispatchReadRegs : Untaken (dispatchReadRegs T s) := by
  unfold dispatchReadRegs
  cases readRegs T s.regs (range T.regCount) <;> simp

@[simp] theorem untaken_dispatchReadReg (text : List UInt8) :
    Untaken (dispatchReadReg T s text) := by
  unfold dispatchReadReg
  cases parseHexU32 text with
  | none => simp
  | some regno => cases hread : T.readReg s.regs regno.toNat <;> simp [hread]

@[simp] theorem untaken_writeReg (regno : BitVec 32) (text : List UInt8) :
    Untaken (writeReg T s regno text) := by
  unfold writeReg
  cases hexDecode text <;> simp

@[simp] theorem untaken_dispatchWriteReg (text : List UInt8) :
    Untaken (dispatchWriteReg T s text) := by
  unfold dispatchWriteReg
  cases strchr 61 text with
  | none => simp
  | some p => cases hreg : parseHexU32 p.1 <;> simp [hreg]

@[simp] theorem untaken_dispatchWriteRegs (text : List UInt8) :
    Untaken (dispatchWriteRegs T s text) := untaken_sendReply T _ _

@[simp] theorem untaken_dispatchReadMemory (text : List UInt8) :
    Untaken (dispatchReadMemory T s text) := by
  unfold dispatchReadMemory
  split
  · simp
  · split_ifs
    · simp
    · split
      · split_ifs
        · simp
        · split <;> simp
      · simp

@[simp] theorem untaken_dispatchWriteMemory (text : List UInt8) :
    Untaken (dispatchWriteMemory T s text) := by
  unfold dispatchWriteMemory
  split
  · simp
  · split
    · simp
    · split
      · split_ifs
        · simp
        · split <;> simp
      · simp

@[simp] theorem untaken_insertBreak (address : BitVec 32) :
    Untaken (insertBreak T s address) := untaken_sendReply T _ _

@[simp] theorem untaken_removeBreak (address : BitVec 32) :
    Untaken (removeBreak T s address) := by
  unfold removeBreak
  cases findBreak s.breaks address with
  | none => simp
  | some i => cases hdel : cpuctrlDelBreak s.breaks (BitVec.ofNat 32 i) <;> simp [hdel]

@[simp] theorem untaken_dispatchBreak (insert : Bool) (text : List UInt8) :
    Untaken (dispatchBreak T s insert text) := by
  unfold dispatchBreak
  split
  · simp
  · split
    · simp
    · split
      · simp
      · split <;> simp

end

theorem taken_awaitStop {rounds : List AwaitRound} (h : ∀ round ∈ rounds, round.readable = false)
    {input : List UInt8} {taken : Nat} {signal : UInt8} {e : AwaitEnd}
    (he : awaitStop rounds input taken signal = some e) : e.taken = taken := by
  induction rounds with
  | nil => cases he
  | cons round rounds ih =>
    have hround := h round mem_cons_self
    simp only [awaitStop, hround, Bool.false_eq_true, if_false] at he
    split_ifs at he with hmode
    · cases he
      rfl
    · exact ih (fun r hr => h r (mem_cons_of_mem _ hr)) he

def GdbTarget.ClientWaits : Prop := ∀ s, ∀ round ∈ (T.cont s).2, round.readable = false

variable {T}

theorem untaken_resume (hwait : T.ClientWaits) (s : GdbState W ρ) (stepping : Bool) (input : List UInt8) :
    Untaken (resume T s stepping input) := by
  unfold resume
  split
  · simp
  · intro x hx
    obtain ⟨e, he, rfl⟩ := map_eq_some_iff.1 hx
    have htaken := taken_awaitStop (hwait s) he
    cases e.signal <;> exact htaken

theorem untaken_dispatchResume (hwait : T.ClientWaits) (s : GdbState W ρ) (packet input : List UInt8) :
    Untaken (dispatchResume T s packet input) := by
  unfold dispatchResume
  cases parseHexU32 (packet.drop 1) <;> simp [untaken_resume hwait]

theorem taken_gdbDispatcher (hwait : T.ClientWaits) {s : GdbState W ρ} {p rest : List UInt8}
    {r : RspDispatched (GdbState W ρ)} (hr : gdbDispatcher T s p rest = some r) : r.taken = 0 := by
  have huntaken : Untaken (dispatchPacket T s (CString.ofBytes p).bytes rest) := by
    simp [dispatchPacket, untaken_dispatchResume hwait]
  obtain ⟨o, ho, rfl⟩ := map_eq_some_iff.1 hr
  exact huntaken o ho

theorem sessionLeaves_gdbDispatcher (hwait : T.ClientWaits) (tail : List UInt8) (s : GdbState W ρ)
    (fs : List RspFrame) : SessionLeaves (gdbDispatcher T) tail s fs := by
  induction fs generalizing s with
  | nil => trivial
  | cons f fs ih =>
    rw [SessionLeaves]
    split_ifs
    · exact fun r hr => ⟨by simp [RspDispatched.Leaves, taken_gdbDispatcher hwait hr], ih r.state⟩
    · exact ih s

end

/-! ## Two streams -/

def statusFrame : RspFrame := ⟨[], [63], 51, 102, by simp, by simp, by decide⟩

def emptyFrame : RspFrame := ⟨[], [], 48, 48, by simp, by simp, by decide⟩

theorem gdb_session_follows_status :
    SessionLeaves (gdbDispatcher haltedTarget) [] haltedState [statusFrame, statusFrame] ∧
      SessionFollows (gdbDispatcher haltedTarget) haltedState [statusFrame, statusFrame] [] := by
  have hwait : haltedTarget.ClientWaits := by
    intro s round hround
    rw [mem_singleton.1 hround]
  have hodd : ¬ statusFrame.Odd := not_oddChecksum_of_digits (by decide)
  have hvalid : statusFrame.Valid := by decide
  have hdispatch : ∀ rest, gdbDispatcher haltedTarget haltedState [63] rest =
      some ⟨haltedState, 0, false, 0⟩ := fun _ => rfl
  have hleaves := sessionLeaves_gdbDispatcher hwait [] haltedState [statusFrame, statusFrame]
  refine ⟨hleaves, ((gdb_session_follows_iff _ (by simp) haltedState _).2.2 hleaves).2 ?_⟩
  have hfits : ∀ fs, SessionFits (gdbDispatcher haltedTarget) [] haltedState fs →
      SessionFits (gdbDispatcher haltedTarget) [] haltedState (statusFrame :: fs) := fun fs hfs => by
    rw [SessionFits, if_pos hvalid]
    exact ⟨hodd, cons_ne_nil _ _, _, hdispatch _, by simp [RspDispatched.Leaves], .inl ⟨rfl, rfl⟩, hfs⟩
  exact hfits _ (hfits _ trivial)

/-- An empty packet is acknowledged and ends the session: the next frame is not read. -/
theorem gdb_empty_packet_ends_session :
    sessionLoop (gdbDispatcher haltedTarget) haltedState (frameStream [emptyFrame, statusFrame] []) =
        some ⟨haltedState, [.sent 43], false, false⟩ ∧
      emptyFrame.events = [.sent 43, .dispatched []] ∧
      statusFrame.events = [.sent 43, .dispatched [63]] := by
  have hread : readPacket (frameStream [emptyFrame, statusFrame] []) (rspPacketSize + 1) =
      ⟨.packet [], [43], [36, 63, 35, 51, 102], false⟩ := by decide
  exact ⟨sessionLoop_empty hread, by decide, by decide⟩

example : readPacket [36, 5, 35, 32, 53] (rspPacketSize + 1) = ⟨.packet [5], [43], [], false⟩ := by
  decide

end Athrill
