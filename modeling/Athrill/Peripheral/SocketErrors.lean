import Athrill.Peripheral.SyscallSteps
import Athrill.Peripheral.SyscallSteps

/-!
# Errors of socket requests (`device/peripheral/athrill_syscall_device.c`)

The handlers of socket requests tell the guest how the host's calls went in `ret_value`: the error number of
a call that failed, negated, or the result. Main result: `athrill_syscall_socket_answered_iff`.
-/

namespace Athrill

open Bytes StateExcept SyscallState

variable {W : Nat}

/-! ## Requests and the host's calls -/

inductive SocketApi
  | bind
  | listen
  | accept
  | connect
  | select
  | send
  | recv
  deriving DecidableEq, Repr

/-- The handler that `syscall_table` has for the request. -/
def SocketApi.handler (host : HostOs) (arg : GuestPointer W) : SocketApi → Syscall W Unit
  | .bind => athrillSyscallBind host arg
  | .listen => athrillSyscallListen host arg
  | .accept => athrillSyscallAccept host arg
  | .connect => athrillSyscallConnect host arg
  | .select => athrillSyscallSelect host arg
  | .send => athrillSyscallSend host arg
  | .recv => athrillSyscallRecv host arg

def HostRet.Posix (r : HostRet) : Prop :=
  r.ret = -1 ∧ 0 < r.errno ∧ r.errno < 2 ^ 31 ∨ 0 ≤ r.ret

/-- The calls of a POSIX host on sockets; `select` counts the files that it leaves in the sets. -/
structure SocketHost (host : HostOs) : Prop where
  setReuseAddr : ∀ fd, (host.setReuseAddr fd).Posix ∧ (host.setReuseAddr fd).ret ≤ 0
  bind : ∀ fd sinAddr sinPort, (host.bind fd sinAddr sinPort).Posix
  listen : ∀ fd backlog, (host.listen fd backlog).Posix
  accept : ∀ fd, (host.accept fd).1.Posix ∧ (host.accept fd).1.ret < 2 ^ 31
  connect : ∀ fd sinAddr sinPort, (host.connect fd sinAddr sinPort).Posix
  select : ∀ r w e, (host.select r w e).1.Posix
  selectCount : ∀ r w e, 0 ≤ (host.select r w e).1.ret →
    (host.select r w e).1.ret = (fdCount (host.select r w e).2.1 + fdCount (host.select r w e).2.2.1 +
      fdCount (host.select r w e).2.2.2 : Nat)
  selectEmpty : ∀ r w e, (r = 0 → (host.select r w e).2.1 = 0) ∧ (w = 0 → (host.select r w e).2.2.1 = 0) ∧
    (e = 0 → (host.select r w e).2.2.2 = 0)
  send : ∀ fd bytes, (host.send fd bytes).Posix
  recv : ∀ fd len, (host.recv fd len).1.Posix

def Tells (calls : List HostRet) (result v : Int) : Prop :=
  (∀ r, calls.find? (·.ret < 0) = some r → v = -r.errno) ∧
    ((∀ r ∈ calls, 0 ≤ r.ret) → v = result ∧ 0 ≤ v)

section
variable (host : HostOs) (s : SyscallState W) (arg : GuestPointer W)

def socketAddresses : SocketApi → List (BitVec 32)
  | .listen => []
  | .accept => [s.field arg 16, s.field arg 20]
  | .select => [s.field arg 16, s.field arg 20, s.field arg 24].filter (· ≠ 0)
  | .bind | .connect | .send | .recv => [s.field arg 16]

def SyscallState.sockfd : Int := (s.field arg 12).toInt

def SyscallState.firstPointer : GuestPointer W := s.lookupUnchecked (s.field arg 16)

def SyscallState.addrlenPointer : GuestPointer W :=
  (s.looked (s.field arg 16)).lookupUnchecked (s.field arg 20)

def SyscallState.fdPointer (s : SyscallState W) (fds : BitVec 32) : Option (GuestPointer W) :=
  if fds = 0 then none else some (s.lookupUnchecked fds)

def SyscallState.fdPointers : Option (GuestPointer W) × Option (GuestPointer W) × Option (GuestPointer W) :=
  (s.fdPointer (s.field arg 16), (s.fdSetNext (s.field arg 16)).fdPointer (s.field arg 20),
    ((s.fdSetNext (s.field arg 16)).fdSetNext (s.field arg 20)).fdPointer (s.field arg 24))

def SyscallState.fdBits (s : SyscallState W) : Option (GuestPointer W) → BitVec 64
  | none => 0
  | some p => BitVec.ofNat 64 (leValue (s.bytes p 0 8))

def selectAnswer : HostRet × BitVec 64 × BitVec 64 × BitVec 64 :=
  host.select (s.fdBits (s.fdPointers arg).1) (s.fdBits (s.fdPointers arg).2.1)
    (s.fdBits (s.fdPointers arg).2.2)

def socketCalls : SocketApi → List HostRet
  | .bind => [host.setReuseAddr (s.sockfd arg),
      host.bind (s.sockfd arg) (s.bytes (s.firstPointer arg) 4 4) (s.bytes (s.firstPointer arg) 2 2)]
  | .listen => [host.listen (s.sockfd arg) (s.field arg 16).toInt]
  | .accept => [(host.accept (s.sockfd arg)).1]
  | .connect => [host.connect (s.sockfd arg) (s.bytes (s.firstPointer arg) 4 4)
      (s.bytes (s.firstPointer arg) 2 2)]
  | .select => [(selectAnswer host s arg).1]
  | .send => [host.send (s.sockfd arg) (s.bytes (s.firstPointer arg) 0 (s.field arg 20).toNat)]
  | .recv => [(host.recv (s.sockfd arg) (s.field arg 20).toNat).1]

def socketResult (api : SocketApi) : Int :=
  match api with
  | .bind | .listen | .connect => 0
  | .accept | .select | .send | .recv => ((socketCalls host s arg api).head?.map (·.ret)).getD 0

def socketUses : SocketApi → List (RegionAccess W)
  | .bind =>
    if (host.setReuseAddr (s.sockfd arg)).ret ≠ 0 then []
    else [s.access (s.firstPointer arg) 4 4, s.access (s.firstPointer arg) 2 2]
  | .listen => []
  | .accept =>
    if (host.accept (s.sockfd arg)).1.ret < 0 then []
    else [s.access (s.firstPointer arg) 0 1, s.access (s.firstPointer arg) 2 2,
      s.access (s.firstPointer arg) 4 4, s.access (s.addrlenPointer arg) 0 4]
  | .connect => [s.access (s.firstPointer arg) 4 4, s.access (s.firstPointer arg) 2 2]
  | .select =>
    ([(s.fdPointers arg).1, (s.fdPointers arg).2.1, (s.fdPointers arg).2.2].filterMap id).map
      (s.access · 0 8)
  | .send | .recv => [s.access (s.firstPointer arg) 0 (s.field arg 20).toNat]

/-- The handler returns, with the error of the host call that failed or with its result. -/
def SocketAnswered (api : SocketApi) : Prop :=
  Returns (api.handler host arg) s fun _ s' =>
    Tells (socketCalls host s arg api) (socketResult host s arg api) (s'.field arg 4).toInt

def SocketTold : SocketApi → Prop
  | .bind => (host.setReuseAddr (s.sockfd arg)).ret = 0 ∨
      (s.field arg 4).toInt = -(host.setReuseAddr (s.sockfd arg)).errno
  | .send => ∀ r ∈ socketCalls host s arg .send, if r.ret < 0 then r.errno = 1 else r.ret < 2 ^ 31
  | .recv => ∀ r ∈ socketCalls host s arg .recv, if r.ret < 0 then r.errno = 1 else r.ret < 2 ^ 31
  | .listen | .accept | .connect | .select => True

/-! ## What the handlers store -/

def answer (r : HostRet) (v : Int) : BitVec 32 := BitVec.ofInt 32 (if r.ret < 0 then -r.errno else v)

def fdTold (fds : BitVec 64) (r : Option (GuestPointer W)) : Nat := if r.isSome then fdCount fds else 0

def socketValue : SocketApi → BitVec 32
  | .bind =>
    if (host.setReuseAddr (s.sockfd arg)).ret ≠ 0 then s.field arg 4
    else answer (host.bind (s.sockfd arg) (s.bytes (s.firstPointer arg) 4 4)
      (s.bytes (s.firstPointer arg) 2 2)) 0
  | .listen => answer (host.listen (s.sockfd arg) (s.field arg 16).toInt) 0
  | .accept => answer (host.accept (s.sockfd arg)).1 (host.accept (s.sockfd arg)).1.ret
  | .connect => answer (host.connect (s.sockfd arg) (s.bytes (s.firstPointer arg) 4 4)
      (s.bytes (s.firstPointer arg) 2 2)) 0
  | .select => answer (selectAnswer host s arg).1
      (fdTold (selectAnswer host s arg).2.1 (s.fdPointers arg).1 +
        fdTold (selectAnswer host s arg).2.2.1 (s.fdPointers arg).2.1 +
        fdTold (selectAnswer host s arg).2.2.2 (s.fdPointers arg).2.2 : Nat)
  | .send => BitVec.ofInt 32
      (host.send (s.sockfd arg) (s.bytes (s.firstPointer arg) 0 (s.field arg 20).toNat)).ret
  | .recv => BitVec.ofInt 32 (host.recv (s.sockfd arg) (s.field arg 20).toNat).1.ret

end

section
variable {host : HostOs} {s : SyscallState W} {arg : GuestPointer W} {P : BitVec 32 → Prop}

theorem wp_retValue (harg : ArgInside s arg) (v : Int) :
    (Wp False (setRetValue arg v) s fun _ s' => P (s'.field arg 4)) ↔ P (BitVec.ofInt 32 v) := by
  rw [wp_setRetValue harg, field_withArg_ofInt harg (by decide)]

theorem wp_retOk (harg : ArgInside s arg) (r : HostRet) :
    (Wp False (setRetOk arg r) s fun _ s' => P (s'.field arg 4)) ↔ P (answer r 0) := by
  unfold setRetOk answer
  split_ifs
  · exact wp_retValue harg _
  · exact wp_retValue harg _

variable {Q : Unit → SyscallState W → Prop} {r : Option (GuestPointer W)}

theorem wp_mapped {addr : BitVec 32} {as : List (BitVec 32)} (hmapped : s.Mapped (addr :: as))
    {found : GuestPointer W → Syscall W Unit} :
    Wp False (onPointer addr orReturn found) s Q ↔
      Wp False (found (s.lookupUnchecked addr)) (s.looked addr) Q := by
  obtain ⟨p, hp⟩ := hmapped.1
  simp [hp, lookupUnchecked_of_ok hp]

theorem bytes_looked {addr : BitVec 32} {p : GuestPointer W} {off n : Nat} :
    (s.looked addr).bytes p off n = s.bytes p off n := rfl

/-- The handler returns exactly if it uses memory that is there, with `socketValue` in `ret_value`. -/
def WpSocket (host : HostOs) (s : SyscallState W) (arg : GuestPointer W) (P : BitVec 32 → Prop)
    (api : SocketApi) : Prop :=
  (Wp False (api.handler host arg) s fun _ s' => P (s'.field arg 4)) ↔
    (∀ a ∈ socketUses host s arg api, a.Inside) ∧ P (socketValue host s arg api)

section
variable (harg : ArgInside s arg)
include harg

theorem wp_socket_bind (hmapped : s.Mapped (socketAddresses s arg .bind)) :
    WpSocket host s arg P .bind := by
  have harg₁ : ArgInside (s.looked (s.field arg 16)) arg := argInside_looked.2 harg
  simp (disch := decide) only [WpSocket, SocketApi.handler, athrillSyscallBind, wp_bind, wp_argField harg,
    wp_mapped hmapped, wp_argInt harg₁, wp_ite, wp_pure, wp_load, if_false_right, field_looked, access_looked,
    bytes_looked, wp_retOk harg₁, socketUses, socketValue]
  by_cases hreuse : (host.setReuseAddr (s.sockfd arg)).ret ≠ 0
  · rw [if_pos hreuse, if_pos hreuse]
    exact (if_pos hreuse).to_iff.trans (by simp)
  · rw [if_neg hreuse, if_neg hreuse]
    exact (if_neg hreuse).to_iff.trans (by simp [firstPointer, sockfd, and_assoc])

theorem wp_socket_listen :
    WpSocket host s arg P .listen := by
  simp [WpSocket, SocketApi.handler, athrillSyscallListen, wp_argInt harg, wp_retOk harg, socketUses,
    socketValue,
    sockfd]

theorem wp_socket_accept (hmapped : s.Mapped (socketAddresses s arg .accept)) :
    WpSocket host s arg P .accept := by
  have harg₁ : ArgInside (s.looked (s.field arg 16)) arg := argInside_looked.2 harg
  have harg₂ : ArgInside ((s.looked (s.field arg 16)).looked (s.field arg 20)) arg :=
    argInside_looked.2 harg₁
  simp (disch := decide) only [WpSocket, SocketApi.handler, athrillSyscallAccept, wp_bind, wp_argField harg,
    wp_mapped hmapped, wp_argField harg₁, field_looked, wp_mapped hmapped.2, wp_argInt harg₂, wp_ite,
    wp_retValue harg₂, socketUses, socketValue, answer]
  by_cases hfail : (host.accept (s.sockfd arg)).1.ret < 0
  · rw [if_pos hfail, if_pos hfail]
    exact (if_pos hfail).to_iff.trans (by simp [sockfd])
  · rw [if_neg hfail, if_neg hfail]
    refine (if_neg hfail).to_iff.trans ?_
    simp only [acceptClient, wp_bind, wp_store, if_false_right]
    rw [wp_retValue (by simpa using harg)]
    simp [firstPointer, addrlenPointer, sockfd, and_assoc]

theorem wp_socket_connect (hmapped : s.Mapped (socketAddresses s arg .connect)) :
    WpSocket host s arg P .connect := by
  have harg₁ : ArgInside (s.looked (s.field arg 16)) arg := argInside_looked.2 harg
  simp (disch := decide) only [WpSocket, SocketApi.handler, athrillSyscallConnect, wp_bind, wp_argField harg,
    wp_mapped hmapped, wp_argInt harg₁, wp_load, if_false_right, field_looked, access_looked, bytes_looked,
    wp_retOk harg₁, socketUses, socketValue, sockfd, firstPointer]
  simp [and_assoc]

theorem wp_overwritten (r : HostRet) :
    (if r.ret < 0 then Wp False (setRetValue arg (-r.errno)) s fun _ s' =>
        Wp False (setRetValue arg r.ret) s' fun _ s'' => P (s''.field arg 4)
      else Wp False (setRetValue arg r.ret) s fun _ s' => P (s'.field arg 4)) ↔
      P (BitVec.ofInt 32 r.ret) := by
  split_ifs
  · rw [wp_setRetValue harg, wp_retValue (argInside_withArg.2 harg)]
  · exact wp_retValue harg _

theorem wp_socket_send (hmapped : s.Mapped (socketAddresses s arg .send)) :
    WpSocket host s arg P .send := by
  have harg₁ : ArgInside (s.looked (s.field arg 16)) arg := argInside_looked.2 harg
  simp (disch := decide) only [WpSocket, SocketApi.handler, athrillSyscallSend, wp_bind, wp_argField harg,
    wp_mapped hmapped, wp_argInt harg₁, wp_argField harg₁, wp_load, if_false_right, wp_ite, field_looked,
    access_looked, bytes_looked]
  refine (and_congr_right fun _ => wp_overwritten harg₁ _).trans ?_
  simp [socketUses, socketValue, sockfd, firstPointer]

theorem wp_socket_recv (hmapped : s.Mapped (socketAddresses s arg .recv)) :
    WpSocket host s arg P .recv := by
  have harg₁ : ArgInside (s.looked (s.field arg 16)) arg := argInside_looked.2 harg
  simp (disch := decide) only [WpSocket, SocketApi.handler, athrillSyscallRecv, wp_bind, wp_argField harg,
    wp_mapped hmapped, wp_argInt harg₁, wp_argField harg₁, wp_fill, if_false_right, wp_ite, field_looked,
    access_looked]
  refine (and_congr_right fun _ => wp_overwritten (argInside_written.2 harg₁) _).trans ?_
  simp [socketUses, socketValue, sockfd, firstPointer]

end

/-! ## Sets of files -/

theorem wp_onFdSet (harg : ArgInside s arg) {off : Nat} (hoff : off + 4 ≤ 32)
    {k : Option (GuestPointer W) → Syscall W Unit} (hmapped : ∃ r, s.fdSet (s.field arg off) = .ok r) :
    Wp False (onFdSet arg off k) s Q ↔
      Wp False (k (s.fdPointer (s.field arg off))) (s.fdSetNext (s.field arg off)) Q := by
  simp only [onFdSet, wp_bind, wp_argField harg hoff, wp_ite, wp_onPointer,
    fdSet, fdSetNext, fdPointer] at hmapped ⊢
  by_cases hfds : s.field arg off = 0
  · simp [hfds]
  · simp only [if_neg hfds] at hmapped ⊢
    cases hl : s.lookup (s.field arg off) with
    | error err => simp [hl, Except.map] at hmapped
    | ok p => simp [lookupUnchecked_of_ok hl]

theorem bytes_fdSetNext {fds : BitVec 32} {p : GuestPointer W} {off n : Nat} :
    (s.fdSetNext fds).bytes p off n = s.bytes p off n := by
  unfold fdSetNext
  split_ifs <;> rfl

def SyscallState.FdInside (s : SyscallState W) (r : Option (GuestPointer W)) : Prop :=
  ∀ p ∈ r, (s.access p 0 8).Inside

@[simp] theorem fdInside_writtenFds {r r' : Option (GuestPointer W)} {fds : BitVec 64} :
    (s.writtenFds r' fds).FdInside r ↔ s.FdInside r := by
  simp [SyscallState.FdInside]

theorem wp_fdSetIn {Q : BitVec 64 → SyscallState W → Prop} :
    Wp False (fdSetIn r) s Q ↔ s.FdInside r ∧ Q (s.fdBits r) s := by
  cases r <;> simp [fdSetIn, SyscallState.FdInside, fdBits]

theorem wp_fdSetClear :
    Wp False (fdSetClear r) s Q ↔ s.FdInside r ∧ Q () (s.writtenFds r 0) := by
  cases r <;> simp [fdSetClear, SyscallState.FdInside, writtenFds]

theorem wp_fdSetOut {fds : BitVec 64} {Q : Nat → SyscallState W → Prop} :
    Wp False (fdSetOut fds r) s Q ↔ s.FdInside r ∧ Q (fdTold fds r) (s.writtenFds r fds) := by
  cases r <;> simp [fdSetOut, SyscallState.FdInside, writtenFds, fdTold]

theorem wp_selectSets (harg : ArgInside s arg) (r w e : Option (GuestPointer W)) :
    (Wp False (selectSets host arg r w e) s fun _ s' => P (s'.field arg 4)) ↔
      (s.FdInside r ∧ s.FdInside w ∧ s.FdInside e) ∧
        P (answer (host.select (s.fdBits r) (s.fdBits w) (s.fdBits e)).1
          (fdTold (host.select (s.fdBits r) (s.fdBits w) (s.fdBits e)).2.1 r +
            fdTold (host.select (s.fdBits r) (s.fdBits w) (s.fdBits e)).2.2.1 w +
            fdTold (host.select (s.fdBits r) (s.fdBits w) (s.fdBits e)).2.2.2 e : Nat)) := by
  simp only [selectSets, wp_bind, wp_fdSetIn, wp_ite, wp_retValue harg, answer]
  by_cases hfail : (host.select (s.fdBits r) (s.fdBits w) (s.fdBits e)).1.ret < 0
  · simp only [if_pos hfail, and_assoc]
  · simp only [if_neg hfail, wp_fdSetClear, wp_fdSetOut, fdInside_writtenFds]
    rw [wp_retValue (by simpa using harg)]
    tauto

theorem wp_socket_select (harg : ArgInside s arg) (hmapped : s.Mapped (socketAddresses s arg .select)) :
    WpSocket host s arg P .select := by
  rw [socketAddresses, mapped_fds, mapped_fds, mapped_fds] at hmapped
  obtain ⟨hr, hw, he, -⟩ := hmapped
  have harg₁ : ArgInside (s.fdSetNext (s.field arg 16)) arg := argInside_fdSetNext.2 harg
  have harg₂ : ArgInside ((s.fdSetNext (s.field arg 16)).fdSetNext (s.field arg 20)) arg :=
    argInside_fdSetNext.2 harg₁
  have harg₃ : ArgInside (((s.fdSetNext (s.field arg 16)).fdSetNext (s.field arg 20)).fdSetNext
    (s.field arg 24)) arg := argInside_fdSetNext.2 harg₂
  have hinside : ∀ r, (((s.fdSetNext (s.field arg 16)).fdSetNext (s.field arg 20)).fdSetNext
      (s.field arg 24)).FdInside r ↔ s.FdInside r := fun r => by
    simp only [SyscallState.FdInside, access_fdSetNext]
  have hbits : ∀ r, (((s.fdSetNext (s.field arg 16)).fdSetNext (s.field arg 20)).fdSetNext
      (s.field arg 24)).fdBits r = s.fdBits r := fun r => by
    cases r with
    | none => rfl
    | some p => simp only [fdBits, bytes_fdSetNext]
  have huses : (∀ a ∈ socketUses host s arg .select, a.Inside) ↔ s.FdInside (s.fdPointers arg).1 ∧
      s.FdInside (s.fdPointers arg).2.1 ∧ s.FdInside (s.fdPointers arg).2.2 := by
    simp [socketUses, SyscallState.FdInside, or_imp, forall_and, @eq_comm _ (some _)]
  rw [WpSocket, SocketApi.handler, athrillSyscallSelect, wp_onFdSet harg (by decide) hr,
    wp_onFdSet harg₁ (by decide) (by rwa [field_fdSetNext]), field_fdSetNext,
    wp_onFdSet harg₂ (by decide) (by rwa [field_fdSetNext, field_fdSetNext]), field_fdSetNext,
    field_fdSetNext, wp_selectSets harg₃, huses, hinside, hinside, hinside, hbits, hbits, hbits]
  rfl

theorem wp_socket (harg : ArgInside s arg) (api : SocketApi)
    (hmapped : s.Mapped (socketAddresses s arg api)) : WpSocket host s arg P api := by
  cases api with
  | bind => exact wp_socket_bind harg hmapped
  | listen => exact wp_socket_listen harg
  | accept => exact wp_socket_accept harg hmapped
  | connect => exact wp_socket_connect harg hmapped
  | select => exact wp_socket_select harg hmapped
  | send => exact wp_socket_send harg hmapped
  | recv => exact wp_socket_recv harg hmapped

end

/-! ## What it tells -/

section
variable {r : HostRet} {v result : Int}

theorem tells_one : Tells [r] result v ↔
    (r.ret < 0 → v = -r.errno) ∧ (0 ≤ r.ret → v = result ∧ 0 ≤ v) := by
  by_cases hfail : r.ret < 0
  · simp [Tells, hfail]
  · simp [Tells, hfail]

theorem tells_cons_of_nonneg {calls : List HostRet} (h : 0 ≤ r.ret) :
    Tells (r :: calls) result v ↔ Tells calls result v := by
  have hpass : ¬ r.ret < 0 := Int.not_lt.2 h
  simp [Tells, hpass, h]

theorem tells_cons_of_fail {calls : List HostRet} (h : r.ret < 0) :
    Tells (r :: calls) result v ↔ v = -r.errno := by
  simp [Tells, h]

theorem toInt_ofInt_of_int (hlow : -2 ^ 31 ≤ v) (hhigh : v < 2 ^ 31) : (BitVec.ofInt 32 v).toInt = v :=
  BitVec.toInt_ofInt_eq_self (by decide) (by simpa using hlow) (by simpa using hhigh)

theorem tells_answer (hr : r.Posix) (hresult : 0 ≤ r.ret → v = result ∧ 0 ≤ v ∧ v < 2 ^ 31) :
    Tells [r] result (answer r v).toInt := by
  rw [tells_one, answer]
  rcases hr with ⟨hfail, hpos, hint⟩ | hpass
  · rw [hfail, if_pos (by decide), toInt_ofInt_of_int (by omega) (by omega)]
    exact ⟨fun _ => rfl, fun h => absurd h (by decide)⟩
  · obtain ⟨rfl, hnonneg, hint⟩ := hresult hpass
    rw [if_neg (Int.not_lt.2 hpass), toInt_ofInt_of_int (by omega) hint]
    exact ⟨fun h => absurd hpass (Int.not_le.2 h), fun _ => ⟨rfl, hnonneg⟩⟩

theorem tells_ret_iff (hr : r.Posix) :
    Tells [r] r.ret (BitVec.ofInt 32 r.ret).toInt ↔ if r.ret < 0 then r.errno = 1 else r.ret < 2 ^ 31 := by
  rw [tells_one]
  rcases hr with ⟨hfail, -, -⟩ | hpass
  · rw [hfail, if_pos (by decide), toInt_ofInt_of_int (by decide) (by decide)]
    exact ⟨fun h => by have := h.1 (by decide); omega, fun h => ⟨fun _ => by omega, fun h => by omega⟩⟩
  · rw [if_neg (Int.not_lt.2 hpass)]
    constructor
    · intro h
      have hlt := @BitVec.toInt_lt 32 (BitVec.ofInt 32 r.ret)
      rwa [(h.2 hpass).1] at hlt
    · intro hint
      rw [toInt_ofInt_of_int (by omega) hint]
      exact ⟨fun h => absurd hpass (Int.not_le.2 h), fun _ => ⟨rfl, hpass⟩⟩

theorem fdCount_zero : fdCount 0 = 0 := by
  simp [fdCount]

theorem fdTold_le (fds : BitVec 64) (r : Option (GuestPointer W)) : fdTold fds r ≤ 64 := by
  unfold fdTold
  split
  · exact List.countP_le_length.trans (by simp)
  · exact Nat.zero_le _

end

section
variable {host : HostOs} {s : SyscallState W} {arg : GuestPointer W}

theorem select_told (hhost : SocketHost host) (hpass : 0 ≤ (selectAnswer host s arg).1.ret) :
    ((fdTold (selectAnswer host s arg).2.1 (s.fdPointers arg).1 +
        fdTold (selectAnswer host s arg).2.2.1 (s.fdPointers arg).2.1 +
        fdTold (selectAnswer host s arg).2.2.2 (s.fdPointers arg).2.2 : Nat) : Int) =
      (selectAnswer host s arg).1.ret := by
  have hempty := hhost.selectEmpty (s.fdBits (s.fdPointers arg).1) (s.fdBits (s.fdPointers arg).2.1)
    (s.fdBits (s.fdPointers arg).2.2)
  have htold : ∀ {fds : BitVec 64} {r : Option (GuestPointer W)}, (s.fdBits r = 0 → fds = 0) →
      fdTold fds r = fdCount fds := by
    intro fds r hnone
    cases r with
    | none => rw [hnone rfl, fdCount_zero]; rfl
    | some p => rfl
  rw [selectAnswer] at hpass ⊢
  rw [hhost.selectCount _ _ _ hpass, htold hempty.1, htold hempty.2.1, htold hempty.2.2]

/-- **Socket requests.** For every request whose addresses are found and every outcome of the host's calls,
`ret_value` tells the guest how the request went if and only if the bytes that it uses lie inside their
regions and: for `bind`, `setsockopt` did not fail (or `ret_value` happened to be the negated error number
before); for `send` and `recv`, the call failed with error number 1 or transferred less than 2³¹ bytes. -/
theorem athrill_syscall_socket_answered_iff (hhost : SocketHost host) (harg : ArgInside s arg)
    (api : SocketApi) (hmapped : s.Mapped (socketAddresses s arg api)) :
    SocketAnswered host s arg api ↔
      (∀ a ∈ socketUses host s arg api, a.Inside) ∧ SocketTold host s arg api := by
  refine returns_iff.trans ((wp_socket (P := fun v => Tells (socketCalls host s arg api)
    (socketResult host s arg api) v.toInt) harg api hmapped).trans (and_congr_right fun _ => ?_))
  cases api with
  | bind =>
    obtain ⟨hreuse, hle⟩ := hhost.setReuseAddr (s.sockfd arg)
    simp only [socketCalls, socketResult, socketValue, SocketTold]
    by_cases hzero : (host.setReuseAddr (s.sockfd arg)).ret = 0
    · rw [if_neg (not_not.2 hzero), tells_cons_of_nonneg hzero.ge]
      exact iff_of_true (tells_answer (hhost.bind _ _ _) fun _ => ⟨rfl, by decide, by decide⟩) (.inl hzero)
    · rw [if_pos hzero, tells_cons_of_fail (by omega), or_iff_right hzero]
  | listen =>
    exact iff_of_true (tells_answer (hhost.listen _ _) fun _ => ⟨rfl, by decide, by decide⟩) trivial
  | accept =>
    obtain ⟨hposix, hint⟩ := hhost.accept (s.sockfd arg)
    exact iff_of_true (tells_answer hposix fun hpass => ⟨rfl, hpass, hint⟩) trivial
  | connect =>
    exact iff_of_true (tells_answer (hhost.connect _ _ _) fun _ => ⟨rfl, by decide, by decide⟩) trivial
  | select =>
    refine iff_of_true (tells_answer (hhost.select _ _ _) fun hpass => ⟨select_told hhost hpass,
      Int.natCast_nonneg _, ?_⟩) trivial
    have hr := fdTold_le (selectAnswer host s arg).2.1 (s.fdPointers arg).1
    have hw := fdTold_le (selectAnswer host s arg).2.2.1 (s.fdPointers arg).2.1
    have he := fdTold_le (selectAnswer host s arg).2.2.2 (s.fdPointers arg).2.2
    omega
  | send =>
    simp only [SocketTold, socketCalls, List.mem_singleton, forall_eq]
    exact tells_ret_iff (hhost.send _ _)
  | recv =>
    simp only [SocketTold, socketCalls, List.mem_singleton, forall_eq]
    exact tells_ret_iff (hhost.recv _ _)

end

/-! ## A request of each kind -/

theorem argInside_sendState : ArgInside (sendState 32) ramArg := argInside_guestRam rfl _

theorem socketHost_failingHost : SocketHost failingHost := by
  have hfail : (⟨-1, 1⟩ : HostRet).Posix := .inl ⟨rfl, by decide, by decide⟩
  have hneg : ¬ (0 : Int) ≤ -1 := by decide
  have hle : (-1 : Int) ≤ 0 := by decide
  have hint : (-1 : Int) < 2 ^ 31 := by decide
  exact ⟨fun _ => ⟨hfail, hle⟩, fun _ _ _ => hfail, fun _ _ => hfail, fun _ => ⟨hfail, hint⟩,
    fun _ _ _ => hfail, fun _ _ _ => hfail, fun _ _ _ h => absurd h hneg,
    fun _ _ _ => ⟨fun _ => rfl, fun _ => rfl, fun _ => rfl⟩, fun _ _ => hfail, fun _ _ => hfail⟩

theorem athrill_syscall_socket_answered_connect :
    SocketAnswered failingHost (sendState 32) ramArg .connect :=
  (athrill_syscall_socket_answered_iff socketHost_failingHost argInside_sendState .connect
    ⟨⟨⟨0x1020, some (.dynamicMap 0), 32⟩, rfl⟩, trivial⟩).2 ⟨by decide, trivial⟩

def busyHost : HostOs :=
  { failingHost with
    setReuseAddr := fun _ => ⟨-1, 88⟩
    send := fun _ _ => ⟨-1, 11⟩ }

/-- Then `bind` leaves the 0 that was there, and `send` tells -1, the error number of another failure. -/
theorem athrill_syscall_socket_untold :
    (Returns (SocketApi.handler busyHost ramArg .bind) (sendState 32) fun _ s' =>
      (s'.field ramArg 4).toInt = 0) ∧
    (socketCalls busyHost (sendState 32) ramArg .bind).head? = some ⟨-1, 88⟩ ∧
    (Returns (SocketApi.handler busyHost ramArg .send) (sendState 32) fun _ s' =>
      (s'.field ramArg 4).toInt = -1) ∧
    socketCalls busyHost (sendState 32) ramArg .send = [⟨-1, 11⟩] := by
  have hmapped : (sendState 32).Mapped [0x1020] := ⟨⟨⟨0x1020, some (.dynamicMap 0), 32⟩, rfl⟩, trivial⟩
  refine ⟨?_, rfl, ?_, rfl⟩
  · exact returns_iff.2 <| (@wp_socket 32 busyHost _ _ (·.toInt = 0) argInside_sendState .bind hmapped).2
      ⟨by decide, by decide⟩
  · exact returns_iff.2 <| (@wp_socket 32 busyHost _ _ (·.toInt = -1) argInside_sendState .send hmapped).2
      ⟨by decide, by decide⟩

end Athrill
