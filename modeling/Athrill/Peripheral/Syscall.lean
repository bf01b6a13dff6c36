import Athrill.Lib.StateExcept
import Athrill.Peripheral.Realloc

/-!
# The syscall device (`device/peripheral/athrill_syscall_device.c`)

The guest writes the address of an argument block (`AthrillSyscallArgType`) to the device, which calls the
handler of the call that the block names. Modelled here are the handlers of the sockets, of `calloc` and
of the directories.
-/

namespace Athrill

open Bytes

variable {W : Nat}

/-! ## Accesses -/

structure GuestPointer (W : Nat) where
  addr : AthrillAddrType W
  ref : Option MpuRegionRef
  off : Int

/-- Bytes used through a host pointer: its guest address, its region, the distance from `data`, and how many.
-/
structure RegionAccess (W : Nat) where
  addr : AthrillAddrType W
  region : Option (MpuAddressRegionType W)
  off : Int
  len : Nat

/-- The bytes are in the buffer of a region that covers the address. -/
def RegionAccess.Inside (a : RegionAccess W) : Prop :=
  a.len = 0 ∨ ∃ region ∈ a.region, regionCovers region a.addr 1 = true ∧
    ∃ buf ∈ region.data, 0 ≤ a.off ∧ a.off + a.len ≤ buf.length

instance RegionAccess.decidableInside (a : RegionAccess W) : Decidable a.Inside :=
  inferInstanceAs (Decidable (a.len = 0 ∨ ∃ region ∈ a.region, regionCovers region a.addr 1 = true ∧
    ∃ buf ∈ region.data, 0 ≤ a.off ∧ a.off + a.len ≤ buf.length))

inductive SyscallStop
  | assertion
  | undefined

/-! ## The host -/

structure HostRet where
  ret : Int
  errno : Int

structure HostSockAddr where
  sinPort : BitVec 16
  sinAddr : BitVec 32
  addrlen : BitVec 32

structure HostStat where
  yday : Nat
  hour : Nat
  min : Nat
  sec : Nat
  size : Nat
  isDir : Bool

/-- What the calls of the host answer, and the contents of fresh memory. -/
structure HostOs where
  junk : Nat → UInt8
  setReuseAddr (fd : Int) : HostRet
  bind (fd : Int) (sinAddr sinPort : List UInt8) : HostRet
  listen (fd backlog : Int) : HostRet
  accept (fd : Int) : HostRet × HostSockAddr
  connect (fd : Int) (sinAddr sinPort : List UInt8) : HostRet
  select (readfds writefds exceptfds : BitVec 64) : HostRet × BitVec 64 × BitVec 64 × BitVec 64
  send (fd : Int) (bytes : List UInt8) : HostRet
  recv (fd : Int) (len : Nat) : HostRet × List UInt8
  opendir (path : CString) : Option Nat
  readdir (dir : Option Nat) : List CString × Int
  closedir (dir : Option Nat) : Int
  stat (path : CString) : Option HostStat
  virtfsTop : Option CString

/-! ## The device -/

structure DirElement where
  isUsed : Bool
  path : CString
  dir : Option Nat

abbrev DirTable := Fin 10 → DirElement

/-- The bus with the allocator, `virtual_file_top`, `special_fd_table` and `dir_table`. -/
structure SyscallState (W : Nat) where
  heap : Heap W
  virtualFileTop : Option CString
  dirTable : DirTable

abbrev Syscall (W : Nat) := StateT (SyscallState W) (Except SyscallStop)

section
variable (s : SyscallState W) (p : GuestPointer W)

def SyscallState.regionOf : Option (MpuAddressRegionType W) :=
  p.ref.bind (regionAt s.heap.bus.addressMap)

def SyscallState.buffer : HostBuffer :=
  ((s.regionOf p).bind (·.data)).getD []

def SyscallState.access (off len : Nat) : RegionAccess W :=
  ⟨p.addr, s.regionOf p, p.off + off, len⟩

def SyscallState.bytes (off len : Nat) : List UInt8 :=
  slice (s.buffer p) (p.off + off).toNat len

def SyscallState.withHeap (heap : Heap W) : SyscallState W := { s with heap := heap }

def SyscallState.withBus (bus : MpuState W) : SyscallState W :=
  s.withHeap { s.heap with bus := bus }

def SyscallState.withTop (top : CString) : SyscallState W :=
  { s with virtualFileTop := some top }

def SyscallState.written (off : Nat) (bytes : List UInt8) : SyscallState W :=
  let m := s.heap.bus.addressMap
  s.withBus { s.heap.bus with
    addressMap := (p.ref.bind fun ref => pointerWrite m ref (p.off + off) bytes).getD m }

def SyscallState.lookup (addr : BitVec 32) : Except StdReturnType (GuestPointer W) :=
  (mpuGetPointer s.heap.bus (addr.setWidth W)).1.map fun p => ⟨addr.setWidth W, some p.1, p.2⟩

def SyscallState.looked (addr : BitVec 32) : SyscallState W :=
  s.withBus (mpuGetPointer s.heap.bus (addr.setWidth W)).2

end

section primitives

variable (p : GuestPointer W)

def touch (off len : Nat) : Syscall W Unit := do
  let s ← get
  if (s.access p off len).Inside then pure () else throw .undefined

def load (off len : Nat) : Syscall W (List UInt8) := do
  touch p off len
  let s ← get
  pure (s.bytes p off len)

def store (off : Nat) (bytes : List UInt8) : Syscall W Unit := do
  touch p off bytes.length
  modify (·.written p off bytes)

end primitives

section
variable (s : SyscallState W) (p : GuestPointer W)

def SyscallState.stringSpan : Nat :=
  (((s.buffer p).drop p.off.toNat).takeWhile (· ≠ 0)).length + 1

def SyscallState.string : CString :=
  CString.ofBytes ((s.buffer p).drop p.off.toNat)

def loadString : Syscall W CString := do
  let s ← get
  touch p 0 (s.stringSpan p)
  pure (s.string p)

def fill (len : Nat) (bytes : List UInt8) : Syscall W Unit := do
  touch p 0 len
  modify (·.written p 0 (bytes.take len))

def useOwn (size : Nat) (off : Int) (len : Nat) : Syscall W Unit := do
  if 0 ≤ off ∧ off + len ≤ size then pure () else throw .undefined

def onPointer (addr : BitVec 32) (failed : StdReturnType → Syscall W Unit)
    (found : GuestPointer W → Syscall W Unit) : Syscall W Unit := do
  let s ← get
  modify (·.looked addr)
  match s.lookup addr with
  | .error err => failed err
  | .ok p => found p

def orReturn (_ : StdReturnType) : Syscall W Unit := pure ()

def orAssert (_ : StdReturnType) : Syscall W Unit := throw .assertion

/-! ## The argument block -/

def syscallArgSize : Nat := 32

def argField (arg : GuestPointer W) (off : Nat) : Syscall W (BitVec 32) := do
  let bytes ← load arg off 4
  pure (BitVec.ofNat 32 (leValue bytes))

def argInt (arg : GuestPointer W) (off : Nat) : Syscall W Int := do
  let v ← argField arg off
  pure v.toInt

def setArg (arg : GuestPointer W) (off n : Nat) (v : Int) : Syscall W Unit :=
  store arg off (Bytes.leBytes n (BitVec.ofInt (8 * n) v).toNat)

def setRetValue (arg : GuestPointer W) (v : Int) : Syscall W Unit := setArg arg 4 4 v

def setRetOk (arg : GuestPointer W) (r : HostRet) : Syscall W Unit :=
  if r.ret < 0 then setRetValue arg (-r.errno) else setRetValue arg 0

/-! ## Sockets -/

def athrillSyscallBind (host : HostOs) (arg : GuestPointer W) : Syscall W Unit := do
  let sockaddr ← argField arg 16
  onPointer sockaddr orReturn fun sockaddrp => do
    let sockfd ← argInt arg 12
    if (host.setReuseAddr sockfd).ret ≠ 0 then pure ()
    else do
      let sinAddr ← load sockaddrp 4 4
      let sinPort ← load sockaddrp 2 2
      let sockfd ← argInt arg 12
      setRetOk arg (host.bind sockfd sinAddr sinPort)

def athrillSyscallListen (host : HostOs) (arg : GuestPointer W) : Syscall W Unit := do
  let sockfd ← argInt arg 12
  let backlog ← argInt arg 16
  setRetOk arg (host.listen sockfd backlog)

def acceptClient (arg sockaddrp addrlenp : GuestPointer W) (ret : Int) (client : HostSockAddr) :
    Syscall W Unit := do
  store sockaddrp 0 [2]
  store sockaddrp 2 (Bytes.leBytes 2 client.sinPort.toNat).reverse
  store sockaddrp 4 (Bytes.leBytes 4 client.sinAddr.toNat).reverse
  store addrlenp 0 (Bytes.leBytes 4 client.addrlen.toNat)
  setRetValue arg ret

def athrillSyscallAccept (host : HostOs) (arg : GuestPointer W) : Syscall W Unit := do
  let sockaddr ← argField arg 16
  onPointer sockaddr orReturn fun sockaddrp => do
    let addrlen ← argField arg 20
    onPointer addrlen orReturn fun addrlenp => do
      let sockfd ← argInt arg 12
      let r := host.accept sockfd
      if r.1.ret < 0 then setRetValue arg (-r.1.errno)
      else acceptClient arg sockaddrp addrlenp r.1.ret r.2

def athrillSyscallConnect (host : HostOs) (arg : GuestPointer W) : Syscall W Unit := do
  let sockaddr ← argField arg 16
  onPointer sockaddr orReturn fun sockaddrp => do
    let sinAddr ← load sockaddrp 4 4
    let sinPort ← load sockaddrp 2 2
    let sockfd ← argInt arg 12
    setRetOk arg (host.connect sockfd sinAddr sinPort)

def onFdSet (arg : GuestPointer W) (off : Nat) (k : Option (GuestPointer W) → Syscall W Unit) :
    Syscall W Unit := do
  let fds ← argField arg off
  if fds = 0 then k none else onPointer fds orReturn fun p => k (some p)

def fdSetIn : Option (GuestPointer W) → Syscall W (BitVec 64)
  | none => pure 0
  | some p => do
    let bytes ← load p 0 8
    pure (BitVec.ofNat 64 (leValue bytes))

def fdCount (fds : BitVec 64) : Nat := (List.range 64).countP fds.getLsbD

def fdSetClear : Option (GuestPointer W) → Syscall W Unit
  | none => pure ()
  | some p => store p 0 (Bytes.leBytes 8 0)

def fdSetOut (fds : BitVec 64) : Option (GuestPointer W) → Syscall W Nat
  | none => pure 0
  | some p => do
    store p 0 (Bytes.leBytes 8 fds.toNat)
    pure (fdCount fds)

def selectSets (host : HostOs) (arg : GuestPointer W) (readfds writefds exceptfds : Option (GuestPointer W)) :
    Syscall W Unit := do
  let r ← fdSetIn readfds
  let w ← fdSetIn writefds
  let e ← fdSetIn exceptfds
  let out := host.select r w e
  if out.1.ret < 0 then setRetValue arg (-out.1.errno)
  else do
    fdSetClear readfds
    fdSetClear writefds
    fdSetClear exceptfds
    let nr ← fdSetOut out.2.1 readfds
    let nw ← fdSetOut out.2.2.1 writefds
    let ne ← fdSetOut out.2.2.2 exceptfds
    setRetValue arg ((nr + nw + ne : Nat) : Int)

def athrillSyscallSelect (host : HostOs) (arg : GuestPointer W) : Syscall W Unit :=
  onFdSet arg 16 fun readfds => onFdSet arg 20 fun writefds => onFdSet arg 24 fun exceptfds =>
    selectSets host arg readfds writefds exceptfds

def athrillSyscallSend (host : HostOs) (arg : GuestPointer W) : Syscall W Unit := do
  let buf ← argField arg 16
  onPointer buf orReturn fun bufp => do
    let sockfd ← argInt arg 12
    let len ← argField arg 20
    let bytes ← load bufp 0 len.toNat
    let r := host.send sockfd bytes
    if r.ret < 0 then setRetValue arg (-r.errno) else pure ()
    setRetValue arg r.ret

def athrillSyscallRecv (host : HostOs) (arg : GuestPointer W) : Syscall W Unit := do
  let buf ← argField arg 16
  onPointer buf orReturn fun bufp => do
    let sockfd ← argInt arg 12
    let len ← argField arg 20
    let r := host.recv sockfd len.toNat
    fill bufp len.toNat r.2
    if r.1.ret < 0 then setRetValue arg (-r.1.errno) else pure ()
    setRetValue arg r.1.ret

/-! ## Memory -/

def mallocGetMemory (host : HostOs) (size : BitVec 32) : Syscall W (BitVec 32) := do
  let s ← get
  modify fun s => s.withHeap (heapGetMemory host.junk s.heap size).2
  pure (heapGetMemory host.junk s.heap size).1

def athrillSyscallCalloc (host : HostOs) (arg : GuestPointer W) : Syscall W Unit := do
  let size ← argField arg 16
  if size = 0 then setArg arg 20 4 0
  else do
    let nmemb ← argField arg 12
    if nmemb = 0 then setArg arg 20 4 0
    else do
      let rptr ← mallocGetMemory host (size * nmemb)
      setArg arg 20 4 rptr.toInt
      let rptr ← argField arg 20
      if rptr = 0 then pure ()
      else onPointer rptr orAssert fun addrp =>
        store addrp 0 (List.replicate (size * nmemb).toNat 0)

/-! ## Directories -/

def slash : CString := ⟨[47], by simp⟩

def ev3rtfs : CString := ⟨[95, 101, 118, 51, 114, 116, 102, 115], by simp⟩

def SyscallState.fileTop (host : HostOs) : CString :=
  s.virtualFileTop.getD (host.virtfsTop.getD ev3rtfs)

end

def getVirtualFileName (host : HostOs) (fileName : GuestPointer W) (size : Nat) : Syscall W CString := do
  let s ← get
  modify fun s => s.withTop (s.fileTop host)
  let name ← loadString fileName
  let path := ((s.fileTop host).append slash).append name
  useOwn size 0 (path.bytes.length + 1)
  pure path

def getFreeDir (t : DirTable) : Option (Fin 10) := (List.finRange 10).find? fun i => !(t i).isUsed

def SyscallState.setDir (i : Fin 10) (d : DirElement) (s : SyscallState W) : SyscallState W :=
  { s with dirTable := Function.update s.dirTable i d }

def getDir (dirid : BitVec 32) : Option (Fin 10) :=
  if h : (dirid - 1).toNat < 10 then some ⟨(dirid - 1).toNat, h⟩ else none

def releaseDir (i : Fin 10) : Syscall W Unit :=
  modify fun s => s.setDir i { s.dirTable i with isUsed := false }

def opendirAt (host : HostOs) (arg : GuestPointer W) (i : Fin 10) : Syscall W Unit := do
  modify fun s => s.setDir i { s.dirTable i with isUsed := true }
  let path ← argField arg 12
  onPointer path orAssert fun pathp => do
    let buf ← getVirtualFileName host pathp 256
    let dir := host.opendir buf
    modify fun s => s.setDir i { s.dirTable i with dir := dir }
    if dir.isNone then do
      setArg arg 16 4 (-17)
      releaseDir i
    else do
      setRetValue arg 0
      setArg arg 16 4 (i.val + 1)
      useOwn 276 0 (buf.bytes.length + 1)
      modify fun s => s.setDir i { s.dirTable i with path := buf }

def athrillSyscallEv3Opendir (host : HostOs) (arg : GuestPointer W) : Syscall W Unit := do
  let s ← get
  match getFreeDir s.dirTable with
  | none => setRetValue arg (-34)
  | some i => opendirAt host arg i

def nextEntry (names : List CString) : Option CString :=
  names.find? fun name => name.bytes ≠ [46] ∧ name.bytes ≠ [46, 46]

def readdirStat (arg : GuestPointer W) : Option HostStat → Syscall W Unit
  | none => setRetValue arg (-5)
  | some st => do
    setArg arg 20 2 st.yday
    setArg arg 22 2 (st.hour * 60 * 60 + st.min * 60 + st.sec)
    setArg arg 16 4 st.size
    setArg arg 24 1 0
    if st.isDir then setArg arg 24 1 1 else pure ()
    setRetValue arg 0

def readdirInto (host : HostOs) (arg : GuestPointer W) (i : Fin 10) (entry : CString)
    (namep : GuestPointer W) : Syscall W Unit := do
  store namep 0 (entry.bytes ++ [0])
  let s ← get
  let name ← loadString namep
  let path := ((s.dirTable i).path.append slash).append name
  useOwn 255 0 (path.bytes.length + 1)
  readdirStat arg (host.stat path)

def readdirAt (host : HostOs) (arg : GuestPointer W) (i : Fin 10) (entry : CString) : Syscall W Unit := do
  let name ← argField arg 28
  onPointer name orAssert fun namep => readdirInto host arg i entry namep

def athrillSyscallEv3Readdir (host : HostOs) (arg : GuestPointer W) : Syscall W Unit := do
  let dirid ← argField arg 12
  match getDir dirid with
  | none => setRetValue arg (-18)
  | some i => do
    let s ← get
    let r := host.readdir (s.dirTable i).dir
    match nextEntry r.1 with
    | some entry => readdirAt host arg i entry
    | none => if r.2 = 0 then setRetValue arg (-41) else setRetValue arg (-18)

def athrillSyscallEv3Closedir (host : HostOs) (arg : GuestPointer W) : Syscall W Unit := do
  let dirid ← argField arg 12
  match getDir dirid with
  | none => setRetValue arg (-18)
  | some i => do
    let s ← get
    if host.closedir (s.dirTable i).dir = 0 then do
      releaseDir i
      setRetValue arg 0
    else setRetValue arg (-18)

def SyscallState.lookupUnchecked (s : SyscallState W) (addr : BitVec 32) : GuestPointer W :=
  match s.lookup addr with
  | .ok p => p
  | .error _ => ⟨addr.setWidth W, none, 0⟩

end Athrill
