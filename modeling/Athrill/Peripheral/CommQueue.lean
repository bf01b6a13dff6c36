import Athrill.Lib.Queue
import Athrill.Lib.Run
import Athrill.Peripheral.CommBuffer

/-!
# A communication buffer is a bounded queue

The operations of `lib/comm_buffer.c` with every access to `data` checked against the size of the block, and
with the number that they report. Main result: `comm_fifo_buffer_refines_queue`.
-/

namespace Athrill

open Machine

/-! ## Checked accesses -/

def fifoBufferAddChecked (fifo : CommFifoBufferType) (data : UInt8) :
    Option (StdReturnType × CommFifoBufferType) :=
  if fifo.count < fifo.maxSize ∧ fifo.maxSize ≤ fifo.txOff then none else some (fifoBufferAdd fifo data)

def commFifoBufferAddLoopChecked :
    CommFifoBufferType → List UInt8 → Nat → Option (StdReturnType × CommFifoBufferType × Nat)
  | fifo, [], res => some (.ok, fifo, res)
  | fifo, b :: bs, res =>
    match fifoBufferAddChecked fifo b with
    | none => none
    | some (.ok, fifo') => commFifoBufferAddLoopChecked fifo' bs (res + 1)
    | some (err, fifo') => some (err, fifo', res)

def commFifoBufferAddChecked (fifo : CommFifoBufferType) (data : List UInt8) :
    Option (StdReturnType × CommFifoBufferType × Nat) :=
  if fifo.count ≥ fifo.maxSize then some (.limit, fifo, 0) else commFifoBufferAddLoopChecked fifo data 0

def fifoBufferGetChecked (fifo : CommFifoBufferType) :
    Option (StdReturnType × CommFifoBufferType × Option UInt8) :=
  if fifo.count ≠ 0 ∧ fifo.maxSize ≤ fifo.rxOff then none else some (fifoBufferGet fifo)

def commFifoBufferGetLoopChecked :
    Nat → CommFifoBufferType → Nat → Option (StdReturnType × CommFifoBufferType × List UInt8 × Nat)
  | 0, fifo, res => some (.ok, fifo, [], res)
  | n + 1, fifo, res =>
    match fifoBufferGetChecked fifo with
    | none => none
    | some (.ok, fifo', some b) =>
      match commFifoBufferGetLoopChecked n fifo' (res + 1) with
      | none => none
      | some (err, fifo'', bs, res') => some (err, fifo'', b :: bs, res')
    | some (err, fifo', _) => some (err, fifo', [], res)

def commFifoBufferGetChecked (fifo : CommFifoBufferType) (datalen : Nat) :
    Option (StdReturnType × CommFifoBufferType × List UInt8 × Nat) :=
  if fifo.count = 0 then some (.noent, fifo, [], 0) else commFifoBufferGetLoopChecked datalen fifo 0

/-! ## Calls -/

inductive FifoCall
  | add (data : List UInt8)
  | get (datalen : Nat)

structure FifoAnswer where
  ret : StdReturnType
  bytes : List UInt8
  res : Nat
  deriving DecidableEq, Repr

def fifoStep (fifo : CommFifoBufferType) : FifoCall → Option (CommFifoBufferType × FifoAnswer)
  | .add data =>
    match commFifoBufferAddChecked fifo data with
    | none => none
    | some (ret, fifo', res) => some (fifo', ⟨ret, [], res⟩)
  | .get datalen =>
    match commFifoBufferGetChecked fifo datalen with
    | none => none
    | some (ret, fifo', bytes, res) => some (fifo', ⟨ret, bytes, res⟩)

def queueStep {size : Nat} (q : BoundedQueue UInt8 size) : FifoCall → BoundedQueue UInt8 size × FifoAnswer
  | .add data =>
    (q.push data, ⟨if q.items.length < size ∧ q.accepted data = data then .ok else .limit, [],
      (q.accepted data).length⟩)
  | .get datalen =>
    (q.pop datalen, ⟨if 0 < q.items.length ∧ datalen ≤ q.items.length then .ok else .noent,
      q.items.take datalen, min datalen q.items.length⟩)

section
variable {fifo : CommFifoBufferType}

/-! ## No access leaves the block -/

theorem CommFifoBufferType.Ok.txOff_lt (hok : fifo.Ok) (hpos : 0 < fifo.maxSize) :
    fifo.txOff < fifo.maxSize := by
  rw [hok.txOff_eq]
  exact Nat.mod_lt _ hpos

theorem fifoBufferAddChecked_eq (hok : fifo.Ok) (b : UInt8) :
    fifoBufferAddChecked fifo b = some (fifoBufferAdd fifo b) := by
  refine if_neg fun hout => ?_
  have htx := hok.txOff_lt (Nat.zero_lt_of_lt hout.1)
  omega

theorem fifoBufferGetChecked_eq (hok : fifo.Ok) : fifoBufferGetChecked fifo = some (fifoBufferGet fifo) := by
  refine if_neg fun hout => ?_
  have hle := hok.count_le
  have hrx := hok.rxOff_lt (by omega)
  omega

theorem commFifoBufferAddLoopChecked_eq (hok : fifo.Ok) (data : List UInt8) (res : Nat) :
    commFifoBufferAddLoopChecked fifo data res = some (commFifoBufferAddLoop fifo data res) := by
  induction data generalizing fifo res with
  | nil => rfl
  | cons b bs ih =>
    rw [commFifoBufferAddLoopChecked, commFifoBufferAddLoop, fifoBufferAddChecked_eq hok]
    rcases Nat.lt_or_ge fifo.count fifo.maxSize with hlt | hge
    · obtain ⟨fifo₁, hadd, hok₁, -, -⟩ := fifoBufferAdd_of_lt hok hlt b
      rw [hadd]
      exact ih hok₁ (res + 1)
    · rw [fifoBufferAdd, if_pos hge]

theorem commFifoBufferAddChecked_eq (hok : fifo.Ok) (data : List UInt8) :
    commFifoBufferAddChecked fifo data = some (commFifoBufferAdd fifo data) := by
  unfold commFifoBufferAddChecked commFifoBufferAdd
  split_ifs
  · rfl
  · exact commFifoBufferAddLoopChecked_eq hok data 0

theorem commFifoBufferGetLoopChecked_eq (hok : fifo.Ok) (n res : Nat) :
    commFifoBufferGetLoopChecked n fifo res =
      some ((commFifoBufferGetLoop n fifo).1, (commFifoBufferGetLoop n fifo).2.1,
        (commFifoBufferGetLoop n fifo).2.2, res + (commFifoBufferGetLoop n fifo).2.2.length) := by
  induction n generalizing fifo res with
  | zero => rfl
  | succ n ih =>
    rw [commFifoBufferGetLoopChecked, commFifoBufferGetLoop, fifoBufferGetChecked_eq hok]
    cases hcont : fifo.contents with
    | nil =>
      have hzero : fifo.count = 0 := by rw [← CommFifoBufferType.length_contents, hcont]; rfl
      rw [fifoBufferGet, if_pos hzero]
      rfl
    | cons b bs =>
      obtain ⟨fifo₁, hget, hok₁, -, -⟩ := fifoBufferGet_of_cons hok hcont
      rw [hget]
      simp only [ih hok₁, List.length_cons, Nat.add_assoc, Nat.add_comm 1]

theorem commFifoBufferGetChecked_eq (hok : fifo.Ok) (n : Nat) :
    commFifoBufferGetChecked fifo n =
      some ((commFifoBufferGet fifo n).1, (commFifoBufferGet fifo n).2.1, (commFifoBufferGet fifo n).2.2,
        (commFifoBufferGet fifo n).2.2.length) := by
  unfold commFifoBufferGetChecked commFifoBufferGet
  split_ifs
  · rfl
  · rw [commFifoBufferGetLoopChecked_eq hok, Nat.zero_add]

/-! ## The queue -/

structure FifoSim {size : Nat} (fifo : CommFifoBufferType) (q : BoundedQueue UInt8 size) : Prop where
  ok : fifo.Ok
  maxSize : fifo.maxSize = size
  contents : fifo.contents = q.items

variable {size : Nat} {q : BoundedQueue UInt8 size}

theorem FifoSim.count (h : FifoSim fifo q) : fifo.count = q.items.length := by
  rw [← h.contents, CommFifoBufferType.length_contents]

theorem FifoSim.room (h : FifoSim fifo q) : fifo.maxSize - fifo.count = q.room := by
  rw [h.maxSize, h.count, BoundedQueue.room]

theorem FifoSim.step (h : FifoSim fifo q) (call : FifoCall) :
    ∃ fifo', fifoStep fifo call = some (fifo', (queueStep q call).2) ∧ FifoSim fifo' (queueStep q call).1 := by
  cases call with
  | add data =>
    obtain ⟨err, fifo', hadd, hok', hmax', hcont'⟩ := commFifoBufferAdd_spec h.ok data
    have hall : data.length ≤ q.room ↔ q.accepted data = data := (List.take_eq_self_iff data).symm
    have hcode : err = if q.items.length < size ∧ q.accepted data = data then .ok else .limit := by
      have hfst := commFifoBufferAdd_fst fifo data
      rw [hadd, h.room, h.count, h.maxSize] at hfst
      exact hfst.trans (if_congr (and_congr_right fun _ => hall) rfl rfl)
    refine ⟨fifo', ?_, hok', hmax'.trans h.maxSize, by rw [hcont', h.contents, h.room]; rfl⟩
    simp only [fifoStep, commFifoBufferAddChecked_eq h.ok, hadd, queueStep, q.length_accepted, h.room, hcode]
  | get n =>
    obtain ⟨err, fifo', hget, hok', hmax', hcont'⟩ := commFifoBufferGet_spec h.ok n
    have hcode : err = if 0 < q.items.length ∧ n ≤ q.items.length then .ok else .noent := by
      have hfst := commFifoBufferGet_fst fifo n
      rwa [hget, h.count] at hfst
    refine ⟨fifo', ?_, hok', hmax'.trans h.maxSize, by rw [hcont', h.contents]; rfl⟩
    simp only [fifoStep, commFifoBufferGetChecked_eq h.ok, hget, queueStep, hcode, h.contents, List.length_take]

end

/-- **A communication buffer is a bounded first-in-first-out queue.** For every capacity and every sequence of
calls, every access is inside the block (the run is defined), every answer is that of the queue, and afterwards
the buffer holds what the queue does, with its count and offsets inside the capacity. -/
theorem comm_fifo_buffer_refines_queue (junk : Nat → UInt8) {size : Nat} (hsize : 1 ≤ size)
    (calls : List FifoCall) :
    ∃ fifo, run fifoStep (commFifoBufferCreate junk size) calls =
        some (fifo, outputs queueStep (.empty : BoundedQueue UInt8 size) calls) ∧
      fifo.contents = (after queueStep (.empty : BoundedQueue UInt8 size) calls).items ∧
      fifo.count ≤ size ∧ fifo.rxOff < size ∧ fifo.txOff < size := by
  have hstart : FifoSim (commFifoBufferCreate junk size) (.empty : BoundedQueue UInt8 size) :=
    ⟨CommFifoBufferType.ok_create junk size, rfl, CommFifoBufferType.contents_create junk size⟩
  obtain ⟨fifo, hrun, hsim⟩ := run_simulates (R := fun _ => FifoSim) (fun call _ _ _ h => h.step call) calls hstart
  have hpos : 0 < fifo.maxSize := hsim.maxSize ▸ hsize
  refine ⟨fifo, hrun, hsim.contents, ?_⟩
  rw [← hsim.maxSize]
  exact ⟨hsim.ok.count_le, hsim.ok.rxOff_lt hpos, hsim.ok.txOff_lt hpos⟩

theorem comm_fifo_buffer_refines_queue_three :
    ∃ fifo, run fifoStep (commFifoBufferCreate (fun _ => 0) 3) [.add [1, 2], .get 1, .add [3, 4, 5], .get 9] =
      some (fifo, [⟨.ok, [], 2⟩, ⟨.ok, [1], 1⟩, ⟨.limit, [], 2⟩, ⟨.noent, [2, 3, 4], 3⟩]) := by
  have hsize : 1 ≤ 3 := by decide
  obtain ⟨fifo, hrun, -⟩ := comm_fifo_buffer_refines_queue (fun _ => 0) hsize
    [.add [1, 2], .get 1, .add [3, 4, 5], .get 9]
  exact ⟨fifo, hrun⟩

end Athrill
