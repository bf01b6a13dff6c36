import Athrill.StdTypes
import Athrill.Lib.Ring

/-!
# Communication buffers (`lib/comm_buffer.c`)

A FIFO of bytes in a ring of `max_size` places.
-/

namespace Athrill

open List

structure CommFifoBufferType where
  maxSize : Nat
  count : Nat
  rxOff : Nat
  txOff : Nat
  data : Nat → UInt8

def commFifoBufferCreate (junk : Nat → UInt8) (size : Nat) : CommFifoBufferType where
  maxSize := size
  count := 0
  rxOff := 0
  txOff := 0
  data := junk

namespace CommFifoBufferType

def isEmpty (fifo : CommFifoBufferType) : Bool := fifo.count == 0

def isFull (fifo : CommFifoBufferType) : Bool := decide (fifo.count ≥ fifo.maxSize)

end CommFifoBufferType

def fifoBufferAdd (fifo : CommFifoBufferType) (data : UInt8) :
    StdReturnType × CommFifoBufferType :=
  if fifo.count ≥ fifo.maxSize then (.limit, fifo)
  else
    (.ok, { fifo with
      data := Function.update fifo.data fifo.txOff data
      txOff := if fifo.txOff + 1 ≥ fifo.maxSize then 0 else fifo.txOff + 1
      count := fifo.count + 1 })

def commFifoBufferAddLoop :
    CommFifoBufferType → List UInt8 → Nat → StdReturnType × CommFifoBufferType × Nat
  | fifo, [], res => (.ok, fifo, res)
  | fifo, b :: bs, res =>
    match fifoBufferAdd fifo b with
    | (.ok, fifo') => commFifoBufferAddLoop fifo' bs (res + 1)
    | (err, fifo') => (err, fifo', res)

def commFifoBufferAdd (fifo : CommFifoBufferType) (data : List UInt8) :
    StdReturnType × CommFifoBufferType × Nat :=
  if fifo.count ≥ fifo.maxSize then (.limit, fifo, 0) else commFifoBufferAddLoop fifo data 0

def fifoBufferGet (fifo : CommFifoBufferType) : StdReturnType × CommFifoBufferType × Option UInt8 :=
  if fifo.count = 0 then (.noent, fifo, none)
  else
    (.ok, { fifo with
      rxOff := if fifo.rxOff + 1 ≥ fifo.maxSize then 0 else fifo.rxOff + 1
      count := fifo.count - 1 }, some (fifo.data fifo.rxOff))

def commFifoBufferGetLoop :
    Nat → CommFifoBufferType → StdReturnType × CommFifoBufferType × List UInt8
  | 0, fifo => (.ok, fifo, [])
  | n + 1, fifo =>
    match fifoBufferGet fifo with
    | (.ok, fifo', some b) =>
      match commFifoBufferGetLoop n fifo' with
      | (err, fifo'', bs) => (err, fifo'', b :: bs)
    | (err, fifo', _) => (err, fifo', [])

def commFifoBufferGet (fifo : CommFifoBufferType) (datalen : Nat) :
    StdReturnType × CommFifoBufferType × List UInt8 :=
  if fifo.count = 0 then (.noent, fifo, []) else commFifoBufferGetLoop datalen fifo

/-! ## The queue -/

namespace CommFifoBufferType

def contents (fifo : CommFifoBufferType) : List UInt8 :=
  Ring.contents fifo.data fifo.maxSize fifo.rxOff fifo.count

structure Ok (fifo : CommFifoBufferType) : Prop where
  count_le : fifo.count ≤ fifo.maxSize
  rxOff_lt : 0 < fifo.maxSize → fifo.rxOff < fifo.maxSize
  txOff_eq : fifo.txOff = (fifo.rxOff + fifo.count) % fifo.maxSize

variable {fifo fifo' : CommFifoBufferType}

@[simp] theorem length_contents : fifo.contents.length = fifo.count := Ring.length_contents ..

theorem isEmpty_iff : fifo.isEmpty = true ↔ fifo.contents = [] := by
  rw [isEmpty, beq_iff_eq, ← length_eq_zero_iff, length_contents]

theorem isFull_eq_false : fifo.isFull = false ↔ fifo.count < fifo.maxSize := by
  simp [isFull]

theorem ok_create (junk : Nat → UInt8) (size : Nat) : (commFifoBufferCreate junk size).Ok where
  count_le := Nat.zero_le _
  rxOff_lt := id
  txOff_eq := (Nat.zero_mod _).symm

@[simp] theorem contents_create (junk : Nat → UInt8) (size : Nat) :
    (commFifoBufferCreate junk size).contents = [] := rfl

end CommFifoBufferType

section
variable {fifo : CommFifoBufferType}

theorem fifoBufferAdd_of_lt (hok : fifo.Ok) (h : fifo.count < fifo.maxSize) (b : UInt8) :
    ∃ fifo', fifoBufferAdd fifo b = (.ok, fifo') ∧ fifo'.Ok ∧ fifo'.maxSize = fifo.maxSize ∧
      fifo'.contents = fifo.contents ++ [b] := by
  have hpos : 0 < fifo.maxSize := by omega
  have htx : fifo.txOff < fifo.maxSize := hok.txOff_eq ▸ Nat.mod_lt _ hpos
  refine ⟨_, if_neg (Nat.not_le.2 h), ⟨h, hok.rxOff_lt, ?_⟩, rfl, ?_⟩
  · change Ring.next fifo.maxSize fifo.txOff = _
    rw [Ring.next_eq_mod htx, hok.txOff_eq, Nat.mod_add_mod, Nat.add_assoc]
  · change Ring.contents (Function.update fifo.data fifo.txOff b) fifo.maxSize fifo.rxOff
      (fifo.count + 1) = _
    rw [hok.txOff_eq]
    exact Ring.contents_update _ _ _ _ b h

theorem fifoBufferGet_of_cons (hok : fifo.Ok) {b : UInt8} {bs : List UInt8} (h : fifo.contents = b :: bs) :
    ∃ fifo', fifoBufferGet fifo = (.ok, fifo', some b) ∧ fifo'.Ok ∧
      fifo'.maxSize = fifo.maxSize ∧ fifo'.contents = bs := by
  obtain ⟨n, hn⟩ : ∃ n, fifo.count = n + 1 :=
    ⟨bs.length, by rw [← CommFifoBufferType.length_contents, h, length_cons]⟩
  have hpos : 0 < fifo.maxSize := by have := hok.count_le; omega
  have hrx := hok.rxOff_lt hpos
  rw [CommFifoBufferType.contents, hn, Ring.contents_succ, Nat.mod_eq_of_lt hrx] at h
  obtain ⟨rfl, rfl⟩ := cons.inj h
  refine ⟨_, if_neg (by omega), ⟨?_, fun _ => ?_, ?_⟩, rfl, ?_⟩
  · exact Nat.le_trans (Nat.sub_le ..) hok.count_le
  · change Ring.next fifo.maxSize fifo.rxOff < _
    rw [Ring.next_eq_mod hrx]
    exact Nat.mod_lt _ hpos
  · change fifo.txOff = (Ring.next fifo.maxSize fifo.rxOff + (fifo.count - 1)) % fifo.maxSize
    rw [Ring.next_eq_mod hrx, hok.txOff_eq, Nat.mod_add_mod]
    congr 1
    omega
  · change Ring.contents fifo.data fifo.maxSize (Ring.next fifo.maxSize fifo.rxOff)
      (fifo.count - 1) = _
    rw [Ring.next_eq_mod hrx, hn, Nat.add_sub_cancel]

theorem commFifoBufferAddLoop_spec (hok : fifo.Ok) (data : List UInt8) (res : Nat) :
    ∃ err fifo', commFifoBufferAddLoop fifo data res =
        (err, fifo', res + min data.length (fifo.maxSize - fifo.count)) ∧ fifo'.Ok ∧
      fifo'.maxSize = fifo.maxSize ∧
      fifo'.contents = fifo.contents ++ data.take (fifo.maxSize - fifo.count) := by
  induction data generalizing fifo res with
  | nil => exact ⟨.ok, fifo, by simp [commFifoBufferAddLoop], hok, rfl, by simp⟩
  | cons b bs ih =>
    rcases Nat.lt_or_ge fifo.count fifo.maxSize with hlt | hge
    · obtain ⟨fifo₁, hadd, hok₁, hmax₁, hcont₁⟩ := fifoBufferAdd_of_lt hok hlt b
      have hcount₁ : fifo₁.count = fifo.count + 1 := by
        rw [← CommFifoBufferType.length_contents, hcont₁]
        simp
      obtain ⟨err, fifo', hloop, hok', hmax', hcont'⟩ := ih hok₁ (res + 1)
      obtain ⟨room, hroom⟩ : ∃ room, fifo.maxSize - fifo.count = room + 1 :=
        ⟨fifo.maxSize - fifo.count - 1, by omega⟩
      have hroom₁ : fifo₁.maxSize - fifo₁.count = room := by omega
      rw [hroom₁] at hloop hcont'
      refine ⟨err, fifo', ?_, hok', hmax'.trans hmax₁, ?_⟩
      · rw [commFifoBufferAddLoop, hadd, hroom]
        simp only [hloop, length_cons]
        rw [Nat.add_min_add_right, Nat.add_right_comm, Nat.add_assoc]
      · rw [hcont', hcont₁, hroom, take_succ_cons, append_assoc, singleton_append]
    · have hfull : fifo.maxSize - fifo.count = 0 := by omega
      refine ⟨.limit, fifo, ?_, hok, rfl, by simp [hfull]⟩
      simp only [commFifoBufferAddLoop, fifoBufferAdd, if_pos hge, hfull, Nat.min_zero, Nat.add_zero]

theorem commFifoBufferAdd_spec (hok : fifo.Ok) (data : List UInt8) :
    ∃ err fifo', commFifoBufferAdd fifo data =
        (err, fifo', min data.length (fifo.maxSize - fifo.count)) ∧ fifo'.Ok ∧
      fifo'.maxSize = fifo.maxSize ∧
      fifo'.contents = fifo.contents ++ data.take (fifo.maxSize - fifo.count) := by
  by_cases hge : fifo.count ≥ fifo.maxSize
  · have hfull : fifo.maxSize - fifo.count = 0 := by omega
    refine ⟨.limit, fifo, ?_, hok, rfl, by simp [hfull]⟩
    rw [commFifoBufferAdd, if_pos hge, hfull, Nat.min_zero]
  · obtain ⟨err, fifo', hloop, hspec⟩ := commFifoBufferAddLoop_spec hok data 0
    exact ⟨err, fifo', by rw [commFifoBufferAdd, if_neg hge, hloop, Nat.zero_add], hspec⟩

theorem commFifoBufferGetLoop_spec (hok : fifo.Ok) (n : Nat) :
    ∃ err fifo', commFifoBufferGetLoop n fifo = (err, fifo', fifo.contents.take n) ∧ fifo'.Ok ∧
      fifo'.maxSize = fifo.maxSize ∧ fifo'.contents = fifo.contents.drop n := by
  induction n generalizing fifo with
  | zero => exact ⟨.ok, fifo, rfl, hok, rfl, rfl⟩
  | succ n ih =>
    cases hcont : fifo.contents with
    | nil =>
      have hzero : fifo.count = 0 := by rw [← CommFifoBufferType.length_contents, hcont]; rfl
      refine ⟨.noent, fifo, ?_, hok, rfl, hcont⟩
      rw [commFifoBufferGetLoop, fifoBufferGet, if_pos hzero, take_nil]
    | cons b bs =>
      obtain ⟨fifo₁, hget, hok₁, hmax₁, hcont₁⟩ := fifoBufferGet_of_cons hok hcont
      obtain ⟨err, fifo', hloop, hok', hmax', hcont'⟩ := ih hok₁
      rw [hcont₁] at hloop hcont'
      refine ⟨err, fifo', ?_, hok', hmax'.trans hmax₁, hcont'⟩
      rw [commFifoBufferGetLoop, hget]
      simp only [hloop, take_succ_cons]

theorem commFifoBufferGet_spec (hok : fifo.Ok) (n : Nat) :
    ∃ err fifo', commFifoBufferGet fifo n = (err, fifo', fifo.contents.take n) ∧ fifo'.Ok ∧
      fifo'.maxSize = fifo.maxSize ∧ fifo'.contents = fifo.contents.drop n := by
  by_cases hzero : fifo.count = 0
  · have hcont : fifo.contents = [] := by
      rw [← length_eq_zero_iff, CommFifoBufferType.length_contents, hzero]
    refine ⟨.noent, fifo, ?_, hok, rfl, by rw [hcont, drop_nil]⟩
    rw [commFifoBufferGet, if_pos hzero, hcont, take_nil]
  · rw [commFifoBufferGet, if_neg hzero]
    exact commFifoBufferGetLoop_spec hok n

/-! ## Return codes -/

theorem commFifoBufferAddLoop_fst (fifo : CommFifoBufferType) (data : List UInt8) (res : Nat) :
    (commFifoBufferAddLoop fifo data res).1 =
      if data.length ≤ fifo.maxSize - fifo.count then .ok else .limit := by
  induction data generalizing fifo res with
  | nil => exact (if_pos (Nat.zero_le _)).symm
  | cons b bs ih =>
    by_cases hge : fifo.count ≥ fifo.maxSize
    · rw [if_neg (by rw [length_cons]; omega)]
      simp only [commFifoBufferAddLoop, fifoBufferAdd, if_pos hge]
    · simp only [commFifoBufferAddLoop, fifoBufferAdd, if_neg hge, ih, length_cons]
      exact if_congr (by omega) rfl rfl

theorem commFifoBufferAdd_fst (fifo : CommFifoBufferType) (data : List UInt8) :
    (commFifoBufferAdd fifo data).1 =
      if fifo.count < fifo.maxSize ∧ data.length ≤ fifo.maxSize - fifo.count then .ok else .limit := by
  unfold commFifoBufferAdd
  split_ifs with hge hfits hfits
  · omega
  · rfl
  · rw [commFifoBufferAddLoop_fst, if_pos hfits.2]
  · rw [commFifoBufferAddLoop_fst, if_neg (by omega)]

theorem commFifoBufferGetLoop_fst (n : Nat) (fifo : CommFifoBufferType) :
    (commFifoBufferGetLoop n fifo).1 = if n ≤ fifo.count then .ok else .noent := by
  induction n generalizing fifo with
  | zero => exact (if_pos (Nat.zero_le _)).symm
  | succ n ih =>
    by_cases hzero : fifo.count = 0
    · rw [if_neg (by omega)]
      simp only [commFifoBufferGetLoop, fifoBufferGet, if_pos hzero]
    · simp only [commFifoBufferGetLoop, fifoBufferGet, if_neg hzero, ih]
      exact if_congr (by omega) rfl rfl

theorem commFifoBufferGet_fst (fifo : CommFifoBufferType) (n : Nat) :
    (commFifoBufferGet fifo n).1 = if 0 < fifo.count ∧ n ≤ fifo.count then .ok else .noent := by
  unfold commFifoBufferGet
  split_ifs with hzero hfits hfits
  · omega
  · rfl
  · rw [commFifoBufferGetLoop_fst, if_pos hfits.2]
  · rw [commFifoBufferGetLoop_fst, if_neg (by omega)]

theorem commFifoBufferGet_one_fst (fifo : CommFifoBufferType) :
    (commFifoBufferGet fifo 1).1 = if fifo.count = 0 then .noent else .ok := by
  rw [commFifoBufferGet_fst]
  split_ifs with hfits hzero hzero
  · omega
  · rfl
  · rfl
  · omega

/-! ## One byte -/

theorem commFifoBufferAdd_one (hok : fifo.Ok) (hroom : fifo.count < fifo.maxSize) (b : UInt8) :
    ∃ fifo', commFifoBufferAdd fifo [b] = (.ok, fifo', 1) ∧ fifo'.Ok ∧ fifo'.maxSize = fifo.maxSize ∧
      fifo'.contents = fifo.contents ++ [b] := by
  obtain ⟨fifo', hadd, hspec⟩ := fifoBufferAdd_of_lt hok hroom b
  refine ⟨fifo', ?_, hspec⟩
  simp only [commFifoBufferAdd, if_neg (Nat.not_le.2 hroom), commFifoBufferAddLoop, hadd]

theorem commFifoBufferGet_one_of_cons (hok : fifo.Ok) {b : UInt8} {bs : List UInt8}
    (hcont : fifo.contents = b :: bs) :
    ∃ fifo', commFifoBufferGet fifo 1 = (.ok, fifo', [b]) ∧ fifo'.Ok ∧ fifo'.maxSize = fifo.maxSize ∧
      fifo'.contents = bs := by
  have hcount : fifo.count ≠ 0 := by
    rw [← CommFifoBufferType.length_contents, hcont]
    exact Nat.succ_ne_zero _
  obtain ⟨fifo', hget, hspec⟩ := fifoBufferGet_of_cons hok hcont
  refine ⟨fifo', ?_, hspec⟩
  simp only [commFifoBufferGet, if_neg hcount, commFifoBufferGetLoop, hget]

theorem commFifoBufferGet_of_nil (hcont : fifo.contents = []) (n : Nat) :
    commFifoBufferGet fifo n = (.noent, fifo, []) := by
  refine if_pos ?_
  rw [← CommFifoBufferType.length_contents, hcont]
  rfl

end

end Athrill
