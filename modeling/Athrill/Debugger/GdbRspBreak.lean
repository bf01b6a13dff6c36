import Athrill.Debugger.GdbRsp

/-!
# Breakpoints of a GDB session

The packets `Z0` and `z0` insert and remove breakpoints in the table of the debugger. Main result:
`gdb_breakpoints_iff`.
-/

namespace Athrill

open Bytes Strtoul List Function BreakState

variable {W : Nat} {ρ : Type}

/-! ## Packets -/

structure BreakPacket where
  insert : Bool
  addr : List UInt8
  kind : List UInt8
  address : BitVec 32
  size : BitVec 32
  addr_ne : ∀ b ∈ addr, b ≠ 44
  parse_addr : parseHexU32 addr = some address
  parse_kind : parseHexU32 kind = some size

def BreakPacket.text (p : BreakPacket) : List UInt8 :=
  (if p.insert then 90 else 122) :: 48 :: 44 :: (p.addr ++ 44 :: p.kind)

theorem strchr_append {c : UInt8} {before : List UInt8} (h : ∀ b ∈ before, b ≠ c) (after : List UInt8) :
    strchr c (before ++ c :: after) = some (before, after) := by
  have hp : ∀ b ∈ before, decide (b ≠ c) = true := fun b hb => decide_eq_true (h b hb)
  rw [strchr, dropWhile_append_of_pos hp, takeWhile_append_of_pos hp]
  simp

theorem dispatchPacket_break (T : GdbTarget W ρ) (s : GdbState W ρ) (p : BreakPacket) (input : List UInt8) :
    dispatchPacket T s p.text input =
      if p.size = 0 then sendReply T s replyE01
      else if p.insert then insertBreak T s p.address else removeBreak T s p.address := by
  have hfirst : strchr 44 (48 :: 44 :: (p.addr ++ 44 :: p.kind)) =
      some ([48], p.addr ++ 44 :: p.kind) := @strchr_append 44 [48] (by simp) _
  have htype : (strtoul [48]).value % 2 ^ 32 = 0 := by decide
  have hbreak : ∀ insert, dispatchBreak T s insert (48 :: 44 :: (p.addr ++ 44 :: p.kind)) =
      if p.size = 0 then sendReply T s replyE01
      else if insert then insertBreak T s p.address else removeBreak T s p.address := by
    intro insert
    simp only [dispatchBreak, hfirst, strchr_append p.addr_ne, htype, p.parse_addr, p.parse_kind, ne_eq,
      not_true_eq_false, if_false]
  cases hinsert : p.insert with
  | true => simpa [BreakPacket.text, hinsert, dispatchPacket, ascii] using hbreak true
  | false => simpa [BreakPacket.text, hinsert, dispatchPacket, ascii] using hbreak false

def breakPacketStep (T : GdbTarget W ρ) (s : GdbState W ρ) (p : BreakPacket) :
    Option (GdbState W ρ × Option (List UInt8)) :=
  (dispatchPacket T s p.text []).map fun o => (o.state, o.reply)

/-! ## The set of inserted addresses -/

def insertedStep (inserted : Finset (BitVec 32)) (p : BreakPacket) (reply : Option (List UInt8)) :
    Finset (BitVec 32) :=
  if reply = some replyOk then
    if p.insert then Insert.insert p.address inserted else inserted.erase p.address
  else inserted

def RightReply (s : BreakState) (inserted : Finset (BitVec 32)) (p : BreakPacket)
    (reply : Option (List UInt8)) : Prop :=
  if p.insert then reply = some replyE02 → ∀ i, (s.points i).isSet = true
  else (reply = some replyOk ↔ p.address ∈ inserted) ∧ (p.address ∉ inserted → reply = some replyE03)

def BreaksFollow (T : GdbTarget W ρ) : GdbState W ρ → Finset (BitVec 32) → List BreakPacket → Prop
  | s, inserted, [] => ∀ a, cpuctrlIsBreakPoint s.breaks a = true ↔ a ∈ inserted
  | s, inserted, p :: ps =>
    ∃ s' reply, breakPacketStep T s p = some (s', reply) ∧ RightReply s.breaks inserted p reply ∧
      BreaksFollow T s' (insertedStep inserted p reply) ps

def BreaksFit : Bool → List BreakPacket → Prop
  | zero, [] => zero = true
  | zero, p :: ps =>
    (p.insert = false → p.size ≠ 0 ∧ (p.address = 0 → zero = true)) ∧
      BreaksFit (if p.address = 0 ∧ p.size ≠ 0 then p.insert else zero) ps

/-! ## The table of a session -/

structure SessionTable (b : BreakState) (inserted : Finset (BitVec 32)) (zero : Bool) : Prop where
  counted : b.Counted 0
  forever : ∀ i, (b.points i).isSet = true → (b.points i).type = .forever
  inj : ∀ i j, (b.points i).isSet = true → (b.points j).isSet = true →
    (b.points i).addr = (b.points j).addr → i = j
  mem : ∀ a, a ≠ 0 → (a ∈ inserted ↔ ∃ i, (b.points i).isSet = true ∧ (b.points i).addr = a)
  zero : 0 ∈ inserted ↔ zero = true

theorem BreakState.firstEntry_delAllBreakLoop (type : BreakPointEumType) (is : List (Fin breakSetsize))
    {b : BreakState} (h : b.FirstEntry) : (delAllBreakLoop type is b).FirstEntry := by
  induction is generalizing b with
  | nil => exact h
  | cons i is ih =>
    rw [delAllBreakLoop]
    split_ifs
    · exact ih (firstEntry_delBreakAt h i)
    · exact ih h

theorem BreakState.eq_zero_or_mem_entries {b : BreakState} {i : Fin breakSetsize}
    (h : (b.points i).isSet = true) : i = 0 ∨ i ∈ b.entries (b.points i).type := by
  by_cases hi : i = 0
  · exact .inl hi
  · exact .inr (mem_entries.2 ⟨hi, h, rfl⟩)

theorem sessionTable_start {b : BreakState} (hfirst : b.FirstEntry)
    (honce : ∀ i, (b.points i).isSet = true → (b.points i).type = .forever) :
    SessionTable (cpuctrlDelAllBreak b .forever) ∅ false := by
  have hfirst' := firstEntry_delAllBreakLoop .forever (finRange breakSetsize) hfirst
  have hforever := delAllBreakLoop_finRange .forever b
  have hnone : (delAllBreakLoop .forever (finRange breakSetsize) b).entries .onlyOnce = ∅ := by
    rw [delAllBreakLoop_entries, if_neg (by decide), Finset.eq_empty_iff_forall_notMem]
    intro i hi
    obtain ⟨-, hset, htype⟩ := mem_entries.1 hi
    rw [honce i hset] at htype
    cases htype
  rw [cpuctrlDelAllBreak_forever]
  generalize delAllBreakLoop .forever (finRange breakSetsize) b = b' at hfirst' hforever hnone
  have hzero : ∀ i, (b'.points i).isSet = true → i = 0 := by
    intro i hset
    refine (eq_zero_or_mem_entries hset).resolve_right fun hi => ?_
    cases htype : (b'.points i).type with
    | forever =>
      rw [htype, hforever] at hi
      exact Finset.notMem_empty _ hi
    | onlyOnce =>
      rw [htype, hnone] at hi
      exact Finset.notMem_empty _ hi
  have hpoint : b'.points 0 = ⟨true, .forever, 0⟩ := hfirst'
  refine ⟨⟨hfirst', ?_⟩, fun i hi => ?_, fun i j hi hj _ => ?_, fun a ha => ?_, by simp⟩
  · show (0 : Int) = (b'.entries .forever).card - (0 : Nat)
    rw [hforever]
    rfl
  · rw [hzero i hi, hpoint]
  · rw [hzero i hi, hzero j hj]
  · refine iff_of_false (Finset.notMem_empty a) ?_
    rintro ⟨i, hi, rfl⟩
    rw [hzero i hi, hpoint] at ha
    exact ha rfl

section
variable {b : BreakState} {inserted : Finset (BitVec 32)} {zero : Bool}

theorem SessionTable.isBreakPoint (h : SessionTable b inserted zero) (a : BitVec 32) :
    cpuctrlIsBreakPoint b a = true ↔ a = 0 ∨ a ∈ inserted := by
  have hexact : b.Exact := by
    rw [exact_iff h.counted.first]
    by_cases hn : 0 < b.num
    · exact .inl hn
    · right
      intro i hi
      have hempty : b.entries .forever = ∅ := by
        have := h.counted.num
        rw [← Finset.card_eq_zero]
        omega
      rcases eq_zero_or_mem_entries hi with rfl | hmem
      · rw [h.counted.first]
      · rw [h.forever i hi, hempty] at hmem
        exact absurd hmem (Finset.notMem_empty _)
  rw [hexact a]
  by_cases ha : a = 0
  · refine iff_of_true ⟨0, ?_, ?_⟩ (.inl ha)
    · rw [h.counted.first]
    · rw [h.counted.first, ha]
  · rw [← h.mem a ha, or_iff_right ha]

theorem SessionTable.setBreak (h : SessionTable b inserted zero) (a : BitVec 32) :
    ((cpuctrlSetBreak b a .forever).2 = true ∧
        SessionTable (cpuctrlSetBreak b a .forever).1 (insert a inserted) (if a = 0 then true else zero)) ∨
      ((cpuctrlSetBreak b a .forever).2 = false ∧ (cpuctrlSetBreak b a .forever).1 = b ∧ a ≠ 0 ∧
        ∀ i, (b.points i).isSet = true) := by
  have hcounted := counted_setBreak h.counted a .forever
  have hzero : 0 ∈ insert a inserted ↔ (if a = 0 then true else zero) = true := by
    by_cases ha : a = 0
    · simp [ha]
    · rw [if_neg ha, Finset.mem_insert, or_iff_right (Ne.symm ha), h.zero]
  cases hfind : searchBreakPointWithType b a .forever with
  | some i =>
    have hfound : (b.points i).isSet = true ∧ (b.points i).type = .forever ∧ (b.points i).addr = a := by
      simpa [and_assoc] using find?_some hfind
    have hres : cpuctrlSetBreak b a .forever = (b, true) := by simp [cpuctrlSetBreak, hfind]
    rw [hres]
    refine .inl ⟨rfl, h.counted, h.forever, h.inj, fun a' ha' => ?_, hzero⟩
    rw [Finset.mem_insert, h.mem a' ha', or_iff_right_iff_imp]
    rintro rfl
    exact ⟨i, hfound.1, hfound.2.2⟩
  | none =>
    have hnew : ∀ i, (b.points i).isSet = true → (b.points i).addr ≠ a := by
      intro i hset haddr
      have := find?_eq_none.1 hfind i (mem_finRange i)
      simp [hset, haddr, h.forever i hset] at this
    cases hfree : searchFreeBreakPointSpace b with
    | none =>
      have hres : cpuctrlSetBreak b a .forever = (b, false) := by simp [cpuctrlSetBreak, hfind, hfree]
      have hpoint : b.points 0 = ⟨true, .forever, 0⟩ := h.counted.first
      rw [hres]
      refine .inr ⟨rfl, rfl, fun ha => hnew 0 (by rw [hpoint]) (by rw [hpoint, ha]), fun i => ?_⟩
      simpa using find?_eq_none.1 hfree i (mem_finRange i)
    | some i =>
      have hres : cpuctrlSetBreak b a .forever =
          (⟨b.num + 1, update b.points i ⟨true, .forever, a⟩⟩, true) := by
        simp [cpuctrlSetBreak, hfind, hfree]
      rw [hres] at hcounted ⊢
      have hunset : (b.points i).isSet = false := by simpa using find?_some hfree
      refine .inl ⟨rfl, hcounted, fun j hj => ?_, fun j k hj hk hjk => ?_, fun a' ha' => ?_, hzero⟩
      · by_cases hji : j = i
        · simp [hji]
        · simp only [update_of_ne hji] at hj ⊢
          exact h.forever j hj
      · by_cases hji : j = i <;> by_cases hki : k = i
        · rw [hji, hki]
        · simp only [hji, update_self, update_of_ne hki] at hk hjk
          exact absurd hjk.symm (hnew k hk)
        · simp only [hki, update_self, update_of_ne hji] at hj hjk
          exact absurd hjk (hnew j hj)
        · simp only [update_of_ne hji, update_of_ne hki] at hj hk hjk
          exact h.inj j k hj hk hjk
      · rw [Finset.mem_insert, h.mem a' ha']
        constructor
        · rintro (rfl | ⟨j, hj, rfl⟩)
          · exact ⟨i, by simp, by simp⟩
          · have hji : j ≠ i := by
              rintro rfl
              rw [hunset] at hj
              cases hj
            exact ⟨j, by simpa [hji] using hj, by simp [hji]⟩
        · rintro ⟨j, hj, haddr⟩
          by_cases hji : j = i
          · subst hji
            simp only [update_self] at haddr
            exact .inl haddr.symm
          · simp only [update_of_ne hji] at hj haddr
            exact .inr ⟨j, hj, haddr⟩

theorem SessionTable.delBreakAt (h : SessionTable b inserted zero) {i : Fin breakSetsize}
    (hset : (b.points i).isSet = true) (ha : (b.points i).addr ≠ 0) :
    SessionTable (Athrill.delBreakAt b i) (inserted.erase (b.points i).addr) zero := by
  have hi : i ≠ 0 := by
    rintro rfl
    rw [h.counted.first] at ha
    exact ha rfl
  have honce : i ∉ b.entries .onlyOnce := by
    intro hmem
    have htype := (mem_entries.1 hmem).2.2
    rw [h.forever i hset] at htype
    cases htype
  have hcounted := counted_delBreakAt h.counted i
  rw [if_neg honce] at hcounted
  have hother : ∀ j, j ≠ i → (Athrill.delBreakAt b i).points j = b.points j := fun j hj => by
    simp [Athrill.delBreakAt, hi, hj]
  have hunset : ((Athrill.delBreakAt b i).points i).isSet = false := by simp [Athrill.delBreakAt, hi]
  have hne : ∀ j, ((Athrill.delBreakAt b i).points j).isSet = true → j ≠ i := by
    rintro j hj rfl
    rw [hunset] at hj
    cases hj
  refine ⟨hcounted, fun j hj => ?_, fun j k hj hk hjk => ?_, fun a ha' => ?_, ?_⟩
  · have hji := hother j (hne j hj)
    rw [hji] at hj ⊢
    exact h.forever j hj
  · have hji := hother j (hne j hj)
    have hki := hother k (hne k hk)
    rw [hji] at hj hjk
    rw [hki] at hk hjk
    exact h.inj j k hj hk hjk
  · rw [Finset.mem_erase, h.mem a ha']
    constructor
    · rintro ⟨hnot, j, hj, rfl⟩
      have hji : j ≠ i := fun heq => hnot (by rw [heq])
      exact ⟨j, by rwa [hother j hji], by rw [hother j hji]⟩
    · rintro ⟨j, hj, rfl⟩
      have hji := hne j hj
      rw [hother j hji] at hj ⊢
      exact ⟨fun heq => hji (h.inj j i hj hset heq), j, hj, rfl⟩
  · rw [Finset.mem_erase, h.zero, and_iff_right (Ne.symm ha)]

theorem cpuctrlGetBreak_eq_some {a : BitVec 32} (i : Fin breakSetsize) :
    cpuctrlGetBreak b (BitVec.ofNat 32 i.val) = some a ↔
      (b.points i).isSet = true ∧ (b.points i).addr = a := by
  have hlt := i.isLt
  have htoNat : (BitVec.ofNat 32 i.val).toNat = i.val := by
    rw [BitVec.toNat_ofNat, Nat.mod_eq_of_lt (by simp only [breakSetsize] at hlt; omega)]
  simp only [cpuctrlGetBreak, htoNat, hlt, dite_true]
  cases (b.points i).isSet <;> simp

theorem findBreak_cases (b : BreakState) (a : BitVec 32) :
    (findBreak b a = none ∧ ∀ i, (b.points i).isSet = true → (b.points i).addr ≠ a) ∨
      ∃ i : Fin breakSetsize, findBreak b a = some i.val ∧ (b.points i).isSet = true ∧
        (b.points i).addr = a := by
  cases hfind : findBreak b a with
  | none =>
    refine .inl ⟨rfl, fun i hset haddr => ?_⟩
    have hnot := find?_eq_none.1 hfind i.val (mem_range.2 i.isLt)
    exact hnot (decide_eq_true ((cpuctrlGetBreak_eq_some i).2 ⟨hset, haddr⟩))
  | some n =>
    have hlt : n < breakSetsize := mem_range.1 (mem_of_find?_eq_some hfind)
    have hfound : cpuctrlGetBreak b (BitVec.ofNat 32 n) = some a := by
      simpa using find?_some hfind
    exact .inr ⟨⟨n, hlt⟩, rfl, (cpuctrlGetBreak_eq_some ⟨n, hlt⟩).1 hfound⟩

theorem SessionTable.eraseZero (h : SessionTable b inserted zero) :
    SessionTable b (inserted.erase 0) false := by
  refine ⟨h.counted, h.forever, h.inj, fun a ha => ?_, by simp⟩
  rw [Finset.mem_erase, and_iff_right ha, h.mem a ha]

theorem cpuctrlDelBreak_ofNat (b : BreakState) {i : Fin breakSetsize} (hi : i ≠ 0) :
    cpuctrlDelBreak b (BitVec.ofNat 32 i.val) = some (delBreakAt b i, true) := by
  have hlt := i.isLt
  have hpos : 0 < i.val := Nat.pos_of_ne_zero fun h => hi (Fin.ext h)
  have htoNat : (BitVec.ofNat 32 i.val).toNat = i.val := by
    rw [BitVec.toNat_ofNat, Nat.mod_eq_of_lt (by simp only [breakSetsize] at hlt; omega)]
  have hgt : BitVec.ofNat 32 i.val > 0 := by
    rw [gt_iff_lt, BitVec.lt_def, htoNat]
    exact hpos
  simp only [cpuctrlDelBreak, hgt, if_true, htoNat, hlt, dite_true]

theorem removeBreak_cases (T : GdbTarget W ρ) {s : GdbState W ρ} {inserted : Finset (BitVec 32)}
    {zero : Bool} (h : SessionTable s.breaks inserted zero) (a : BitVec 32) :
    (a = 0 ∧ removeBreak T s a = sendReply T s replyOk) ∨
      (a ≠ 0 ∧ a ∉ inserted ∧ removeBreak T s a = sendReply T s replyE03) ∨
      (a ≠ 0 ∧ a ∈ inserted ∧ ∃ b, SessionTable b (inserted.erase a) zero ∧
        removeBreak T s a = sendReply T { s with breaks := b } replyOk) := by
  have hpoint : s.breaks.points 0 = ⟨true, .forever, 0⟩ := h.counted.first
  obtain ⟨hfind, hall⟩ | ⟨i, hfind, hset, haddr⟩ := findBreak_cases s.breaks a
  · have ha : a ≠ 0 := fun ha => hall 0 (by rw [hpoint]) (by rw [hpoint, ha])
    refine .inr (.inl ⟨ha, ?_, by simp [removeBreak, hfind]⟩)
    rw [h.mem a ha]
    rintro ⟨i, hset, haddr⟩
    exact hall i hset haddr
  · by_cases hi : i = 0
    · subst hi
      rw [hpoint] at haddr
      subst haddr
      exact .inl ⟨rfl, by rw [removeBreak, hfind]; rfl⟩
    · have ha : a ≠ 0 := by
        rintro rfl
        exact hi (h.inj i 0 hset (by rw [hpoint]) (by rw [haddr, hpoint]))
      subst haddr
      refine .inr (.inr ⟨ha, (h.mem _ ha).2 ⟨i, hset, rfl⟩, _, h.delBreakAt hset ha, ?_⟩)
      rw [removeBreak, hfind]
      dsimp only
      rw [cpuctrlDelBreak_ofNat s.breaks hi]
      rfl

end

/-! ## Sessions -/

section
variable {T : GdbTarget W ρ} {s s' : GdbState W ρ} {p : BreakPacket} {reply : List UInt8}

theorem breakPacketStep_of_sendReply (h : dispatchPacket T s p.text [] = sendReply T s' reply) :
    breakPacketStep T s p = some (s', some reply) := by
  rw [breakPacketStep, h]
  rfl

theorem breaksFollow_cons {inserted : Finset (BitVec 32)} {ps : List BreakPacket}
    (h : dispatchPacket T s p.text [] = sendReply T s' reply) :
    BreaksFollow T s inserted (p :: ps) ↔ RightReply s.breaks inserted p (some reply) ∧
      BreaksFollow T s' (insertedStep inserted p (some reply)) ps := by
  rw [BreaksFollow, breakPacketStep_of_sendReply h]
  constructor
  · rintro ⟨s₁, reply', heq, hrest⟩
    cases heq
    exact hrest
  · exact fun hrest => ⟨s', some reply, rfl, hrest⟩

theorem breaksFollow_iff (ps : List BreakPacket) {s : GdbState W ρ} {inserted : Finset (BitVec 32)}
    {zero : Bool} (h : SessionTable s.breaks inserted zero) :
    BreaksFollow T s inserted ps ↔ BreaksFit zero ps := by
  have hE01 : replyE01 ≠ replyOk ∧ replyE01 ≠ replyE02 ∧ replyE01 ≠ replyE03 := by decide
  have hOk : replyOk ≠ replyE02 ∧ replyOk ≠ replyE03 ∧ replyE02 ≠ replyOk ∧ replyE03 ≠ replyOk := by decide
  induction ps generalizing s inserted zero with
  | nil =>
    rw [BreaksFollow, BreaksFit, ← h.zero]
    constructor
    · exact fun hall => (hall 0).1 ((h.isBreakPoint 0).2 (.inl rfl))
    · intro hzero a
      rw [h.isBreakPoint a]
      constructor
      · rintro (rfl | ha)
        · exact hzero
        · exact ha
      · exact .inr
  | cons p ps ih =>
    have hdispatch := dispatchPacket_break T s p []
    rw [BreaksFit]
    by_cases hsize : p.size = 0
    · rw [if_pos hsize] at hdispatch
      rw [breaksFollow_cons hdispatch]
      cases hinsert : p.insert with
      | true => simp [RightReply, insertedStep, hinsert, hsize, hE01, ih h]
      | false =>
        simp [RightReply, insertedStep, hinsert, hsize, hE01]
    · rw [if_neg hsize] at hdispatch
      cases hinsert : p.insert with
      | true =>
        rw [hinsert, if_pos rfl] at hdispatch
        obtain ⟨hok, htable⟩ | ⟨hok, hsame, ha, hfull⟩ := h.setBreak p.address
        · rw [insertBreak, hok, if_pos rfl] at hdispatch
          have hright : RightReply s.breaks inserted p (some replyOk) := by
            simp [RightReply, hinsert, hOk]
          have hset : insertedStep inserted p (some replyOk) = insert p.address inserted := by
            simp [insertedStep, hinsert]
          have hnext : BreaksFollow T { s with breaks := _ } (insert p.address inserted) ps ↔ _ := ih htable
          rw [breaksFollow_cons hdispatch, and_iff_right hright, hset, hnext]
          simp only [hsize, ne_eq, not_false_eq_true, and_true, reduceCtorEq, false_implies, true_and]
        · rw [insertBreak, hok, hsame] at hdispatch
          have hright : RightReply s.breaks inserted p (some replyE02) := by
            simpa [RightReply, hinsert] using hfull
          have hset : insertedStep inserted p (some replyE02) = inserted := by
            simp [insertedStep, hOk]
          have hnext : BreaksFollow T s inserted ps ↔ BreaksFit zero ps := ih h
          rw [breaksFollow_cons hdispatch]
          rw [if_neg (by decide), and_iff_right hright, hset, hnext]
          simp only [ha, false_and, if_false, reduceCtorEq, false_implies, true_and]
      | false =>
        rw [hinsert, if_neg (by decide)] at hdispatch
        obtain ⟨ha, hremove⟩ | ⟨ha, hmem, hremove⟩ | ⟨ha, hmem, b, htable, hremove⟩ :=
          removeBreak_cases T h p.address
        · -- address 0 is found in any case, so the reply is right exactly if 0 is inserted
          rw [hremove] at hdispatch
          have hright : RightReply s.breaks inserted p (some replyOk) ↔ zero = true := by
            simp [RightReply, hinsert, ← h.zero, ha, hOk]
          have hset : insertedStep inserted p (some replyOk) = inserted.erase 0 := by
            simp [insertedStep, hinsert, ha]
          have hnext : BreaksFollow T s (inserted.erase 0) ps ↔ BreaksFit false ps := ih h.eraseZero
          rw [breaksFollow_cons hdispatch, hright, hset, hnext]
          simp only [ha, hsize, ne_eq, not_false_eq_true, and_self, if_true, true_implies, true_and]
        · rw [hremove] at hdispatch
          have hright : RightReply s.breaks inserted p (some replyE03) := by
            simp [RightReply, hinsert, hmem, hOk]
          have hset : insertedStep inserted p (some replyE03) = inserted := by
            simp [insertedStep, hOk]
          have hnext : BreaksFollow T s inserted ps ↔ BreaksFit zero ps := ih h
          rw [breaksFollow_cons hdispatch, and_iff_right hright, hset, hnext]
          simp only [ha, if_false, false_implies, and_true, hsize, ne_eq, not_false_eq_true, implies_true,
            true_and]
        · rw [hremove] at hdispatch
          have hright : RightReply s.breaks inserted p (some replyOk) := by
            simp [RightReply, hinsert, hmem]
          have hset : insertedStep inserted p (some replyOk) = inserted.erase p.address := by
            simp [insertedStep, hinsert]
          have hnext : BreaksFollow T { s with breaks := b } (inserted.erase p.address) ps ↔
            BreaksFit zero ps := ih htable
          rw [breaksFollow_cons hdispatch, and_iff_right hright, hset, hnext]
          simp only [ha, if_false, false_implies, and_true, hsize, ne_eq, not_false_eq_true, implies_true,
            true_and]

end

/-- The table follows the set of inserted addresses along the packets of a session exactly if removals
have another kind than 0 and the address 0 is removed only while it is inserted, and inserted at the
end. -/
theorem gdb_breakpoints_iff (T : GdbTarget W ρ) (s : GdbState W ρ) (hfirst : s.breaks.FirstEntry)
    (honce : ∀ i, (s.breaks.points i).isSet = true → (s.breaks.points i).type = .forever)
    (ps : List BreakPacket) :
    BreaksFollow T { s with breaks := cpuctrlDelAllBreak s.breaks .forever } ∅ ps ↔
      BreaksFit false ps :=
  breaksFollow_iff ps (sessionTable_start hfirst honce)

/-! ## Two sessions -/

def zeroPacket (insert : Bool) : BreakPacket where
  insert := insert
  addr := [48]
  kind := [50]
  address := 0
  size := 2
  addr_ne := by simp
  parse_addr := by decide
  parse_kind := by decide

def otherPacket (insert : Bool) : BreakPacket :=
  { zeroPacket insert with
    addr := [50, 48, 48], address := 0x200, addr_ne := by simp, parse_addr := by decide }

theorem gdb_breakpoints_zero :
    BreaksFollow haltedTarget
      { haltedState with breaks := cpuctrlDelAllBreak haltedState.breaks .forever } ∅
      [otherPacket true, zeroPacket true, otherPacket true, zeroPacket false, otherPacket false,
        zeroPacket true] := by
  refine (gdb_breakpoints_iff haltedTarget haltedState rfl (fun i _ => ?_) _).2 ?_
  · show (if i = 0 then (⟨true, .forever, 0⟩ : DbgCpuCtrlBreakPointType) else ⟨false, .forever, 0⟩).type = _
    split_ifs <;> rfl
  · simp [BreaksFit, zeroPacket, otherPacket]

/-- In a new session 0 is a breakpoint, and its removal is answered with `OK`. -/
theorem gdb_zero_always_breakpoint :
    cpuctrlIsBreakPoint (cpuctrlDelAllBreak init .forever) 0 = true ∧
      (breakPacketStep haltedTarget
        { haltedState with breaks := cpuctrlDelAllBreak haltedState.breaks .forever }
        (zeroPacket false)).map Prod.snd = some (some replyOk) := by
  decide +kernel

end Athrill
