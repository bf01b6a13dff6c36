import Athrill.Lib.Run
import Athrill.StdTypes

/-!
# The arena of the emulator (`lib/athrill_memory.h`)

`athrill_mem_alloc` takes blocks from entries of `ATHRILL_MEM_ENTRY_SIZE` bytes, one after another, and goes
on in a new entry if the current one has too little left. Main result: `athrill_mem_alloc_blocks`.
-/

namespace Athrill

open Machine List

/-! ## The source -/

def athrillMemEntrySize : Nat := 10240 * 1024 * 4

structure AthrillMemEntryType where
  freeStart : Nat
  freesize : Nat
  next : Option Nat
  deriving DecidableEq, Repr

/-- `athrill_mem_head`, with the entries that it leads to. -/
structure AthrillMem where
  entries : List AthrillMemEntryType
  headp : Option Nat
  currp : Option Nat
  deriving DecidableEq, Repr

def AthrillMem.empty : AthrillMem := ⟨[], none, none⟩

def athrillMemInit : AthrillMemEntryType := ⟨0, athrillMemEntrySize, none⟩

structure MemBlock where
  entry : Nat
  start : Nat
  size : Nat
  deriving DecidableEq, Repr

def AthrillMem.withHead (s : AthrillMem) : AthrillMem :=
  match s.headp with
  | none => ⟨s.entries ++ [athrillMemInit], some s.entries.length, some s.entries.length⟩
  | some _ => s

def AthrillMem.withRoom (s : AthrillMem) (size : Nat) : Option (AthrillMem × Nat × AthrillMemEntryType) := do
  let curr ← s.currp
  let e ← s.entries[curr]?
  if size > e.freesize then
    let e := { athrillMemInit with next := some curr }
    some ({ s with entries := s.entries ++ [e], currp := some s.entries.length }, s.entries.length, e)
  else some (s, curr, e)

def athrillMemAlloc (s : AthrillMem) (size : Nat) : Option (AthrillMem × MemBlock) :=
  if size ≤ athrillMemEntrySize then
    (s.withHead.withRoom size).map fun r =>
      let e := { r.2.2 with
        freeStart := u32 (r.2.2.freeStart + size)
        freesize := u32 (r.2.2.freesize + 2 ^ 32 - size) }
      ({ r.1 with entries := r.1.entries.set r.2.1 e }, ⟨r.2.1, r.2.2.freeStart, size⟩)
  else none

/-! ## Blocks -/

def MemBlock.Apart (a b : MemBlock) : Prop :=
  a.entry ≠ b.entry ∨ a.start + a.size ≤ b.start ∨ b.start + b.size ≤ a.start

def AthrillMemEntryType.Split (e : AthrillMemEntryType) : Prop := e.freeStart + e.freesize = athrillMemEntrySize

structure AthrillMem.Holds (s : AthrillMem) (blocks : List MemBlock) : Prop where
  split : ∀ e ∈ s.entries, e.Split
  curr : s.headp.isSome → ∃ c e, s.currp = some c ∧ s.entries[c]? = some e
  taken : ∀ b ∈ blocks, ∃ e, s.entries[b.entry]? = some e ∧ b.start + b.size ≤ e.freeStart
  apart : blocks.Pairwise MemBlock.Apart

section
variable {s : AthrillMem} {blocks : List MemBlock} {size : Nat}

theorem split_init (next : Option Nat) : ({ athrillMemInit with next := next } : AthrillMemEntryType).Split :=
  Nat.zero_add _

section
variable (h : s.Holds blocks)
include h

theorem AthrillMem.Holds.append {e : AthrillMemEntryType} (he : e.Split) (headp : Option Nat) :
    Holds ⟨s.entries ++ [e], headp, some s.entries.length⟩ blocks where
  split x hx := by
    rcases mem_append.1 hx with hx | hx
    · exact h.split x hx
    · exact mem_singleton.1 hx ▸ he
  curr _ := ⟨_, e, rfl, getElem?_concat_length⟩
  taken b hb := by
    obtain ⟨x, hx, hle⟩ := h.taken b hb
    exact ⟨x, List.getElem?_append_left (List.getElem?_eq_some_iff.1 hx).1 ▸ hx, hle⟩
  apart := h.apart

theorem AthrillMem.Holds.withHead : s.withHead.Holds blocks ∧ s.withHead.headp.isSome := by
  unfold AthrillMem.withHead
  split
  · exact ⟨h.append (split_init none) _, rfl⟩
  · next hhead => exact ⟨h, hhead ▸ rfl⟩

theorem AthrillMem.Holds.withRoom (hhead : s.headp.isSome) (hsize : size ≤ athrillMemEntrySize) :
    ∃ s' c e, s.withRoom size = some (s', c, e) ∧ s'.Holds blocks ∧ s'.headp = s.headp ∧
      s'.entries[c]? = some e ∧ s'.currp = some c ∧ size ≤ e.freesize := by
  obtain ⟨c, e, hc, he⟩ := h.curr hhead
  simp only [AthrillMem.withRoom, hc, he, Option.bind_eq_bind, Option.bind_some]
  split_ifs with hfull
  · exact ⟨_, _, _, rfl, h.append (split_init _) _, rfl, getElem?_concat_length, rfl, hsize⟩
  · exact ⟨s, c, e, rfl, h, rfl, he, hc, not_lt.1 hfull⟩

theorem AthrillMem.Holds.alloc (hsize : size ≤ athrillMemEntrySize) :
    ∃ s' b, athrillMemAlloc s size = some (s', b) ∧ s'.Holds (blocks ++ [b]) ∧ b.size = size := by
  obtain ⟨hok, hhead⟩ := h.withHead
  obtain ⟨s', c, e, hroom, hok, hhead', he, hc, hle⟩ := hok.withRoom hhead hsize
  have hsplit : e.freeStart + e.freesize = athrillMemEntrySize := hok.split e (mem_of_getElem? he)
  have hbound : athrillMemEntrySize < 2 ^ 32 := by decide
  have hstart : u32 (e.freeStart + size) = e.freeStart + size := Nat.mod_eq_of_lt (by omega)
  have hfree : u32 (e.freesize + 2 ^ 32 - size) = e.freesize - size := by
    unfold u32
    omega
  have hlt := (List.getElem?_eq_some_iff.1 he).1
  simp only [athrillMemAlloc, if_pos hsize, hroom, Option.map_some, hstart, hfree]
  refine ⟨_, _, rfl, ⟨fun x hx => ?_, fun _ => ⟨c, _, hc, getElem?_set_self hlt⟩, fun b hb => ?_, ?_⟩, rfl⟩
  · rcases mem_or_eq_of_mem_set hx with hx | rfl
    · exact hok.split x hx
    · simp only [AthrillMemEntryType.Split]
      omega
  · -- a block of the current entry ends where its free part begins
    rcases mem_append.1 hb with hb | hb
    · obtain ⟨x, hx, hend⟩ := hok.taken b hb
      by_cases hcurr : c = b.entry
      · subst hcurr
        cases he.symm.trans hx
        exact ⟨_, getElem?_set_self hlt, Nat.le_add_right_of_le hend⟩
      · exact ⟨x, (getElem?_set_ne hcurr).trans hx, hend⟩
    · rw [mem_singleton.1 hb]
      exact ⟨_, getElem?_set_self hlt, le_refl _⟩
  · refine pairwise_append.2 ⟨hok.apart, pairwise_singleton _ _, fun b hb b' hb' => ?_⟩
    rw [mem_singleton.1 hb']
    obtain ⟨x, hx, hend⟩ := hok.taken b hb
    by_cases hcurr : b.entry = c
    · rw [hcurr, he] at hx
      cases hx
      exact .inr (.inl hend)
    · exact .inl hcurr

theorem AthrillMem.Holds.run {sizes : List Nat} (hsizes : ∀ size ∈ sizes, size ≤ athrillMemEntrySize) :
    ∃ s' bs, run athrillMemAlloc s sizes = some (s', bs) ∧ s'.Holds (blocks ++ bs) ∧
      bs.map MemBlock.size = sizes := by
  induction sizes generalizing s blocks with
  | nil => exact ⟨s, [], rfl, by rwa [append_nil], rfl⟩
  | cons size sizes ih =>
    obtain ⟨s₁, b, halloc, hok, hb⟩ := h.alloc (hsizes size (.head _))
    obtain ⟨s', bs, hrun, hok', hbs⟩ := ih hok fun x hx => hsizes x (.tail _ hx)
    refine ⟨s', b :: bs, run_cons_eq_some.2 ⟨s₁, b, bs, halloc, hrun, rfl⟩, ?_, ?_⟩
    · rwa [append_assoc] at hok'
    · rw [map_cons, hb, hbs]

end

end

/-- **The arena.** Every call for at most the size of an entry returns a block of that size inside one entry, the
blocks of different calls have no byte in common, and every entry is split into a taken and a free part. -/
theorem athrill_mem_alloc_blocks {sizes : List Nat} (hsizes : ∀ size ∈ sizes, size ≤ athrillMemEntrySize) :
    ∃ s bs, run athrillMemAlloc .empty sizes = some (s, bs) ∧ bs.map MemBlock.size = sizes ∧
      (∀ b ∈ bs, b.entry < s.entries.length ∧ b.start + b.size ≤ athrillMemEntrySize) ∧
      bs.Pairwise MemBlock.Apart ∧ ∀ e ∈ s.entries, e.freeStart + e.freesize = athrillMemEntrySize := by
  have hempty : AthrillMem.empty.Holds [] :=
    ⟨fun _ he => (by cases he), fun hsome => (by cases hsome), fun _ hb => (by cases hb), .nil⟩
  obtain ⟨s, bs, hrun, hok, hmap⟩ := hempty.run hsizes
  refine ⟨s, bs, hrun, hmap, fun b hb => ?_, hok.apart, hok.split⟩
  obtain ⟨e, he, hend⟩ := hok.taken b hb
  have hsplit : e.freeStart + e.freesize = athrillMemEntrySize := hok.split e (List.mem_of_getElem? he)
  exact ⟨(List.getElem?_eq_some_iff.1 he).1, by omega⟩

theorem athrill_mem_alloc_blocks_two :
    ∃ s bs, run athrillMemAlloc .empty [41943040, 24, 0] = some (s, bs) ∧
      bs.map MemBlock.size = [41943040, 24, 0] ∧
      (∀ b ∈ bs, b.entry < s.entries.length ∧ b.start + b.size ≤ athrillMemEntrySize) ∧
      bs.Pairwise MemBlock.Apart ∧ ∀ e ∈ s.entries, e.freeStart + e.freesize = athrillMemEntrySize :=
  athrill_mem_alloc_blocks (by decide)

end Athrill
