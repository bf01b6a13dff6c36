import Athrill.Lib.Bytes

/-!
# Flat memory

A byte for every address, of which some ranges can be read and some of these written.
-/

namespace FlatMemory

open List

/-! ## Bytes -/

def store (byte : Nat → UInt8) (a : Nat) (bytes : List UInt8) : Nat → UInt8 := fun x =>
  if a ≤ x then (bytes[x - a]?).getD (byte x) else byte x

def load (byte : Nat → UInt8) (a n : Nat) : List UInt8 := (range n).map fun k => byte (a + k)

section
variable {byte : Nat → UInt8} {a x : Nat} {bytes : List UInt8}

@[simp] theorem store_nil : store byte a [] = byte := by
  funext x
  simp [store]

theorem store_of_not_mem (h : ¬ (a ≤ x ∧ x < a + bytes.length)) :
    store byte a bytes x = byte x := by
  unfold store
  split_ifs with hle
  · rw [getElem?_eq_none (by omega), Option.getD_none]
  · rfl

theorem store_add {k : Nat} (h : k < bytes.length) : store byte a bytes (a + k) = bytes[k] := by
  rw [store, if_pos (Nat.le_add_right a k), Nat.add_sub_cancel_left, getElem?_eq_getElem h,
    Option.getD_some]

theorem load_store_self (byte : Nat → UInt8) (bytes : List UInt8) :
    load (store byte 0 bytes) 0 bytes.length = bytes := by
  refine ext_getElem (by simp [load]) fun i _ hi => ?_
  simpa [load] using store_add (a := 0) hi

theorem store_append {bytes' : List UInt8} :
    store (store byte a bytes) (a + bytes.length) bytes' = store byte a (bytes ++ bytes') := by
  funext x
  unfold store
  by_cases hlow : a ≤ x
  · by_cases hhigh : a + bytes.length ≤ x
    · rw [if_pos hhigh, if_pos hlow, if_pos hlow, getElem?_append_right (by omega),
        getElem?_eq_none (show bytes.length ≤ x - a by omega), Option.getD_none,
        Nat.sub_add_eq]
    · rw [if_neg hhigh, if_pos hlow, if_pos hlow, getElem?_append_left (by omega)]
  · rw [if_neg (by omega), if_neg hlow, if_neg hlow]

def stores (byte : Nat → UInt8) (ws : List (Nat × List UInt8)) : Nat → UInt8 :=
  ws.foldl (fun byte w => store byte w.1 w.2) byte

variable {ws : List (Nat × List UInt8)}

@[simp] theorem stores_cons {w : Nat × List UInt8} :
    stores byte (w :: ws) = stores (store byte w.1 w.2) ws := rfl

theorem stores_append {ws ws' : List (Nat × List UInt8)} :
    stores byte (ws ++ ws') = stores (stores byte ws) ws' := foldl_append ..

theorem stores_of_not_mem
    (h : ∀ w ∈ ws, ¬ (w.1 ≤ x ∧ x < w.1 + w.2.length)) : stores byte ws x = byte x := by
  induction ws generalizing byte with
  | nil => rfl
  | cons w ws ih =>
    rw [stores_cons, ih fun w' hw' => h w' (.tail _ hw'), store_of_not_mem (h w (.head _))]

theorem stores_congr {byte' : Nat → UInt8} (h : byte x = byte' x ∨ ∃ w ∈ ws, w.1 ≤ x ∧ x < w.1 + w.2.length) :
    stores byte ws x = stores byte' ws x := by
  induction ws generalizing byte byte' with
  | nil => exact h.resolve_right fun ⟨w, hw, _⟩ => by cases hw
  | cons w ws ih =>
    rw [stores_cons, stores_cons]
    by_cases hw : w.1 ≤ x ∧ x < w.1 + w.2.length
    · obtain ⟨k, rfl⟩ : ∃ k, x = w.1 + k := ⟨x - w.1, by omega⟩
      exact ih (.inl (by rw [store_add (by omega), store_add (by omega)]))
    · rcases h with h | ⟨w', hw', hx⟩
      · exact ih (.inl (by rw [store_of_not_mem hw, store_of_not_mem hw, h]))
      · rcases mem_cons.1 hw' with rfl | hw'
        · exact absurd hx hw
        · exact ih (.inr ⟨w', hw', hx⟩)

theorem stores_const {v : UInt8} (h : ∀ w ∈ ws, ∀ b ∈ w.2, b = v) :
    stores (fun _ => v) ws = fun _ => v := by
  induction ws with
  | nil => rfl
  | cons w ws ih =>
    have hstore : store (fun _ => v) w.1 w.2 = fun _ => v := by
      funext x
      unfold store
      split_ifs
      · cases hget : w.2[x - w.1]? with
        | none => rfl
        | some b => exact h w (.head _) b (mem_of_getElem? hget)
      · rfl
    rw [stores_cons, hstore, ih fun w' hw' => h w' (.tail _ hw')]

theorem stores_last {ws ws' : List (Nat × List UInt8)} {w : Nat × List UInt8} {k : Nat}
    (hk : k < w.2.length) (h : ∀ w' ∈ ws', ¬ (w'.1 ≤ w.1 + k ∧ w.1 + k < w'.1 + w'.2.length)) :
    stores byte (ws ++ w :: ws') (w.1 + k) = w.2[k] := by
  rw [stores_append, stores_cons, stores_of_not_mem h, store_add hk]

end

/-! ## Ranges -/

structure Range where
  lo : Nat
  hi : Nat
  writable : Bool
  deriving DecidableEq, Repr

/-- Bytes at the addresses of some ranges: what a bus without regions would be. -/
structure Memory where
  ranges : List Range
  byte : Nat → UInt8

def Memory.Readable (f : Memory) (a n : Nat) : Prop := ∃ r ∈ f.ranges, r.lo ≤ a ∧ a + n ≤ r.hi

def Memory.Writable (f : Memory) (a n : Nat) : Prop :=
  ∃ r ∈ f.ranges, r.writable = true ∧ r.lo ≤ a ∧ a + n ≤ r.hi

theorem Memory.Writable.readable {f : Memory} {a n : Nat} (h : f.Writable a n) : f.Readable a n := by
  obtain ⟨r, hr, -, hin⟩ := h
  exact ⟨r, hr, hin⟩

instance Memory.instDecidableReadable (f : Memory) (a n : Nat) : Decidable (f.Readable a n) :=
  inferInstanceAs (Decidable (∃ r ∈ f.ranges, r.lo ≤ a ∧ a + n ≤ r.hi))

instance Memory.instDecidableWritable (f : Memory) (a n : Nat) : Decidable (f.Writable a n) :=
  inferInstanceAs (Decidable (∃ r ∈ f.ranges, r.writable = true ∧ r.lo ≤ a ∧ a + n ≤ r.hi))

end FlatMemory
