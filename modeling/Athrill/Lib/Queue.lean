import Mathlib.Data.List.Basic

/-!
# Bounded queues

A queue of at most `cap` elements.
-/

universe u

structure BoundedQueue (α : Type u) (cap : Nat) where
  items : List α
  bounded : items.length ≤ cap

namespace BoundedQueue

variable {α : Type u} {cap : Nat}

def empty : BoundedQueue α cap := ⟨[], Nat.zero_le cap⟩

section
variable (q : BoundedQueue α cap)

def room : Nat := cap - q.items.length

def accepted (data : List α) : List α := data.take q.room

theorem length_accepted (data : List α) : (q.accepted data).length = min data.length q.room := by
  rw [accepted, List.length_take, Nat.min_comm]

def push (data : List α) : BoundedQueue α cap where
  items := q.items ++ q.accepted data
  bounded := by
    have hle := q.bounded
    rw [List.length_append, length_accepted, room]
    omega

def pop (n : Nat) : BoundedQueue α cap where
  items := q.items.drop n
  bounded := Nat.le_trans (by rw [List.length_drop]; exact Nat.sub_le ..) q.bounded

end

end BoundedQueue
