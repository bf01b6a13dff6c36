import Mathlib.Tactic.Ring
import Athrill.StdTypes

/-!
# Object containers (`lib/object_container.h`)

A container is a block of objects that grows by `append_size` objects at a time.
-/

namespace Athrill

open List

variable {α β : Type}

/-! ## Calls that return or end the program -/

def Ends (reason : Prop) (x : Except CFault α) (P : α → Prop) : Prop :=
  (x = .error .asserted ∧ reason) ∨ ∃ a, x = .ok a ∧ P a

section
variable {reason reason' : Prop} {x : Except CFault α} {P Q : α → Prop} {a : α}

theorem Ends.ok (h : P a) : Ends reason (.ok a) P := .inr ⟨a, rfl, h⟩

theorem Ends.asserted (h : reason) : Ends reason (.error .asserted) P := .inl ⟨rfl, h⟩

theorem Ends.of_eq_ok (hx : x = .ok a) (h : P a) : Ends reason x P := .inr ⟨a, hx, h⟩

theorem Ends.imp (h : Ends reason x P) (hreason : reason → reason') (himp : ∀ a, P a → Q a) :
    Ends reason' x Q := by
  rcases h with ⟨hx, hwhy⟩ | ⟨a, ha, hP⟩
  · exact .inl ⟨hx, hreason hwhy⟩
  · exact .inr ⟨a, ha, himp a hP⟩

theorem Ends.bind {f : α → Except CFault β} {R : β → Prop} (h : Ends reason x P)
    (hf : ∀ a, P a → Ends reason (f a) R) : Ends reason (x >>= f) R := by
  rcases h with ⟨rfl, hwhy⟩ | ⟨a, rfl, hP⟩
  · exact .inl ⟨rfl, hwhy⟩
  · exact hf a hP

end

/-! ## The source -/

structure ObjectContainerType (α : Type) where
  numUsingObjects : Nat
  numTotalObjects : Nat
  appendSize : Nat
  objectSize : Nat
  allocated : Nat
  data : Nat → α

structure HostHeap (α : Type) where
  grants : Nat → Bool
  junk : Nat → α
  grants_zero : grants 0 = false

/-- Some positive size is refused by the allocator of the host. -/
def HostHeap.Refuses (heap : HostHeap α) : Prop := ∃ size, 0 < size ∧ heap.grants size = false

namespace ObjectContainerType

def getElementSize (c : ObjectContainerType α) : Nat :=
  if c.objectSize > 4 then 4 + (c.objectSize - 4) else 4

def expand (heap : HostHeap α) (c : ObjectContainerType α) : Except CFault (ObjectContainerType α) :=
  let total := u32 (c.numTotalObjects + c.appendSize)
  let size := u32 (total * c.getElementSize)
  if heap.grants size then
    .ok { c with
      numTotalObjects := total
      allocated := size
      data := fun p =>
        if p + c.getElementSize ≤ min c.allocated size then c.data p else heap.junk p }
  else .error .asserted

def create (heap : HostHeap α) (objectSize appendArraySize : Nat) : Except CFault (ObjectContainerType α) :=
  -- `sizeof(ObjectContainerType)`
  if heap.grants 24 then .ok ⟨0, 0, appendArraySize, objectSize, 0, heap.junk⟩ else .error .asserted

def getElement (c : ObjectContainerType α) (index : Nat) : Option Nat :=
  if index ≥ c.numUsingObjects then none else some (u32 (index * c.getElementSize))

def useElement (c : ObjectContainerType α) : ObjectContainerType α × Option Nat :=
  let c := { c with numUsingObjects := c.numUsingObjects + 1 }
  (c, c.getElement (c.numUsingObjects - 1))

def createElement (heap : HostHeap α) (c : ObjectContainerType α) :
    Except CFault (ObjectContainerType α × Option Nat) :=
  if c.numUsingObjects < c.numTotalObjects then return c.useElement
  else do
    let c ← c.expand heap
    return c.useElement

section
variable (c : ObjectContainerType α) (p : Nat)

def load : Except CFault α :=
  if p + c.getElementSize ≤ c.allocated then .ok (c.data p) else .error .outside

def store (x : α) : Except CFault (ObjectContainerType α) :=
  if p + c.getElementSize ≤ c.allocated then .ok { c with data := Function.update c.data p x }
  else .error .outside

/-! ## Its objects -/

def elements : List α :=
  (range c.numUsingObjects).map fun i => c.data (i * c.getElementSize)

def Full : Prop := (c.numUsingObjects + c.appendSize) * c.getElementSize = 2 ^ 32

def SameSizes (c' : ObjectContainerType α) : Prop :=
  c'.appendSize = c.appendSize ∧ c'.getElementSize = c.getElementSize

end

structure Ok (c : ObjectContainerType α) : Prop where
  append_pos : 0 < c.appendSize
  using_le : c.numUsingObjects ≤ c.numTotalObjects
  allocated : c.allocated = c.numTotalObjects * c.getElementSize
  lt : c.allocated < 2 ^ 32
  aligned : c.appendSize ∣ c.numTotalObjects
  steps : c.appendSize * c.getElementSize ∣ 2 ^ 32

section
variable {c : ObjectContainerType α} {heap : HostHeap α} {i : Nat} {x : α}

theorem ends_create {objectSize appendArraySize : Nat} (happend : 0 < appendArraySize)
    (hsteps : appendArraySize * (if objectSize > 4 then 4 + (objectSize - 4) else 4) ∣ 2 ^ 32) :
    Ends heap.Refuses (create heap objectSize appendArraySize) fun c => c.Ok ∧ c.elements = [] ∧
      c.appendSize = appendArraySize ∧ c.objectSize = objectSize := by
  unfold create
  split_ifs with hgrant
  · have hok : Ok (⟨0, 0, appendArraySize, objectSize, 0, heap.junk⟩ : ObjectContainerType α) :=
      ⟨happend, le_refl _, (Nat.zero_mul _).symm, Nat.two_pow_pos 32, dvd_zero _, hsteps⟩
    exact .ok ⟨hok, rfl, rfl, rfl⟩
  · exact .asserted ⟨24, by decide, by simpa using hgrant⟩

theorem getElementSize_pos (c : ObjectContainerType α) : 0 < c.getElementSize := by
  unfold getElementSize
  split_ifs <;> omega

theorem length_elements (c : ObjectContainerType α) : c.elements.length = c.numUsingObjects := by
  simp [elements]

theorem getElem?_elements (c : ObjectContainerType α) (i : Nat) :
    c.elements[i]? = if i < c.numUsingObjects then some (c.data (i * c.getElementSize)) else none := by
  rw [elements, getElem?_map]
  by_cases hi : i < c.numUsingObjects
  · rw [getElem?_range hi, if_pos hi, Option.map_some]
  · rw [getElem?_eq_none (by simpa using hi), if_neg hi, Option.map_none]

section
variable (h : c.Ok)
include h

theorem Ok.place_le (hi : i < c.numTotalObjects) : i * c.getElementSize + c.getElementSize ≤ c.allocated := by
  rw [h.allocated, ← Nat.succ_mul]
  exact Nat.mul_le_mul_right _ hi

theorem Ok.getElement (hi : i < c.numUsingObjects) :
    c.getElement i = some (i * c.getElementSize) ∧
      c.load (i * c.getElementSize) = .ok (c.data (i * c.getElementSize)) := by
  have hplace := h.place_le (hi.trans_le h.using_le)
  have hlt := h.lt
  refine ⟨?_, if_pos hplace⟩
  rw [ObjectContainerType.getElement, if_neg (not_le.2 hi), u32, Nat.mod_eq_of_lt (by omega)]

theorem Ok.load (hi : c.elements[i]? = some x) : c.load (i * c.getElementSize) = .ok x := by
  have hlt : i < c.numUsingObjects := by
    rw [← length_elements]
    exact (List.getElem?_eq_some_iff.1 hi).1
  rw [getElem?_elements, if_pos hlt] at hi
  rw [(h.getElement hlt).2, Option.some.inj hi]

theorem Ok.store (hi : i < c.elements.length) (x : α) :
    ∃ c', c.store (i * c.getElementSize) x = .ok c' ∧ c'.Ok ∧ c'.elements = c.elements.set i x ∧
      c.SameSizes c' := by
  rw [length_elements] at hi
  refine ⟨_, if_pos (h.place_le (hi.trans_le h.using_le)),
    ⟨h.append_pos, h.using_le, h.allocated, h.lt, h.aligned, h.steps⟩, ?_, rfl, rfl⟩
  apply ext_getElem?
  intro j
  rw [getElem?_elements, getElem?_set, getElem?_elements, length_elements]
  by_cases hij : i = j
  · subst hij
    rw [if_pos hi, if_pos rfl, if_pos hi]
    exact congrArg some (Function.update_self _ _ _)
  · have hplace : j * c.getElementSize ≠ i * c.getElementSize := fun heq =>
      hij (Nat.eq_of_mul_eq_mul_right (getElementSize_pos c) heq).symm
    rw [if_neg hij]
    exact congrArg (ite _ · none) (congrArg some (Function.update_of_ne hplace _ _))

theorem Ok.step_le : (c.numTotalObjects + c.appendSize) * c.getElementSize ≤ 2 ^ 32 := by
  obtain ⟨k, hk⟩ := h.aligned
  obtain ⟨q, hq⟩ := h.steps
  have hlt := h.lt
  rw [h.allocated, hk, hq, Nat.mul_right_comm] at hlt
  have hkq : k + 1 ≤ q := Nat.lt_of_mul_lt_mul_left hlt
  calc (c.numTotalObjects + c.appendSize) * c.getElementSize
      = c.appendSize * c.getElementSize * (k + 1) := by rw [hk]; ring
    _ ≤ c.appendSize * c.getElementSize * q := Nat.mul_le_mul_left _ hkq
    _ = 2 ^ 32 := hq.symm

theorem Ok.total_eq : u32 (c.numTotalObjects + c.appendSize) = c.numTotalObjects + c.appendSize := by
  have hfour : 4 ≤ c.getElementSize := by
    unfold getElementSize
    split_ifs <;> omega
  have hle := (Nat.mul_le_mul_left (c.numTotalObjects + c.appendSize) hfour).trans h.step_le
  exact Nat.mod_eq_of_lt (by omega)

theorem Ok.expand (hused : c.numUsingObjects = c.numTotalObjects) :
    Ends (heap.Refuses ∨ c.Full) (c.expand heap) fun c' => c'.Ok ∧ c'.numUsingObjects = c.numUsingObjects ∧
      c'.elements = c.elements ∧ c'.numUsingObjects < c'.numTotalObjects ∧ c.SameSizes c' := by
  have happend := h.append_pos
  have husing := h.using_le
  have hpos : 0 < (c.numTotalObjects + c.appendSize) * c.getElementSize :=
    Nat.mul_pos (by omega) (getElementSize_pos c)
  simp only [ObjectContainerType.expand, h.total_eq]
  rcases Nat.lt_or_eq_of_le h.step_le with hlt | hfull
  · have hsize : u32 ((c.numTotalObjects + c.appendSize) * c.getElementSize) =
        (c.numTotalObjects + c.appendSize) * c.getElementSize := Nat.mod_eq_of_lt hlt
    rw [hsize]
    split_ifs with hgrant
    · refine .ok ⟨⟨happend, Nat.le_add_right_of_le husing, rfl, hlt, ?_, h.steps⟩, rfl, ?_, ?_, rfl, rfl⟩
      · exact (Nat.dvd_add_right h.aligned).2 (dvd_refl _)
      · refine map_congr_left fun i hi => if_pos ?_
        have hplace := h.place_le ((mem_range.1 hi).trans_le husing)
        have hgrow : c.allocated ≤ (c.numTotalObjects + c.appendSize) * c.getElementSize := by
          rw [h.allocated]
          exact Nat.mul_le_mul_right _ (Nat.le_add_right _ _)
        exact hplace.trans (le_min (le_refl _) hgrow)
      · dsimp only
        omega
    · exact .asserted (.inl ⟨_, hpos, by simpa using hgrant⟩)
  · -- as a number of 32 bits the size is 0
    rw [hfull, u32, Nat.mod_self, heap.grants_zero]
    refine .asserted (.inr ?_)
    rw [Full, hused, hfull]

theorem Ok.useElement (hroom : c.numUsingObjects < c.numTotalObjects) :
    c.useElement.2 = some (c.elements.length * c.getElementSize) ∧ c.useElement.1.Ok ∧
      (∃ x, c.useElement.1.elements = c.elements ++ [x]) ∧ c.SameSizes c.useElement.1 := by
  have hok : c.useElement.1.Ok := ⟨h.append_pos, hroom, h.allocated, h.lt, h.aligned, h.steps⟩
  rw [length_elements]
  refine ⟨(hok.getElement (Nat.lt_succ_self c.numUsingObjects)).1, hok,
    ⟨c.data (c.numUsingObjects * c.getElementSize), ?_⟩, rfl, rfl⟩
  exact (congrArg (map _) range_succ).trans map_append

theorem Ok.createElement :
    Ends (heap.Refuses ∨ c.Full) (c.createElement heap) fun r =>
      r.2 = some (c.elements.length * c.getElementSize) ∧ r.1.Ok ∧
        (∃ x, r.1.elements = c.elements ++ [x]) ∧ c.SameSizes r.1 := by
  unfold ObjectContainerType.createElement
  split_ifs with hroom
  · exact .ok (h.useElement hroom)
  · have hused : c.numUsingObjects = c.numTotalObjects := Nat.le_antisymm h.using_le (not_lt.1 hroom)
    refine (h.expand hused).bind fun c' ⟨hok, husing, hsame, hroom', happend, hsize⟩ => .ok ?_
    obtain ⟨hplace, hok', helements, happend', hsize'⟩ := hok.useElement hroom'
    rw [hsame] at hplace helements
    exact ⟨hsize ▸ hplace, hok', helements, happend'.trans happend, hsize'.trans hsize⟩

end

end

end ObjectContainerType

end Athrill
