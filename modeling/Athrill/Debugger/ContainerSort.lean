import Athrill.Lib.BubbleSort
import Athrill.Debugger.DataAccess

/-!
# Sorting a container (`lib/object_container.h`, `dbg_std_executor.c`)

`object_container_sort` makes a container of pointers to the objects of another one, which it only reads,
and sorts them with a bubble sort. Main result: `object_container_sort_iff`.
-/

namespace Athrill

open BubbleSort List

variable {α : Type}

/-! ## The source -/

structure ObjectSortElementType where
  p : Option Nat
  deriving DecidableEq, Repr

namespace ObjectContainerType

def object (c : ObjectContainerType α) (index : Nat) : Except CFault (Nat × α) :=
  match c.getElement index with
  | none => .error .outside
  | some p => (c.load p).map fun x => (p, x)

def sortCopy (heap : HostHeap ObjectSortElementType) (container : ObjectContainerType α) :
    Nat → Nat → ObjectContainerType ObjectSortElementType →
      Except CFault (ObjectContainerType ObjectSortElementType)
  | 0, _, sortArray => .ok sortArray
  | k + 1, index, sortArray => do
    let r ← sortArray.createElement heap
    match r.2 with
    | none => .error .outside
    | some obj =>
      let sortArray ← r.1.store obj ⟨container.getElement index⟩
      sortCopy heap container k (index + 1) sortArray

def sortPass (compare : α → α → Bool) :
    Nat → Nat → ObjectContainerType α → Bool → Except CFault (ObjectContainerType α × Bool)
  | 0, _, c, isSwap => .ok (c, isSwap)
  | k + 1, index, c, isSwap => do
    let obj1 ← c.object index
    let obj2 ← c.object (index + 1)
    if compare obj1.2 obj2.2 then
      let c ← c.store obj1.1 obj2.2
      let c ← c.store obj2.1 obj1.2
      sortPass compare k (index + 1) c true
    else sortPass compare k (index + 1) c isSwap

def sortLoop (compare : α → α → Bool) : Nat → ObjectContainerType α → Option (Except CFault (ObjectContainerType α))
  | 0, _ => none
  | n + 1, c =>
    match sortPass compare (u32 (2 ^ 32 - 1 + c.numUsingObjects)) 0 c false with
    | .error e => some (.error e)
    | .ok r => if r.2 then sortLoop compare n r.1 else some (.ok r.1)

end ObjectContainerType

open ObjectContainerType

def objectContainerSort (heap : HostHeap ObjectSortElementType)
    (compare : ObjectSortElementType → ObjectSortElementType → Bool) (container : ObjectContainerType α)
    (n : Nat) : Option (Except CFault (ObjectContainerType ObjectSortElementType)) :=
  -- `sizeof(ObjectSortElementType)`
  match create heap 8 4 >>= sortCopy heap container container.numUsingObjects 0 with
  | .error e => some (.error e)
  | .ok sortArray => sortLoop compare n sortArray

def dbgDataAccessCompare (context : ObjectContainerType DataAccessContextType)
    (obj1 obj2 : ObjectSortElementType) : Bool :=
  -- the pointers are those of objects, never `NULL`
  let dp1 := context.data (obj1.p.getD 0)
  let dp2 := context.data (obj2.p.getD 0)
  decide (dp1.accessTime > dp2.accessTime)

/-! ## What the caller expects -/

def SortedPointers (compare : ObjectSortElementType → ObjectSortElementType → Bool) (c : ObjectContainerType α)
    (pointers : List ObjectSortElementType) : Prop :=
  ∃ order : List Nat, order.Perm (range c.numUsingObjects) ∧
    pointers = order.map (fun i => ⟨c.getElement i⟩) ∧
    order.Pairwise fun i j => compare ⟨c.getElement i⟩ ⟨c.getElement j⟩ = false ∧
      (compare ⟨c.getElement j⟩ ⟨c.getElement i⟩ = false → i < j)

section
variable {c : ObjectContainerType α} {l : List α} {a : α}

/-! ## A pass -/

theorem ObjectContainerType.Ok.object {i : Nat} (h : c.Ok) (hi : c.elements[i]? = some a) :
    c.object i = .ok (i * c.getElementSize, a) := by
  have hlt : i < c.numUsingObjects := length_elements c ▸ (List.getElem?_eq_some_iff.1 hi).1
  rw [ObjectContainerType.object, (h.getElement hlt).1]
  dsimp only
  rw [h.load hi]
  rfl

theorem ObjectContainerType.Ok.sortPass (h : c.Ok) (compare : α → α → Bool) (front : List α)
    (hc : c.elements = front ++ a :: l) (isSwap : Bool) :
    ∃ c', sortPass compare l.length front.length c isSwap = .ok (c', isSwap || swaps compare a l) ∧ c'.Ok ∧
      c'.elements = front ++ bubble compare a l := by
  induction l generalizing c front a isSwap with
  | nil => exact ⟨c, by rw [swaps, Bool.or_false]; rfl, h, hc⟩
  | cons b l ih =>
    have hone : c.elements[front.length]? = some a := by rw [hc, getElem?_append_right (le_refl _)]; simp
    have htwo : c.elements[front.length + 1]? = some b := by
      rw [hc, getElem?_append_right (by omega)]
      simp
    have hlen := congrArg length hc
    simp only [length_append, length_cons] at hlen
    simp only [length_cons, ObjectContainerType.sortPass, h.object hone, h.object htwo, bind, Except.bind,
      swaps, bubble]
    split_ifs with hab
    · obtain ⟨c₁, hs₁, hok₁, he₁, hsame₁⟩ := h.store (i := front.length) (by omega) b
      have hlen₁ : c₁.elements.length = c.elements.length := by rw [he₁, length_set]
      obtain ⟨c₂, hs₂, hok₂, he₂, -⟩ := hok₁.store (i := front.length + 1) (by omega) a
      rw [hsame₁.2] at hs₂
      have hcarry : c₂.elements = (front ++ [b]) ++ a :: l := by
        rw [he₂, he₁, hc]
        simp
      obtain ⟨c', hpass, hok', he'⟩ := ih hok₂ (front ++ [b]) hcarry true
      refine ⟨c', ?_, hok', by rw [he', append_assoc]; rfl⟩
      rw [length_append, length_singleton] at hpass
      simp only [hs₁, hs₂, hpass, Bool.true_or, Bool.or_true]
    · have hcarry : c.elements = (front ++ [a]) ++ b :: l := by
        rw [hc, append_assoc]
        rfl
      obtain ⟨c', hpass, hok', he'⟩ := ih h (front ++ [a]) hcarry isSwap
      rw [length_append, length_singleton] at hpass
      exact ⟨c', hpass, hok', by rw [he', append_assoc]; rfl⟩

end

/-! ## All passes -/

theorem bubble_map {β : Type} (f : β → α) (compare : α → α → Bool) (b : β) (l : List β) :
    bubble compare (f b) (l.map f) = (bubble (fun x y => compare (f x) (f y)) b l).map f ∧
      swaps compare (f b) (l.map f) = swaps (fun x y => compare (f x) (f y)) b l := by
  induction l generalizing b with
  | nil => exact ⟨rfl, rfl⟩
  | cons x l ih =>
    simp only [map_cons, bubble, swaps, (ih b).1, (ih x).1, (ih x).2]
    split_ifs <;> simp

theorem sortLoop_succ {compare : α → α → Bool} {c c' : ObjectContainerType α} {isSwap : Bool} (n : Nat)
    (h : sortPass compare (u32 (2 ^ 32 - 1 + c.numUsingObjects)) 0 c false = .ok (c', isSwap)) :
    sortLoop compare (n + 1) c = if isSwap then sortLoop compare n c' else some (.ok c') := by
  simp only [ObjectContainerType.sortLoop, h]

theorem ObjectContainerType.Ok.sortLoop {f : Nat → α} {compare : α → α → Bool} (hr : StrictWeak compare)
    {c : ObjectContainerType α} (h : c.Ok) {order : List Nat} (hne : order ≠ []) (hc : c.elements = order.map f)
    (hstable : order.Pairwise fun i j => compare (f i) (f j) = false → compare (f j) (f i) = false → i < j) :
    ∃ n₀ c', ∃ order' : List Nat, (∀ n ≥ n₀, sortLoop compare n c = some (.ok c')) ∧ c'.Ok ∧ order'.Perm order ∧
      c'.elements = order'.map f ∧ order'.Pairwise fun i j => compare (f i) (f j) = false ∧
        (compare (f j) (f i) = false → i < j) := by
  -- the order of the objects is sorted along with them
  have hf : StrictWeak fun i j => compare (f i) (f j) :=
    ⟨fun i j => hr.asymm (f i) (f j), fun i j k => hr.trans (f i) (f j) (f k)⟩
  generalize hmeasure : inversions (fun i j => compare (f i) (f j)) order = m
  induction m using Nat.strong_induction_on generalizing c order with
  | h m ih =>
    cases order with
    | nil => exact absurd rfl hne
    | cons i order =>
      have hnum : c.numUsingObjects = order.length + 1 := by
        rw [← length_elements, hc, length_map, length_cons]
      have hsmall : c.numUsingObjects ≤ 2 ^ 32 := by
        have hplace := h.allocated ▸ h.lt
        have hsize := getElementSize_pos c
        exact (h.using_le.trans (Nat.le_mul_of_pos_right _ hsize)).trans hplace.le
      have hsteps : u32 (2 ^ 32 - 1 + c.numUsingObjects) = (order.map f).length := by
        rw [length_map, u32]
        omega
      obtain ⟨c₁, hpass, hok₁, he₁⟩ :=
        h.sortPass compare [] (by rw [hc, map_cons]; rfl) false
      rw [length_nil, ← hsteps, Bool.false_or, (bubble_map f compare i order).2] at hpass
      rw [nil_append, (bubble_map f compare i order).1] at he₁
      have hround := fun n => sortLoop_succ n hpass
      clear hpass hsteps hsmall
      have hperm := bubble_perm (r := fun i j => compare (f i) (f j)) i order
      cases hswap : swaps (fun i j => compare (f i) (f j)) i order with
      | false =>
        rw [bubble_of_not_swaps hswap] at he₁
        refine ⟨1, c₁, i :: order, fun n hn => ?_, hok₁, .refl _, he₁, ?_⟩
        · obtain ⟨n, rfl⟩ := Nat.exists_eq_add_of_le' hn
          rw [hround, hswap]
          rfl
        · exact (pairwise_of_not_swaps hf hswap).imp₂ (fun _ _ hij hlt => ⟨hij, hlt hij⟩) hstable
      | true =>
        have hless := inversions_bubble hf i order
        rw [hmeasure, hswap, Bool.toNat_true] at hless
        have hstable₁ := pairwise_bubble (r := fun i j => compare (f i) (f j))
          (fun x y hxy _ heq => absurd hxy (by simp [heq])) hstable
        obtain ⟨n₀, c', order', hloop, hok', hperm', he', hsorted⟩ := ih _ hless hok₁
          (fun hnil => by simp [hnil] at hperm) he₁ hstable₁ rfl
        refine ⟨n₀ + 1, c', order', fun n hn => ?_, hok', hperm'.trans hperm, he', hsorted⟩
        obtain ⟨n, rfl⟩ := Nat.exists_eq_add_of_le' (Nat.le_of_add_left_le hn)
        rw [hround, hswap]
        exact hloop n (by omega)

/-! ## The copy -/

section
variable {a : ObjectContainerType ObjectSortElementType}

def OfPointers (a : ObjectContainerType ObjectSortElementType) : Prop := a.appendSize = 4 ∧ a.getElementSize = 8

theorem ObjectContainerType.Ok.length_le (h : a.Ok) (hp : OfPointers a) : a.elements.length ≤ 2 ^ 29 - 4 := by
  obtain ⟨k, hk⟩ := h.aligned
  have hlt := h.lt
  have hle := h.using_le
  rw [h.allocated, hp.2] at hlt
  rw [hp.1] at hk
  rw [length_elements]
  omega

theorem ObjectContainerType.Ok.sortCopy (heap : HostHeap ObjectSortElementType) (container : ObjectContainerType α)
    (k index : Nat) (h : a.Ok) (hp : OfPointers a) :
    Ends (heap.Refuses ∨ 2 ^ 29 - 4 < a.elements.length + k) (sortCopy heap container k index a) fun a' =>
      a'.Ok ∧ OfPointers a' ∧
        a'.elements = a.elements ++ (range' index k).map fun i => ⟨container.getElement i⟩ := by
  induction k generalizing index a with
  | zero => exact .ok ⟨h, hp, by simp⟩
  | succ k ih =>
    have hfull : heap.Refuses ∨ a.Full → heap.Refuses ∨ 2 ^ 29 - 4 < a.elements.length + (k + 1) := by
      refine Or.imp_right fun hfull => ?_
      rw [Full, hp.1, hp.2, ← length_elements] at hfull
      omega
    refine (h.createElement.imp hfull fun _ => id).bind ?_
    rintro ⟨a₁, obj⟩ ⟨rfl, hok₁, ⟨x, he₁⟩, hsame⟩
    have hlt : a.elements.length < a₁.elements.length := by
      rw [he₁, length_append, length_singleton]
      omega
    obtain ⟨a₂, hstore, hok₂, he₂, hsame₂⟩ := hok₁.store hlt ⟨container.getElement index⟩
    have hp₁ : OfPointers a₁ := ⟨hsame.1.trans hp.1, hsame.2.trans hp.2⟩
    have hp₂ : OfPointers a₂ := ⟨hsame₂.1.trans hp₁.1, hsame₂.2.trans hp₁.2⟩
    rw [he₁, set_append_right _ _ (le_refl _), Nat.sub_self, set_cons_zero] at he₂
    rw [hp₁.2] at hstore
    dsimp only
    rw [hp.2, hstore]
    refine (ih (index + 1) hok₂ hp₂).imp (Or.imp_right fun hlt => ?_) fun a' hok' => ⟨hok'.1, hok'.2.1, ?_⟩
    · rw [he₂, length_append, length_singleton] at hlt
      omega
    · rw [hok'.2.2, he₂, append_assoc, range'_succ]
      rfl

theorem ends_sortCopy (heap : HostHeap ObjectSortElementType) (container : ObjectContainerType α) :
    Ends (heap.Refuses ∨ 2 ^ 29 - 4 < container.numUsingObjects)
      (create heap 8 4 >>= sortCopy heap container container.numUsingObjects 0) fun a =>
        a.Ok ∧ OfPointers a ∧
          a.elements = (range container.numUsingObjects).map fun i => ⟨container.getElement i⟩ := by
  refine ((ends_create (by decide) (by decide)).imp .inl fun _ => id).bind ?_
  rintro a ⟨hok, hnil, happend, hsize⟩
  have hp : OfPointers a := ⟨happend, by rw [getElementSize, hsize]; rfl⟩
  have hcopy := hok.sortCopy heap container container.numUsingObjects 0 hp
  rwa [hnil, length_nil, Nat.zero_add, nil_append, ← range_eq_range'] at hcopy

end

theorem strictWeak_dbgDataAccessCompare (context : ObjectContainerType DataAccessContextType) :
    StrictWeak (dbgDataAccessCompare context) := by
  constructor
  · intro a b hab
    simp only [dbgDataAccessCompare, decide_eq_true_eq, decide_eq_false_iff_not] at hab ⊢
    omega
  · intro a b c hab hbc
    simp only [dbgDataAccessCompare, decide_eq_false_iff_not] at hab hbc ⊢
    omega

/-- **The sort of a container.** On a host that has the memory, with a comparison that is a strict weak order, the
sort of a container with objects returns the pointers to them in non-descending order, equal ones in their
original order, if and only if there are at most `2 ^ 29 - 4` of them. -/
theorem object_container_sort_iff {heap : HostHeap ObjectSortElementType} (hheap : ¬ heap.Refuses)
    {compare : ObjectSortElementType → ObjectSortElementType → Bool} (hr : StrictWeak compare)
    {container : ObjectContainerType α} (hpos : 0 < container.numUsingObjects) :
    (∃ n₀ sorted, (∀ n ≥ n₀, objectContainerSort heap compare container n = some (.ok sorted)) ∧ sorted.Ok ∧
        SortedPointers compare container sorted.elements) ↔
      container.numUsingObjects ≤ 2 ^ 29 - 4 := by
  rcases ends_sortCopy heap container with ⟨hfault, hwhy⟩ | ⟨a, hcopy, hok, hp, ha⟩
  · refine iff_of_false ?_ (not_le.2 (hwhy.resolve_left hheap))
    rintro ⟨n₀, sorted, hsort, -⟩
    have := hsort n₀ (le_refl _)
    simp [objectContainerSort, hfault] at this
  · have hlen := hok.length_le hp
    rw [ha, length_map, length_range] at hlen
    refine iff_of_true ?_ hlen
    have hne : range container.numUsingObjects ≠ [] := by simpa using hpos.ne'
    obtain ⟨n₀, sorted, order, hloop, hok', hperm, he, hsorted⟩ := hok.sortLoop hr hne ha
      (pairwise_lt_range.imp fun hlt _ _ => hlt)
    refine ⟨n₀, sorted, fun n hn => ?_, hok', order, hperm, he, hsorted⟩
    simp only [objectContainerSort, hcopy, hloop n hn]

def hostWithMemory : HostHeap ObjectSortElementType := ⟨fun size => size != 0, fun _ => ⟨none⟩, rfl⟩

theorem not_refuses_hostWithMemory : ¬ hostWithMemory.Refuses := by
  rintro ⟨size, hpos, hrefused⟩
  simp only [hostWithMemory, bne_eq_false_iff_eq] at hrefused
  omega

def threeAccesses : ObjectContainerType DataAccessContextType :=
  ⟨3, 4, 4, 32, 128, fun p => ⟨0, 0, 0, 0, 1, if p = 0 then 7 else 5⟩⟩

theorem object_container_sort_three :
    ∃ n₀ sorted, (∀ n ≥ n₀, objectContainerSort hostWithMemory (dbgDataAccessCompare threeAccesses) threeAccesses n =
        some (.ok sorted)) ∧ sorted.Ok ∧
      SortedPointers (dbgDataAccessCompare threeAccesses) threeAccesses sorted.elements :=
  (object_container_sort_iff not_refuses_hostWithMemory (strictWeak_dbgDataAccessCompare threeAccesses)
    (by decide)).2 (by decide)

def manyObjects : ObjectContainerType Unit := ⟨2 ^ 29 - 3, 2 ^ 29, 4, 4, 2 ^ 31, fun _ => ()⟩

/-- The pointers to its objects do not fit into a container. -/
theorem object_container_sort_many : manyObjects.Ok ∧
    ∀ n, objectContainerSort hostWithMemory (fun _ _ => false) manyObjects n = some (.error .asserted) := by
  refine ⟨⟨by decide, by decide, by decide, by decide, by decide, by decide⟩, fun n => ?_⟩
  rcases ends_sortCopy hostWithMemory manyObjects with ⟨hfault, -⟩ | ⟨a, -, hok, hp, ha⟩
  · rw [objectContainerSort, hfault]
  · have hlen := hok.length_le hp
    rw [ha, length_map, length_range] at hlen
    exact absurd hlen (by decide)

end Athrill
