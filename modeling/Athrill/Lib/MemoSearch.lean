import Mathlib.Data.List.FinRange

/-!
# First-match search with a memo

A table is searched in index order for the first entry that covers a key.
-/

namespace MemoSearch

open List

section
variable {α κ : Type*} (covers : α → κ → Bool) (live : α → Bool)

/-- A usable entry, an unusable one, or none. -/
inductive Outcome
  | found (i : Nat)
  | dead
  | absent
  deriving DecidableEq, Repr

def Outcome.index : Outcome → Option Nat
  | .found i => some i
  | _ => none

theorem Outcome.index_eq_some {o : Outcome} {i : Nat} : o.index = some i ↔ o = .found i := by
  cases o <;> simp [index]

def firstMatch (xs : List α) (k : κ) : Outcome :=
  match xs.findIdx? (covers · k) with
  | some i => if (xs[i]?).any live then .found i else .dead
  | none => .absent

def memoHit (xs : List α) (memo : Option Nat) (k : κ) : Option Nat :=
  memo.filter fun i => (xs[i]?).any fun x => live x && covers x k

def search (xs : List α) (memo : Option Nat) (k : κ) : Outcome × Option Nat :=
  match memoHit covers live xs memo k with
  | some i => (.found i, memo)
  | none =>
    match firstMatch covers live xs k with
    | .found i => (.found i, some i)
    | o => (o, memo)

variable {covers live} {xs : List α} {memo : Option Nat} {k : κ} {i : Nat}

theorem memoHit_eq_some :
    memoHit covers live xs memo k = some i ↔
      memo = some i ∧ ∃ x, xs[i]? = some x ∧ live x = true ∧ covers x k = true := by
  simp only [memoHit, Option.filter_eq_some_iff, Option.any_eq_true, Bool.and_eq_true]

theorem findIdx?_covers_eq_some :
    xs.findIdx? (covers · k) = some i ↔
      (∃ x, xs[i]? = some x ∧ covers x k = true) ∧
      ∀ j < i, ∀ y, xs[j]? = some y → covers y k = false := by
  rw [findIdx?_eq_some_iff_getElem]
  constructor
  · rintro ⟨hi, hx, hlow⟩
    refine ⟨⟨_, List.getElem?_eq_getElem hi, hx⟩, fun j hj y hy => ?_⟩
    obtain ⟨hj', rfl⟩ := List.getElem?_eq_some_iff.1 hy
    simpa using hlow j hj
  · rintro ⟨⟨x, hx, hcov⟩, hlow⟩
    obtain ⟨hi, rfl⟩ := List.getElem?_eq_some_iff.1 hx
    refine ⟨hi, hcov, fun j hj => ?_⟩
    simpa using hlow j hj _ (getElem?_eq_getElem (Nat.lt_trans hj hi))

theorem firstMatch_eq_found :
    firstMatch covers live xs k = .found i ↔
      (∃ x, xs[i]? = some x ∧ live x = true ∧ covers x k = true) ∧
      ∀ j < i, ∀ y, xs[j]? = some y → covers y k = false := by
  unfold firstMatch
  cases hfind : xs.findIdx? (covers · k) with
  | none =>
    simp only [reduceCtorEq, false_iff, not_and]
    rintro ⟨x, hx, -, hcov⟩
    rw [findIdx?_eq_none_iff] at hfind
    simp [hfind x (mem_of_getElem? hx)] at hcov
  | some i' =>
    obtain ⟨⟨x', hx', hcov'⟩, hlow'⟩ := findIdx?_covers_eq_some.1 hfind
    simp only [hx', Option.any_some]
    constructor
    · intro h
      split_ifs at h with hlive
      obtain rfl := Outcome.found.inj h
      exact ⟨⟨x', hx', hlive, hcov'⟩, hlow'⟩
    · rintro ⟨⟨x, hx, hlive, hcov⟩, hlow⟩
      obtain rfl : i' = i := by
        by_contra hne
        rcases Nat.lt_or_gt_of_ne hne with hlt | hlt
        · simp [hlow _ hlt _ hx'] at hcov'
        · simp [hlow' _ hlt _ hx] at hcov
      cases hx.symm.trans hx'
      rw [if_pos hlive]

theorem firstMatch_index :
    (firstMatch covers (fun _ => true) xs k).index = xs.findIdx? (covers · k) := by
  unfold firstMatch
  cases hfind : xs.findIdx? (covers · k) with
  | none => rfl
  | some i =>
    obtain ⟨⟨x, hx, -⟩, -⟩ := findIdx?_covers_eq_some.1 hfind
    simp [hx, Outcome.index]

theorem search_of_memoHit_none (h : memoHit covers live xs memo k = none) :
    (search covers live xs memo k).1 = firstMatch covers live xs k := by
  rw [search, h]
  cases firstMatch covers live xs k <;> rfl

theorem search_of_memoHit (h : memoHit covers live xs memo k = some i) :
    search covers live xs memo k = (.found i, some i) := by
  rw [search, h, (memoHit_eq_some.1 h).1]

theorem covers_of_search (h : (search covers live xs memo k).1 = .found i) :
    ∃ x, xs[i]? = some x ∧ live x = true ∧ covers x k = true := by
  cases hm : memoHit covers live xs memo k with
  | some j =>
    rw [search_of_memoHit hm] at h
    obtain rfl := Outcome.found.inj h
    exact (memoHit_eq_some.1 hm).2
  | none =>
    rw [search_of_memoHit_none hm] at h
    exact (firstMatch_eq_found.1 h).1

theorem search_memo (h : (search covers live xs memo k).1 = .found i) :
    (search covers live xs memo k).2 = some i := by
  cases hm : memoHit covers live xs memo k with
  | some j =>
    rw [search_of_memoHit hm] at h ⊢
    rw [Outcome.found.inj h]
  | none =>
    rw [search_of_memoHit_none hm] at h
    rw [search, hm, h]

theorem search_memo_cases (covers : α → κ → Bool) (live : α → Bool) (xs : List α)
    (memo : Option Nat) (k : κ) :
    (search covers live xs memo k).2 = memo ∨
      ∃ i, (search covers live xs memo k).2 = some i ∧ firstMatch covers live xs k = .found i := by
  cases hm : memoHit covers live xs memo k with
  | some j => exact .inl (by rw [search_of_memoHit hm, (memoHit_eq_some.1 hm).1])
  | none =>
    rw [search, hm]
    cases hf : firstMatch covers live xs k with
    | found i => exact .inr ⟨i, rfl, rfl⟩
    | dead => exact .inl rfl
    | absent => exact .inl rfl

/-! ## When the memo is invisible -/

def Separated (covers : α → κ → Bool) (live : α → Bool) (xs : List α) : Prop :=
  ∀ (i j : Nat) (x y : α), i < j → xs[i]? = some x → xs[j]? = some y → live y = true →
    ∀ k, ¬ (covers x k = true ∧ covers y k = true)

theorem separated_concat {y : α} :
    Separated covers live (xs ++ [y]) ↔ Separated covers live xs ∧
      (live y = true → ∀ x ∈ xs, ∀ k, ¬ (covers x k = true ∧ covers y k = true)) := by
  constructor
  · intro h
    refine ⟨fun i j x z hij hx hz => ?_, fun hlive x hx k hk => ?_⟩
    · obtain ⟨hi, -⟩ := List.getElem?_eq_some_iff.1 hx
      obtain ⟨hj, -⟩ := List.getElem?_eq_some_iff.1 hz
      exact h i j x z hij (by rwa [getElem?_append_left hi]) (by rwa [getElem?_append_left hj])
    · obtain ⟨i, hi, rfl⟩ := getElem_of_mem hx
      refine h i xs.length _ y hi ?_ (by simp) hlive k hk
      rw [getElem?_append_left hi, getElem?_eq_getElem hi]
  · rintro ⟨hxs, hy⟩ i j x z hij hx hz hlive k hk
    obtain ⟨hj, -⟩ := List.getElem?_eq_some_iff.1 hz
    rw [List.length_append, List.length_singleton] at hj
    have hi : i < xs.length := by omega
    rw [getElem?_append_left hi] at hx
    by_cases hj' : j < xs.length
    · rw [getElem?_append_left hj'] at hz
      exact hxs i j x z hij hx hz hlive k hk
    · obtain rfl : j = xs.length := by omega
      obtain rfl : y = z := by simpa using hz
      exact hy hlive x (mem_of_getElem? hx) k hk

theorem search_eq_firstMatch (h : Separated covers live xs) (memo : Option Nat) (k : κ) :
    (search covers live xs memo k).1 = firstMatch covers live xs k := by
  cases hm : memoHit covers live xs memo k with
  | none => exact search_of_memoHit_none hm
  | some i =>
    obtain ⟨-, y, hy, hlive, hcov⟩ := memoHit_eq_some.1 hm
    rw [search_of_memoHit hm, eq_comm, firstMatch_eq_found]
    refine ⟨⟨y, hy, hlive, hcov⟩, fun j hj x hx => ?_⟩
    by_contra hx'
    exact h j i x y hj hx hy hlive k ⟨by simpa using hx', hcov⟩

theorem search_eq_found {x : α} (hx : xs[i]? = some x) (hlive : live x = true)
    (hcov : covers x k = true) (hlow : ∀ j < i, ∀ y, xs[j]? = some y → covers y k = false)
    (honly : ∀ j y, xs[j]? = some y → live y = true → covers y k = true → j = i)
    (memo : Option Nat) : (search covers live xs memo k).1 = .found i := by
  cases hm : memoHit covers live xs memo k with
  | none =>
    rw [search_of_memoHit_none hm, firstMatch_eq_found]
    exact ⟨⟨x, hx, hlive, hcov⟩, hlow⟩
  | some j =>
    obtain ⟨-, y, hy, hlive', hcov'⟩ := memoHit_eq_some.1 hm
    rw [search_of_memoHit hm, honly j y hy hlive' hcov']

theorem search_eq_absent (h : ∀ x ∈ xs, covers x k = false) (memo : Option Nat) :
    (search covers live xs memo k).1 = .absent := by
  have hfirst : firstMatch covers live xs k = .absent := by
    rw [firstMatch, findIdx?_eq_none_iff.2 (by simpa using h)]
  cases hm : memoHit covers live xs memo k with
  | none => rw [search_of_memoHit_none hm, hfirst]
  | some j =>
    obtain ⟨-, y, hy, -, hcov⟩ := memoHit_eq_some.1 hm
    simp [h y (mem_of_getElem? hy)] at hcov

theorem search_ne_firstMatch {j : Nat} {x y : α} {own : κ} (memo : Option Nat) (hij : i < j)
    (hx : xs[i]? = some x) (hy : xs[j]? = some y) (hlive : live y = true)
    (hcov : covers x k = true ∧ covers y k = true) (hown : covers y own = true)
    (hlow : ∀ l < j, ∀ z, xs[l]? = some z → covers z own = false) :
    (search covers live xs memo own).1 ≠ firstMatch covers live xs own ∨
      (search covers live xs (search covers live xs memo own).2 k).1 ≠
        firstMatch covers live xs k := by
  have hfirst : firstMatch covers live xs own = .found j :=
    firstMatch_eq_found.2 ⟨⟨y, hy, hlive, hown⟩, hlow⟩
  by_cases hne : (search covers live xs memo own).1 = .found j
  · refine .inr fun heq => ?_
    have hhit : memoHit covers live xs (some j) k = some j :=
      memoHit_eq_some.2 ⟨rfl, y, hy, hlive, hcov.2⟩
    rw [search_memo hne, search_of_memoHit hhit] at heq
    have := (firstMatch_eq_found.1 heq.symm).2 i hij x hx
    simp [hcov.1] at this
  · exact .inl (by rwa [hfirst])

end

/-! ## Two tests -/

section
variable {n : Nat} {p : Fin n → Bool} {P : Fin n → Prop}

def IsLowest (P : Fin n → Prop) : Option (Fin n) → Prop
  | some i => P i ∧ ∀ j < i, ¬ P j
  | none => ∀ i, ¬ P i

theorem lowest_find?_iff : IsLowest P ((finRange n).find? p) ↔
    ∀ i, (p i = true ↔ P i) ∨ ∃ j < i, p j = true ∧ P j := by
  rcases hfind : (finRange n).find? p with _ | k
  · have hnone : ∀ i, p i = false := by simpa using hfind
    simp [IsLowest, hnone]
  · rw [← Fin.find?_eq_find?_finRange, Fin.find?_eq_some_iff] at hfind
    obtain ⟨hk, hlow⟩ := hfind
    have hlow : ∀ j < k, p j = false := by simpa using hlow
    constructor
    · rintro ⟨hP, hnot⟩ i
      rcases lt_trichotomy i k with hlt | rfl | hgt
      · exact .inl (by simp [hlow i hlt, hnot i hlt])
      · exact .inl (iff_of_true hk hP)
      · exact .inr ⟨k, hgt, hk, hP⟩
    · intro hall
      have hsame : ∀ i ≤ k, (p i = true ↔ P i) := by
        intro i hi
        refine (hall i).resolve_right ?_
        rintro ⟨j, hj, hpj, -⟩
        rw [hlow j (lt_of_lt_of_le hj hi)] at hpj
        cases hpj
      refine ⟨(hsame k le_rfl).1 hk, fun j hj hP => ?_⟩
      rw [← hsame j hj.le, hlow j hj] at hP
      cases hP

end

end MemoSearch
