import Athrill.Cpu.CachedCode

/-!
# Lookups after different histories (`cpu/cpu.h`)

The lookup tries its last answer before it scans the ranges in the order in which they were added, so its
answer depends on the lookups before it as soon as two ranges share an address. Main result:
`virtual_cpu_get_cached_code_first_iff`.
-/

namespace Athrill

open Machine MemoSearch

variable {W : Nat}

inductive CacheCall (W : Nat)
  | add (unit : Nat) (memsz : UInt32) (startAddr : AthrillAddrType W)
  | get (unit : Nat) (pc : AthrillAddrType W)

def cacheCall (s : CachedCodes W) : CacheCall W → CachedCodes W × Option Nat
  | .add unit memsz startAddr => (virtualCpuCacheCodeAddWithCheck s unit memsz startAddr, none)
  | .get unit pc => (virtualCpuGetCachedCode s unit pc).swap

def CacheCall.request : CacheCall W → Option (CachedOperationCodeType W)
  | .add _ memsz startAddr => some ⟨startAddr, memsz⟩
  | .get _ _ => none

def requests (calls : List (CacheCall W)) : List (CachedOperationCodeType W) :=
  calls.filterMap CacheCall.request

def codesAfter (calls : List (CacheCall W)) : CachedCodes W :=
  after cacheCall .init calls

def requestOnly (reqs : List (CachedOperationCodeType W)) : List (CacheCall W) :=
  reqs.map fun r => .add 0 r.codeSize r.codeStartAddr

/-- The request finds its first address cached, or has no address of the cached ranges. -/
def RequestApart (codes : List (CachedOperationCodeType W)) (r : CachedOperationCodeType W) : Prop :=
  codes.any (·.contains r.codeStartAddr) = true ∨
    ∀ c ∈ codes, ∀ pc, ¬ (c.contains pc = true ∧ r.contains pc = true)

def StartsFree (codes : List (CachedOperationCodeType W)) : Prop :=
  ∀ (i j : Nat) (c d : CachedOperationCodeType W), i < j → codes[i]? = some c → codes[j]? = some d →
    c.contains d.codeStartAddr = false

section
variable {s : CachedCodes W} {codes : List (CachedOperationCodeType W)} {c r : CachedOperationCodeType W}
  {unit : Nat} {pc : AthrillAddrType W}

theorem contains_codeStartAddr (h : c.contains pc = true) : c.contains c.codeStartAddr = true := by
  simp only [CachedOperationCodeType.contains, Bool.and_eq_true, decide_eq_true_eq, BitVec.le_def,
    BitVec.lt_def] at h ⊢
  exact ⟨le_refl _, h.1.trans_lt h.2⟩

def insertRange (codes : List (CachedOperationCodeType W)) (r : CachedOperationCodeType W) :
    List (CachedOperationCodeType W) :=
  if codes.any (·.contains r.codeStartAddr) then codes else codes ++ [r]

theorem cachedCode_add {memsz : UInt32} {startAddr : AthrillAddrType W} :
    (virtualCpuCacheCodeAddWithCheck s unit memsz startAddr).cachedCode =
      insertRange s.cachedCode ⟨startAddr, memsz⟩ := by
  have hcodes : (virtualCpuGetCachedCode s unit startAddr).2.cachedCode = s.cachedCode := cachedCode_get
  have hnone := @get_eq_none_iff W s unit startAddr
  unfold virtualCpuCacheCodeAddWithCheck insertRange
  rcases hget : virtualCpuGetCachedCode s unit startAddr with ⟨_ | i, s'⟩ <;>
    simp only [hget, CachedCodes.covers] at hcodes hnone
  · simp [hnone.1 trivial, virtualCpuAddCachedCode, hcodes]
  · have hheld : s.cachedCode.any (·.contains startAddr) = true := by
      rw [← Bool.not_eq_false, ← hnone]
      simp
    simp only [hheld, hcodes, if_true]

theorem cachedCode_after (calls : List (CacheCall W)) (s : CachedCodes W) :
    (after cacheCall s calls).cachedCode = (requests calls).foldl insertRange s.cachedCode := by
  induction calls generalizing s with
  | nil => rfl
  | cons e calls ih =>
    rw [after, ih]
    cases e with
    | add unit memsz startAddr =>
      rw [show requests (.add unit memsz startAddr :: calls) = ⟨startAddr, memsz⟩ :: requests calls
        from rfl, List.foldl_cons]
      exact congrArg (List.foldl insertRange · (requests calls)) cachedCode_add
    | get unit pc => exact congrArg (List.foldl insertRange · (requests calls)) cachedCode_get

theorem requests_requestOnly (reqs : List (CachedOperationCodeType W)) :
    requests (requestOnly reqs) = reqs := by
  induction reqs with
  | nil => rfl
  | cons r reqs ih => exact congrArg (r :: ·) ih

theorem cachedCode_codesAfter (calls : List (CacheCall W)) :
    (codesAfter calls).cachedCode = (requests calls).foldl insertRange [] :=
  cachedCode_after calls .init

theorem StartsFree.insertRange (h : StartsFree codes) : StartsFree (insertRange codes r) := by
  unfold Athrill.insertRange
  split
  · exact h
  · next hfree =>
    intro i j c d hij hc hd
    obtain ⟨hj, -⟩ := List.getElem?_eq_some_iff.1 hd
    rw [List.length_append, List.length_singleton] at hj
    have hi : i < codes.length := by omega
    rw [List.getElem?_append_left hi] at hc
    by_cases hj' : j < codes.length
    · rw [List.getElem?_append_left hj'] at hd
      exact h i j c d hij hc hd
    · obtain rfl : j = codes.length := by omega
      obtain rfl : r = d := by simpa using hd
      rw [Bool.not_eq_true, List.any_eq_false] at hfree
      simpa using hfree c (List.mem_of_getElem? hc)

theorem startsFree_foldl (reqs : List (CachedOperationCodeType W)) (h : StartsFree codes) :
    StartsFree (reqs.foldl insertRange codes) := by
  induction reqs generalizing codes with
  | nil => exact h
  | cons r reqs ih => exact ih h.insertRange

abbrev RangesSeparated (codes : List (CachedOperationCodeType W)) : Prop :=
  Separated CachedOperationCodeType.contains (fun _ => true) codes

theorem separated_insertRange :
    RangesSeparated (insertRange codes r) ↔ RangesSeparated codes ∧ RequestApart codes r := by
  unfold insertRange
  split
  · next hheld => exact (and_iff_left (.inl hheld)).symm
  · next hfree =>
    rw [RangesSeparated, separated_concat]
    exact and_congr_right fun _ => ⟨fun h => .inr (h rfl), fun h _ => h.resolve_left hfree⟩

theorem separated_foldl (reqs : List (CachedOperationCodeType W)) (h : RangesSeparated codes) :
    RangesSeparated (reqs.foldl insertRange codes) ↔
      ∀ pre r post, reqs = pre ++ r :: post → RequestApart (pre.foldl insertRange codes) r := by
  induction reqs using List.reverseRecOn with
  | nil => exact iff_of_true h fun pre r post hsplit => by simp at hsplit
  | append_singleton reqs r ih =>
    rw [List.foldl_concat, separated_insertRange, ih]
    constructor
    · rintro ⟨hreqs, hr⟩ pre r' post hsplit
      rcases List.eq_nil_or_concat post with rfl | ⟨post, last, rfl⟩
      · obtain ⟨rfl, hlast⟩ := List.append_inj' hsplit rfl
        obtain rfl : r = r' := by simpa using hlast
        exact hr
      · refine hreqs pre r' post ?_
        rw [List.concat_eq_append, ← List.cons_append, ← List.append_assoc] at hsplit
        exact (List.append_inj' hsplit rfl).1
    · intro hall
      refine ⟨fun pre r' post hsplit => hall pre r' (post ++ [r]) ?_, hall reqs r [] rfl⟩
      rw [hsplit]
      simp

theorem get_eq_findIdx (h : RangesSeparated s.cachedCode) (unit : Nat) (pc : AthrillAddrType W) :
    (virtualCpuGetCachedCode s unit pc).1 = s.cachedCode.findIdx? (·.contains pc) := by
  rw [virtualCpuGetCachedCode_eq, search_eq_firstMatch h, firstMatch_index]

theorem get_ne_findIdx (hfree : StartsFree s.cachedCode) (h : ¬ RangesSeparated s.cachedCode)
    (unit : Nat) : ∃ own pc,
    (virtualCpuGetCachedCode s unit own).1 ≠ s.cachedCode.findIdx? (·.contains own) ∨
      (virtualCpuGetCachedCode (virtualCpuGetCachedCode s unit own).2 unit pc).1 ≠
        s.cachedCode.findIdx? (·.contains pc) := by
  simp only [RangesSeparated, Separated, not_forall, not_not] at h
  obtain ⟨i, j, c, d, hij, hc, hd, -, pc, hshared⟩ := h
  have hown : d.contains d.codeStartAddr = true := contains_codeStartAddr hshared.2
  have hlow : ∀ l < j, ∀ z, s.cachedCode[l]? = some z → z.contains d.codeStartAddr = false :=
    fun l hl z hz => hfree l j z d hl hz hd
  have hlast : (virtualCpuGetCachedCode s unit d.codeStartAddr).2.last unit = _ :=
    congrArg Prod.snd (virtualCpuGetCachedCode_search s unit d.codeStartAddr)
  -- some range contains each of the two addresses, so that different outcomes are different answers
  have hindex : ∀ {a o}, d.contains a = true →
      o ≠ firstMatch CachedOperationCodeType.contains (fun _ => true) s.cachedCode a →
      o.index ≠ (firstMatch CachedOperationCodeType.contains (fun _ => true) s.cachedCode a).index := by
    intro a o ha hne heq
    rcases hscan : s.cachedCode.findIdx? (·.contains a) with _ | l
    · rw [List.findIdx?_eq_none_iff] at hscan
      simp [hscan d (List.mem_of_getElem? hd)] at ha
    · rw [← firstMatch_index] at hscan
      rw [hscan, Outcome.index_eq_some] at heq
      exact hne (heq.trans (Outcome.index_eq_some.1 hscan).symm)
  refine ⟨d.codeStartAddr, pc, ?_⟩
  rw [virtualCpuGetCachedCode_eq, virtualCpuGetCachedCode_eq, cachedCode_get, hlast, ← firstMatch_index,
    ← firstMatch_index]
  exact (search_ne_firstMatch (s.last unit) hij hc hd rfl hshared hown hlow).imp (hindex hown)
    (hindex hshared.2)

end

/-- **Lookups do not depend on their history.** For a list of requests, whatever lookups are made between
them and after them and in whatever translation units, the lookup of an address gives the same range, the
first one that contains it in the order of insertion, exactly if every request is one whose first address
is cached already or one of a range that shares no address with the cached ones. -/
theorem virtual_cpu_get_cached_code_first_iff (reqs : List (CachedOperationCodeType W)) :
    (∀ calls calls', requests calls = reqs → requests calls' = reqs → ∀ unit unit' pc,
      (codesAfter calls).cachedCode = (codesAfter calls').cachedCode ∧
      (virtualCpuGetCachedCode (codesAfter calls) unit pc).1 =
        (virtualCpuGetCachedCode (codesAfter calls') unit' pc).1 ∧
      (virtualCpuGetCachedCode (codesAfter calls) unit pc).1 =
        (codesAfter calls).cachedCode.findIdx? (·.contains pc)) ↔
    ∀ pre r post, reqs = pre ++ r :: post → RequestApart (codesAfter (requestOnly pre)).cachedCode r := by
  have hbuilt : ∀ calls, requests calls = reqs → (codesAfter calls).cachedCode = reqs.foldl insertRange [] :=
    fun calls hcalls => by rw [cachedCode_codesAfter, hcalls]
  have hempty : RangesSeparated ([] : List (CachedOperationCodeType W)) := fun i j x y _ hx => by cases hx
  simp only [cachedCode_codesAfter (requestOnly _), requests_requestOnly]
  rw [← separated_foldl reqs hempty]
  constructor
  · intro h
    by_contra hshared
    have hreqs := requests_requestOnly reqs
    have hfree : StartsFree (codesAfter (requestOnly reqs)).cachedCode := by
      rw [hbuilt _ hreqs]
      exact startsFree_foldl reqs fun i j c d _ hc => by cases hc
    rw [← hbuilt _ hreqs] at hshared
    obtain ⟨own, pc, hne | hne⟩ := get_ne_findIdx hfree hshared 0
    · exact hne (h _ _ hreqs hreqs 0 0 own).2.2
    · have hlook : requests (requestOnly reqs ++ [.get 0 own]) = reqs := by
        rw [requests, List.filterMap_append, ← requests, hreqs]
        exact List.append_nil reqs
      have hafter : codesAfter (requestOnly reqs ++ [.get 0 own]) =
          (virtualCpuGetCachedCode (codesAfter (requestOnly reqs)) 0 own).2 := after_append _ _ _ _
      have hscan := (h _ _ hlook hlook 0 0 pc).2.2
      rw [hafter, cachedCode_get] at hscan
      exact hne hscan
  · intro h calls calls' hcalls hcalls' unit unit' pc
    have hsep : ∀ calls, requests calls = reqs → RangesSeparated (codesAfter calls).cachedCode :=
      fun calls hcalls => by rwa [hbuilt calls hcalls]
    have hsame : (codesAfter calls).cachedCode = (codesAfter calls').cachedCode := by
      rw [hbuilt calls hcalls, hbuilt calls' hcalls']
    have hscan := get_eq_findIdx (hsep calls hcalls) unit pc
    have hscan' := get_eq_findIdx (hsep calls' hcalls') unit' pc
    exact ⟨hsame, by rw [hscan, hscan', hsame], hscan⟩

/-- A range of thirty-two bytes is requested behind one of eight that lies in it. Address 10 is in both:
it is looked up in the first one added, and after a lookup of address 4 in the other. -/
theorem virtual_cpu_get_cached_code_enclosed :
    ∃ calls calls' : List (CacheCall 32),
      requests calls = [⟨8, 8⟩, ⟨0, 32⟩] ∧ requests calls' = [⟨8, 8⟩, ⟨0, 32⟩] ∧
      (virtualCpuGetCachedCode (codesAfter calls) 0 10).1 = some 0 ∧
      (virtualCpuGetCachedCode (codesAfter calls') 0 10).1 = some 1 :=
  ⟨[.add 0 8 8, .add 0 32 0], [.add 0 8 8, .add 0 32 0, .get 0 4], rfl, rfl, rfl, rfl⟩

end Athrill
