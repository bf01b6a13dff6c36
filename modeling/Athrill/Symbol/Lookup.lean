import Athrill.Symbol.Ops

/-!
# The symbol index answers the linear reference scan

The specification of the two lookups is the one the source states beside its index: the symbol returned last
if its range still contains the address, otherwise the lowest id whose range contains it, otherwise `-1`
(`SpecTable.lookup`). Main result: `symbol_lookup_refines_scan`.
-/

namespace Athrill

open SortedSearch Machine List SymbolTable SymbolEvent

variable {W : Nat}

/-! ## The specification -/

def DbgSymbolType.Contains (s : DbgSymbolType W) (addr : AthrillAddrType W) : Prop :=
  s.addr ≤ addr ∧ addr < s.endAddr

instance (s : DbgSymbolType W) (addr : AthrillAddrType W) : Decidable (s.Contains addr) :=
  inferInstanceAs (Decidable (_ ∧ _))

def lowestContaining (symbols : List (DbgSymbolType W)) (addr : AthrillAddrType W) : Option Nat :=
  symbols.findIdx? fun s => decide (s.Contains addr)

structure SpecTable (W : Nat) where
  symbols : List (DbgSymbolType W)
  last : Option Nat

def SpecTable.find (t : SpecTable W) (addr : AthrillAddrType W) : Option Nat :=
  match t.last with
  | none => lowestContaining t.symbols addr
  | some i =>
    if ∃ s ∈ t.symbols[i]?, s.Contains addr then some i else lowestContaining t.symbols addr

def SpecTable.result (symbols : List (DbgSymbolType W)) : Option Nat → SymbolResult W
  | none => ⟨-1, none⟩
  | some i => ⟨i, symbols[i]?.map DbgSymbolType.addr⟩

def SpecTable.lookup (t : SpecTable W) (addr : AthrillAddrType W) :
    SpecTable W × SymbolResult W :=
  ({ t with last := (t.find addr).or t.last }, SpecTable.result t.symbols (t.find addr))

/-- The two tables without an index. -/
structure SpecState (W : Nat) where
  func : SpecTable W
  gl : SpecTable W

def SpecState.init : SpecState W := ⟨⟨[], none⟩, ⟨[], none⟩⟩

def specStep (st : SpecState W) : SymbolEvent W → SpecState W × SymbolResult W
  | .funcAdd sym => ({ st with func := { st.func with symbols := st.func.symbols ++ [sym] } }, ⟨0, none⟩)
  | .glAdd sym => ({ st with gl := { st.gl with symbols := st.gl.symbols ++ [sym] } }, ⟨0, none⟩)
  | .pc2funcid pc => ({ st with func := (st.func.lookup pc).1 }, (st.func.lookup pc).2)
  | .addr2glid addr => ({ st with gl := (st.gl.lookup addr).1 }, (st.gl.lookup addr).2)

/-! ## The lowest id of a set -/

def Hits (table : List (DbgSymbolType W)) (addr : AthrillAddrType W) (i : Nat) : Prop :=
  ∃ s, table[i]? = some s ∧ s.Contains addr

def Lowest (P : Nat → Prop) (r : Int) : Prop :=
  (r = -1 ∧ ∀ i, ¬ P i) ∨ ∃ i : Nat, r = i ∧ P i ∧ ∀ j, P j → i ≤ j

theorem Lowest.congr {P Q : Nat → Prop} {r : Int} (h : Lowest P r) (hPQ : ∀ i, P i ↔ Q i) :
    Lowest Q r := by
  rcases h with ⟨hr, hn⟩ | ⟨i, hr, hi, hle⟩
  · exact .inl ⟨hr, fun i hi => hn i ((hPQ i).2 hi)⟩
  · exact .inr ⟨i, hr, (hPQ i).1 hi, fun j hj => hle j ((hPQ j).2 hj)⟩

theorem Lowest.insert {P : Nat → Prop} {r : Int} (h : Lowest P r) (id : Nat)
    (hP : ∀ i, P i → i < 2 ^ 31) (hid : id < 2 ^ 31) :
    Lowest (fun i => P i ∨ i = id)
      (if r < 0 ∨ id < uint32OfInt r then intOfUint32 id else r) := by
  rw [intOfUint32_of_lt hid]
  rcases h with ⟨rfl, hn⟩ | ⟨i, rfl, hi, hle⟩
  · rw [if_pos (by omega)]
    exact .inr ⟨id, rfl, .inr rfl, fun j hj => hj.elim (fun h => absurd h (hn j)) (by omega)⟩
  · rw [uint32OfInt_natCast (hP i hi)]
    by_cases hlt : id < i
    · rw [if_pos (.inr hlt)]
      exact .inr ⟨id, rfl, .inr rfl, fun j hj => hj.elim (fun h => by have := hle j h; omega) (by omega)⟩
    · rw [if_neg (by omega)]
      exact .inr ⟨i, rfl, .inl hi, fun j hj => hj.elim (hle j) (by omega)⟩

def idOf : Option Nat → Int
  | none => -1
  | some i => i

variable {t : SymbolTable W} {u : SpecTable W} {addr : AthrillAddrType W}

theorem Lowest.eq_lowestContaining {table : List (DbgSymbolType W)}
    {r : Int} (h : Lowest (Hits table addr) r) : r = idOf (lowestContaining table addr) := by
  rcases h with ⟨rfl, hn⟩ | ⟨i, rfl, ⟨s, hs, hc⟩, hle⟩
  · have : lowestContaining table addr = none := by
      rw [lowestContaining, findIdx?_eq_none_iff]
      intro s hs
      obtain ⟨i, hi⟩ := getElem?_of_mem hs
      exact decide_eq_false fun hc => hn i ⟨s, hi, hc⟩
    rw [this]; rfl
  · have : lowestContaining table addr = some i := by
      obtain ⟨hi, rfl⟩ := List.getElem?_eq_some_iff.1 hs
      rw [lowestContaining, List.findIdx?_eq_some_iff_getElem]
      refine ⟨hi, decide_eq_true hc, fun j hji => ?_⟩
      have hj : j < table.length := by omega
      simp only [decide_eq_true_eq]
      intro hcj
      have := hle j ⟨table[j], getElem?_eq_getElem hj, hcj⟩
      omega
    rw [this]; rfl

/-! ## A built index -/

structure IndexOf (index : SymbolRangeIndex W) (table : List (DbgSymbolType W)) : Prop where
  built : index.builtCount = table.length
  order_length : index.order.length = table.length
  maxEnd_length : index.maxEnd.length = table.length
  mem_order : ∀ i, i ∈ index.order ↔ i < table.length
  sorted : ∀ {j k i i' : Nat} {s s' : DbgSymbolType W}, j ≤ k → index.order[j]? = some i →
    index.order[k]? = some i' → table[i]? = some s → table[i']? = some s' → s.addr ≤ s'.addr
  bound : ∀ {j k i : Nat} {s : DbgSymbolType W} {m : AthrillAddrType W}, j ≤ k →
    index.order[j]? = some i → table[i]? = some s → index.maxEnd[k]? = some m → s.endAddr ≤ m

theorem symbolCompareStart_le_zero {table : List (DbgSymbolType W)} {a b : Nat}
    {x y : DbgSymbolType W} (hx : table[a]? = some x) (hy : table[b]? = some y) :
    symbolCompareStart table a b ≤ 0 ↔ x.addr < y.addr ∨ x.addr = y.addr ∧ a ≤ b := by
  simp only [symbolCompareStart, hx, hy]
  by_cases heq : x.addr = y.addr
  · rw [if_neg (not_not.2 heq)]
    simp only [heq, lt_irrefl, true_and, false_or]
    split
    · omega
    · split <;> omega
  · rw [if_pos heq]
    simp only [heq, false_and, or_false]
    split <;> simp [*]

theorem symbolCompareStart_consistent (table : List (DbgSymbolType W)) :
    Consistent (symbolCompareStart table) (range table.length) := by
  have hget : ∀ a ∈ range table.length, ∃ x, table[a]? = some x := fun a ha =>
    ⟨_, getElem?_eq_getElem (mem_range.1 ha)⟩
  constructor
  · intro a ha b hb
    obtain ⟨x, hx⟩ := hget a ha
    obtain ⟨y, hy⟩ := hget b hb
    rw [symbolCompareStart_le_zero hx hy, symbolCompareStart_le_zero hy hx]
    rcases lt_trichotomy x.addr y.addr with h | h | h
    · exact .inl (.inl h)
    · rcases Nat.le_total a b with hab | hab
      · exact .inl (.inr ⟨h, hab⟩)
      · exact .inr (.inr ⟨h.symm, hab⟩)
    · exact .inr (.inl h)
  · intro a ha b hb c hc hab hbc
    obtain ⟨x, hx⟩ := hget a ha
    obtain ⟨y, hy⟩ := hget b hb
    obtain ⟨z, hz⟩ := hget c hc
    rw [symbolCompareStart_le_zero hx hy] at hab
    rw [symbolCompareStart_le_zero hy hz] at hbc
    rw [symbolCompareStart_le_zero hx hz]
    rcases hab with hab | ⟨hab, hab'⟩ <;> rcases hbc with hbc | ⟨hbc, hbc'⟩
    · exact .inl (lt_trans hab hbc)
    · exact .inl (hbc ▸ hab)
    · exact .inl (hab ▸ hbc)
    · exact .inr ⟨hab.trans hbc, by omega⟩

theorem symbolIndexBuild_spec (qsort : Sorter) (table : List (DbgSymbolType W)) :
    ∃ index, symbolIndexBuild qsort table table.length = some index ∧ IndexOf index table := by
  have hperm := qsort.perm (symbolCompareStart table) (range table.length)
  have hsorted := qsort.sorted _ _ (symbolCompareStart_consistent table)
  simp only [symbolIndexBuild]
  generalize qsort.sort (symbolCompareStart table) (range table.length) = order at hperm hsorted
  have hmem : ∀ i, i ∈ order ↔ i < table.length := fun i => by rw [hperm.mem_iff, mem_range]
  have hlen : order.length = table.length := by rw [hperm.length_eq, length_range]
  -- the reads of the second loop are at ids of the table, so each has a value
  have hread : ∀ i ∈ order, table[i]?.map DbgSymbolType.endAddr =
      some (match table[i]? with | some s => s.endAddr | none => 0) := fun i hi => by
    rw [getElem?_eq_getElem ((hmem i).1 hi)]
    rfl
  rw [mapM_eq_some_map hread]
  refine ⟨_, rfl, rfl, hlen, by simp [hlen], hmem, ?_, ?_⟩
  · intro j k i i' s s' hjk hi hi' hs hs'
    rcases Nat.lt_or_eq_of_le hjk with hlt | rfl
    · obtain ⟨hj, rfl⟩ := List.getElem?_eq_some_iff.1 hi
      obtain ⟨hk, rfl⟩ := List.getElem?_eq_some_iff.1 hi'
      have hle := pairwise_iff_getElem.1 hsorted j k hj hk hlt
      rw [symbolCompareStart_le_zero hs hs'] at hle
      exact hle.elim le_of_lt fun h => le_of_eq h.1
    · obtain rfl : i = i' := by rw [hi] at hi'; exact Option.some.inj hi'
      rw [hs] at hs'
      exact le_of_eq (congrArg _ (Option.some.inj hs'))
  · intro j k i s m hjk hi hs hm
    refine le_runningMax 0 _ hjk ?_ hm
    rw [getElem?_map, hi]
    simp only [Option.map_some, hs]

/-! ## The search -/

section
variable {table : List (DbgSymbolType W)} {index : SymbolRangeIndex W}

theorem IndexOf.get (h : IndexOf index table) {k : Nat} (hk : k < table.length) :
    ∃ i s, index.order[k]? = some i ∧ table[i]? = some s := by
  have hk' : k < index.order.length := by rw [h.order_length]; exact hk
  have hi := (h.mem_order index.order[k]).1 (getElem_mem hk')
  exact ⟨_, _, getElem?_eq_getElem hk', getElem?_eq_getElem hi⟩

theorem partitionPoint_symbolStartsBelow (h : IndexOf index table) (addr : AthrillAddrType W) :
    ∃ low, low ≤ table.length ∧
      partitionPoint (symbolStartsBelow index.order table addr) 0 table.length = some low ∧
      ∀ {k i : Nat} {s : DbgSymbolType W}, index.order[k]? = some i → table[i]? = some s →
        (s.addr ≤ addr ↔ k < low) := by
  obtain ⟨c, hc, hp⟩ := exists_partition
    (p := fun k => symbolStartsBelow index.order table addr k == some true) table.length (by
      intro j k hjk hk hpk
      obtain ⟨i, s, hi, hs⟩ := h.get (k := j) (by omega)
      obtain ⟨i', s', hi', hs'⟩ := h.get hk
      simp only [symbolStartsBelow, hi, hs, hi', hs', Option.map_some, beq_iff_eq,
        Option.some.injEq, decide_eq_true_eq] at hpk ⊢
      exact le_trans (h.sorted hjk hi hi' hs hs') hpk)
  have hiff : ∀ {k i : Nat} {s : DbgSymbolType W}, index.order[k]? = some i → table[i]? = some s →
      (s.addr ≤ addr ↔ k < c) := by
    intro k i s hi hs
    have hk : k < table.length := by
      rw [← h.order_length]; exact (List.getElem?_eq_some_iff.1 hi).1
    have := hp k hk
    simpa [symbolStartsBelow, hi, hs] using this
  refine ⟨c, hc, partitionPoint_eq 0 _ (fun k _ hk => ?_) (Nat.zero_le _) hc, hiff⟩
  obtain ⟨i, s, hi, hs⟩ := h.get hk
  simp only [symbolStartsBelow, hi, hs, Option.map_some, hiff hi hs]

def EndsAbove (index : SymbolRangeIndex W) (table : List (DbgSymbolType W))
    (addr : AthrillAddrType W) (k i : Nat) : Prop :=
  ∃ j s, j < k ∧ index.order[j]? = some i ∧ table[i]? = some s ∧ addr < s.endAddr

theorem endsAbove_succ {addr : AthrillAddrType W} {k id : Nat} {symbol : DbgSymbolType W}
    (hid : index.order[k]? = some id) (hsym : table[id]? = some symbol) (i : Nat) :
    EndsAbove index table addr (k + 1) i ↔
      EndsAbove index table addr k i ∨ addr < symbol.endAddr ∧ i = id := by
  constructor
  · rintro ⟨j, s, hj, hi, hs, hlt⟩
    rcases Nat.lt_succ_iff_lt_or_eq.1 hj with hj | rfl
    · exact .inl ⟨j, s, hj, hi, hs, hlt⟩
    · obtain rfl := Option.some.inj (hid.symm.trans hi)
      obtain rfl := Option.some.inj (hsym.symm.trans hs)
      exact .inr ⟨hlt, rfl⟩
  · rintro (⟨j, s, hj, hi, hs, hlt⟩ | ⟨hlt, rfl⟩)
    · exact ⟨j, s, Nat.lt_succ_of_lt hj, hi, hs, hlt⟩
    · exact ⟨k, symbol, Nat.lt_succ_self k, hid, hsym, hlt⟩

theorem IndexOf.not_endsAbove (h : IndexOf index table) {addr m : AthrillAddrType W} {k : Nat}
    (hm : index.maxEnd[k]? = some m) (hcut : m ≤ addr) (i : Nat) :
    ¬ EndsAbove index table addr (k + 1) i := by
  rintro ⟨j, s, hj, hi, hs, hlt⟩
  have hle : s.endAddr ≤ addr := le_trans (h.bound (Nat.le_of_lt_succ hj) hi hs hm) hcut
  exact absurd hlt (not_lt.2 hle)

theorem symbolIndexScan_spec (h : IndexOf index table) (hlen : table.length < 2 ^ 31)
    (addr : AthrillAddrType W) (k : Nat) (hk : k ≤ table.length) {P : Nat → Prop} {found : Int}
    (hf : Lowest P found) (hP : ∀ i, P i → i < table.length) :
    ∃ r, symbolIndexScan index table addr k found = some r ∧
      Lowest (fun i => P i ∨ EndsAbove index table addr k i) r := by
  induction k generalizing P found with
  | zero => exact ⟨found, rfl, hf.congr fun i => by simp [EndsAbove]⟩
  | succ k ih =>
    obtain ⟨id, symbol, hid, hsym⟩ := h.get (k := k) (by omega)
    have hidlt : id < table.length := (List.getElem?_eq_some_iff.1 hsym).1
    obtain ⟨m, hm⟩ : ∃ m, index.maxEnd[k]? = some m :=
      ⟨_, getElem?_eq_getElem (by rw [h.maxEnd_length]; omega)⟩
    simp only [symbolIndexScan, hm, hid, hsym]
    by_cases hcut : m ≤ addr
    · rw [if_pos hcut]
      exact ⟨found, rfl, hf.congr fun i => (or_iff_left (h.not_endsAbove hm hcut i)).symm⟩
    rw [if_neg hcut]
    by_cases hend : addr < symbol.endAddr
    · -- the symbol joins `P`, and the comparison keeps the lower id
      have hins := hf.insert id (fun i hi => by have := hP i hi; omega) (by omega)
      obtain ⟨r, hr, hl⟩ := ih (by omega) hins (fun i hi => hi.elim (hP i) (fun he => he ▸ hidlt))
      refine ⟨r, ?_, hl.congr fun i => ?_⟩
      · rw [← hr]
        by_cases hc : found < 0 ∨ id < uint32OfInt found
        · rw [if_pos ⟨hend, hc⟩, if_pos hc]
        · rw [if_neg (fun h => hc h.2), if_neg hc]
      · rw [endsAbove_succ hid hsym, and_iff_right hend, or_assoc, or_comm (a := i = id)]
    · rw [if_neg (fun h => hend h.1)]
      obtain ⟨r, hr, hl⟩ := ih (by omega) hf hP
      refine ⟨r, hr, hl.congr fun i => ?_⟩
      have hnot : ¬ (addr < symbol.endAddr ∧ i = id) := fun h => hend h.1
      rw [endsAbove_succ hid hsym, or_iff_left hnot]

theorem symbolIndexFind_spec (qsort : Sorter) (addr : AthrillAddrType W) (hlen : table.length < 2 ^ 31)
    (hidx : index.builtCount = table.length → IndexOf index table) :
    ∃ index', IndexOf index' table ∧
      symbolIndexFind qsort index table table.length addr =
        some (index', idOf (lowestContaining table addr)) := by
  obtain ⟨index', heq, h⟩ : ∃ index', (if index.builtCount ≠ table.length then
      symbolIndexBuild qsort table table.length else some index) = some index' ∧
      IndexOf index' table := by
    by_cases hb : index.builtCount = table.length
    · exact ⟨index, if_neg (not_not.2 hb), hidx hb⟩
    · rw [if_pos hb]
      exact symbolIndexBuild_spec qsort table
  refine ⟨index', h, ?_⟩
  obtain ⟨low, hlow, hpart, hiff⟩ := partitionPoint_symbolStartsBelow h addr
  have hempty : Lowest (fun _ => False) (-1) := .inl ⟨rfl, fun _ => id⟩
  obtain ⟨r, hscan, hl⟩ := symbolIndexScan_spec h hlen addr low hlow hempty
    (fun _ hf => hf.elim)
  have hhits : Lowest (Hits table addr) r := by
    refine hl.congr fun i => ⟨?_, ?_⟩
    · rintro (hf | ⟨j, s, hj, hi, hs, hlt⟩)
      · exact hf.elim
      · exact ⟨s, hs, (hiff hi hs).2 hj, hlt⟩
    · rintro ⟨s, hs, hle, hlt⟩
      obtain ⟨j, hj⟩ := List.getElem?_of_mem
        ((h.mem_order i).2 (List.getElem?_eq_some_iff.1 hs).1)
      exact .inr ⟨j, s, (hiff hj hs).1 hle, hj, hs, hlt⟩
  simp only [symbolIndexFind, heq, hpart, hscan, Option.map_some, hhits.eq_lowestContaining]

end

/-! ## Lookups and runs -/

structure TableSim (t : SymbolTable W) (u : SpecTable W) : Prop where
  symbols : t.symbols = u.symbols
  last : t.last = idOf u.last
  last_lt : ∀ i, u.last = some i → i < u.symbols.length
  index : ∃ n, n ≤ t.symbols.length ∧ IndexOf t.index (t.symbols.take n)

theorem TableSim.empty : TableSim (.empty : SymbolTable W) ⟨[], none⟩ where
  symbols := rfl
  last := rfl
  last_lt _ h := by cases h
  index := ⟨0, Nat.le_refl _, by
    constructor <;> simp [SymbolTable.empty]⟩

theorem TableSim.add (h : TableSim t u) (sym : DbgSymbolType W) :
    TableSim (t.add sym) { u with symbols := u.symbols ++ [sym] } := by
  obtain ⟨n, hn, hidx⟩ := h.index
  refine ⟨by simp [SymbolTable.add, h.symbols], h.last, fun i hi => ?_, n, ?_, ?_⟩
  · have := h.last_lt i hi
    simp only [length_append]
    omega
  · simp only [SymbolTable.add, length_append]
    omega
  · simpa only [SymbolTable.add, take_append_of_le_length hn] using hidx

theorem TableSim.indexOf (h : TableSim t u)
    (hb : t.index.builtCount = t.symbols.length) : IndexOf t.index t.symbols := by
  obtain ⟨n, hn, hidx⟩ := h.index
  have hbuilt := hidx.built
  rw [length_take, Nat.min_eq_left hn, hb] at hbuilt
  rwa [← hbuilt, take_length] at hidx

theorem SpecTable.find_lt {i : Nat}
    (hlast : ∀ i, u.last = some i → i < u.symbols.length) (h : u.find addr = some i) :
    i < u.symbols.length := by
  have hlow : lowestContaining u.symbols addr = some i → i < u.symbols.length := fun h =>
    (findIdx?_eq_some_iff_getElem.1 h).1
  unfold SpecTable.find at h
  split at h
  · exact hlow h
  · next j hj =>
    split at h
    · exact hlast i (Option.some.inj h ▸ hj)
    · exact hlow h

theorem TableSim.lastHit (h : TableSim t u) (addr : AthrillAddrType W) :
    (∃ i s, u.last = some i ∧ u.symbols[i]? = some s ∧ s.Contains addr ∧
        t.lastHit addr = some (some s.addr)) ∨
      (u.find addr = lowestContaining u.symbols addr ∧ t.lastHit addr = some none) := by
  cases hl : u.last with
  | none =>
    refine .inr ⟨by simp [SpecTable.find, hl], ?_⟩
    rw [SymbolTable.lastHit, h.last, hl, if_neg (by simp [idOf])]
  | some i =>
    have hi := h.last_lt i hl
    have hs : u.symbols[i]? = some u.symbols[i] := getElem?_eq_getElem hi
    have hhit : t.lastHit addr =
        some (if (u.symbols[i]).Contains addr then some (u.symbols[i]).addr else none) := by
      rw [SymbolTable.lastHit, h.last, hl, if_pos (by simp [idOf]), h.symbols]
      simp only [idOf, Int.toNat_natCast, hs, Option.map_some]
      rfl
    by_cases hc : (u.symbols[i]).Contains addr
    · exact .inl ⟨i, _, rfl, hs, hc, by rw [hhit, if_pos hc]⟩
    · refine .inr ⟨?_, by rw [hhit, if_neg hc]⟩
      simp only [SpecTable.find, hl, hs, Option.mem_def, Option.some.injEq, exists_eq_left', hc,
        if_false]

theorem SymbolTable.lookup_spec (qsort : Sorter)
    (h : TableSim t u) (hlen : u.symbols.length < 2 ^ 31) (addr : AthrillAddrType W) :
    ∃ t', t.lookup qsort addr = some (t', (u.lookup addr).2) ∧ TableSim t' (u.lookup addr).1 := by
  rcases h.lastHit addr with ⟨i, s, hl, hs, hc, hhit⟩ | ⟨hfind, hhit⟩
  · -- the id returned last is reused, and stays the one returned last
    have hfind : u.find addr = some i := by
      simp only [SpecTable.find, hl, hs, Option.mem_def, Option.some.injEq, exists_eq_left', hc,
        if_true]
    have hsame : (u.lookup addr).1 = u := by rw [SpecTable.lookup, hfind, Option.some_or, ← hl]
    refine ⟨t, ?_, by rwa [hsame]⟩
    simp only [lookup, hhit, SpecTable.lookup, hfind, SpecTable.result, hs, h.last, hl,
      idOf, Option.map_some]
  have hlen' : t.symbols.length < 2 ^ 31 := by rw [h.symbols]; exact hlen
  obtain ⟨index', hidx, hfound⟩ := symbolIndexFind_spec qsort addr hlen' h.indexOf
  have hwhole : ∃ n, n ≤ t.symbols.length ∧ IndexOf index' (t.symbols.take n) :=
    ⟨t.symbols.length, Nat.le_refl _, by rwa [take_length]⟩
  rw [h.symbols, ← hfind] at hfound
  simp only [lookup, hhit, h.symbols, hfound, SpecTable.lookup]
  cases hf : u.find addr with
  | none =>
    refine ⟨_, if_neg (by simp [idOf]), ?_⟩
    exact ⟨rfl, by simpa using h.last, by simpa using h.last_lt, h.symbols ▸ hwhole⟩
  | some i =>
    have hi := SpecTable.find_lt h.last_lt hf
    have hs : u.symbols[i]? = some u.symbols[i] := getElem?_eq_getElem hi
    refine ⟨{ symbols := u.symbols, index := index', last := i }, ?_, ?_⟩
    · rw [if_pos (by simp [idOf])]
      simp only [idOf, Int.toNat_natCast, hs, Option.map_some, SpecTable.result]
    · exact ⟨rfl, rfl, fun j hj => by cases hj; exact hi, h.symbols ▸ hwhole⟩

/-- The index is that of a part of the table, and the last symbol found is in it. -/
structure SymbolTable.Ready (t : SymbolTable W) : Prop where
  sim : ∃ u, TableSim t u
  length_lt : t.symbols.length < 2 ^ 31

theorem SymbolTable.ready_empty : (empty : SymbolTable W).Ready :=
  ⟨⟨_, .empty⟩, by simp [empty]⟩

theorem SymbolTable.Ready.add (h : t.Ready) {sym : DbgSymbolType W}
    (hlt : t.symbols.length + 1 < 2 ^ 31) : (t.add sym).Ready := by
  obtain ⟨u, hu⟩ := h.sim
  exact ⟨⟨_, hu.add sym⟩, by simpa [SymbolTable.add] using hlt⟩

def SymbolTable.load (symbols : List (DbgSymbolType W)) : SymbolTable W := symbols.foldl add .empty

theorem SymbolTable.ready_load (symbols : List (DbgSymbolType W)) (hlt : symbols.length < 2 ^ 31) :
    (load symbols).Ready ∧ (load symbols).symbols = symbols := by
  induction symbols using reverseRecOn with
  | nil => exact ⟨ready_empty, rfl⟩
  | append_singleton symbols sym ih =>
    rw [length_append, length_singleton] at hlt
    obtain ⟨hready, hsymbols⟩ := ih (Nat.lt_of_succ_lt hlt)
    rw [load, foldl_concat]
    refine ⟨hready.add (hsymbols.symm ▸ hlt), ?_⟩
    exact congrArg (· ++ [sym]) hsymbols

def SymbolResult.Finds (symbols : List (DbgSymbolType W)) (addr : AthrillAddrType W)
    (r : SymbolResult W) : Prop :=
  (∃ i sym, r = ⟨Int.ofNat i, some sym.addr⟩ ∧ symbols[i]? = some sym ∧ sym.Contains addr) ∨
    r = ⟨-1, none⟩ ∧ ∀ sym ∈ symbols, ¬ sym.Contains addr

theorem SymbolResult.Finds.ret_singleton {symbols : List (DbgSymbolType W)}
    {r : SymbolResult W} {sym : DbgSymbolType W} (h : r.Finds symbols addr) (hsym : symbols = [sym])
    (hcontains : sym.Contains addr) : r.ret = 0 := by
  subst hsym
  rcases h with ⟨i, sym', rfl, hi, -⟩ | ⟨-, hno⟩
  · have hlt := (List.getElem?_eq_some_iff.1 hi).1
    obtain rfl : i = 0 := by simpa using hlt
    rfl
  · exact absurd hcontains (hno sym (.head _))

theorem SpecTable.result_finds (addr : AthrillAddrType W) :
    SymbolResult.Finds u.symbols addr (SpecTable.result u.symbols (u.find addr)) := by
  have hlow : SymbolResult.Finds u.symbols addr
      (SpecTable.result u.symbols (lowestContaining u.symbols addr)) := by
    cases hf : lowestContaining u.symbols addr with
    | none =>
      refine .inr ⟨rfl, fun sym hsym => ?_⟩
      simpa using findIdx?_eq_none_iff.1 hf sym hsym
    | some i =>
      obtain ⟨hi, hcontains, -⟩ := findIdx?_eq_some_iff_getElem.1 hf
      refine .inl ⟨i, u.symbols[i], ?_, getElem?_eq_getElem hi, by simpa using hcontains⟩
      simp [SpecTable.result, getElem?_eq_getElem hi]
  unfold SpecTable.find
  split
  · exact hlow
  · next i _ =>
    split_ifs with hlast
    · obtain ⟨sym, hsym, hcontains⟩ := hlast
      exact .inl ⟨i, sym, by simp [SpecTable.result, Option.mem_def.1 hsym], hsym, hcontains⟩
    · exact hlow

theorem SymbolTable.Ready.lookup (h : t.Ready) (qsort : Sorter)
    (addr : AthrillAddrType W) : ∃ t' r, t.lookup qsort addr = some (t', r) ∧ t'.Ready ∧
      t'.symbols = t.symbols ∧ r.Finds t.symbols addr := by
  obtain ⟨u, hu⟩ := h.sim
  have hsame : (u.lookup addr).1.symbols = t.symbols := hu.symbols.symm
  obtain ⟨t', ht, hsim⟩ := lookup_spec qsort hu (hu.symbols ▸ h.length_lt) addr
  have hsymbols : t'.symbols = t.symbols := hsim.symbols.trans hsame
  refine ⟨t', _, ht, ⟨⟨_, hsim⟩, hsymbols ▸ h.length_lt⟩, hsymbols, ?_⟩
  rw [hu.symbols]
  exact SpecTable.result_finds addr

def SymbolEvent.isFuncAdd : SymbolEvent W → Bool
  | .funcAdd _ => true
  | _ => false

def SymbolEvent.isGlAdd : SymbolEvent W → Bool
  | .glAdd _ => true
  | _ => false

structure StateSim (es : List (SymbolEvent W)) (st : SymbolState W) (sp : SpecState W) : Prop where
  func : TableSim st.func sp.func
  gl : TableSim st.gl sp.gl
  func_lt : sp.func.symbols.length + es.countP isFuncAdd < 2 ^ 31
  gl_lt : sp.gl.symbols.length + es.countP isGlAdd < 2 ^ 31

theorem symbolStep_simulates (qsort : Sorter) (e : SymbolEvent W) (es : List (SymbolEvent W))
    (st : SymbolState W) (sp : SpecState W) (h : StateSim (e :: es) st sp) :
    ∃ st', symbolStep qsort st e = some (st', (specStep sp e).2) ∧
      StateSim es st' (specStep sp e).1 := by
  have hf := h.func_lt
  have hg := h.gl_lt
  rw [countP_cons] at hf hg
  cases e with
  | funcAdd sym =>
    refine ⟨_, rfl, h.func.add sym, h.gl, ?_, ?_⟩
    all_goals simp [specStep, isFuncAdd, isGlAdd] at hf hg ⊢; omega
  | glAdd sym =>
    refine ⟨_, rfl, h.func, h.gl.add sym, ?_, ?_⟩
    all_goals simp [specStep, isFuncAdd, isGlAdd] at hf hg ⊢; omega
  | pc2funcid pc =>
    obtain ⟨t', ht, hsim⟩ := lookup_spec qsort h.func (by omega) pc
    refine ⟨{ st with func := t' }, by simp [symbolStep, symbolPc2funcid, ht, specStep], hsim, h.gl,
      ?_, ?_⟩
    all_goals simp [specStep, SpecTable.lookup] at hf hg ⊢; omega
  | addr2glid addr =>
    obtain ⟨t', ht, hsim⟩ := lookup_spec qsort h.gl (by omega) addr
    refine ⟨{ st with gl := t' }, by simp [symbolStep, symbolAddr2glid, ht, specStep], h.func, hsim,
      ?_, ?_⟩
    all_goals simp [specStep, SpecTable.lookup] at hf hg ⊢; omega

/-- **The index agrees with the linear scan in every history.** Over every sequence of additions and
lookups that starts from empty tables and adds fewer than `2 ^ 31` symbols to each, with any
addresses and sizes, every call is defined (no array is read outside its bounds) and returns what
the specification returns: the id, and the start address written on success. -/
theorem symbol_lookup_refines_scan (qsort : Sorter) (es : List (SymbolEvent W))
    (hfunc : es.countP isFuncAdd < 2 ^ 31)
    (hgl : es.countP isGlAdd < 2 ^ 31) :
    ∃ st, run (symbolStep qsort) SymbolState.init es =
      some (st, outputs specStep SpecState.init es) := by
  obtain ⟨st, hrun, -⟩ := run_simulates (s := SymbolState.init) (t := SpecState.init)
    (symbolStep_simulates qsort) es
    ⟨.empty, .empty, by simpa [SpecState.init] using hfunc, by simpa [SpecState.init] using hgl⟩
  exact ⟨st, hrun⟩

theorem symbol_lookup_refines_scan_nested :
    ∃ st, run (symbolStep mergeSorter) (SymbolState.init : SymbolState 32)
      [.funcAdd ⟨[], 0x2000, 0x10⟩, .funcAdd ⟨[], 0x1000, 0x4000⟩, .pc2funcid 0x2004,
        .funcAdd ⟨[], 0xfffffff0, 0x20⟩, .funcAdd ⟨[], 0x2000, 0⟩, .pc2funcid 0x3000,
        .pc2funcid 0x2004, .pc2funcid 0xfffffff8, .addr2glid 0x2004] =
      some (st, [⟨0, none⟩, ⟨0, none⟩, ⟨0, some 0x2000⟩, ⟨0, none⟩, ⟨0, none⟩,
        ⟨1, some 0x1000⟩, ⟨1, some 0x1000⟩, ⟨-1, none⟩, ⟨-1, none⟩]) := by
  have h := symbol_lookup_refines_scan (W := 32) mergeSorter
    [.funcAdd ⟨[], 0x2000, 0x10⟩, .funcAdd ⟨[], 0x1000, 0x4000⟩, .pc2funcid 0x2004,
      .funcAdd ⟨[], 0xfffffff0, 0x20⟩, .funcAdd ⟨[], 0x2000, 0⟩, .pc2funcid 0x3000,
      .pc2funcid 0x2004, .pc2funcid 0xfffffff8, .addr2glid 0x2004] (by decide) (by decide)
  obtain ⟨st, hst⟩ := h
  exact ⟨st, hst.trans (by congr 2)⟩

end Athrill
