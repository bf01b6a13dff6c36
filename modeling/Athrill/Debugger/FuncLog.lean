import Mathlib.Data.List.Range
import Athrill.Lib.History
import Athrill.Lib.Ring
import Athrill.Symbol.Lookup

/-!
# The log of functions (`executor/cpu_control/dbg_cpu_control.c`)

After every clock the debugger looks up the function that a core is in, and logs it if it is not the one
logged last. Main result: `cpuctrl_get_func_log_trace_info_iff`.
-/

namespace Athrill

open Machine History Ring List Function

variable {N W : Nat}

/-! ## The source -/

structure DbgFuncLogTraceEntryType where
  sp : BitVec 32
  funcid : Nat
  funcoff : BitVec 32
  funcpc : BitVec 32
  funcname : List UInt8
  deriving DecidableEq, Repr

structure DbgFuncLogTraceType where
  current : Nat
  lognum : Nat
  logmax : Nat
  entryArray : Nat → DbgFuncLogTraceEntryType

def cpuctrlInitFuncLogTrace (junk : Nat → DbgFuncLogTraceEntryType) (entryNum : Nat) : DbgFuncLogTraceType :=
  ⟨0, 0, entryNum, junk⟩

def DbgFuncLogTraceType.entry (log : DbgFuncLogTraceType) (inx : Nat) : Option DbgFuncLogTraceEntryType :=
  if inx < log.logmax then some (log.entryArray inx) else none

def DbgFuncLogTraceType.store (log : DbgFuncLogTraceType) (next : Nat) (entry : DbgFuncLogTraceEntryType) :
    Option DbgFuncLogTraceType :=
  if next < log.logmax then
    some { log with
      current := next
      entryArray := update log.entryArray next entry
      lognum := if log.lognum < log.logmax then log.lognum + 1 else log.lognum }
  else none

def DbgFuncLogTraceType.add (log : DbgFuncLogTraceType) (funcpc : AthrillAddrType W)
    (entry : DbgFuncLogTraceEntryType) : Option DbgFuncLogTraceType :=
  if log.lognum > 0 then
    match log.entry log.current with
    | none => none
    | some last =>
      if last.funcpc.setWidth W = funcpc then some log
      else log.store (if log.current + 1 ≥ log.logmax then 0 else log.current + 1) entry
  else log.store 0 entry

def cpuctrlSetFuncLogTrace (qsort : SortedSearch.Sorter) (func : SymbolTable W) (log : DbgFuncLogTraceType)
    (pc sp : BitVec 32) : Option (SymbolTable W × DbgFuncLogTraceType × SymbolResult W) :=
  match func.lookup qsort (pc.setWidth W) with
  | none => none
  | some (func, r) =>
    if r.ret < 0 then some (func, log, r)
    else
      match func.symbols[r.ret.toNat]?, r.out with
      | some symbol, some funcpc =>
        (log.add funcpc ⟨sp, r.ret.toNat, (pc.setWidth W - funcpc).setWidth 32, funcpc.setWidth 32,
          symbol.name⟩).map fun log => (func, log, r)
      | _, _ => none

structure FuncLogTraceInfo where
  funcname : List UInt8
  funcpcoff : BitVec 32
  funcid : Nat
  sp : BitVec 32
  deriving DecidableEq, Repr

def DbgFuncLogTraceEntryType.info (entry : DbgFuncLogTraceEntryType) : FuncLogTraceInfo :=
  ⟨entry.funcname, entry.funcoff, entry.funcid, entry.sp⟩

def cpuctrlGetFuncLogTraceInfo (log : DbgFuncLogTraceType) (btNumber : Nat) :
    Option (Option FuncLogTraceInfo) :=
  if btNumber ≥ log.logmax then some none
  else if btNumber ≥ log.lognum then some none
  else
    let off : Int :=
      if log.current ≥ btNumber then intOfUint32 (log.current - btNumber)
      else intOfUint32 (log.logmax - (btNumber - log.current))
    if 0 ≤ off then (log.entry off.toNat).map fun entry => some entry.info else none

/-! ## Runs -/

inductive FuncLogEvent (N W : Nat)
  | sample (core : Fin N) (pc sp : BitVec 32)
  | pc2funcid (pc : AthrillAddrType W)

def FuncLogEvent.sample? : FuncLogEvent N W → Option (Fin N × BitVec 32 × BitVec 32)
  | .sample core pc sp => some (core, pc, sp)
  | .pc2funcid _ => none

structure LogSample (N W : Nat) where
  core : Fin N
  pc : BitVec 32
  sp : BitVec 32
  found : SymbolResult W

/-- The functions and the log of each core, with all samples seen so far. -/
structure FuncLogRun (N W : Nat) where
  func : SymbolTable W
  logs : Fin N → DbgFuncLogTraceType
  seen : List (LogSample N W)

def FuncLogRun.init (junk : Nat → DbgFuncLogTraceEntryType) (entryNum : Nat) (func : SymbolTable W) :
    FuncLogRun N W :=
  ⟨func, fun _ => cpuctrlInitFuncLogTrace junk entryNum, []⟩

def funcLogStep (qsort : SortedSearch.Sorter) (s : FuncLogRun N W) :
    FuncLogEvent N W → Option (FuncLogRun N W × Unit)
  | .sample core pc sp =>
    (cpuctrlSetFuncLogTrace qsort s.func (s.logs core) pc sp).map fun r =>
      (⟨r.1, update s.logs core r.2.1, s.seen ++ [⟨core, pc, sp, r.2.2⟩]⟩, ())
  | .pc2funcid pc => (s.func.lookup qsort pc).map fun r => ({ s with func := r.1 }, ())

/-! ## The history of a core -/

structure FuncSample (W : Nat) where
  pc : BitVec 32
  sp : BitVec 32
  funcid : Nat
  symbol : DbgSymbolType W

def LogSample.inFunction (symbols : List (DbgSymbolType W)) (x : LogSample N W) : Option (FuncSample W) :=
  if x.found.ret < 0 then none
  else symbols[x.found.ret.toNat]?.map fun symbol => ⟨x.pc, x.sp, x.found.ret.toNat, symbol⟩

def samplesIn (symbols : List (DbgSymbolType W)) (core : Fin N) (seen : List (LogSample N W)) :
    List (FuncSample W) :=
  (seen.filter fun x => x.core = core).filterMap (LogSample.inFunction symbols)

def FuncSample.OtherStart (a b : FuncSample W) : Prop := a.symbol.addr ≠ b.symbol.addr

instance : DecidableRel (FuncSample.OtherStart (W := W)) := fun a b =>
  inferInstanceAs (Decidable (a.symbol.addr ≠ b.symbol.addr))

def funcHistory (symbols : List (DbgSymbolType W)) (core : Fin N) (seen : List (LogSample N W)) :
    List (FuncSample W) :=
  (samplesIn symbols core seen).destutter FuncSample.OtherStart

def FuncSample.entry (x : FuncSample W) : DbgFuncLogTraceEntryType where
  sp := x.sp
  funcid := x.funcid
  funcoff := (x.pc.setWidth W - x.symbol.addr).setWidth 32
  funcpc := x.symbol.addr.setWidth 32
  funcname := x.symbol.name

/-- The samples of the calls, each with the function that contains its `pc`, if there is one. -/
structure SamplesOf (symbols : List (DbgSymbolType W)) (es : List (FuncLogEvent N W))
    (seen : List (LogSample N W)) : Prop where
  samples : seen.map (fun x => (x.core, x.pc, x.sp)) = es.filterMap FuncLogEvent.sample?
  found : ∀ x ∈ seen, x.found.Finds symbols (x.pc.setWidth W)

structure LogOk (n : Nat) (log : DbgFuncLogTraceType) (kept : List (FuncSample W)) : Prop where
  logmax : log.logmax = n
  lognum : log.lognum = min n kept.length
  current : log.current = (kept.length - 1) % n
  holds : HoldsEnd log.entryArray n (kept.map FuncSample.entry)

/-! ## One log -/

section
variable {n : Nat} {log : DbgFuncLogTraceType} {kept l : List (FuncSample W)} {x : FuncSample W}

theorem LogOk.init (n : Nat) (junk : Nat → DbgFuncLogTraceEntryType) :
    LogOk n (cpuctrlInitFuncLogTrace junk n) ([] : List (FuncSample W)) where
  logmax := rfl
  lognum := (Nat.min_zero n).symm
  current := (Nat.zero_mod n).symm
  holds := holdsEnd_nil junk n

theorem LogOk.entry (h : LogOk n log kept) (hn : 0 < n) {i : Nat} (hi : kept[i]? = some x)
    (hend : kept.length ≤ i + n) : log.entry (i % n) = some x.entry := by
  have hlt : i < (kept.map FuncSample.entry).length := by
    rw [List.length_map]
    exact (List.getElem?_eq_some_iff.1 hi).1
  have hplace := h.holds i hlt (by rwa [List.length_map])
  rw [getElem?_map, hi, Option.map_some] at hplace
  rw [DbgFuncLogTraceType.entry, h.logmax, if_pos (Nat.mod_lt i hn), ← hplace]

theorem LogOk.store (h : LogOk n log kept) (hn : 0 < n) (x : FuncSample W) :
    ∃ log', log.store (kept.length % n) x.entry = some log' ∧ LogOk n log' (kept ++ [x]) := by
  have hplace : kept.length % n < log.logmax := by
    rw [h.logmax]
    exact Nat.mod_lt _ hn
  refine ⟨_, if_pos hplace, h.logmax, ?_, ?_, ?_⟩
  · dsimp only
    rw [h.lognum, h.logmax, length_append, length_singleton]
    split_ifs <;> omega
  · rw [length_append, length_singleton, Nat.add_sub_cancel]
  · have hconcat := h.holds.concat x.entry
    rwa [length_map, ← map_singleton, ← map_append] at hconcat

theorem setWidth_setWidth_addr {addr : AthrillAddrType W} {pc : BitVec 32} (h : addr ≤ pc.setWidth W) :
    (addr.setWidth 32).setWidth W = addr := by
  apply BitVec.eq_of_toNat_eq
  have hle : addr.toNat ≤ pc.toNat % 2 ^ W := by simpa [BitVec.le_def] using h
  have hlow : addr.toNat < 2 ^ 32 := (hle.trans (Nat.mod_le _ _)).trans_lt pc.isLt
  rw [BitVec.toNat_setWidth, BitVec.toNat_setWidth, Nat.mod_eq_of_lt hlow, Nat.mod_eq_of_lt addr.isLt]

theorem LogOk.add (h : LogOk n log (l.destutter FuncSample.OtherStart)) (hn : 0 < n)
    (hlow : ∀ y ∈ l, (y.symbol.addr.setWidth 32).setWidth W = y.symbol.addr) (x : FuncSample W) :
    ∃ log', log.add x.symbol.addr x.entry = some log' ∧
      LogOk n log' ((l ++ [x]).destutter FuncSample.OtherStart) := by
  rw [destutter_concat]
  generalize hkept : l.destutter FuncSample.OtherStart = kept at h ⊢
  rcases eq_nil_or_concat kept with rfl | ⟨before, y, hy⟩
  · have hzero : ¬ log.lognum > 0 := by rw [h.lognum, length_nil, Nat.min_zero]; exact Nat.lt_irrefl 0
    rw [DbgFuncLogTraceType.add, if_neg hzero, if_pos (by simp)]
    simpa using h.store hn x
  rw [concat_eq_append] at hy
  have hlen : kept.length = before.length + 1 := by rw [hy, length_append, length_singleton]
  have hpos : log.lognum > 0 := by rw [h.lognum]; omega
  have hcur : log.current = before.length % n := by rw [h.current, hlen, Nat.add_sub_cancel]
  have hread : log.entry log.current = some y.entry := by
    rw [hcur]
    refine h.entry hn ?_ (by omega)
    rw [hy, getElem?_concat_length]
  have hmem : y ∈ l := (destutter_sublist FuncSample.OtherStart l).subset (by
    rw [hkept, hy]
    exact mem_append_right _ (.head _))
  have hlast : kept.getLast? = some y := by rw [hy, getLast?_concat]
  have hstart : (y.entry.funcpc.setWidth W = x.symbol.addr) ↔ y.symbol.addr = x.symbol.addr := by
    rw [FuncSample.entry, hlow y hmem]
  have hnext : (if log.current + 1 ≥ log.logmax then 0 else log.current + 1) = kept.length % n := by
    have hring := next_eq_mod (Nat.mod_lt before.length hn)
    rw [Nat.mod_add_mod] at hring
    rw [hcur, h.logmax, hlen]
    exact hring
  simp only [DbgFuncLogTraceType.add, if_pos hpos, hread, hstart, hnext]
  by_cases hsame : y.symbol.addr = x.symbol.addr
  · have hrepeats : ¬ ∀ z ∈ kept.getLast?, z.OtherStart x := by
      rw [hlast]
      exact fun hall => hall y rfl hsame
    rw [if_pos hsame, if_neg hrepeats]
    exact ⟨log, rfl, h⟩
  · have hother : ∀ z ∈ kept.getLast?, z.OtherStart x := by
      rw [hlast]
      rintro z hz
      rwa [← Option.some.inj hz]
    rw [if_neg hsame, if_pos hother]
    exact h.store hn x

theorem LogOk.getInfo (h : LogOk n log kept) (hlt : n < 2 ^ 32) {k : Nat} (hk : k < min n kept.length) :
    cpuctrlGetFuncLogTraceInfo log k =
      if (kept.length - 1 - k) % n < 2 ^ 31 then some (kept[kept.length - 1 - k]?.map fun x => x.entry.info)
      else none := by
  obtain ⟨hkn, hkm⟩ := lt_min_iff.1 hk
  have hn : 0 < n := Nat.zero_lt_of_lt hkn
  obtain ⟨x, hx⟩ : ∃ x, kept[kept.length - 1 - k]? = some x := ⟨_, getElem?_eq_getElem (by omega)⟩
  have hoff : (if log.current ≥ k then intOfUint32 (log.current - k)
      else intOfUint32 (n - (k - log.current))) = intOfUint32 ((kept.length - 1 - k) % n) := by
    rw [← back_eq_mod (by omega) hkn, ← h.current, back]
    split_ifs <;> rfl
  have hentry := h.entry hn hx (by omega)
  have hplace := Nat.mod_lt (kept.length - 1 - k) hn
  simp only [cpuctrlGetFuncLogTraceInfo, h.logmax, h.lognum, ge_iff_le, if_neg (not_le.2 hkn),
    if_neg (not_le.2 hk)]
  simp only [ge_iff_le] at hoff
  rw [hoff, hx]
  generalize (kept.length - 1 - k) % n = place at hentry hplace ⊢
  by_cases hsmall : place < 2 ^ 31
  · rw [if_pos hsmall, intOfUint32_of_lt hsmall, if_pos (Int.natCast_nonneg place), Int.toNat_natCast, hentry]
    rfl
  · have hneg : ¬ 0 ≤ intOfUint32 place := by
      rw [intOfUint32, if_neg hsmall]
      omega
    rw [if_neg hsmall, if_neg hneg]

theorem LogOk.getInfo_of_le (h : LogOk n log kept) {k : Nat} (hk : min n kept.length ≤ k) :
    cpuctrlGetFuncLogTraceInfo log k = some none := by
  rw [cpuctrlGetFuncLogTraceInfo, h.logmax, h.lognum]
  by_cases hn : k ≥ n
  · rw [if_pos hn]
  · rw [if_neg hn, if_pos hk]

theorem LogOk.getInfo_iff (h : LogOk n log kept) (hlt : n < 2 ^ 32) (k : Nat) :
    cpuctrlGetFuncLogTraceInfo log k = some ((kept.reverse.take n)[k]?.map fun x => x.entry.info) ↔
      (k < min n kept.length → (kept.length - 1 - k) % n < 2 ^ 31) := by
  by_cases hk : k < min n kept.length
  · obtain ⟨hkn, hkm⟩ := lt_min_iff.1 hk
    rw [getElem?_take_of_lt hkn, getElem?_reverse hkm, h.getInfo hlt hk, forall_prop_of_true hk]
    split_ifs with hplace
    · exact iff_of_true rfl hplace
    · exact iff_of_false (by simp) hplace
  · have hend : (kept.reverse.take n)[k]? = none := by
      rw [getElem?_eq_none_iff, length_take, length_reverse]
      exact not_lt.1 hk
    rw [h.getInfo_of_le (not_lt.1 hk), hend]
    exact iff_of_true rfl fun hlt => absurd hlt hk

end

/-! ## All logs -/

structure FuncLogOk (n : Nat) (symbols : List (DbgSymbolType W)) (s : FuncLogRun N W) : Prop where
  ready : s.func.Ready
  loaded : s.func.symbols = symbols
  found : ∀ x ∈ s.seen, x.found.Finds symbols (x.pc.setWidth W)
  logs : ∀ core, LogOk n (s.logs core) (funcHistory symbols core s.seen)

section
variable {n : Nat} {symbols : List (DbgSymbolType W)} {s : FuncLogRun N W} {qsort : SortedSearch.Sorter}

theorem FuncLogOk.init {func : SymbolTable W} (h : func.Ready) (junk : Nat → DbgFuncLogTraceEntryType) :
    FuncLogOk n func.symbols (.init junk n func : FuncLogRun N W) where
  ready := h
  loaded := rfl
  found _ hx := by cases hx
  logs _ := .init n junk

theorem samplesIn_concat (core : Fin N) (seen : List (LogSample N W)) (x : LogSample N W) :
    samplesIn symbols core (seen ++ [x]) = samplesIn symbols core seen ++
      if x.core = core then (x.inFunction symbols).toList else [] := by
  rw [samplesIn, filter_append, filterMap_append]
  congr 1
  by_cases hcore : x.core = core
  · cases hin : x.inFunction symbols <;> simp [hcore, hin]
  · simp [hcore]

theorem LogSample.inFunction_cases {x : LogSample N W} (h : x.found.Finds symbols (x.pc.setWidth W)) :
    (∃ i sym, x.found = ⟨Int.ofNat i, some sym.addr⟩ ∧ symbols[i]? = some sym ∧
        sym.Contains (x.pc.setWidth W) ∧ x.inFunction symbols = some ⟨x.pc, x.sp, i, sym⟩) ∨
      x.found = ⟨-1, none⟩ ∧ x.inFunction symbols = none := by
  rcases h with ⟨i, sym, hfound, hsym, hcontains⟩ | ⟨hfound, -⟩
  · have hpos : ¬ Int.ofNat i < 0 := not_lt.2 (Int.natCast_nonneg i)
    refine .inl ⟨i, sym, hfound, hsym, hcontains, ?_⟩
    rw [LogSample.inFunction, hfound, if_neg hpos]
    simp [hsym]
  · refine .inr ⟨hfound, ?_⟩
    rw [LogSample.inFunction, hfound]
    rfl

theorem FuncLogOk.setWidth_addr (h : FuncLogOk n symbols s) (core : Fin N) :
    ∀ y ∈ samplesIn symbols core s.seen, (y.symbol.addr.setWidth 32).setWidth W = y.symbol.addr := by
  intro y hy
  obtain ⟨x, hx, hin⟩ := mem_filterMap.1 hy
  rcases LogSample.inFunction_cases (h.found x (mem_filter.1 hx).1) with
    ⟨i, sym, -, -, hcontains, heq⟩ | ⟨-, heq⟩
  · cases heq.symm.trans hin
    exact setWidth_setWidth_addr hcontains.1
  · cases heq.symm.trans hin

theorem FuncLogOk.setFuncLogTrace (h : FuncLogOk n symbols s) (qsort : SortedSearch.Sorter) (hn : 0 < n)
    (core : Fin N) (pc sp : BitVec 32) :
    ∃ func log r, cpuctrlSetFuncLogTrace qsort s.func (s.logs core) pc sp = some (func, log, r) ∧
      func.Ready ∧ func.symbols = symbols ∧ r.Finds symbols (pc.setWidth W) ∧
      LogOk n log (funcHistory symbols core (s.seen ++ [⟨core, pc, sp, r⟩])) := by
  obtain ⟨func, r, hlookup, hready, hsame, hfinds⟩ := h.ready.lookup qsort (pc.setWidth W)
  rw [h.loaded] at hsame hfinds
  have hlog := h.logs core
  rcases LogSample.inFunction_cases (x := ⟨core, pc, sp, r⟩) hfinds with
    ⟨i, sym, rfl, hsym, -, hin⟩ | ⟨rfl, hin⟩
  · obtain ⟨log, hadd, hok⟩ := hlog.add hn (h.setWidth_addr core) ⟨pc, sp, i, sym⟩
    refine ⟨func, log, _, ?_, hready, hsame, hfinds, ?_⟩
    · simp only [cpuctrlSetFuncLogTrace, hlookup, hsame, Int.ofNat_eq_natCast, Int.toNat_natCast, hsym]
      exact congrArg (Option.map _) hadd
    · rw [funcHistory, samplesIn_concat, if_pos rfl, hin]
      exact hok
  · refine ⟨func, s.logs core, _, ?_, hready, hsame, hfinds, ?_⟩
    · simp only [cpuctrlSetFuncLogTrace, hlookup]
      rfl
    · rw [funcHistory, samplesIn_concat, if_pos rfl, hin, Option.toList_none, append_nil]
      exact hlog

theorem FuncLogOk.step (h : FuncLogOk n symbols s) (hn : 0 < n) (e : FuncLogEvent N W) :
    ∃ s' o, funcLogStep qsort s e = some (s', o) ∧ FuncLogOk n symbols s' ∧
      s'.seen.map (fun x => (x.core, x.pc, x.sp)) =
        s.seen.map (fun x => (x.core, x.pc, x.sp)) ++ e.sample?.toList := by
  cases e with
  | sample core pc sp =>
    obtain ⟨func, log, r, hset, hready, hsame, hfinds, hlog⟩ := h.setFuncLogTrace qsort hn core pc sp
    refine ⟨⟨func, update s.logs core log, s.seen ++ [⟨core, pc, sp, r⟩]⟩, (),
      by rw [funcLogStep, hset]; rfl, ⟨hready, hsame, fun x hx => ?_, fun core' => ?_⟩, by
        simp [FuncLogEvent.sample?]⟩
    · rcases mem_append.1 hx with hx | hx
      · exact h.found x hx
      · rw [mem_singleton.1 hx]
        exact hfinds
    · dsimp only
      by_cases hcore : core' = core
      · subst hcore
        rw [update_self]
        exact hlog
      · -- the other cores' logs and histories are as before
        rw [update_of_ne hcore, funcHistory, samplesIn_concat, if_neg (Ne.symm hcore), append_nil]
        exact h.logs core'
  | pc2funcid pc =>
    obtain ⟨func, r, hlookup, hready, hsame, -⟩ := h.ready.lookup qsort pc
    refine ⟨{ s with func := func }, (), by rw [funcLogStep, hlookup]; rfl,
      ⟨hready, hsame.trans h.loaded, h.found, h.logs⟩, ?_⟩
    exact (append_nil _).symm

theorem FuncLogOk.run (h : FuncLogOk n symbols s) (hn : 0 < n) (es : List (FuncLogEvent N W)) :
    ∃ s' os, run (funcLogStep qsort) s es = some (s', os) ∧ FuncLogOk n symbols s' ∧
      s'.seen.map (fun x => (x.core, x.pc, x.sp)) =
        s.seen.map (fun x => (x.core, x.pc, x.sp)) ++ es.filterMap FuncLogEvent.sample? := by
  induction es generalizing s with
  | nil => exact ⟨s, [], rfl, h, (append_nil _).symm⟩
  | cons e es ih =>
    obtain ⟨s₁, o, hs, hok, hseen⟩ := h.step hn e
    obtain ⟨s', os, hrun, hok', hseen'⟩ := ih hok
    refine ⟨s', o :: os, run_cons_eq_some.2 ⟨s₁, o, os, hs, hrun, rfl⟩, hok', ?_⟩
    rw [hseen', hseen, append_assoc, filterMap_cons]
    cases e.sample? <;> rfl

/-! ## A log that is too long -/

theorem map_addr_samplesIn {core : Fin N} {seen : List (LogSample N W)} (hcore : ∀ x ∈ seen, x.core = core)
    (hin : ∀ x ∈ seen, ∃ y, x.inFunction symbols = some y ∧ y.symbol.addr = x.pc.setWidth W) :
    (samplesIn symbols core seen).map (fun y => y.symbol.addr) = seen.map fun x => x.pc.setWidth W := by
  rw [samplesIn, filter_eq_self.2 fun x hx => by simpa using hcore x hx]
  induction seen with
  | nil => rfl
  | cons x seen ih =>
    obtain ⟨y, hy, haddr⟩ := hin x (.head _)
    have hrest := ih (fun x hx => hcore x (.tail _ hx)) fun x hx => hin x (.tail _ hx)
    rw [filterMap_cons, hy, map_cons, map_cons, haddr, hrest]

theorem FuncLogOk.length_funcHistory (h : FuncLogOk n symbols s) {core : Fin N} {pcs : List (BitVec 32)}
    {sp : BitVec 32} (hseen : s.seen.map (fun x => (x.core, x.pc, x.sp)) = pcs.map fun pc => (core, pc, sp))
    (hstart : ∀ pc ∈ pcs, (∃ sym ∈ symbols, sym.Contains (pc.setWidth W)) ∧
      ∀ sym ∈ symbols, sym.Contains (pc.setWidth W) → sym.addr = pc.setWidth W)
    (hchain : (pcs.map fun pc => pc.setWidth W).IsChain (· ≠ ·)) :
    (funcHistory symbols core s.seen).length = pcs.length := by
  have hpcs : s.seen.map (fun x => x.pc) = pcs := by
    have hmap := congrArg (map fun x => x.2.1) hseen
    simpa [comp_def] using hmap
  have hmem : ∀ x ∈ s.seen, x.core = core ∧ x.pc ∈ pcs := by
    intro x hx
    have hx' := mem_map_of_mem (f := fun x => (x.core, x.pc, x.sp)) hx
    rw [hseen] at hx'
    obtain ⟨pc, hpc, heq⟩ := mem_map.1 hx'
    obtain ⟨hcore, hrest⟩ := Prod.mk.inj heq
    exact ⟨hcore.symm, (Prod.mk.inj hrest).1 ▸ hpc⟩
  have hin : ∀ x ∈ s.seen, ∃ y, x.inFunction symbols = some y ∧ y.symbol.addr = x.pc.setWidth W := by
    intro x hx
    obtain ⟨⟨sym, hsym, hcontains⟩, honly⟩ := hstart x.pc (hmem x hx).2
    rcases h.found x hx with hfound | ⟨-, hno⟩
    · rcases LogSample.inFunction_cases (.inl hfound) with ⟨i, sym', -, hi, hcontains', heq⟩ | ⟨hfound', -⟩
      · exact ⟨_, heq, honly sym' (mem_of_getElem? hi) hcontains'⟩
      · obtain ⟨i, sym', heq, -⟩ := hfound
        cases heq.symm.trans hfound'
    · exact absurd hcontains (hno sym hsym)
  have haddr := map_addr_samplesIn (fun x hx => (hmem x hx).1) hin
  have hmapped : s.seen.map (fun x => x.pc.setWidth W) = pcs.map fun pc => pc.setWidth W := by
    rw [← hpcs, map_map]
    rfl
  have hkept : (samplesIn symbols core s.seen).IsChain FuncSample.OtherStart := by
    rw [← hmapped, ← haddr, isChain_map] at hchain
    exact hchain
  rw [funcHistory, destutter_of_isChain _ _ hkept]
  have hlen := congrArg length (haddr.trans hmapped)
  rwa [length_map, length_map] at hlen

theorem FuncLogOk.getInfo_outside (h : FuncLogOk n symbols s) {core : Fin N} (hlong : 2 ^ 31 < n)
    (hlt : n < 2 ^ 32) (hlen : (funcHistory symbols core s.seen).length = n) :
    cpuctrlGetFuncLogTraceInfo (s.logs core) 0 = none := by
  have hzero : 0 < min n (funcHistory symbols core s.seen).length := by omega
  have hplace : ¬ ((funcHistory symbols core s.seen).length - 1 - 0) % n < 2 ^ 31 := by
    rw [hlen, Nat.sub_zero, Nat.mod_eq_of_lt (by omega)]
    omega
  rw [(h.logs core).getInfo hlt hzero, if_neg hplace]

/-! ## All samples -/

/-- **The log of a core is the end of its history.** For every size of the logs and every sequence of samples,
with other lookups of functions between them: no call leaves an array, and for every core and every number
`k` the reader returns the entry of the `k`-th sample from the end of the core's history, as far as the log
goes back, exactly if the place of that entry is below `2 ^ 31`. -/
theorem cpuctrl_get_func_log_trace_info_iff (hn : 0 < n) (hlt : n < 2 ^ 32) {func : SymbolTable W}
    (hfunc : func.Ready) (junk : Nat → DbgFuncLogTraceEntryType) (es : List (FuncLogEvent N W)) :
    ∃ s os, run (funcLogStep qsort) (.init junk n func) es = some (s, os) ∧
      SamplesOf func.symbols es s.seen ∧
      ∀ core k, cpuctrlGetFuncLogTraceInfo (s.logs core) k =
          some (((funcHistory func.symbols core s.seen).reverse.take n)[k]?.map fun x => x.entry.info) ↔
        (k < min n (funcHistory func.symbols core s.seen).length →
          ((funcHistory func.symbols core s.seen).length - 1 - k) % n < 2 ^ 31) := by
  obtain ⟨s, os, hrun, hok, hseen⟩ := (FuncLogOk.init hfunc junk).run hn es
  exact ⟨s, os, hrun, ⟨hseen, hok.found⟩, fun core k => (hok.logs core).getInfo_iff hlt k⟩

end

def twoFunctions : List (DbgSymbolType 32) := [⟨[], 0x100, 0x10⟩, ⟨[], 0x200, 0x10⟩]

def jumpPc (i : Nat) : BitVec 32 := if i % 2 = 0 then 0x100 else 0x200

theorem cpuctrl_get_func_log_trace_info_two : ∃ s os,
    run (funcLogStep SortedSearch.mergeSorter) (.init (fun _ => ⟨0, 0, 0, 0, []⟩) 2 (.load twoFunctions) :
        FuncLogRun 1 32)
      [.sample 0 0x104 0x3000, .sample 0 0x108 0x2ff0, .sample 0 0x204 0x2ff0, .sample 0 0x300 0x2ff0,
        .sample 0 0x108 0x3000] = some (s, os) ∧
      ∀ k, cpuctrlGetFuncLogTraceInfo (s.logs 0) k =
        some (((funcHistory (SymbolTable.load twoFunctions).symbols 0 s.seen).reverse.take 2)[k]?.map
          fun x => x.entry.info) := by
  obtain ⟨s, os, hrun, -, hget⟩ := cpuctrl_get_func_log_trace_info_iff (N := 1) (n := 2) (by decide) (by decide)
    (SymbolTable.ready_load twoFunctions (by decide)).1 (fun _ => ⟨0, 0, 0, 0, []⟩) _
  exact ⟨s, os, hrun, fun k => (hget 0 k).2 fun _ => (Nat.mod_lt _ (by decide)).trans (by decide)⟩

theorem isChain_jumpPc (m : Nat) :
    (((range m).map jumpPc).map fun pc => pc.setWidth 32).IsChain (· ≠ ·) := by
  rw [isChain_map, isChain_map]
  cases m with
  | zero => exact .nil
  | succ m =>
    refine (isChain_range_succ _ m).2 fun i _ => ?_
    rcases Nat.mod_two_eq_zero_or_one i with heven | hodd
    · simp [jumpPc, heven, Nat.add_mod]
    · simp [jumpPc, hodd, Nat.add_mod]

theorem jumpPc_start (i : Nat) :
    (∃ sym ∈ twoFunctions, sym.Contains ((jumpPc i).setWidth 32)) ∧
      ∀ sym ∈ twoFunctions, sym.Contains ((jumpPc i).setWidth 32) → sym.addr = (jumpPc i).setWidth 32 := by
  unfold jumpPc
  split_ifs <;> decide

theorem filterMap_sample? (core : Fin N) (sp : BitVec 32) (pcs : List (BitVec 32)) :
    (pcs.map fun pc => (.sample core pc sp : FuncLogEvent N W)).filterMap FuncLogEvent.sample? =
      pcs.map fun pc => (core, pc, sp) := by
  rw [filterMap_map, ← filterMap_eq_map]
  rfl

theorem getInfo_outside_of_jumps {n : Nat} (hlong : 2 ^ 31 < n) (hlt : n < 2 ^ 32) : ∃ s os,
    run (funcLogStep SortedSearch.mergeSorter)
      (.init (fun _ => ⟨0, 0, 0, 0, []⟩) n (.load twoFunctions) : FuncLogRun 1 32)
      (((range n).map jumpPc).map fun pc => .sample 0 pc 0x3000) = some (s, os) ∧
      (funcHistory (SymbolTable.load twoFunctions).symbols 0 s.seen).length = n ∧
      cpuctrlGetFuncLogTraceInfo (s.logs 0) 0 = none := by
  obtain ⟨hready, hsymbols⟩ := SymbolTable.ready_load twoFunctions (by decide)
  have hinit : FuncLogOk n _ (.init (fun _ => ⟨0, 0, 0, 0, []⟩) n (.load twoFunctions) : FuncLogRun 1 32) :=
    .init hready _
  obtain ⟨s, os, hrun, hok, hseen⟩ := hinit.run (Nat.zero_lt_of_lt hlong)
    (((range n).map jumpPc).map fun pc => .sample 0 pc 0x3000)
  have hall : s.seen.map (fun x => (x.core, x.pc, x.sp)) =
      ((range n).map jumpPc).map fun pc => ((0 : Fin 1), pc, (0x3000 : BitVec 32)) := by
    rw [hseen]
    exact filterMap_sample? 0 0x3000 _
  have hlen := hok.length_funcHistory hall (fun pc hpc => by
    obtain ⟨i, -, rfl⟩ := mem_map.1 hpc
    rw [hsymbols]
    exact jumpPc_start i) (isChain_jumpPc n)
  rw [length_map, length_range] at hlen
  exact ⟨s, os, hrun, hlen, hok.getInfo_outside hlong hlt hlen⟩

/-- A log of `2 ^ 31 + 1` entries. -/
theorem cpuctrl_get_func_log_trace_info_outside : ∃ s os,
    run (funcLogStep SortedSearch.mergeSorter)
      (.init (fun _ => ⟨0, 0, 0, 0, []⟩) (2 ^ 31 + 1) (.load twoFunctions) : FuncLogRun 1 32)
      (((range (2 ^ 31 + 1)).map jumpPc).map fun pc => .sample 0 pc 0x3000) = some (s, os) ∧
      (funcHistory (SymbolTable.load twoFunctions).symbols 0 s.seen).length = 2 ^ 31 + 1 ∧
      cpuctrlGetFuncLogTraceInfo (s.logs 0) 0 = none :=
  getInfo_outside_of_jumps (Nat.lt_succ_self _) (by decide)

end Athrill
