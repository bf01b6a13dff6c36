import Athrill.Debugger.FuncLog

/-!
# Printing the log of functions (`concrete_executor/dbg_std_executor.c`)

`dbg_std_executor_func_trace` prints the last entries of every core's log, the newest one first or last. Main
result: `dbg_std_executor_func_trace_iff`.
-/

namespace Athrill

open Machine List

variable {N W : Nat}

/-! ## The source -/

structure FuncTraceLine (W : Nat) where
  coreId : Nat
  stackp : List UInt8
  spoff : AthrillAddrType W
  number : Nat
  info : FuncLogTraceInfo
  deriving DecidableEq, Repr

def funcTraceLine (qsort : SortedSearch.Sorter) (gl : SymbolTable W) (coreId number : Nat)
    (info : FuncLogTraceInfo) : Option (SymbolTable W × FuncTraceLine W) :=
  match gl.lookup qsort (info.sp.setWidth W) with
  | none => none
  | some (gl, r) =>
    if r.ret < 0 then none
    else
      match gl.symbols[r.ret.toNat]?, r.out with
      | some symbol, some gladdr => some (gl, ⟨coreId, symbol.name, info.sp.setWidth W - gladdr, number, info⟩)
      | _, _ => none

def funTraceLoop (qsort : SortedSearch.Sorter) (log : DbgFuncLogTraceType) (coreId : Nat) (number : Nat → Nat) :
    List Nat → SymbolTable W → Option (SymbolTable W × List (FuncTraceLine W))
  | [], gl => some (gl, [])
  | i :: is, gl =>
    match cpuctrlGetFuncLogTraceInfo log i with
    | none => none
    | some none => some (gl, [])
    | some (some info) => do
      let line ← funcTraceLine qsort gl coreId (number i) info
      let rest ← funTraceLoop qsort log coreId number is line.1
      some (rest.1, line.2 :: rest.2)

def dbgStdExecutorFunTraceTowardOlder (qsort : SortedSearch.Sorter) (log : DbgFuncLogTraceType) (coreId : Nat)
    (btNumber : Nat) (gl : SymbolTable W) : Option (SymbolTable W × List (FuncTraceLine W)) :=
  -- `i` goes down from here to 0
  let start := intOfUint32 (u32 (2 ^ 32 - 1 + btNumber))
  funTraceLoop qsort log coreId id (range (start + 1).toNat).reverse gl

def dbgStdExecutorFunTraceTowardNewer (qsort : SortedSearch.Sorter) (log : DbgFuncLogTraceType) (coreId : Nat)
    (btNumber : Nat) (gl : SymbolTable W) : Option (SymbolTable W × List (FuncTraceLine W)) :=
  -- `i` is an `int`, but compared and passed on as a `uint32`
  funTraceLoop qsort log coreId (fun i => log.lognum - 1 - i) (range btNumber) gl

def dbgStdExecutorFunTrace (qsort : SortedSearch.Sorter) (btWay : Bool) (log : DbgFuncLogTraceType)
    (coreId btNumber : Nat) (gl : SymbolTable W) : Option (SymbolTable W × List (FuncTraceLine W)) :=
  if btWay then dbgStdExecutorFunTraceTowardNewer qsort log coreId btNumber gl
  else dbgStdExecutorFunTraceTowardOlder qsort log coreId btNumber gl

def dbgStdExecutorFuncTrace (qsort : SortedSearch.Sorter) (btWay : Bool) :
    List DbgFuncLogTraceType → Nat → Nat → SymbolTable W →
      Option (SymbolTable W × List (List (FuncTraceLine W)))
  | [], _, _, gl => some (gl, [])
  | log :: logs, coreId, btNumber, gl => do
    let btNumber := if btNumber > log.lognum then log.lognum else btNumber
    let core ← dbgStdExecutorFunTrace qsort btWay log coreId btNumber gl
    let rest ← dbgStdExecutorFuncTrace qsort btWay logs (coreId + 1) btNumber core.1
    some (rest.1, core.2 :: rest.2)

/-! ## What is to be printed -/

def lastEntries (btWay : Bool) (m : Nat) (kept : List (FuncSample W)) : List FuncLogTraceInfo :=
  let newest := (kept.reverse.take m).map fun x => x.entry.info
  if btWay then newest else newest.reverse

/-- The last `m` entries of a log with `n` places are printed: the places are read, a global symbol is found for
each stack pointer, and the first index of the loop toward the older ones is not negative. -/
structure Printable (symbols : List (DbgSymbolType W)) (n : Nat) (btWay : Bool) (m : Nat)
    (kept : List (FuncSample W)) : Prop where
  places : ∀ k < m, (kept.length - 1 - k) % n < 2 ^ 31
  stack : ∀ x ∈ kept.reverse.take m, ∃ sym ∈ symbols, sym.Contains (x.sp.setWidth W)
  count : btWay = false → m ≤ 2 ^ 31

/-- From `coreId` on, the last `b` entries of each log are printed; `bt` is what the cores before left. -/
def PrintsLast (qsort : SortedSearch.Sorter) (n b : Nat) (btWay : Bool) (logs : List DbgFuncLogTraceType)
    (histories : List (List (FuncSample W))) (coreId bt : Nat) (gl : SymbolTable W) : Prop :=
  ∃ gl' out, dbgStdExecutorFuncTrace qsort btWay logs coreId bt gl = some (gl', out) ∧
    out.map (map FuncTraceLine.info) =
      histories.map fun kept => lastEntries btWay (min b (min n kept.length)) kept

section
variable (qsort : SortedSearch.Sorter) (coreId : Nat) {gl : SymbolTable W} {n : Nat} {log : DbgFuncLogTraceType}
  {kept : List (FuncSample W)} {symbols : List (DbgSymbolType W)}

/-! ## One core -/

theorem funcTraceLine_cases (h : gl.Ready) (number : Nat) (info : FuncLogTraceInfo) :
    (∃ gl' line, funcTraceLine qsort gl coreId number info = some (gl', line) ∧ gl'.Ready ∧
      gl'.symbols = gl.symbols ∧ line.info = info ∧ ∃ sym ∈ gl.symbols, sym.Contains (info.sp.setWidth W)) ∨
    funcTraceLine qsort gl coreId number info = none ∧
      ∀ sym ∈ gl.symbols, ¬ sym.Contains (info.sp.setWidth W) := by
  obtain ⟨gl', r, hlookup, hready, hsame, ⟨i, sym, rfl, hsym, hcontains⟩ | ⟨rfl, hno⟩⟩ :=
    h.lookup qsort (info.sp.setWidth W)
  · refine .inl ⟨gl', ⟨coreId, sym.name, info.sp.setWidth W - sym.addr, number, info⟩, ?_, hready, hsame, rfl,
      sym, mem_of_getElem? hsym, hcontains⟩
    have hpos : ¬ (i : Int) < 0 := not_lt.2 (Int.natCast_nonneg i)
    simp only [funcTraceLine, hlookup, Int.ofNat_eq_natCast, if_neg hpos, Int.toNat_natCast, hsame, hsym]
  · refine .inr ⟨?_, hno⟩
    simp only [funcTraceLine, hlookup]
    rfl

def PrintableAt (symbols : List (DbgSymbolType W)) (n : Nat) (kept : List (FuncSample W)) (i : Nat) : Prop :=
  (kept.length - 1 - i) % n < 2 ^ 31 ∧
    ∀ x, kept.reverse[i]? = some x → ∃ sym ∈ symbols, sym.Contains (x.sp.setWidth W)

theorem LogOk.traceLoop (h : LogOk n log kept) (hlt : n < 2 ^ 32) (number : Nat → Nat) {is : List Nat}
    (his : ∀ i ∈ is, i < min n kept.length) (hgl : gl.Ready) :
    (∃ gl' ls, funTraceLoop qsort log coreId number is gl = some (gl', ls) ∧ gl'.Ready ∧
      gl'.symbols = gl.symbols ∧ ls.map (fun l => some l.info) =
        is.map (fun i => kept.reverse[i]?.map fun x => x.entry.info) ∧
      ∀ i ∈ is, PrintableAt gl.symbols n kept i) ∨
    funTraceLoop qsort log coreId number is gl = none ∧
      ¬ ∀ i ∈ is, PrintableAt gl.symbols n kept i := by
  induction is generalizing gl with
  | nil => exact .inl ⟨gl, [], rfl, hgl, rfl, rfl, fun _ hi => (by cases hi)⟩
  | cons i is ih =>
    have hi := his i (.head _)
    obtain ⟨x, hx⟩ : ∃ x, kept.reverse[i]? = some x := ⟨_, getElem?_eq_getElem (by simp; omega)⟩
    have hget := h.getInfo hlt hi
    rw [← getElem?_reverse (by omega), hx, Option.map_some] at hget
    rw [forall_mem_cons]
    by_cases hplace : (kept.length - 1 - i) % n < 2 ^ 31
    swap
    · refine .inr ⟨?_, fun hall => hplace hall.1.1⟩
      simp only [funTraceLoop, hget, if_neg hplace]
    rw [if_pos hplace] at hget
    rcases funcTraceLine_cases qsort coreId hgl (number i) x.entry.info with
      ⟨gl₁, line, hline, hready, hsame, hinfo, hsym⟩ | ⟨hline, hno⟩
    swap
    · refine .inr ⟨?_, fun hall => ?_⟩
      · simp only [funTraceLoop, hget, hline, Option.bind_eq_bind, Option.bind_none]
      · obtain ⟨sym, hsym, hcontains⟩ := hall.1.2 x hx
        exact hno sym hsym hcontains
    simp only [funTraceLoop, hget, hline, Option.bind_eq_bind, Option.bind_some]
    have hhead : PrintableAt gl.symbols n kept i :=
      ⟨hplace, fun y hy => Option.some.inj (hx.symm.trans hy) ▸ hsym⟩
    rcases ih (fun j hj => his j (.tail _ hj)) hready with
      ⟨gl', ls, hloop, hready', hsame', hls, hall⟩ | ⟨hloop, hnot⟩
    · rw [hsame] at hsame' hall
      refine .inl ⟨gl', line :: ls, by rw [hloop]; rfl, hready', hsame', ?_, hhead, hall⟩
      rw [map_cons, map_cons, hls, hinfo, hx, Option.map_some]
    · rw [hsame] at hnot
      exact .inr ⟨by rw [hloop]; rfl, fun hall => hnot hall.2⟩

theorem printable_iff {btWay : Bool} {m : Nat} : Printable symbols n btWay m kept ↔
    (∀ i ∈ range m, PrintableAt symbols n kept i) ∧ (btWay = false → m ≤ 2 ^ 31) := by
  have htake : (∀ x ∈ kept.reverse.take m, ∃ sym ∈ symbols, sym.Contains (x.sp.setWidth W)) ↔
      ∀ i < m, ∀ x, kept.reverse[i]? = some x → ∃ sym ∈ symbols, sym.Contains (x.sp.setWidth W) := by
    simp only [mem_iff_getElem?, getElem?_take, Option.ite_none_right_eq_some]
    exact ⟨fun h i hi x hx => h x ⟨i, hi, hx⟩, fun h x ⟨i, hi, hx⟩ => h i hi x hx⟩
  simp only [PrintableAt, mem_range, imp_and, forall_and, ← htake]
  exact ⟨fun ⟨hp, hs, hc⟩ => ⟨⟨hp, hs⟩, hc⟩, fun ⟨⟨hp, hs⟩, hc⟩ => ⟨hp, hs, hc⟩⟩

theorem map_range_getElem? {α β : Type} {l : List α} (f : α → β) {m : Nat} (hm : m ≤ l.length) :
    (range m).map (fun i => l[i]?.map f) = ((l.take m).map f).map some := by
  apply ext_getElem?
  intro i
  by_cases hi : i < m
  · simp [hi, getElem?_eq_getElem (hi.trans_le hm)]
  · simp [hi]

theorem length_lastEntries (btWay : Bool) {m : Nat} (hm : m ≤ kept.length) :
    (lastEntries btWay m kept).length = m := by
  unfold lastEntries
  split_ifs <;> simpa using hm

theorem toNat_start {m : Nat} (hm : m < 2 ^ 32) :
    (intOfUint32 (u32 (2 ^ 32 - 1 + m)) + 1).toNat = if m ≤ 2 ^ 31 then m else 0 := by
  unfold intOfUint32 u32
  split_ifs <;> omega

theorem LogOk.traceCore_cases (h : LogOk n log kept) (hlt : n < 2 ^ 32) (hgl : gl.Ready) (btWay : Bool) {m : Nat}
    (hm : m ≤ min n kept.length) :
    (∃ gl' ls, dbgStdExecutorFunTrace qsort btWay log coreId m gl = some (gl', ls) ∧ gl'.Ready ∧ gl'.symbols = gl.symbols ∧
      ((Printable gl.symbols n btWay m kept ∧ ls.map FuncTraceLine.info = lastEntries btWay m kept) ∨
        ¬ Printable gl.symbols n btWay m kept ∧ 0 < m ∧ ls = [])) ∨
    dbgStdExecutorFunTrace qsort btWay log coreId m gl = none ∧ ¬ Printable gl.symbols n btWay m kept := by
  have hmap := map_range_getElem? (m := m) (l := kept.reverse) (fun x => x.entry.info) (by simp; omega)
  have hinj : Function.Injective (map (some : FuncLogTraceInfo → _)) :=
    map_injective_iff.2 (Option.some_injective _)
  have hin : ∀ i ∈ range m, i < min n kept.length := fun i hi => (mem_range.1 hi).trans_le hm
  cases btWay with
  | true =>
    have hiff : Printable gl.symbols n true m kept ↔ ∀ i ∈ range m, PrintableAt gl.symbols n kept i :=
      printable_iff.trans (and_iff_left nofun)
    rw [hiff]
    rcases h.traceLoop qsort coreId hlt (fun i => log.lognum - 1 - i) hin hgl with
      ⟨gl', ls, hloop, hready, hsame, hls, hall⟩ | hnone
    · refine .inl ⟨gl', ls, hloop, hready, hsame, .inl ⟨hall, hinj ?_⟩⟩
      rw [map_map]
      exact hls.trans hmap
    · exact .inr hnone
  | false =>
    have hcall : dbgStdExecutorFunTrace qsort false log coreId m gl = funTraceLoop qsort log coreId id
        (range (if m ≤ 2 ^ 31 then m else 0)).reverse gl := by
      rw [← toNat_start (by omega)]
      rfl
    rw [hcall]
    by_cases hcount : m ≤ 2 ^ 31
    · have hiff : Printable gl.symbols n false m kept ↔
          ∀ i ∈ (range m).reverse, PrintableAt gl.symbols n kept i := by
        simp only [mem_reverse]
        exact printable_iff.trans (and_iff_left fun _ => hcount)
      rw [if_pos hcount, hiff]
      rcases h.traceLoop qsort coreId hlt id (fun i hi => hin i (mem_reverse.1 hi)) hgl with
        ⟨gl', ls, hloop, hready, hsame, hls, hall⟩ | hnone
      · refine .inl ⟨gl', ls, hloop, hready, hsame, .inl ⟨hall, hinj ?_⟩⟩
        rw [map_reverse, hmap, ← map_reverse] at hls
        rw [map_map]
        exact hls
      · exact .inr hnone
    · -- the first number is negative, so nothing is printed
      rw [if_neg hcount]
      exact .inl ⟨gl, [], rfl, hgl, rfl, .inr ⟨fun hp => hcount (hp.count rfl), by omega, rfl⟩⟩

/-! ## All cores -/

theorem LogOk.traceCore_iff (h : LogOk n log kept) (hlt : n < 2 ^ 32) (hgl : gl.Ready) (btWay : Bool) {m m' : Nat}
    (hm : m ≤ m') (hm' : m' ≤ min n kept.length) {R : SymbolTable W → Prop}
    (hR : ∀ gl', gl'.Ready → gl'.symbols = gl.symbols → (R gl' ↔ R gl)) :
    (∃ gl' ls, dbgStdExecutorFunTrace qsort btWay log coreId m gl = some (gl', ls) ∧
        ls.map FuncTraceLine.info = lastEntries btWay m' kept ∧ R gl') ↔
      (m' ≤ m ∧ Printable gl.symbols n btWay m' kept) ∧ R gl := by
  have hlen := length_lastEntries btWay (hm'.trans (min_le_right _ _))
  rcases h.traceCore_cases qsort coreId hlt hgl btWay (hm.trans hm') with
    ⟨gl', ls, hcall, hready, hsame, ⟨hp, hls⟩ | ⟨hp, hpos, rfl⟩⟩ | ⟨hcall, hp⟩
  · have hlen₁ := length_lastEntries btWay ((hm.trans hm').trans (min_le_right n kept.length))
    constructor
    · rintro ⟨gl'', ls', hcall', hls', hrest⟩
      cases hcall.symm.trans hcall'
      have heq : m = m' := by rw [← hlen₁, ← hls, hls', hlen]
      exact ⟨⟨heq.ge, heq ▸ hp⟩, (hR gl' hready hsame).1 hrest⟩
    · rintro ⟨⟨hle, -⟩, hrest⟩
      obtain rfl := Nat.le_antisymm hm hle
      exact ⟨gl', ls, hcall, hls, (hR gl' hready hsame).2 hrest⟩
  · refine iff_of_false ?_ fun hboth => hp (Nat.le_antisymm hm hboth.1.1 ▸ hboth.1.2)
    rintro ⟨gl'', ls', hcall', hls', -⟩
    cases hcall.symm.trans hcall'
    rw [← hls'] at hlen
    simp only [map_nil, length_nil] at hlen
    omega
  · refine iff_of_false ?_ fun hboth => hp (Nat.le_antisymm hm hboth.1.1 ▸ hboth.1.2)
    rintro ⟨gl'', ls', hcall', -⟩
    cases hcall.symm.trans hcall'

theorem printsLast_cons_iff {logs : List DbgFuncLogTraceType} {histories : List (List (FuncSample W))} {b bt : Nat}
    {btWay : Bool} (h : LogOk n log kept) :
    PrintsLast qsort n b btWay (log :: logs) (kept :: histories) coreId bt gl ↔
      ∃ gl' ls, dbgStdExecutorFunTrace qsort btWay log coreId (min bt (min n kept.length)) gl = some (gl', ls) ∧
        ls.map FuncTraceLine.info = lastEntries btWay (min b (min n kept.length)) kept ∧
        PrintsLast qsort n b btWay logs histories (coreId + 1) (min bt (min n kept.length)) gl' := by
  have hclamp : (if bt > log.lognum then log.lognum else bt) = min bt (min n kept.length) := by
    rw [h.lognum]
    split_ifs <;> omega
  have hcall : dbgStdExecutorFuncTrace qsort btWay (log :: logs) coreId bt gl =
      (dbgStdExecutorFunTrace qsort btWay log coreId (min bt (min n kept.length)) gl).bind fun core =>
        (dbgStdExecutorFuncTrace qsort btWay logs (coreId + 1) (min bt (min n kept.length)) core.1).bind
          fun rest => some (rest.1, core.2 :: rest.2) := by
    rw [dbgStdExecutorFuncTrace, hclamp]
    rfl
  simp only [PrintsLast, hcall, Option.bind_eq_some_iff]
  constructor
  · rintro ⟨gl', out, ⟨⟨gl₁, ls⟩, hcore, ⟨gl₂, rest⟩, hrest, heq⟩, hout⟩
    cases heq
    obtain ⟨hls, hrest'⟩ := cons.inj hout
    exact ⟨gl₁, ls, hcore, hls, gl₂, rest, hrest, hrest'⟩
  · rintro ⟨gl₁, ls, hcore, hls, gl₂, rest, hrest, hrest'⟩
    exact ⟨gl₂, ls :: rest, ⟨_, hcore, _, hrest, rfl⟩, by rw [map_cons, map_cons, hls, hrest']⟩

theorem printsLast_iff {logs : List DbgFuncLogTraceType} {histories : List (List (FuncSample W))}
    (h : List.Forall₂ (LogOk n) logs histories) (hlt : n < 2 ^ 32) (btWay : Bool) {b bt : Nat} (hbt : bt ≤ b)
    (hgl : gl.Ready) :
    PrintsLast qsort n b btWay logs histories coreId bt gl ↔
      (∀ kept ∈ histories, min b (min n kept.length) ≤ bt) ∧
        histories.Pairwise (fun before kept => min b (min n kept.length) ≤ min n before.length) ∧
        ∀ kept ∈ histories, Printable gl.symbols n btWay (min b (min n kept.length)) kept := by
  induction h generalizing bt coreId gl with
  | nil => exact iff_of_true ⟨gl, [], rfl, rfl⟩ ⟨by simp, .nil, by simp⟩
  | @cons log kept logs histories hlog hlogs ih =>
    have hrest := fun gl' (hready : SymbolTable.Ready gl') =>
      @ih (coreId + 1) gl' (min bt (min n kept.length)) (by omega) hready
    rw [printsLast_cons_iff qsort coreId hlog, hlog.traceCore_iff qsort coreId hlt hgl btWay (by omega) (by omega)
      fun gl' hready hsame => by rw [hrest gl' hready, hrest gl hgl, hsame], hrest gl hgl, pairwise_cons,
      forall_mem_cons, forall_mem_cons]
    -- the next cores get the smaller of the two numbers
    have hsplit : (∀ x ∈ histories, min b (min n x.length) ≤ min bt (min n kept.length)) ↔
        (∀ x ∈ histories, min b (min n x.length) ≤ bt) ∧
          ∀ x ∈ histories, min b (min n x.length) ≤ min n kept.length := by
      simp only [le_min_iff, imp_and, forall_and]
    have hhead : min b (min n kept.length) ≤ min bt (min n kept.length) ↔ min b (min n kept.length) ≤ bt := by
      omega
    rw [hsplit, hhead]
    tauto

end

/-- **The trace of functions.** After every sequence of samples, for any number of cores and any number `b`, the
trace prints of each core exactly the last `b` entries of its log (or all, if it has fewer) if and only if no
core before has fewer entries than are to be printed, and the entries to be printed can be. -/
theorem dbg_std_executor_func_trace_iff {qsort : SortedSearch.Sorter} {n : Nat} (hn : 0 < n) (hlt : n < 2 ^ 32)
    {func : SymbolTable W} (hfunc : func.Ready) (junk : Nat → DbgFuncLogTraceEntryType)
    (es : List (FuncLogEvent N W)) :
    ∃ s os, run (funcLogStep qsort) (.init junk n func) es = some (s, os) ∧ SamplesOf func.symbols es s.seen ∧
      ∀ (gl : SymbolTable W) (b : Nat) (btWay : Bool), gl.Ready →
        (PrintsLast qsort n b btWay (ofFn s.logs)
            (ofFn fun core => funcHistory func.symbols core s.seen) 0 b gl ↔
          (∀ i j, i < j → min b (min n (funcHistory func.symbols j s.seen).length) ≤
              min n (funcHistory func.symbols i s.seen).length) ∧
            ∀ i, Printable gl.symbols n btWay (min b (min n (funcHistory func.symbols i s.seen).length))
              (funcHistory func.symbols i s.seen)) := by
  obtain ⟨s, os, hrun, hok, hseen⟩ :=
    @FuncLogOk.run N W n func.symbols _ qsort (.init hfunc junk) hn es
  refine ⟨s, os, hrun, ⟨hseen, hok.found⟩, fun gl b btWay hgl => ?_⟩
  have hlogs : List.Forall₂ (LogOk n) (ofFn s.logs)
      (ofFn fun core => funcHistory func.symbols core s.seen) := by
    rw [ofFn_eq_map, ofFn_eq_map, forall₂_map_left_iff, forall₂_map_right_iff,
      forall₂_same]
    exact fun core _ => hok.logs core
  rw [printsLast_iff qsort 0 hlogs hlt btWay (le_refl b) hgl, pairwise_ofFn]
  simp only [forall_mem_ofFn_iff]
  exact and_iff_right fun i => min_le_left _ _

theorem exists_sp_of_mem_funcHistory {symbols : List (DbgSymbolType W)} {core : Fin N} {seen : List (LogSample N W)}
    {x : FuncSample W} (hx : x ∈ funcHistory symbols core seen) : ∃ y ∈ seen, x.sp = y.sp := by
  obtain ⟨y, hy, hin⟩ := mem_filterMap.1 ((destutter_sublist _ _).subset hx)
  refine ⟨y, (mem_filter.1 hy).1, ?_⟩
  unfold LogSample.inFunction at hin
  split_ifs at hin
  obtain ⟨sym, -, rfl⟩ := Option.map_eq_some_iff.1 hin
  rfl

theorem SamplesOf.funcHistory_pos {symbols : List (DbgSymbolType W)} {es : List (FuncLogEvent N W)}
    {seen : List (LogSample N W)} (h : SamplesOf symbols es seen) {x : LogSample N W} (hx : x ∈ seen)
    (hsym : ∃ sym ∈ symbols, sym.Contains (x.pc.setWidth W)) : 0 < (funcHistory symbols x.core seen).length := by
  rcases LogSample.inFunction_cases (h.found x hx) with ⟨i, sym, -, -, -, hin⟩ | ⟨hnone, -⟩
  · have hmem : _ ∈ samplesIn symbols x.core seen :=
      mem_filterMap.2 ⟨x, mem_filter.2 ⟨hx, decide_eq_true rfl⟩, hin⟩
    exact length_pos_iff.2 (mt (destutter_eq_nil _).1 (ne_nil_of_mem hmem))
  · rcases h.found x hx with ⟨i, sym, hfound, -⟩ | ⟨-, hno⟩
    · cases hfound.symm.trans hnone
    · obtain ⟨sym, hmem, hcontains⟩ := hsym
      exact absurd hcontains (hno sym hmem)

def stackSymbol : List (DbgSymbolType 32) := [⟨[], 0x2000, 0x2000⟩]

/-- Each of two cores has run through a function, and its last entry is printed. -/
theorem dbg_std_executor_func_trace_two_cores : ∃ s os,
    run (funcLogStep SortedSearch.mergeSorter) (.init (fun _ => ⟨0, 0, 0, 0, []⟩) 4 (.load twoFunctions) :
        FuncLogRun 2 32) [.sample 0 0x104 0x3000, .sample 1 0x204 0x2ff0] = some (s, os) ∧
      (∀ core, 0 < (funcHistory (SymbolTable.load twoFunctions).symbols core s.seen).length) ∧
      PrintsLast SortedSearch.mergeSorter 4 1 false (ofFn s.logs)
        (ofFn fun core => funcHistory (SymbolTable.load twoFunctions).symbols core s.seen) 0 1
        (.load stackSymbol) := by
  obtain ⟨hfunc, hfunctions⟩ := SymbolTable.ready_load twoFunctions (by decide)
  obtain ⟨hready, hsymbols⟩ := SymbolTable.ready_load stackSymbol (by decide)
  obtain ⟨s, os, hrun, hseen, hiff⟩ := dbg_std_executor_func_trace_iff (N := 2) (n := 4) (by decide) (by decide)
    hfunc (fun _ => ⟨0, 0, 0, 0, []⟩) [.sample 0 0x104 0x3000, .sample 1 0x204 0x2ff0]
  have hsamples := hseen.samples
  simp only [filterMap_cons, FuncLogEvent.sample?, filterMap_nil, map_eq_cons_iff, map_eq_nil_iff,
    Prod.mk.injEq] at hsamples
  obtain ⟨x, _, hs, ⟨hx, hxpc, hxsp⟩, y, _, rfl, ⟨hy, hypc, hysp⟩, rfl⟩ := hsamples
  have hmem : x ∈ s.seen ∧ y ∈ s.seen := by simp [hs]
  have hpos : ∀ core, 0 < (funcHistory (SymbolTable.load twoFunctions).symbols core s.seen).length := by
    refine Fin.forall_fin_two.2 ⟨?_, ?_⟩
    · exact hx ▸ hseen.funcHistory_pos hmem.1 (by rw [hfunctions, hxpc]; decide)
    · exact hy ▸ hseen.funcHistory_pos hmem.2 (by rw [hfunctions, hypc]; decide)
  refine ⟨s, os, hrun, hpos, (hiff _ 1 false hready).2 ⟨fun i j _ => ?_, fun i =>
    ⟨fun k _ => (Nat.mod_lt _ (by decide)).trans (by decide), fun z hz => ?_,
      fun _ => (min_le_left _ _).trans (by decide)⟩⟩⟩
  · have := hpos i
    omega
  · obtain ⟨w, hw, hsp⟩ := exists_sp_of_mem_funcHistory (mem_reverse.1 (mem_of_mem_take hz))
    rw [hsymbols, hsp]
    rw [hs, mem_cons, mem_singleton] at hw
    rcases hw with rfl | rfl
    · rw [hxsp]
      decide
    · rw [hysp]
      decide

/-- Two entries in the log of the second core, and none in that of the first one: nothing is printed. -/
theorem dbg_std_executor_func_trace_other_core : ∃ log : DbgFuncLogTraceType,
    ((cpuctrlInitFuncLogTrace (fun _ => ⟨0, 0, 0, 0, []⟩) 4).add (0x100 : AthrillAddrType 32)
        ⟨0x3000, 0, 4, 0x100, []⟩).bind
      (·.add (0x200 : AthrillAddrType 32) ⟨0x2ff0, 1, 4, 0x200, []⟩) = some log ∧ log.lognum = 2 ∧
    dbgStdExecutorFuncTrace SortedSearch.mergeSorter false
        [cpuctrlInitFuncLogTrace (fun _ => ⟨0, 0, 0, 0, []⟩) 4, log] 0 2 (.load stackSymbol) =
      some (.load stackSymbol, [[], []]) :=
  ⟨_, rfl, rfl, rfl⟩

end Athrill
