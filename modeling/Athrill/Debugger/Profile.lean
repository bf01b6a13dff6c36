import Athrill.Lib.Spans
import Athrill.Lib.Tally
import Athrill.Symbol.Lookup

/-!
# Profiles (`executor/cpu_control/dbg_cpu_control.c`)

After every clock the debugger collects where a core is. Main result: `cpuctrl_profile_collect_consistent`.
-/

namespace Athrill

open Machine Spans

variable {N W : Nat}

/-! ## The source -/

structure CpuProfileType where
  callNum : BitVec 64
  startTime : BitVec 64
  funcTime : BitVec 64
  totalTime : BitVec 64
  recursiveNum : BitVec 64
  spFuncEnter : BitVec 32
  deriving DecidableEq, Repr

structure CpuProfileCore where
  profile : List CpuProfileType
  prevFuncid : Nat
  currentFuncid : Nat

def CpuProfileCore.init (funcNum : Nat) : CpuProfileCore :=
  ⟨List.replicate funcNum ⟨0, 0, 0, 0, 0, 0⟩, 0, funcNum⟩

def CpuProfileType.enter (sp : BitVec 32) (totalClocks : BitVec 64) (p : CpuProfileType) : CpuProfileType :=
  let p := { p with callNum := p.callNum + 1 }
  if p.recursiveNum = 0 then
    { p with spFuncEnter := sp, startTime := totalClocks, recursiveNum := p.recursiveNum + 1 }
  else p

def CpuProfileType.exit (totalClocks : BitVec 64) (p : CpuProfileType) : CpuProfileType :=
  { p with
    totalTime := p.totalTime + (totalClocks - p.startTime)
    recursiveNum := p.recursiveNum - 1 }

def exitFirst (sp : BitVec 32) (totalClocks : BitVec 64) : List CpuProfileType → List CpuProfileType
  | [] => []
  | p :: rest =>
    if 0 < p.recursiveNum ∧ sp = p.spFuncEnter then p.exit totalClocks :: rest
    else p :: exitFirst sp totalClocks rest

def CpuProfileCore.collect (c : CpuProfileCore) (funcid : Nat) (funcpc pc sp : BitVec 32)
    (totalClocks : BitVec 64) : CpuProfileCore :=
  let c :=
    if pc = funcpc then { c with profile := c.profile.modify funcid (.enter sp totalClocks) }
    else if c.currentFuncid ≠ funcid then
      { c with prevFuncid := c.currentFuncid, profile := exitFirst sp totalClocks c.profile }
    else c
  { c with
    currentFuncid := funcid
    profile := c.profile.modify funcid fun p => { p with funcTime := p.funcTime + 1 } }

def cpuctrlProfileCollect (qsort : SortedSearch.Sorter) (func : SymbolTable W) (c : CpuProfileCore)
    (pc sp : BitVec 32) (totalClocks : BitVec 64) : Option (SymbolTable W × CpuProfileCore) :=
  match func.lookup qsort (pc.setWidth W) with
  | none => none
  | some (func, r) =>
    if r.ret < 0 then some (func, c)
    else
      match func.symbols[r.ret.toNat]? with
      | none => none
      | some symbol =>
        if r.ret.toNat < c.profile.length then
          some (func, c.collect r.ret.toNat (symbol.addr.setWidth 32) pc sp totalClocks)
        else none

/-! ## Runs -/

inductive ProfileEvent (N W : Nat)
  | collect (core : Fin N) (pc sp : BitVec 32) (totalClocks : BitVec 64)
  | pc2funcid (pc : AthrillAddrType W)

structure FuncSpans where
  entered : Option Nat
  counted : List (Nat × Nat)

def FuncSpans.observe (x : FuncSpans) (before after : BitVec 64) (clocks : Nat) : FuncSpans :=
  if before = 0 ∧ after = 1 then { x with entered := some clocks }
  else if before = 1 ∧ after = 0 then ⟨none, x.counted ++ [(x.entered.getD clocks, clocks)]⟩
  else x

def CpuProfileCore.recursiveNum (c : CpuProfileCore) (funcid : Nat) : BitVec 64 :=
  match c.profile[funcid]? with
  | some p => p.recursiveNum
  | none => 0

/-- The functions and the profile of each core, with the spans of each function. -/
structure ProfileRun (N W : Nat) where
  func : SymbolTable W
  cores : Fin N → CpuProfileCore
  spans : Fin N → Nat → FuncSpans

def ProfileRun.init (func : SymbolTable W) : ProfileRun N W :=
  ⟨func, fun _ => .init func.symbols.length, fun _ _ => ⟨none, []⟩⟩

def profileStep (qsort : SortedSearch.Sorter) (s : ProfileRun N W) :
    ProfileEvent N W → Option (ProfileRun N W × Unit)
  | .collect core pc sp totalClocks =>
    (cpuctrlProfileCollect qsort s.func (s.cores core) pc sp totalClocks).map fun (func, c) =>
      (⟨func, Function.update s.cores core c, Function.update s.spans core fun funcid =>
        (s.spans core funcid).observe ((s.cores core).recursiveNum funcid) (c.recursiveNum funcid)
          totalClocks.toNat⟩, ())
  | .pc2funcid pc => (s.func.lookup qsort pc).map fun r => ({ s with func := r.1 }, ())

/-! ## What the profiles count -/

def InSomeFunction (symbols : List (DbgSymbolType W)) (pc : BitVec 32) : Prop :=
  ∃ symbol ∈ symbols, symbol.Contains (pc.setWidth W)

instance (symbols : List (DbgSymbolType W)) (pc : BitVec 32) : Decidable (InSomeFunction symbols pc) :=
  inferInstanceAs (Decidable (∃ symbol ∈ symbols, _))

def ProfileEvent.clocks? : ProfileEvent N W → Option Nat
  | .collect _ _ _ totalClocks => some totalClocks.toNat
  | .pc2funcid _ => none

def ProfileEvent.collected? (symbols : List (DbgSymbolType W)) (core : Fin N) : ProfileEvent N W → Option Nat
  | .collect core' pc _ totalClocks =>
    if core' = core ∧ InSomeFunction symbols pc then some totalClocks.toNat else none
  | .pc2funcid _ => none

def collected (symbols : List (DbgSymbolType W)) (core : Fin N) (es : List (ProfileEvent N W)) : List Nat :=
  es.filterMap (ProfileEvent.collected? symbols core)

def elapsed (clocks : List Nat) : Nat := clocks.getLastD 0 - clocks.headD 0

structure FuncOk (clocks : List Nat) (p : CpuProfileType) (x : FuncSpans) : Prop where
  state : p.recursiveNum = 0 ∧ x.entered = none ∨
    p.recursiveNum = 1 ∧ x.entered = some p.startTime.toNat
  total : p.totalTime.toNat = (x.counted.map Spans.length).sum
  entered : ∀ t, x.entered = some t → t ∈ clocks
  inOrder : ∀ lo hi, lo ≤ hi → (∀ t ∈ clocks, lo ≤ t ∧ t ≤ hi) → InOrder lo x.counted (x.entered.getD hi)

/-- The counters sum up to `n`, modulo their width. -/
def CountOk (counters : List (BitVec 64)) (n : Nat) : Prop :=
  (counters.map BitVec.toNat).sum % 2 ^ 64 = n % 2 ^ 64 ∧
    (n < 2 ^ 64 → (counters.map BitVec.toNat).sum = n)

structure CoreOk (funcNum : Nat) (clocks : List Nat) (c : CpuProfileCore) (spans : Nat → FuncSpans) : Prop where
  length : c.profile.length = funcNum
  funcs : ∀ (f : Nat) p, c.profile[f]? = some p → FuncOk clocks p (spans f)
  count : CountOk (c.profile.map CpuProfileType.funcTime) clocks.length

structure ProfileOk (symbols : List (DbgSymbolType W)) (es : List (ProfileEvent N W))
    (s : ProfileRun N W) : Prop where
  ready : s.func.Ready
  loaded : s.func.symbols = symbols
  cores : ∀ core, CoreOk symbols.length (collected symbols core es) (s.cores core) (s.spans core)

/-! ## One function -/

/-- What one sample does to the time of a function: nothing, or it opens or closes a span. -/
inductive SpanMove (totalClocks : BitVec 64) (p p' : CpuProfileType) : Prop
  | same (hnum : p'.recursiveNum = p.recursiveNum) (hstart : p'.startTime = p.startTime)
      (htotal : p'.totalTime = p.totalTime)
  | opens (hzero : p.recursiveNum = 0) (hnum : p'.recursiveNum = 1) (hstart : p'.startTime = totalClocks)
      (htotal : p'.totalTime = p.totalTime)
  | closes (hpos : 0 < p.recursiveNum) (hnum : p'.recursiveNum = p.recursiveNum - 1)
      (htotal : p'.totalTime = p.totalTime + (totalClocks - p.startTime))

section
variable {clocks : List Nat} {totalClocks : BitVec 64} {sp : BitVec 32} {p p' : CpuProfileType} {x : FuncSpans}

theorem SpanMove.refl : SpanMove totalClocks p p := .same rfl rfl rfl

theorem spanMove_enter : SpanMove totalClocks p (p.enter sp totalClocks) := by
  unfold CpuProfileType.enter
  by_cases hzero : p.recursiveNum = 0
  · rw [if_pos hzero]
    refine .opens hzero ?_ rfl rfl
    dsimp only
    rw [hzero]
    rfl
  · rw [if_neg hzero]
    exact .same rfl rfl rfl

theorem funcTime_enter : (p.enter sp totalClocks).funcTime = p.funcTime := by
  unfold CpuProfileType.enter
  dsimp only
  split_ifs <;> rfl

theorem SpanMove.funcTime (h : SpanMove totalClocks p p') (n : BitVec 64) :
    SpanMove totalClocks p { p' with funcTime := n } := by
  cases h with
  | same hnum hstart htotal => exact .same hnum hstart htotal
  | opens hzero hnum hstart htotal => exact .opens hzero hnum hstart htotal
  | closes hpos hnum htotal => exact .closes hpos hnum htotal

theorem FuncSpans.observe_self (x : FuncSpans) (num : BitVec 64) (t : Nat) : x.observe num num t = x := by
  have hne : ¬ (num = 0 ∧ num = 1) ∧ ¬ (num = 1 ∧ num = 0) :=
    ⟨fun h => absurd (h.1.symm.trans h.2) (by decide), fun h => absurd (h.1.symm.trans h.2) (by decide)⟩
  rw [FuncSpans.observe, if_neg hne.1, if_neg hne.2]

theorem FuncOk.move (h : FuncOk clocks p x) (hsorted : ∀ t ∈ clocks, t ≤ totalClocks.toNat)
    (hmove : SpanMove totalClocks p p') :
    FuncOk (clocks ++ [totalClocks.toNat]) p'
      (x.observe p.recursiveNum p'.recursiveNum totalClocks.toNat) := by
  have hold : ∀ {lo hi : Nat}, (∀ t ∈ clocks ++ [totalClocks.toNat], lo ≤ t ∧ t ≤ hi) →
      (∀ t ∈ clocks, lo ≤ t ∧ t ≤ totalClocks.toNat) ∧ lo ≤ totalClocks.toNat ∧ totalClocks.toNat ≤ hi := by
    intro lo hi hall
    have hnew := hall totalClocks.toNat (List.mem_append_right _ (.head _))
    exact ⟨fun t ht => ⟨(hall t (List.mem_append_left _ ht)).1, hsorted t ht⟩, hnew.1, hnew.2⟩
  cases hmove with
  | same hnum hstart htotal =>
    rw [hnum, FuncSpans.observe_self]
    refine ⟨?_, htotal ▸ h.total, fun t ht => List.mem_append_left _ (h.entered t ht), ?_⟩
    · rw [hnum, hstart]
      exact h.state
    · exact fun lo hi hle hall => h.inOrder lo hi hle fun t ht => hall t (List.mem_append_left _ ht)
  | opens hzero hnum hstart htotal =>
    have hnone : x.entered = none := by
      rcases h.state with ⟨-, hnone⟩ | ⟨hone, -⟩
      · exact hnone
      · exact absurd (hzero.symm.trans hone) (by decide)
    rw [FuncSpans.observe, if_pos ⟨hzero, hnum⟩]
    refine ⟨.inr ⟨hnum, by rw [hstart]⟩, htotal ▸ h.total, fun t ht => ?_, fun lo hi hle hall => ?_⟩
    · cases ht
      exact List.mem_append_right _ (.head _)
    · -- nothing is open: the spans so far are in order up to this clock
      obtain ⟨hin, hlo, -⟩ := hold hall
      have hend := h.inOrder lo totalClocks.toNat hlo hin
      rw [hnone] at hend
      exact hend
  | closes hpos hnum htotal =>
    obtain ⟨hone, hentered⟩ : p.recursiveNum = 1 ∧ x.entered = some p.startTime.toNat := by
      rcases h.state with ⟨hzero, -⟩ | hone
      · rw [hzero] at hpos
        exact absurd hpos (by decide)
      · exact hone
    have hafter : p'.recursiveNum = 0 := by
      rw [hnum, hone]
      rfl
    have hbefore : p.startTime.toNat ≤ totalClocks.toNat := hsorted _ (h.entered _ hentered)
    have hspan : (x.counted.map Spans.length).sum ≤ p.startTime.toNat := by
      have hin := (h.inOrder 0 totalClocks.toNat (Nat.zero_le _) fun t ht => ⟨Nat.zero_le _, hsorted t ht⟩)
      rw [hentered] at hin
      exact hin.sum_length_le
    rw [FuncSpans.observe, if_neg (fun hc => absurd (hone.symm.trans hc.1) (by decide)), if_pos ⟨hone, hafter⟩,
      hentered]
    refine ⟨.inl ⟨hafter, rfl⟩, ?_, fun t ht => (by cases ht), fun lo hi hle hall => ?_⟩
    · -- the new sum is below the clock, so that nothing overflows
      have hlt := totalClocks.isLt
      rw [htotal, BitVec.toNat_add, BitVec.toNat_sub, List.map_append, List.sum_append, List.map_singleton,
        List.sum_singleton, Spans.length, Option.getD_some, h.total]
      omega
    · obtain ⟨hin, hlo, hhi⟩ := hold hall
      have hend := h.inOrder lo totalClocks.toNat hlo hin
      rw [hentered] at hend
      exact (hend.concat hbefore).mono hhi

theorem headD_le_getLastD (hsorted : clocks.Pairwise (· ≤ ·)) :
    ∀ t ∈ clocks, clocks.headD 0 ≤ t ∧ t ≤ clocks.getLastD 0 := by
  intro t ht
  constructor
  · cases clocks with
    | nil => cases ht
    | cons c rest =>
      rcases List.mem_cons.1 ht with rfl | ht
      · exact le_refl t
      · exact List.rel_of_pairwise_cons hsorted ht
  · rcases List.eq_nil_or_concat clocks with rfl | ⟨rest, c, rfl⟩
    · cases ht
    · rw [List.concat_eq_append] at ht hsorted ⊢
      rw [List.getLastD_concat]
      rcases List.mem_append.1 ht with ht | ht
      · exact (List.pairwise_append.1 hsorted).2.2 t ht c (.head _)
      · exact le_of_eq (List.mem_singleton.1 ht)

theorem elapsed_bounds (hsorted : clocks.Pairwise (· ≤ ·)) : clocks.headD 0 ≤ clocks.getLastD 0 := by
  cases clocks with
  | nil => exact le_refl 0
  | cons c rest => exact (headD_le_getLastD hsorted c (.head _)).2

theorem FuncOk.totalTime_le (h : FuncOk clocks p x) (hsorted : clocks.Pairwise (· ≤ ·)) :
    p.totalTime.toNat ≤ elapsed clocks := by
  have hbounds := headD_le_getLastD hsorted
  have hend : x.entered.getD (clocks.getLastD 0) ≤ clocks.getLastD 0 := by
    cases hx : x.entered with
    | none => exact le_refl _
    | some t => exact (hbounds t (h.entered t hx)).2
  have hsum := (h.inOrder _ _ (elapsed_bounds hsorted) hbounds).sum_length_le
  rw [h.total, elapsed]
  omega

end

/-! ## One core -/

section
variable {clocks : List Nat} {totalClocks : BitVec 64} {sp : BitVec 32} {funcid : Nat} {l : List CpuProfileType}

def SpansMove (totalClocks : BitVec 64) : List CpuProfileType → List CpuProfileType → Prop :=
  List.Forall₂ fun p p' => SpanMove totalClocks p p' ∧ p'.funcTime = p.funcTime

theorem SpansMove.refl (l : List CpuProfileType) : SpansMove totalClocks l l :=
  List.forall₂_same.2 fun _ _ => ⟨.refl, rfl⟩

theorem spansMove_enter (l : List CpuProfileType) (funcid : Nat) :
    SpansMove totalClocks l (l.modify funcid (.enter sp totalClocks)) := by
  induction l generalizing funcid with
  | nil =>
    rw [List.modify_nil]
    exact .refl []
  | cons p l ih =>
    cases funcid with
    | zero => exact .cons ⟨spanMove_enter, funcTime_enter⟩ (SpansMove.refl l)
    | succ funcid => exact .cons ⟨.refl, rfl⟩ (ih funcid)

theorem spansMove_exitFirst (l : List CpuProfileType) :
    SpansMove totalClocks l (exitFirst sp totalClocks l) := by
  induction l with
  | nil => exact .refl []
  | cons p l ih =>
    unfold exitFirst
    split_ifs with hexit
    · exact .cons ⟨.closes hexit.1 rfl rfl, rfl⟩ (SpansMove.refl l)
    · exact .cons ⟨.refl, rfl⟩ ih

structure Collects (totalClocks : BitVec 64) (funcid : Nat) (l l' : List CpuProfileType) : Prop where
  moves : List.Forall₂ (SpanMove totalClocks) l l'
  count : l'.map CpuProfileType.funcTime = (l.map CpuProfileType.funcTime).modify funcid (· + 1)

theorem SpansMove.collects {l l' : List CpuProfileType} (h : SpansMove totalClocks l l') (funcid : Nat) :
    Collects totalClocks funcid l (l'.modify funcid fun p => { p with funcTime := p.funcTime + 1 }) := by
  induction h generalizing funcid with
  | nil =>
    rw [List.modify_nil]
    exact ⟨.nil, by rw [List.map_nil, List.modify_nil]⟩
  | @cons p p' l l' hp hl ih =>
    cases funcid with
    | zero =>
      refine ⟨.cons (hp.1.funcTime _) (hl.imp fun _ _ h => h.1), ?_⟩
      have hsame : l'.map CpuProfileType.funcTime = l.map CpuProfileType.funcTime := by
        have hrest := hl.imp fun _ _ h => h.2
        clear ih hl
        induction hrest with
        | nil => rfl
        | cons hq _ ih => rw [List.map_cons, List.map_cons, hq, ih]
      simp [hsame, hp.2]
    | succ funcid =>
      obtain ⟨hmoves, hcount⟩ := ih funcid
      refine ⟨.cons hp.1 hmoves, ?_⟩
      rw [List.modify_succ_cons, List.map_cons, List.map_cons, List.modify_succ_cons, hcount, hp.2]

theorem CpuProfileCore.collects (c : CpuProfileCore) (funcid : Nat) (funcpc pc sp : BitVec 32)
    (totalClocks : BitVec 64) :
    Collects totalClocks funcid c.profile (c.collect funcid funcpc pc sp totalClocks).profile := by
  unfold CpuProfileCore.collect
  dsimp only
  split_ifs
  · exact (spansMove_enter _ _).collects funcid
  · exact (spansMove_exitFirst _).collects funcid
  · exact (SpansMove.refl _).collects funcid

theorem CountOk.modify {counters : List (BitVec 64)} {n i : Nat} (h : CountOk counters n)
    (hi : i < counters.length) : CountOk (counters.modify i (· + 1)) (n + 1) := by
  have hget : counters[i]? = some counters[i] := List.getElem?_eq_getElem hi
  have hset : counters.modify i (· + 1) = counters.set i (counters[i] + 1) := by
    rw [List.modify_eq_set_getElem?, hget]
    rfl
  have hsum : ((counters.set i (counters[i] + 1)).map BitVec.toNat).sum + counters[i].toNat =
    (counters.map BitVec.toNat).sum + (counters[i] + 1).toNat := Tally.sum_map_set hget
  have hle : counters[i].toNat ≤ (counters.map BitVec.toNat).sum := Tally.count_le_sum hget
  have hone : (counters[i] + 1).toNat = (counters[i].toNat + 1) % 2 ^ 64 := BitVec.toNat_add ..
  obtain ⟨hmod, hexact⟩ := h
  rw [CountOk, hset]
  constructor
  · omega
  · intro hlt
    have := hexact (by omega)
    omega

theorem CpuProfileCore.recursiveNum_eq {c : CpuProfileCore} {f : Nat} {p : CpuProfileType}
    (h : c.profile[f]? = some p) : c.recursiveNum f = p.recursiveNum := by
  rw [CpuProfileCore.recursiveNum, h]

theorem CoreOk.collect {n : Nat} {c c' : CpuProfileCore} {spans : Nat → FuncSpans}
    (h : CoreOk n clocks c spans) (hsorted : ∀ t ∈ clocks, t ≤ totalClocks.toNat) (hlt : funcid < n)
    (hc : Collects totalClocks funcid c.profile c'.profile) :
    CoreOk n (clocks ++ [totalClocks.toNat]) c' fun f =>
      (spans f).observe (c.recursiveNum f) (c'.recursiveNum f) totalClocks.toNat := by
  have hlen := hc.moves.length_eq
  refine ⟨hlen ▸ h.length, fun f p' hp' => ?_, ?_⟩
  · obtain ⟨hf', rfl⟩ := List.getElem?_eq_some_iff.1 hp'
    have hf : f < c.profile.length := hlen ▸ hf'
    have hp : c.profile[f]? = some c.profile[f] := List.getElem?_eq_getElem hf
    rw [CpuProfileCore.recursiveNum_eq hp, CpuProfileCore.recursiveNum_eq hp']
    exact (h.funcs f _ hp).move hsorted (hc.moves.get hf hf')
  · rw [hc.count, List.length_append, List.length_singleton]
    exact h.count.modify (by rw [List.length_map, h.length]; exact hlt)

theorem coreOk_init (n : Nat) : CoreOk n [] (.init n) fun _ => ⟨none, []⟩ where
  length := List.length_replicate
  funcs := by
    intro f p hp
    obtain rfl := List.eq_of_mem_replicate (List.mem_of_getElem? hp)
    exact ⟨.inl ⟨rfl, rfl⟩, rfl, fun t ht => (by cases ht), fun lo hi hle _ => hle⟩
  count := by simp [CountOk, CpuProfileCore.init]

end

/-! ## All calls -/

section
variable {qsort : SortedSearch.Sorter} {symbols : List (DbgSymbolType W)} {func : SymbolTable W}

theorem cpuctrlProfileCollect_spec (qsort : SortedSearch.Sorter) {c : CpuProfileCore} (hready : func.Ready)
    (hlen : c.profile.length = func.symbols.length) (pc sp : BitVec 32) (totalClocks : BitVec 64) :
    ∃ func' c', cpuctrlProfileCollect qsort func c pc sp totalClocks = some (func', c') ∧ func'.Ready ∧
      func'.symbols = func.symbols ∧
        (¬ InSomeFunction func.symbols pc ∧ c' = c ∨
          InSomeFunction func.symbols pc ∧ ∃ funcid < func.symbols.length,
            Collects totalClocks funcid c.profile c'.profile) := by
  obtain ⟨func', r, hlookup, hready', hsame, hfinds⟩ := hready.lookup qsort (pc.setWidth W)
  simp only [cpuctrlProfileCollect, hlookup, hsame]
  rcases hfinds with ⟨i, symbol, rfl, hi, hcontains⟩ | ⟨rfl, hno⟩
  · have hlt := (List.getElem?_eq_some_iff.1 hi).1
    simp only [Int.ofNat_eq_natCast, Int.toNat_natCast, if_neg (not_lt.2 (Int.natCast_nonneg i)), hi, hlen,
      if_pos hlt]
    exact ⟨_, _, rfl, hready', hsame, .inr ⟨⟨symbol, List.mem_of_getElem? hi, hcontains⟩, i, hlt,
      c.collects i _ pc sp totalClocks⟩⟩
  · refine ⟨func', c, by simp, hready', hsame, .inl ⟨?_, rfl⟩⟩
    rintro ⟨symbol, hmem, hcontains⟩
    exact hno symbol hmem hcontains

theorem collected_concat (core : Fin N) (es : List (ProfileEvent N W)) (e : ProfileEvent N W) :
    collected symbols core (es ++ [e]) = collected symbols core es ++ (e.collected? symbols core).toList := by
  rw [collected, collected, List.filterMap_append]
  cases h : e.collected? symbols core <;> simp [h]

theorem collected_sublist (core : Fin N) (es : List (ProfileEvent N W)) :
    (collected symbols core es).Sublist (es.filterMap ProfileEvent.clocks?) := by
  induction es with
  | nil => exact .slnil
  | cons e es ih =>
    cases e with
    | collect core' pc sp totalClocks =>
      simp only [collected, List.filterMap_cons, ProfileEvent.collected?, ProfileEvent.clocks?]
      split_ifs
      · exact ih.cons_cons _
      · exact ih.cons _
    | pc2funcid pc => exact ih

theorem ProfileOk.step {es : List (ProfileEvent N W)} {s : ProfileRun N W} (h : ProfileOk symbols es s)
    (e : ProfileEvent N W) (hclocks : ((es ++ [e]).filterMap ProfileEvent.clocks?).Pairwise (· ≤ ·)) :
    ∃ s' o, profileStep qsort s e = some (s', o) ∧ ProfileOk symbols (es ++ [e]) s' := by
  obtain ⟨hready, rfl, hcores⟩ := h
  cases e with
  | collect core pc sp totalClocks =>
    obtain ⟨func', c', hcollect, hready', hsame, hc'⟩ :=
      cpuctrlProfileCollect_spec qsort hready (hcores core).length pc sp totalClocks
    have hsorted : ∀ t ∈ collected s.func.symbols core es, t ≤ totalClocks.toNat := by
      intro t ht
      rw [List.filterMap_append] at hclocks
      exact (List.pairwise_append.1 hclocks).2.2 t ((collected_sublist core es).subset ht) _ (.head _)
    refine ⟨_, (), by rw [profileStep, hcollect]; rfl, hready', hsame, fun core' => ?_⟩
    rw [collected_concat]
    by_cases hcore : core' = core
    · subst hcore
      dsimp only
      rw [Function.update_self, Function.update_self]
      rcases hc' with ⟨hout, rfl⟩ | ⟨hin, funcid, hlt, hc'⟩
      · have hcollected : (ProfileEvent.collect core' pc sp totalClocks).collected? s.func.symbols core' = none :=
          if_neg fun hin => hout hin.2
        simp only [hcollected, FuncSpans.observe_self]
        exact (List.append_nil _).symm ▸ hcores core'
      · have hcollected : (ProfileEvent.collect core' pc sp totalClocks).collected? s.func.symbols core' =
            some totalClocks.toNat := if_pos ⟨rfl, hin⟩
        rw [hcollected]
        exact (hcores core').collect hsorted hlt hc'
    · -- the other cores' profiles are as before
      have hother : (ProfileEvent.collect core pc sp totalClocks).collected? s.func.symbols core' = none :=
        if_neg fun hc => hcore hc.1.symm
      dsimp only
      rw [hother, Function.update_of_ne hcore, Function.update_of_ne hcore]
      exact (List.append_nil _).symm ▸ hcores core'
  | pc2funcid pc =>
    obtain ⟨func', r, hlookup, hready', hsame, -⟩ := hready.lookup qsort pc
    refine ⟨{ s with func := func' }, (), by rw [profileStep, hlookup]; rfl, hready', hsame, fun core => ?_⟩
    rw [collected_concat]
    exact (List.append_nil _).symm ▸ hcores core

theorem profileOk_init (h : func.Ready) : ProfileOk func.symbols [] (.init func : ProfileRun N W) :=
  ⟨h, rfl, fun _ => coreOk_init _⟩

/-- **Profiles are consistent.** Over every sequence of collections whose clock does not decrease, with other
lookups of functions between them, every call returns. Afterwards `recursive_num` of every function is 0 or 1;
its total time is that of its counted spans, which do not overlap, and does not exceed the clocks from the
first collection of the core to the last; and the times of all functions together are the number of the calls
whose `pc` lay in some function, which is exact as long as that fits in 64 bits. -/
theorem cpuctrl_profile_collect_consistent (hfunc : func.Ready) (es : List (ProfileEvent N W))
    (hclocks : (es.filterMap ProfileEvent.clocks?).Pairwise (· ≤ ·)) :
    ∃ s os, run (profileStep qsort) (.init func : ProfileRun N W) es = some (s, os) ∧ ∀ core,
      (s.cores core).profile.length = func.symbols.length ∧
      (∀ (funcid : Nat) p, (s.cores core).profile[funcid]? = some p →
        (p.recursiveNum = 0 ∨ p.recursiveNum = 1) ∧
        p.totalTime.toNat = ((s.spans core funcid).counted.map Spans.length).sum ∧
        ((s.spans core funcid).counted.Pairwise fun x y => x.2 ≤ y.1) ∧
        p.totalTime.toNat ≤ elapsed (collected func.symbols core es)) ∧
      CountOk ((s.cores core).profile.map CpuProfileType.funcTime) (collected func.symbols core es).length := by
  have hinit : ProfileOk func.symbols [] (.init func : ProfileRun N W) := profileOk_init hfunc
  have hstep : ∀ pre e (s : ProfileRun N W), pre ++ [e] <+: es → ProfileOk func.symbols pre s →
      ∃ s' o, profileStep qsort s e = some (s', o) ∧ ProfileOk func.symbols (pre ++ [e]) s' :=
    fun pre e s hpre h => h.step e (hclocks.sublist (hpre.sublist.filterMap _))
  obtain ⟨s, os, hrun, hok⟩ := exists_run_of_prefixes (ProfileOk func.symbols) hstep hinit
  refine ⟨s, os, hrun, fun core => ⟨(hok.cores core).length, fun funcid p hp => ?_, (hok.cores core).count⟩⟩
  have hf := (hok.cores core).funcs funcid p hp
  have hsorted : (collected func.symbols core es).Pairwise (· ≤ ·) :=
    hclocks.sublist (collected_sublist core es)
  refine ⟨hf.state.imp And.left And.left, hf.total, ?_, hf.totalTime_le hsorted⟩
  exact (hf.inOrder _ _ (elapsed_bounds hsorted) (headD_le_getLastD hsorted)).pairwise

end

def nestedCalls : List (ProfileEvent 1 32) :=
  [.collect (.last 0) 0x100 0x8000 1, .collect (.last 0) 0x104 0x7ff0 2, .collect (.last 0) 0x200 0x7ff0 3,
    .collect (.last 0) 0x204 0x7fe0 4, .collect (.last 0) 0x108 0x7ff0 5, .collect (.last 0) 0x100 0x7fe0 6,
    .collect (.last 0) 0x10c 0x7ff0 7, .collect (.last 0) 0x300 0x8000 8]

theorem cpuctrl_profile_collect_consistent_nested : ∃ s os,
    run (profileStep SortedSearch.mergeSorter)
        (.init (.load [⟨[], 0x100, 0x10⟩, ⟨[], 0x200, 0x10⟩, ⟨[], 0x300, 0x10⟩])) nestedCalls = some (s, os) ∧
      ((s.cores 0).profile.map fun p => p.funcTime.toNat).sum = 8 ∧
        ∀ (funcid : Nat) p, (s.cores 0).profile[funcid]? = some p →
          (p.recursiveNum = 0 ∨ p.recursiveNum = 1) ∧ p.totalTime.toNat ≤ 7 := by
  obtain ⟨hready, hsymbols⟩ := SymbolTable.ready_load
    ([⟨[], 0x100, 0x10⟩, ⟨[], 0x200, 0x10⟩, ⟨[], 0x300, 0x10⟩] : List (DbgSymbolType 32)) (by decide)
  have hclocks : (nestedCalls.filterMap ProfileEvent.clocks?).Pairwise (· ≤ ·) := by decide
  obtain ⟨s, os, hrun, hcores⟩ :=
    @cpuctrl_profile_collect_consistent _ _ SortedSearch.mergeSorter _ hready nestedCalls hclocks
  obtain ⟨-, hfuncs, hcount⟩ := hcores 0
  have hcollected : collected [⟨[], 0x100, 0x10⟩, ⟨[], 0x200, 0x10⟩, ⟨[], 0x300, 0x10⟩] 0 nestedCalls =
      [1, 2, 3, 4, 5, 6, 7, 8] := by decide
  rw [hsymbols, hcollected] at hcount hfuncs
  refine ⟨s, os, hrun, ?_, fun funcid p hp => ⟨(hfuncs funcid p hp).1, (hfuncs funcid p hp).2.2.2⟩⟩
  have hexact := hcount.2 (by decide)
  rwa [List.map_map] at hexact

end Athrill
