import Athrill.Lib.Trail
import Athrill.Symbol.Lookup

/-!
# Function frames (`executor/cpu_control/dbg_cpu_control.c`)

The debugger records the stack pointers of every stack of the guest, one array for each global symbol that a
stack pointer lies in. Main result: `cpuctrl_set_stack_pointer_ok_iff`.
-/

namespace Athrill

open Machine Trail

variable {W : Nat}

/-! ## The source -/

abbrev dbgStackLogSize : Nat := 1024

abbrev dbgStackNum : Nat := 1024

structure DbgFuncFrameType where
  current : Nat
  lognum : Nat
  sp : Vector (BitVec 32) dbgStackLogSize

abbrev DbgFuncFrames := Fin dbgStackNum → DbgFuncFrameType

def DbgFuncFrames.init : DbgFuncFrames := fun _ => ⟨0, 0, Vector.replicate dbgStackLogSize 0⟩

def DbgFuncFrameType.search (f : DbgFuncFrameType) (sp : BitVec 32) :
    List Nat → Except CFault (Option Nat)
  | [] => .ok none
  | prev :: rest =>
    match f.sp[prev]? with
    | none => .error .outside
    | some v => if v = sp then .ok (some prev) else f.search sp rest

def DbgFuncFrameType.append (f : DbgFuncFrameType) (next : Nat) (sp : BitVec 32) :
    Except CFault DbgFuncFrameType :=
  if h : next < dbgStackLogSize then .ok ⟨next, f.lognum + 1, f.sp.set next sp h⟩ else .error .outside

def DbgFuncFrameType.setStackPointer (f : DbgFuncFrameType) (sp : BitVec 32) :
    Except CFault DbgFuncFrameType :=
  if 0 < f.lognum then
    match f.sp[f.current]? with
    | none => .error .outside
    | some v =>
      if v = sp then .ok f
      else
        match f.search sp (List.range f.lognum) with
        | .error e => .error e
        | .ok (some prev) => .ok { f with lognum := prev + 1, current := prev }
        | .ok none =>
          if f.current + 1 ≤ dbgStackLogSize then f.append (f.current + 1) sp else .error .asserted
  else f.append 0 sp

def setFrame (frames : DbgFuncFrames) (glid : Int) (sp : BitVec 32) : Except CFault DbgFuncFrames :=
  if glid < 0 then .ok frames
  else if h : glid.toNat < dbgStackNum then
    match (frames ⟨glid.toNat, h⟩).setStackPointer sp with
    | .error e => .error e
    | .ok f => .ok (Function.update frames ⟨glid.toNat, h⟩ f)
  else .error .outside

def cpuctrlSetStackPointer (qsort : SortedSearch.Sorter) (gl : SymbolTable W) (frames : DbgFuncFrames)
    (sp : BitVec 32) : Except CFault (SymbolTable W × DbgFuncFrames × Int) :=
  match gl.lookup qsort (sp.setWidth W) with
  | none => .error .outside
  | some (gl, r) =>
    match setFrame frames r.ret sp with
    | .error e => .error e
    | .ok frames => .ok (gl, frames, r.ret)

/-! ## Runs -/

inductive FrameEvent (W : Nat)
  | setStackPointer (sp : BitVec 32)
  | addr2glid (addr : AthrillAddrType W)

/-- The global symbols and the frames, with the stack pointers seen so far. -/
structure FrameRun (W : Nat) where
  gl : SymbolTable W
  frames : DbgFuncFrames
  seen : List (Int × BitVec 32)

def FrameRun.init (gl : SymbolTable W) : FrameRun W := ⟨gl, .init, []⟩

def frameStep (qsort : SortedSearch.Sorter) (s : FrameRun W) : FrameEvent W → Option (FrameRun W × Unit)
  | .setStackPointer sp =>
    match cpuctrlSetStackPointer qsort s.gl s.frames sp with
    | .error _ => none
    | .ok (gl, frames, glid) => some (⟨gl, frames, s.seen ++ [(glid, sp)]⟩, ())
  | .addr2glid addr => (s.gl.lookup qsort addr).map fun r => ({ s with gl := r.1 }, ())

def seenFor (seen : List (Int × BitVec 32)) (glid : Nat) : List (BitVec 32) :=
  (seen.filter fun x => x.1 = Int.ofNat glid).map Prod.snd

def DbgFuncFrameType.values (f : DbgFuncFrameType) : List (BitVec 32) := f.sp.toList.take f.lognum

structure FrameOk (f : DbgFuncFrameType) (vs : List (BitVec 32)) : Prop where
  lognum_le : f.lognum ≤ dbgStackLogSize
  current : 0 < f.lognum → f.current = f.lognum - 1
  distinct : f.values.Nodup
  last : f.values.getLast? = vs.getLast?
  trail : f.values = trail vs

structure FramesOk (s : FrameRun W) : Prop where
  ready : s.gl.Ready
  frames (g : Fin dbgStackNum) : FrameOk (s.frames g) (seenFor s.seen g)

def FrameFits (qsort : SortedSearch.Sorter) (s : FrameRun W) : FrameEvent W → Prop
  | .setStackPointer sp => ∀ gl r, s.gl.lookup qsort (sp.setWidth W) = some (gl, r) →
    r.ret < 0 ∨ ∃ g : Fin dbgStackNum, r.ret = g.val ∧
      (sp ∈ (s.frames g).values ∨ (s.frames g).lognum < dbgStackLogSize)
  | .addr2glid _ => True

/-! ## The record of one stack -/

section
variable {f : DbgFuncFrameType} {vs : List (BitVec 32)} {sp : BitVec 32} {i : Nat}

theorem FrameOk.of_trail (hle : f.lognum ≤ dbgStackLogSize) (hcur : 0 < f.lognum → f.current = f.lognum - 1)
    (htrail : f.values = Trail.trail vs) : FrameOk f vs where
  lognum_le := hle
  current := hcur
  distinct := htrail ▸ nodup_trail vs
  last := htrail ▸ getLast?_trail vs
  trail := htrail

theorem length_values (hle : f.lognum ≤ dbgStackLogSize) : f.values.length = f.lognum := by
  simpa [DbgFuncFrameType.values] using hle

theorem getElem?_values (hi : i < f.lognum) : f.values[i]? = f.sp[i]? := by
  rw [DbgFuncFrameType.values, List.getElem?_take_of_lt hi, Vector.getElem?_toList]

theorem search_eq {is : List Nat} (his : ∀ i ∈ is, i < dbgStackLogSize) :
    f.search sp is = .ok (is.find? fun i => f.sp[i]? == some sp) := by
  induction is with
  | nil => rfl
  | cons i is ih =>
    have hread : f.sp[i]? = some (f.sp.get ⟨i, his i (.head _)⟩) :=
      Vector.getElem?_eq_getElem (his i (.head _))
    have hrest := ih fun j hj => his j (.tail _ hj)
    by_cases hv : f.sp.get ⟨i, his i (.head _)⟩ = sp
    · simp [DbgFuncFrameType.search, hread, hv]
    · simp [DbgFuncFrameType.search, hread, hv, hrest]

section
variable (h : FrameOk f vs)
include h

theorem FrameOk.append (hnew : sp ∉ f.values) (hroom : f.lognum < dbgStackLogSize) :
    ∃ f', f.append f.lognum sp = .ok f' ∧ FrameOk f' (vs ++ [sp]) := by
  refine ⟨_, dif_pos hroom, .of_trail hroom (fun _ => rfl) ?_⟩
  have hset : (f.sp.toList.set f.lognum sp).take (f.lognum + 1) = f.sp.toList.take f.lognum ++ [sp] := by
    rw [List.take_add_one, List.take_set_of_le (Nat.le_refl _), List.getElem?_set_self (by simpa using hroom)]
    rfl
  rw [trail_concat, ← h.trail, visit_of_not_mem hnew]
  simpa [DbgFuncFrameType.values, Vector.toList_set] using hset

theorem FrameOk.cut (hi : i < f.lognum) (hread : f.sp[i]? = some sp) (hfirst : ∀ j < i, f.sp[j]? ≠ some sp) :
    FrameOk { f with lognum := i + 1, current := i } (vs ++ [sp]) := by
  refine .of_trail (Nat.le_trans hi h.lognum_le) (fun _ => rfl) ?_
  have hvisit : visit f.values sp = f.values.take (i + 1) :=
    visit_of_getElem? ((getElem?_values hi).trans hread) fun j hj => by
      rw [getElem?_values (hj.trans hi)]
      exact hfirst j hj
  rw [trail_concat, ← h.trail, hvisit, DbgFuncFrameType.values, DbgFuncFrameType.values, List.take_take,
    Nat.min_eq_left hi]

theorem FrameOk.same (hpos : 0 < f.lognum) (hread : f.sp[f.current]? = some sp) :
    FrameOk f (vs ++ [sp]) := by
  have hcur := h.current hpos
  have hlt : f.current < f.lognum := by omega
  have hlast : f.values[f.current]? = some sp := (getElem?_values hlt).trans hread
  have hvisit : visit f.values sp = f.values.take (f.current + 1) := by
    refine visit_of_getElem? hlast fun j hj heq => ?_
    -- the values are distinct, so no earlier place holds the last one
    have := (List.getElem?_inj (by rw [length_values h.lognum_le]; omega) h.distinct).1 (heq.trans hlast.symm)
    omega
  refine .of_trail h.lognum_le h.current ?_
  rw [trail_concat, ← h.trail, hvisit, List.take_of_length_le (by rw [length_values h.lognum_le]; omega)]

theorem FrameOk.search (sp : BitVec 32) :
    (∃ i < f.lognum, f.search sp (List.range f.lognum) = .ok (some i) ∧ f.sp[i]? = some sp ∧
        ∀ j < i, f.sp[j]? ≠ some sp) ∨
      f.search sp (List.range f.lognum) = .ok none ∧ sp ∉ f.values := by
  rw [search_eq fun i hi => (List.mem_range.1 hi).trans_le h.lognum_le]
  cases hfind : (List.range f.lognum).find? fun i => f.sp[i]? == some sp with
  | some i =>
    obtain ⟨hread, hi, hfirst⟩ := List.find?_range_eq_some.1 hfind
    exact .inl ⟨i, List.mem_range.1 hi, rfl, by simpa using hread, fun j hj => by simpa using hfirst j hj⟩
  | none =>
    refine .inr ⟨rfl, fun hmem => ?_⟩
    obtain ⟨i, hi⟩ := List.getElem?_of_mem hmem
    have hlt : i < f.lognum := by
      rw [← length_values h.lognum_le]
      exact (List.getElem?_eq_some_iff.1 hi).1
    have hno := List.find?_range_eq_none.1 hfind i hlt
    simp [← getElem?_values hlt, hi] at hno

theorem FrameOk.setStackPointer_cases (sp : BitVec 32) :
    (f.setStackPointer sp = .ok f ∧ sp ∈ f.values ∧ FrameOk f (vs ++ [sp])) ∨
      (∃ i, f.setStackPointer sp = .ok { f with lognum := i + 1, current := i } ∧ sp ∈ f.values ∧
        FrameOk { f with lognum := i + 1, current := i } (vs ++ [sp])) ∨
      f.setStackPointer sp = f.append f.lognum sp ∧ sp ∉ f.values := by
  by_cases hpos : 0 < f.lognum
  · have hcur := h.current hpos
    have hle := h.lognum_le
    have hlt : f.current < f.lognum := by omega
    obtain ⟨v, hv⟩ : ∃ v, f.sp[f.current]? = some v := ⟨_, Vector.getElem?_eq_getElem (by omega)⟩
    by_cases hsame : v = sp
    · subst hsame
      refine .inl ⟨by simp [DbgFuncFrameType.setStackPointer, hpos, hv], ?_, h.same hpos hv⟩
      exact List.mem_of_getElem? ((getElem?_values hlt).trans hv)
    rcases h.search sp with ⟨i, hi, hsearch, hread, hfirst⟩ | ⟨hsearch, hnew⟩
    · refine .inr (.inl ⟨i, by simp [DbgFuncFrameType.setStackPointer, hpos, hv, hsame, hsearch], ?_, ?_⟩)
      · exact List.mem_of_getElem? ((getElem?_values hi).trans hread)
      · exact h.cut hi hread hfirst
    · -- the assertion holds, and lets the place after the last one of the array pass
      have hassert : f.current + 1 ≤ dbgStackLogSize := by omega
      refine .inr (.inr ⟨?_, hnew⟩)
      simp only [DbgFuncFrameType.setStackPointer, if_pos hpos, hv, if_neg hsame, hsearch, if_pos hassert]
      rw [show f.current + 1 = f.lognum by omega]
  · have hzero : f.lognum = 0 := by omega
    refine .inr (.inr ⟨?_, by simp [DbgFuncFrameType.values, hzero]⟩)
    rw [DbgFuncFrameType.setStackPointer, if_neg hpos, hzero]

theorem FrameOk.setStackPointer (hroom : sp ∈ f.values ∨ f.lognum < dbgStackLogSize) :
    ∃ f', f.setStackPointer sp = .ok f' ∧ FrameOk f' (vs ++ [sp]) := by
  rcases h.setStackPointer_cases sp with ⟨heq, -, hok⟩ | ⟨i, heq, -, hok⟩ | ⟨heq, hnew⟩
  · exact ⟨f, heq, hok⟩
  · exact ⟨_, heq, hok⟩
  · rw [heq]
    exact h.append hnew (hroom.resolve_left hnew)

theorem FrameOk.setStackPointer_outside (hfull : ¬ (sp ∈ f.values ∨ f.lognum < dbgStackLogSize)) :
    f.setStackPointer sp = .error .outside := by
  obtain ⟨hnew, hno⟩ := not_or.1 hfull
  rcases h.setStackPointer_cases sp with ⟨-, hmem, -⟩ | ⟨i, -, hmem, -⟩ | ⟨heq, -⟩
  · exact absurd hmem hnew
  · exact absurd hmem hnew
  · rw [heq]
    exact dif_neg hno

end

end

/-! ## Whole runs -/

section
variable {qsort : SortedSearch.Sorter} {s : FrameRun W} {gl : SymbolTable W} {sp : BitVec 32}
  {seen : List (Int × BitVec 32)} {r : SymbolResult W}

theorem seenFor_concat_self (g : Nat) : seenFor (seen ++ [(Int.ofNat g, sp)]) g = seenFor seen g ++ [sp] := by
  simp [seenFor]

theorem seenFor_concat_of_ne {glid : Int} {g : Nat} (hne : glid ≠ Int.ofNat g) :
    seenFor (seen ++ [(glid, sp)]) g = seenFor seen g := by
  simpa [seenFor] using hne

theorem seenFor_map (g : Nat) (vs : List (BitVec 32)) :
    seenFor (vs.map fun v => (Int.ofNat g, v)) g = vs := by
  rw [seenFor, List.filter_eq_self.2 (by simp), List.map_map]
  exact List.map_id vs

theorem FramesOk.init (h : gl.Ready) : FramesOk (.init gl) where
  ready := h
  frames _ := .of_trail (Nat.zero_le _) (fun hpos => absurd hpos (Nat.lt_irrefl 0)) rfl

theorem FramesOk.update (h : FramesOk s) (hgl : gl.Ready) {g : Fin dbgStackNum} {f : DbgFuncFrameType}
    (hf : FrameOk f (seenFor s.seen g ++ [sp])) :
    FramesOk ⟨gl, Function.update s.frames g f, s.seen ++ [(Int.ofNat g, sp)]⟩ where
  ready := hgl
  frames g' := by
    dsimp only
    by_cases hg : g' = g
    · subst hg
      rw [Function.update_self, seenFor_concat_self]
      exact hf
    · have hne : Int.ofNat g.val ≠ Int.ofNat g'.val := fun heq =>
        hg (Fin.ext (Int.ofNat.inj heq).symm)
      rw [Function.update_of_ne hg, seenFor_concat_of_ne hne]
      exact h.frames g'

theorem FramesOk.set (h : FramesOk s) (hgl : gl.Ready)
    (hfits : r.ret < 0 ∨ ∃ g : Fin dbgStackNum, r.ret = g.val ∧
      (sp ∈ (s.frames g).values ∨ (s.frames g).lognum < dbgStackLogSize)) :
    ∃ frames, setFrame s.frames r.ret sp = .ok frames ∧ FramesOk ⟨gl, frames, s.seen ++ [(r.ret, sp)]⟩ := by
  rcases hfits with hneg | ⟨g, hg, hroom⟩
  · refine ⟨s.frames, if_pos hneg, hgl, fun g => ?_⟩
    have hne : r.ret ≠ Int.ofNat g.val := fun heq => by
      rw [heq] at hneg
      exact absurd hneg (by simp)
    rw [seenFor_concat_of_ne hne]
    exact h.frames g
  · obtain ⟨f, hset, hf⟩ := (h.frames g).setStackPointer hroom
    refine ⟨Function.update s.frames g f, ?_, hg ▸ h.update hgl hf⟩
    simp [setFrame, hg, hset]

theorem FramesOk.set_outside (h : FramesOk s) (hfits : ¬ (r.ret < 0 ∨ ∃ g : Fin dbgStackNum, r.ret = g.val ∧
      (sp ∈ (s.frames g).values ∨ (s.frames g).lognum < dbgStackLogSize))) :
    setFrame s.frames r.ret sp = .error .outside := by
  obtain ⟨hpos, hfull⟩ := not_or.1 hfits
  rw [setFrame, if_neg hpos]
  by_cases hlt : r.ret.toNat < dbgStackNum
  · have hout := (h.frames ⟨r.ret.toNat, hlt⟩).setStackPointer_outside fun hroom =>
      hfull ⟨⟨r.ret.toNat, hlt⟩, (Int.toNat_of_nonneg (not_lt.1 hpos)).symm, hroom⟩
    rw [dif_pos hlt, hout]
  · rw [dif_neg hlt]

theorem FramesOk.step (h : FramesOk s) (e : FrameEvent W) (hfits : FrameFits qsort s e) :
    ∃ s' o, frameStep qsort s e = some (s', o) ∧ FramesOk s' := by
  cases e with
  | setStackPointer sp =>
    obtain ⟨gl, r, hlookup, hgl, -, -⟩ := h.ready.lookup qsort (sp.setWidth W)
    obtain ⟨frames, hset, hok⟩ := h.set hgl (hfits gl r hlookup)
    exact ⟨_, (), by simp [frameStep, cpuctrlSetStackPointer, hlookup, hset], hok⟩
  | addr2glid addr =>
    obtain ⟨gl, r, hlookup, hgl, -, -⟩ := h.ready.lookup qsort addr
    exact ⟨{ s with gl := gl }, (), by simp only [frameStep, hlookup, Option.map_some], hgl, h.frames⟩

theorem FramesOk.outside (h : FramesOk s) (hfits : ¬ FrameFits qsort s (.setStackPointer sp)) :
    cpuctrlSetStackPointer qsort s.gl s.frames sp = .error .outside := by
  simp only [FrameFits, not_forall] at hfits
  obtain ⟨gl, r, hlookup, hno⟩ := hfits
  simp only [cpuctrlSetStackPointer, hlookup, h.set_outside hno]

/-! ## Few calls, and calls in one stack -/

theorem frameStep_setStackPointer {s' : FrameRun W} {o : Unit}
    (h : frameStep qsort s (.setStackPointer sp) = some (s', o)) :
    ∃ gl r, s.gl.lookup qsort (sp.setWidth W) = some (gl, r) ∧ s'.gl = gl ∧
      s'.seen = s.seen ++ [(r.ret, sp)] := by
  simp only [frameStep, cpuctrlSetStackPointer] at h
  cases hlookup : s.gl.lookup qsort (sp.setWidth W) with
  | none => simp [hlookup] at h
  | some p =>
    obtain ⟨gl, r⟩ := p
    cases hset : setFrame s.frames r.ret sp with
    | error e => simp [hlookup, hset] at h
    | ok frames =>
      simp only [hlookup, hset, Option.some.injEq, Prod.mk.injEq] at h
      obtain ⟨rfl, -⟩ := h
      exact ⟨gl, r, rfl, rfl, rfl⟩

theorem FramesOk.fits (h : FramesOk s) (hsymbols : s.gl.symbols.length ≤ dbgStackNum)
    (hseen : s.seen.length < dbgStackLogSize) (e : FrameEvent W) : FrameFits qsort s e := by
  cases e with
  | addr2glid addr => trivial
  | setStackPointer sp =>
    intro gl r hlookup
    obtain ⟨gl', r', hlookup', -, -, hfinds⟩ := h.ready.lookup qsort (sp.setWidth W)
    cases hlookup'.symm.trans hlookup
    rcases hfinds with ⟨i, sym, rfl, hi, -⟩ | ⟨rfl, -⟩
    · have hlt : i < dbgStackNum := (List.getElem?_eq_some_iff.1 hi).1.trans_le hsymbols
      refine .inr ⟨⟨i, hlt⟩, rfl, .inr ?_⟩
      have hf := h.frames ⟨i, hlt⟩
      calc (s.frames ⟨i, hlt⟩).lognum = (trail (seenFor s.seen i)).length := by
            rw [← hf.trail, length_values hf.lognum_le]
        _ ≤ (seenFor s.seen i).length := length_trail_le _
        _ ≤ s.seen.length := by
            rw [seenFor, List.length_map]
            exact List.length_filter_le _ _
        _ < dbgStackLogSize := hseen
    · exact .inl (by simp)

theorem FramesOk.stepsMeet (h : FramesOk s) (hsymbols : s.gl.symbols.length ≤ dbgStackNum)
    (vs : List (BitVec 32)) (hlen : s.seen.length + vs.length ≤ dbgStackLogSize) :
    StepsMeet (frameStep qsort) (FrameFits qsort) s (vs.map .setStackPointer) := by
  induction vs generalizing s with
  | nil => trivial
  | cons v vs ih =>
    rw [List.length_cons] at hlen
    have hfits : FrameFits qsort s (.setStackPointer v) := h.fits hsymbols (by omega) _
    refine ⟨hfits, fun s' o hs => ?_⟩
    obtain ⟨s₁, o₁, hs₁, hok⟩ := h.step _ hfits
    cases hs₁.symm.trans hs
    obtain ⟨gl, r, hlookup, rfl, hseen⟩ := frameStep_setStackPointer hs
    obtain ⟨gl', r', hlookup', -, hsame, -⟩ := h.ready.lookup qsort (v.setWidth W)
    obtain ⟨hgl, -⟩ := Prod.mk.inj (Option.some.inj (hlookup'.symm.trans hlookup))
    refine ih hok (by rwa [← hgl, hsame]) ?_
    rw [hseen, List.length_append, List.length_singleton]
    omega

theorem FramesOk.seen_of_run {sym : DbgSymbolType W} (h : FramesOk s) (hsym : s.gl.symbols = [sym])
    {vs : List (BitVec 32)} (hin : ∀ v ∈ vs, sym.Contains (v.setWidth W))
    (hmeet : StepsMeet (frameStep qsort) (FrameFits qsort) s (vs.map .setStackPointer)) :
    ∃ s' os, run (frameStep qsort) s (vs.map .setStackPointer) = some (s', os) ∧ FramesOk s' ∧
      s'.gl.symbols = [sym] ∧ s'.seen = s.seen ++ vs.map fun v => (0, v) := by
  induction vs generalizing s with
  | nil => exact ⟨s, [], rfl, h, hsym, (List.append_nil _).symm⟩
  | cons v vs ih =>
    obtain ⟨s₁, o, hs, hok⟩ := h.step _ hmeet.1
    obtain ⟨gl, r, hlookup, rfl, hseen⟩ := frameStep_setStackPointer hs
    obtain ⟨gl', r', hlookup', -, hsame, hfinds⟩ := h.ready.lookup qsort (v.setWidth W)
    obtain ⟨hgl, rfl⟩ := Prod.mk.inj (Option.some.inj (hlookup'.symm.trans hlookup))
    have hret := hfinds.ret_singleton hsym (hin v (.head _))
    obtain ⟨s', os, hrun, hok', hsym', hseen'⟩ := ih hok (by rw [← hgl, hsame, hsym])
      (fun v hv => hin v (.tail _ hv)) (hmeet.2 s₁ o hs)
    refine ⟨s', o :: os, run_cons_eq_some.2 ⟨s₁, o, os, hs, hrun, rfl⟩, hok', hsym', ?_⟩
    rw [hseen', hseen, hret, List.append_assoc]
    rfl

theorem outside_of_late {before : List (DbgSymbolType W)} {sym : DbgSymbolType W}
    (hlt : before.length + 1 < 2 ^ 31) (hlen : dbgStackNum ≤ before.length)
    (hin : sym.Contains (sp.setWidth W)) (hout : ∀ x ∈ before, ¬ x.Contains (sp.setWidth W)) :
    cpuctrlSetStackPointer qsort (.load (before ++ [sym])) .init sp = .error .outside := by
  obtain ⟨hready, hsymbols⟩ := SymbolTable.ready_load (before ++ [sym]) (by simpa using hlt)
  refine (FramesOk.init hready).outside fun hfits => ?_
  obtain ⟨gl, r, hlookup, -, -, hfinds⟩ := hready.lookup qsort (sp.setWidth W)
  rw [hsymbols] at hfinds
  rcases hfinds with ⟨i, x, rfl, hi, hcontains⟩ | ⟨-, hno⟩
  · rcases hfits gl _ hlookup with hneg | ⟨g, hg, -⟩
    · exact absurd hneg (by simp)
    · -- a symbol with an array is one of the first 1024
      obtain rfl := Int.ofNat.inj hg
      rw [List.getElem?_append_left (g.isLt.trans_le hlen)] at hi
      exact hout x (List.mem_of_getElem? hi) hcontains
  · exact hno sym (List.mem_append_right _ (.head _)) hin

theorem outside_of_deep {sym : DbgSymbolType W} {vs : List (BitVec 32)} (hlen : vs.length = dbgStackLogSize)
    (hin : ∀ v ∈ vs ++ [sp], sym.Contains (v.setWidth W)) (hnodup : (vs ++ [sp]).Nodup) :
    ∃ s os, run (frameStep qsort) (.init (.load [sym])) (vs.map .setStackPointer) = some (s, os) ∧
      cpuctrlSetStackPointer qsort s.gl s.frames sp = .error .outside := by
  obtain ⟨hready, hsymbols⟩ := SymbolTable.ready_load [sym] (by simp)
  have hinit := FramesOk.init hready
  have hone : (SymbolTable.load [sym]).symbols.length ≤ dbgStackNum := by
    rw [hsymbols, List.length_singleton]
    decide
  have hroom : (FrameRun.init (.load [sym])).seen.length + vs.length ≤ dbgStackLogSize :=
    (Nat.zero_add _).trans_le hlen.le
  have hmeet : StepsMeet (frameStep qsort) (FrameFits qsort) _ _ := hinit.stepsMeet hone vs hroom
  obtain ⟨s, os, hrun, hok, hsym, hseen⟩ :=
    hinit.seen_of_run hsymbols (fun v hv => hin v (List.mem_append_left _ hv)) hmeet
  refine ⟨s, os, hrun, hok.outside fun hfits => ?_⟩
  obtain ⟨gl, r, hlookup, -, -, hfinds⟩ := hok.ready.lookup qsort (sp.setWidth W)
  have hret := hfinds.ret_singleton hsym (hin sp (List.mem_append_right _ (.head _)))
  rcases hfits gl r hlookup with hneg | ⟨g, hg, hroom⟩
  · rw [hret] at hneg
    exact Int.lt_irrefl 0 hneg
  obtain ⟨hdistinct, -, hnew⟩ := List.nodup_append.1 hnodup
  have hf := hok.frames g
  have hvalues : (s.frames g).values = vs := by
    have hvs : seenFor s.seen g = vs := by
      rw [hseen, ← Int.ofNat.inj (hret.symm.trans hg)]
      exact seenFor_map 0 vs
    rw [hf.trail, hvs, trail_of_nodup hdistinct]
  rcases hroom with hmem | hlt
  · rw [hvalues] at hmem
    exact hnew sp hmem sp (.head _) rfl
  · rw [← length_values hf.lognum_le, hvalues, hlen] at hlt
    exact Nat.lt_irrefl _ hlt

/-! ## All calls -/

/-- **The frames record the stacks.** For every table of global symbols and every sequence of stack pointers,
with any lookups between them: every access is inside its array, and the record of every stack is that of the
stack pointers seen for it, exactly if each stack pointer fits. -/
theorem cpuctrl_set_stack_pointer_ok_iff (hgl : gl.Ready) (es : List (FrameEvent W)) :
    (∃ s os, run (frameStep qsort) (.init gl) es = some (s, os) ∧ FramesOk s) ↔
      StepsMeet (frameStep qsort) (FrameFits qsort) (.init gl) es := by
  refine exists_run_iff_stepsMeet FramesOk (fun s e hs he => hs.step e he) (fun s e hs he => ?_) es (.init hgl)
  cases e with
  | setStackPointer sp => simp only [frameStep, hs.outside he]
  | addr2glid addr => exact absurd trivial he

end

theorem cpuctrl_set_stack_pointer_ok_three :
    (SymbolTable.load [⟨[], 0x1000, 0x2000⟩] : SymbolTable 32).Ready ∧
      ∃ s os, run (frameStep SortedSearch.mergeSorter) (.init (.load [⟨[], 0x1000, 0x2000⟩] : SymbolTable 32))
        [.setStackPointer 0x2ff0, .setStackPointer 0x2fe0, .setStackPointer 0x2ff0] = some (s, os) ∧
        FramesOk s := by
  have hready := (SymbolTable.ready_load ([⟨[], 0x1000, 0x2000⟩] : List (DbgSymbolType 32)) (by simp)).1
  refine ⟨hready, (cpuctrl_set_stack_pointer_ok_iff hready _).2 ?_⟩
  exact (FramesOk.init hready).stepsMeet (by decide) [0x2ff0, 0x2fe0, 0x2ff0] (by decide)

def deepSp (i : Nat) : BitVec 32 := BitVec.ofNat 32 (0x2ffc - 4 * i)

theorem nodup_deepSp : ((List.range 1025).map deepSp).Nodup := by
  refine List.Nodup.map_on (fun i hi j hj heq => ?_) List.nodup_range
  have hnat := congrArg BitVec.toNat heq
  simp only [List.mem_range, deepSp, BitVec.toNat_ofNat] at hi hj hnat
  omega

theorem contains_deepSp {i : Nat} (hi : i < 1025) :
    (⟨[], 0x1000, 0x2000⟩ : DbgSymbolType 32).Contains ((deepSp i).setWidth 32) := by
  simp only [DbgSymbolType.Contains, DbgSymbolType.endAddr, deepSp, BitVec.le_def, BitVec.lt_def]
  simp
  omega

/-- The 1025th symbol has no array, and the 1025th stack pointer of a recursion has no place in its array; the
assertion holds for both. -/
theorem cpuctrl_set_stack_pointer_outside :
    cpuctrlSetStackPointer SortedSearch.mergeSorter
        (.load (List.replicate dbgStackNum ⟨[], 0, 0⟩ ++ [⟨[], 0x1000, 0x2000⟩]) : SymbolTable 32) .init 0x2ff0 =
      .error .outside ∧
    ∃ s os, run (frameStep SortedSearch.mergeSorter) (.init (.load [⟨[], 0x1000, 0x2000⟩] : SymbolTable 32))
        (((List.range dbgStackLogSize).map deepSp).map .setStackPointer) = some (s, os) ∧
      cpuctrlSetStackPointer SortedSearch.mergeSorter s.gl s.frames (deepSp dbgStackLogSize) =
        .error .outside := by
  have hempty : ¬ (⟨[], 0, 0⟩ : DbgSymbolType 32).Contains 0x2ff0 := by decide
  have hdeep := nodup_deepSp
  rw [List.range_succ, List.map_append] at hdeep
  refine ⟨outside_of_late ?_ (by rw [List.length_replicate]) (by decide) ?_, outside_of_deep ?_ ?_ hdeep⟩
  · rw [List.length_replicate]
    decide
  · intro sym hsym
    rw [List.eq_of_mem_replicate hsym]
    exact hempty
  · rw [List.length_map, List.length_range]
  · intro v hv
    rcases List.mem_append.1 hv with hv | hv
    · obtain ⟨i, hi, rfl⟩ := List.mem_map.1 hv
      exact contains_deepSp (Nat.lt_succ_of_lt (List.mem_range.1 hi))
    · rw [List.mem_singleton.1 hv]
      exact contains_deepSp (Nat.lt_succ_self _)

end Athrill
