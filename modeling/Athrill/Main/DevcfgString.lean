import Athrill.Debugger.TokenString

/-!
# Strings of the device configuration (`main/cpuemu.cpp`)

`cpuemu_env_parse_devcfg_string` replaces the reference `{NAME}` of a stored string by the value of the
environment variable. It looks for the two braces independently, drops what stands before the first one, and
takes the length of the result from `snprintf`, which does not cut it. Main results:
`cpuemu_get_devcfg_string_iff`, `token_string_terminated_iff`.
-/

namespace Athrill

open FlatMemory List Option

variable {W : Nat}

abbrev Getenv := List UInt8 → Option Bytes.CString

def cpuemuEnvParseDevcfgString (getenv : Getenv) (strp : TokenStringType) : Option TokenStringType :=
  -- the pointers of `strchr` are the rests of the string from there on
  let start := strp.cstr.dropWhile (· ≠ 123)
  let end_ := strp.cstr.dropWhile (· ≠ 125)
  if start = [] ∨ end_ = [] then some strp
  else
    let len : Int := (start.length : Int) - end_.length - 1
    if len = 0 then some strp
    else if len < 0 then none
    else
      match getenv ((start.drop 1).take len.toNat) with
      | none => some strp
      | some ep =>
        -- `snprintf` answers the length of the whole text, and the NUL is written there
        let out := ep.bytes ++ end_.drop 1
        if out.length ≥ tokenStringMaxSize then none
        else some { len := out.length + 1, str := store strp.str 0 (out ++ [0]) }

structure DevcfgParam where
  key : TokenValueType
  value : TokenValueType
  secondValue : Option TokenValueType
  valueNum : Nat

def devcfgKeyIs (token : TokenStringType) (p : DevcfgParam) : Bool :=
  p.value.type = .string ∧ tokenStrcmp p.key.body token

def devcfgStringLoop (getenv : Getenv) (token : TokenStringType) :
    List DevcfgParam → Option (Option (List UInt8) × List DevcfgParam)
  | [] => some (none, [])
  | p :: ps =>
    if devcfgKeyIs token p then
      (cpuemuEnvParseDevcfgString getenv p.value.body).map fun s =>
        (some s.cstr, { p with value.body := s } :: ps)
    else (devcfgStringLoop getenv token ps).map fun r => (r.1, p :: r.2)

def cpuemuGetDevcfgString (getenv : Getenv) (key : Bytes.CString) (params : List DevcfgParam) :
    Option (Option (List UInt8) × List DevcfgParam) :=
  if key.bytes.length ≥ tokenStringMaxSize then none
  else devcfgStringLoop getenv (terminated (fun _ => 0) key.bytes) params

/-! ## What is expected -/

def Reference (getenv : Getenv) (s out : List UInt8) : Prop :=
  ∃ name v suffix, s = 123 :: (name ++ 125 :: suffix) ∧ name ≠ [] ∧ 125 ∉ name ∧
    getenv name = some v ∧ out = v.bytes ++ suffix ∧ out.length < tokenStringMaxSize

/-- A reference is expanded, any other string is unchanged, and asking again gives the same. -/
def DevcfgStringKept (getenv : Getenv) (key : Bytes.CString) (params : List DevcfgParam)
    (s : List UInt8) : Prop :=
  ∃ out params' p' params'', (Reference getenv s out ∨ (∀ out', ¬ Reference getenv s out') ∧ out = s) ∧
    cpuemuGetDevcfgString getenv key params = some (some out, params') ∧
    params'.find? (devcfgKeyIs (terminated (fun _ => 0) key.bytes)) = some p' ∧
    p'.value.body.len = out.length ∧
    cpuemuGetDevcfgString getenv key params' = some (some out, params'')

def referenceName (s : List UInt8) : List UInt8 :=
  ((s.dropWhile (· ≠ 123)).drop 1).takeWhile (· ≠ 125)

/-- A brace is missing, or the name between them is empty or not set. -/
def Unexpanded (getenv : Getenv) (s : List UInt8) : Prop :=
  123 ∉ s ∨ 125 ∉ s ∨
    125 ∉ s.takeWhile (· ≠ 123) ∧ (referenceName s = [] ∨ getenv (referenceName s) = none)

section
variable {getenv : Getenv} {s : TokenStringType} {w pre rest name suffix : List UInt8} {c : UInt8}

theorem dropWhile_ne_eq_nil : w.dropWhile (· ≠ c) = [] ↔ c ∉ w := by
  rw [dropWhile_eq_nil_iff]
  simp only [ne_eq, decide_not, Bool.not_eq_eq_eq_not, Bool.not_true, decide_eq_false_iff_not]
  exact ⟨fun h hc => h c hc rfl, fun h x hx hxc => h (hxc ▸ hx)⟩

theorem ne_of_not_mem (hc : c ∉ pre) : ∀ b ∈ pre, decide (b ≠ c) = true := fun _ hb =>
  decide_eq_true (ne_of_mem_of_not_mem hb hc)

theorem dropWhile_ne_append (hc : c ∉ pre) : (pre ++ c :: rest).dropWhile (· ≠ c) = c :: rest := by
  rw [dropWhile_append_of_pos (ne_of_not_mem hc), dropWhile_cons_of_neg (by simp)]

theorem takeWhile_ne_append (hc : c ∉ pre) : (pre ++ c :: rest).takeWhile (· ≠ c) = pre := by
  rw [takeWhile_append_of_pos (ne_of_not_mem hc), takeWhile_cons_of_neg (by simp),
    append_nil]

theorem unexpanded_iff (hpre : 123 ∉ pre) (hpre' : 125 ∉ pre) (hname : 125 ∉ name) :
    Unexpanded getenv (pre ++ 123 :: (name ++ 125 :: suffix)) ↔ name = [] ∨ getenv name = none := by
  rw [Unexpanded, referenceName, takeWhile_ne_append hpre, dropWhile_ne_append hpre, drop_one,
    tail_cons, takeWhile_ne_append hname]
  simp [hpre']

theorem Reference.not_unexpanded {out : List UInt8} (h : Reference getenv w out) :
    ¬ Unexpanded getenv w := by
  obtain ⟨name, v, suffix, rfl, hne, hname, hv, -⟩ := h
  rw [← nil_append (123 :: _), unexpanded_iff not_mem_nil not_mem_nil hname]
  simp [hne, hv]

theorem cpuemuEnvParseDevcfgString_cases (hs : s.Terminated) :
    Unexpanded getenv s.bytes ∧ cpuemuEnvParseDevcfgString getenv s = some s ∨
    ¬ Unexpanded getenv s.bytes ∧ (cpuemuEnvParseDevcfgString getenv s = none ∨
      ∃ out, 0 ∉ out ∧ out.length < tokenStringMaxSize ∧ cpuemuEnvParseDevcfgString getenv s =
        some { len := out.length + 1, str := (terminated s.str out).str }) := by
  have hcstr : s.cstr = s.bytes := hs.takeWhile
  have hzero := hs.isOpen.zero_not_mem
  rw [cpuemuEnvParseDevcfgString, hcstr]
  generalize s.bytes = w at hzero
  simp only [dropWhile_ne_eq_nil]
  by_cases hbrace : 123 ∉ w ∨ 125 ∉ w
  · exact .inl ⟨hbrace.imp_right .inl, if_pos hbrace⟩
  rw [if_neg hbrace]
  rw [not_or, not_not, not_not] at hbrace
  obtain ⟨pre, rest, rfl, hpre⟩ := eq_append_cons_of_mem hbrace.1
  rw [dropWhile_ne_append hpre]
  by_cases hback : 125 ∈ pre
  · -- a `}` before the `{`: the length is negative
    right
    obtain ⟨a, b, rfl, ha⟩ := eq_append_cons_of_mem hback
    rw [append_assoc, cons_append, dropWhile_ne_append ha]
    simp only [length_cons, length_append]
    rw [if_neg (by omega), if_pos (by omega)]
    refine ⟨?_, .inl rfl⟩
    rw [Unexpanded, ← cons_append, ← append_assoc, takeWhile_ne_append hpre]
    simp
  · obtain ⟨name, suffix, rfl, hname⟩ : ∃ name suffix, rest = name ++ 125 :: suffix ∧ 125 ∉ name := by
      refine eq_append_cons_of_mem ?_
      simpa [hback] using hbrace.2
    have hend : (pre ++ 123 :: (name ++ 125 :: suffix)).dropWhile (· ≠ 125) = 125 :: suffix := by
      rw [← cons_append, ← append_assoc]
      exact dropWhile_ne_append (by simp [hback, hname])
    rw [hend, unexpanded_iff hpre hback hname]
    have hlen : ((123 :: (name ++ 125 :: suffix)).length : Int) - (125 :: suffix).length - 1 =
        name.length := by
      simp only [length_cons, length_append]
      omega
    rw [hlen, drop_one, tail_cons, Int.toNat_natCast, take_left]
    by_cases hnil : name = []
    · exact .inl ⟨.inl hnil, if_pos (by simp [hnil])⟩
    rw [if_neg (by simpa using hnil), if_neg (by omega)]
    cases hv : getenv name with
    | none => exact .inl ⟨.inr rfl, rfl⟩
    | some v =>
      refine .inr ⟨by simp [hnil], ?_⟩
      dsimp
      split_ifs with hlong
      · exact .inl rfl
      · refine .inr ⟨_, fun hmem => ?_, not_le.1 hlong, rfl⟩
        rcases mem_append.1 hmem with hmem | hmem
        · exact v.ne_zero 0 hmem rfl
        · rw [drop_one, tail_cons] at hmem
          exact hzero (by simp [hmem])

end

theorem devcfgStringLoop_found {getenv : Getenv} {token : TokenStringType} {params : List DevcfgParam}
    {p : DevcfgParam} (h : params.find? (devcfgKeyIs token) = some p) :
    ∃ put : TokenStringType → List DevcfgParam,
      (devcfgStringLoop getenv token params =
        (cpuemuEnvParseDevcfgString getenv p.value.body).map fun s => (some s.cstr, put s)) ∧
      put p.value.body = params ∧
      ∀ s, (put s).find? (devcfgKeyIs token) = some { p with value.body := s } := by
  induction params with
  | nil => cases h
  | cons q params ih =>
    by_cases hq : devcfgKeyIs token q = true
    · rw [find?_cons_of_pos hq] at h
      cases h
      exact ⟨fun s => { p with value.body := s } :: params, if_pos hq, rfl, fun s => find?_cons_of_pos hq⟩
    · rw [find?_cons_of_neg hq] at h
      obtain ⟨put, hloop, hself, hfind⟩ := ih h
      refine ⟨fun s => q :: put s, ?_, congrArg _ hself, fun s => ?_⟩
      · rw [devcfgStringLoop, if_neg hq, hloop, Option.map_map]
        rfl
      · rw [find?_cons_of_neg hq, hfind]

section
variable {getenv : Getenv} {key : Bytes.CString} {params : List DevcfgParam} {p : DevcfgParam}

section
variable (hkey : key.bytes.length < tokenStringMaxSize)
  (hp : params.find? (devcfgKeyIs (terminated (fun _ => 0) key.bytes)) = some p)
include hkey hp

theorem cpuemuGetDevcfgString_found :
    ∃ put : TokenStringType → List DevcfgParam,
      (cpuemuGetDevcfgString getenv key params =
        (cpuemuEnvParseDevcfgString getenv p.value.body).map fun s => (some s.cstr, put s)) ∧
      put p.value.body = params ∧ ∀ s,
        (put s).find? (devcfgKeyIs (terminated (fun _ => 0) key.bytes)) =
          some { p with value.body := s } := by
  obtain ⟨put, hloop, hput⟩ := @devcfgStringLoop_found getenv _ _ _ hp
  exact ⟨put, (if_neg (not_le.2 hkey)).trans hloop, hput⟩

theorem not_devcfgStringKept (hvalue : p.value.body.Terminated) (hun : ¬ Unexpanded getenv p.value.body.bytes)
  (s : List UInt8) : ¬ DevcfgStringKept getenv key params s := by
  rintro ⟨out, params', p', params'', -, hget, hp', hlen, -⟩
  obtain ⟨put, hget', -, hfind⟩ := @cpuemuGetDevcfgString_found getenv _ _ _ hkey hp
  rw [hget'] at hget
  obtain ⟨hun', -⟩ | ⟨-, hrun | ⟨text, hzero, hshort, hrun⟩⟩ :=
    @cpuemuEnvParseDevcfgString_cases getenv _ hvalue
  · exact hun hun'
  · rw [hrun] at hget
    cases hget
  · simp only [hrun, map_some, some.injEq, Prod.mk.injEq] at hget
    obtain ⟨rfl, rfl⟩ := hget
    rw [hfind] at hp'
    obtain rfl := some.inj hp'
    have htext := @cstr_terminated p.value.body.str _ hzero hshort
    exact absurd (hlen.trans (congrArg length htext)) (Nat.succ_ne_self _)

end

end

/-- A stored string is returned as documented exactly if nothing is replaced in it. -/
theorem cpuemu_get_devcfg_string_iff (getenv : Getenv) {key : Bytes.CString} {params : List DevcfgParam}
    {p : DevcfgParam} (hkey : key.bytes.length < tokenStringMaxSize)
    (hp : params.find? (devcfgKeyIs (terminated (fun _ => 0) key.bytes)) = some p)
    (hvalue : p.value.body.Terminated) :
    DevcfgStringKept getenv key params p.value.body.bytes ↔ Unexpanded getenv p.value.body.bytes := by
  refine ⟨fun h => by_contra fun hun => not_devcfgStringKept hkey hp hvalue hun _ h, fun hun => ?_⟩
  have hcstr : p.value.body.cstr = p.value.body.bytes := hvalue.takeWhile
  obtain ⟨put, hget, hself, -⟩ := @cpuemuGetDevcfgString_found getenv _ _ _ hkey hp
  obtain ⟨-, hrun⟩ | ⟨hun', -⟩ := @cpuemuEnvParseDevcfgString_cases getenv _ hvalue
  · rw [hrun, map_some, hself, hcstr] at hget
    exact ⟨_, params, p, params, .inr ⟨fun out h => h.not_unexpanded hun, rfl⟩, hget, hp,
      length_bytes.symm, hget⟩
  · exact absurd hun hun'

def oneVariable : Getenv := fun name => if name = [65] then some ⟨[120], by simp⟩ else none

def oneKey : Bytes.CString := ⟨[75], by simp⟩

def oneParam (value : List UInt8) : DevcfgParam where
  key := ⟨.string, terminated (fun _ => 0) oneKey.bytes⟩
  value := ⟨.string, terminated (fun _ => 0) value⟩
  secondValue := none
  valueNum := 1

theorem find_oneParam (value : List UInt8) : [oneParam value].find?
    (devcfgKeyIs (terminated (fun _ => 0) oneKey.bytes)) = some (oneParam value) := by
  have hkey : (terminated (fun _ => 0) oneKey.bytes).Terminated :=
    (terminatedFrom_terminated (by decide) (by decide) 0).1
  exact find?_cons_of_pos (decide_eq_true ⟨rfl, (tokenStrcmp_iff (.inl hkey.isOpen.zero_not_mem)).2 rfl⟩)

theorem cpuemu_get_devcfg_string_plain :
    DevcfgStringKept oneVariable oneKey [oneParam [97]] (oneParam [97]).value.body.bytes :=
  (cpuemu_get_devcfg_string_iff oneVariable (by decide) (find_oneParam [97])
    (terminatedFrom_terminated (by decide) (by decide) 0).1).2 (.inl (by decide +kernel))

/-- `{A}` is returned as `x` with the length 2. -/
theorem cpuemu_get_devcfg_string_len :
    ¬ DevcfgStringKept oneVariable oneKey [oneParam [123, 65, 125]] [123, 65, 125] := by
  refine not_devcfgStringKept (by decide) (find_oneParam _)
    (terminatedFrom_terminated (by decide) (by decide) 0).1 ?_ _
  rw [oneParam, bytes_terminated]
  simp [Unexpanded, referenceName, oneVariable]

/-! ## All functions that build a token string -/

inductive StringOp (W : Nat)
  | stringSet (src : Bytes.CString)
  | merge (src : { s : TokenStringType // s.Terminated })
  | splitMerge (c : TokenContainerType) (startIndex : Nat)
  | trimNewline
  | envParse (getenv : Getenv)

namespace StringOp

def run : StringOp W → TokenStringType → Option TokenStringType
  | stringSet src, s => some (tokenStringSet s src).2
  | merge src, s => some (tokenMerge s src.1)
  | splitMerge c startIndex, s => tokenSplitMerge W c startIndex s
  | trimNewline, s => some (tokenTrimNewline s)
  | envParse getenv, s => cpuemuEnvParseDevcfgString getenv s

def Fits : StringOp W → TokenStringType → Prop
  | stringSet src, _ => src.bytes.length % 2 ^ 32 ≠ tokenStringMaxSize
  | merge _, _ => True
  | splitMerge c startIndex, _ => ¬ ∃ i, startIndex ≤ i ∧ i < c.num ∧ Unprintable (c.array i)
  | trimNewline, s => ∀ c ∈ s.bytes, c ≠ 13 ∧ c ≠ 10 ∧ c ≠ 32
  | envParse getenv, s => Unexpanded getenv s.bytes

theorem run_terminated_iff (op : StringOp W) {s : TokenStringType} (hs : s.Terminated) :
    (∃ s', op.run s = some s' ∧ s.TerminatedFrom s') ↔ op.Fits s := by
  cases op with
  | stringSet src => simpa [run, Fits] using tokenStringSet_terminated_iff hs src
  | merge src => simpa [run, Fits] using tokenMerge_terminated hs src.2.isOpen.zero_not_mem
  | splitMerge c startIndex => exact tokenSplitMerge_terminated_iff hs startIndex
  | trimNewline => simpa [run, Fits] using tokenTrimNewline_terminated_iff hs
  | envParse getenv =>
    obtain ⟨hun, hrun⟩ | ⟨hun, hrun⟩ := @cpuemuEnvParseDevcfgString_cases getenv _ hs
    · exact iff_of_true ⟨s, hrun, hs.from_self⟩ hun
    · refine iff_of_false ?_ hun
      rintro ⟨s', hrun', hterm, -⟩
      rw [run] at hrun'
      obtain hrun | ⟨text, -, -, hrun⟩ := hrun
      · exact absurd (hrun.symm.trans hrun') nofun
      · -- the NUL of the text stands before the length
        obtain rfl := some.inj (hrun.symm.trans hrun')
        exact hterm.ne_zero text.length (Nat.lt_succ_self _) str_terminated_length

end StringOp

def StringsKept : List (StringOp W) → TokenStringType → Prop
  | [], s => s.Terminated
  | op :: ops, s => ∃ s', op.run s = some s' ∧ s.TerminatedFrom s' ∧ StringsKept ops s'

def StringsFit : List (StringOp W) → TokenStringType → Prop
  | [], _ => True
  | op :: ops, s => op.Fits s ∧ ∀ s', op.run s = some s' → StringsFit ops s'

theorem stringsKept_iff (ops : List (StringOp W)) {s : TokenStringType} (hs : s.Terminated) :
    StringsKept ops s ↔ StringsFit ops s := by
  induction ops generalizing s with
  | nil => exact iff_of_true hs trivial
  | cons op ops ih =>
    rw [StringsKept, StringsFit, ← op.run_terminated_iff hs]
    constructor
    · rintro ⟨s', hrun, hterm, hrest⟩
      refine ⟨⟨s', hrun, hterm⟩, fun s'' hrun' => ?_⟩
      obtain rfl := some.inj (hrun.symm.trans hrun')
      exact (ih hterm.1).1 hrest
    · rintro ⟨⟨s', hrun, hterm⟩, hrest⟩
      exact ⟨s', hrun, hterm, (ih hterm.1).2 (hrest s' hrun)⟩

/-- Each string that `token_split` stores is terminated, unless it stores one behind the container; the
other functions keep a string terminated exactly under their conditions, along every sequence of calls;
and on terminated strings `token_strcmp` is equality. -/
theorem token_string_terminated_iff (W : Nat) :
    (∀ (ex : Option UInt8) (stale : Nat → UInt8) (c : TokenContainerType) (line : List UInt8),
      (∃ err c', tokenSplitCommon W ex stale c line = some (err, c') ∧ SlotsTerminated c c') ↔
        ¬ (tokenContainerMaxSize < (tokenRuns ex line).length ∧
          ∀ w ∈ (tokenRuns ex line).take (tokenContainerMaxSize + 1), w.length < tokenStringMaxSize)) ∧
    (∀ (ops : List (StringOp W)) (s : TokenStringType), s.Terminated →
      (StringsKept ops s ↔ StringsFit ops s)) ∧
    (∀ s t : TokenStringType, s.Terminated → t.Terminated →
      (tokenStrcmp s t = true ↔ s.bytes = t.bytes)) := by
  refine ⟨fun ex stale c line => ?_, fun ops s => stringsKept_iff ops, fun s t hs _ =>
    tokenStrcmp_iff (.inl hs.isOpen.zero_not_mem)⟩
  rw [← @tokenSplitCommon_eq_none_iff W ex stale c, ← ne_eq, ne_none_iff_exists']
  constructor
  · rintro ⟨err, c', h, -⟩
    exact ⟨_, h⟩
  · rintro ⟨⟨err, c'⟩, h⟩
    exact ⟨err, c', h, tokenSplitCommon_terminated h⟩

theorem terminated_empty : TokenStringType.Terminated {} := ⟨by decide, nofun, rfl⟩

/-- `a` is stored and `b` appended; there is nothing to trim and no variable to expand. -/
theorem token_string_terminated_set :
    StringsKept [(.stringSet ⟨[97], by simp⟩ : StringOp 32), 
      .merge ⟨(tokenStringSet {} ⟨[98], by simp⟩).2,
        ((tokenStringSet_terminated_iff terminated_empty _).2 (by decide)).1⟩,
      .trimNewline, .envParse fun _ => none] {} := by
  refine ((token_string_terminated_iff 32).2.1 _ _ terminated_empty).2
    ⟨show 1 ≠ tokenStringMaxSize by decide, fun s₁ h₁ => ⟨trivial, fun s₂ h₂ => ⟨?_, fun s₃ h₃ => ?_⟩⟩⟩
  · have hbytes : s₂.bytes = [97, 98] := by
      cases h₁
      cases h₂
      decide +kernel
    simp [StringOp.Fits, hbytes]
  · cases h₁
    cases h₂
    cases h₃
    exact ⟨.inl (by decide +kernel), fun _ _ => trivial⟩

/-- `a b` is cut to the length 1, and a blank stands at its end; 4096 characters and their NUL are
written into the array of 4096. -/
theorem token_string_terminated_broken :
    ¬ StringsKept [(.stringSet ⟨[97, 32, 98], by simp⟩ : StringOp 32), .trimNewline] {} ∧
      ¬ StringsKept [(.stringSet ⟨replicate 4096 97,
        fun _ hb => eq_of_mem_replicate hb ▸ by decide⟩ : StringOp 32)] {} := by
  rw [stringsKept_iff _ terminated_empty, stringsKept_iff _ terminated_empty]
  constructor
  · rintro ⟨-, h⟩
    exact absurd ((h _ rfl).1 32 (by decide +kernel)) (by decide)
  · rintro ⟨h, -⟩
    refine h ?_
    rw [length_replicate]
    rfl

end Athrill
