import Athrill.Debugger.TokenRuns

/-!
# The strings of tokens (`lib/token.c`)

A token string has a length and an array of 4096 bytes; what the functions that build one promise is that a
NUL stands at the length and nowhere before it (`TokenStringType.Terminated`).
-/

namespace Athrill

open FlatMemory List TokenStringType

variable {W : Nat}

structure TokenStringType.Open (s : TokenStringType) : Prop where
  len_lt : s.len < tokenStringMaxSize
  ne_zero : ∀ i < s.len, s.str i ≠ 0

/-- `len` is the length of the C string in the buffer. -/
structure TokenStringType.Terminated (b : TokenStringType) : Prop where
  len_lt : b.len < tokenStringMaxSize
  ne_zero : ∀ i < b.len, b.str i ≠ 0
  eq_zero : b.str b.len = 0

def TokenStringType.TerminatedFrom (s s' : TokenStringType) : Prop :=
  s'.Terminated ∧ ∀ i ≥ tokenStringMaxSize, s'.str i = s.str i

def tokenStringSet (dest : TokenStringType) (src : Bytes.CString) : Bool × TokenStringType :=
  let len := src.bytes.length % 2 ^ 32
  if len > tokenStringMaxSize then (false, dest)
  else (true, { len := len, str := store dest.str 0 (src.bytes.take len ++ [0]) })

section
variable {s t dest src out : TokenStringType} {w : List UInt8} {byte : Nat → UInt8}

@[simp] theorem length_bytes : s.bytes.length = s.len := by
  simp [bytes, load]

theorem TokenStringType.Terminated.isOpen (h : s.Terminated) : s.Open := ⟨h.len_lt, h.ne_zero⟩

theorem TokenStringType.Open.zero_not_mem (h : s.Open) : 0 ∉ s.bytes := by
  intro hmem
  simp only [bytes, load, Nat.zero_add, mem_map, mem_range] at hmem
  obtain ⟨i, hi, hzero⟩ := hmem
  exact h.ne_zero i hi hzero

theorem TokenStringType.Terminated.from_self (h : s.Terminated) : s.TerminatedFrom s :=
  ⟨h, fun _ _ => rfl⟩

theorem terminatedFrom_store {n : Nat} (hlen : n + w.length < tokenStringMaxSize)
    (hold : ∀ i < n, byte i ≠ 0) (hw : 0 ∉ w) (len : Nat) :
    TokenStringType.TerminatedFrom ⟨len, byte⟩ ⟨n + w.length, store byte n (w ++ [0])⟩ := by
  refine ⟨⟨hlen, fun i hi => ?_, ?_⟩, fun i hi => store_of_not_mem ?_⟩
  · dsimp only at hi ⊢
    by_cases hin : i < n
    · rw [store_of_not_mem (by omega)]
      exact hold i hin
    · obtain ⟨k, rfl⟩ := Nat.exists_eq_add_of_le (not_lt.1 hin)
      have hk : k < w.length := Nat.lt_of_add_lt_add_left hi
      rw [store_add (by simp; omega), getElem_append_left hk]
      exact fun hzero => hw (hzero ▸ getElem_mem hk)
  · dsimp only
    rw [store_add (by simp), getElem_concat_length rfl]
  · simp only [length_append, length_singleton]
    omega

theorem terminatedFrom_terminated (hlen : w.length < tokenStringMaxSize) (hw : 0 ∉ w) (len : Nat) :
    TokenStringType.TerminatedFrom ⟨len, byte⟩ (terminated byte w) := by
  have h := @terminatedFrom_store w byte 0 (by omega) nofun hw len
  rwa [Nat.zero_add] at h

theorem TokenStringType.Terminated.eq_terminated (h : s.Terminated) : s = terminated s.str s.bytes := by
  obtain ⟨len, str⟩ := s
  rw [terminated, length_bytes, mk.injEq]
  refine ⟨rfl, funext fun i => ?_⟩
  by_cases hi : i < len + 1
  · have hget : store str 0 (load str 0 (len + 1)) i = str i := by
      simpa [load] using @store_add str 0 (load str 0 (len + 1)) i (by simpa [load] using hi)
    have hload : load str 0 (len + 1) = bytes ⟨len, str⟩ ++ [0] := by
      rw [← h.eq_zero]
      simp [load, bytes, range_succ]
    rw [hload] at hget
    exact hget.symm
  · rw [store_of_not_mem]
    simpa using hi

theorem TokenStringType.Terminated.takeWhile (h : s.Terminated) :
    (load s.str 0 tokenStringMaxSize).takeWhile (· ≠ 0) = s.bytes := by
  have hcstr := @cstr_terminated s.str _ h.isOpen.zero_not_mem (length_bytes.trans_lt h.len_lt)
  rwa [← h.eq_terminated] at hcstr

/-! ## Comparison -/

theorem takeWhile_eq_iff {p q : List UInt8} (hq : 0 ∉ q) (hlen : p.length = q.length) :
    p.takeWhile (· ≠ 0) = q.takeWhile (· ≠ 0) ↔ p = q := by
  have hall : q.takeWhile (· ≠ 0) = q := takeWhile_eq_self_iff.2 fun b hb => by
    rw [decide_eq_true_eq]
    rintro rfl
    exact hq hb
  rw [hall]
  constructor
  · intro h
    have hpre := List.takeWhile_prefix (l := p) (· ≠ 0)
    rw [h] at hpre
    exact (hpre.eq_of_length hlen.symm).symm
  · rintro rfl
    exact hall

theorem tokenStrcmp_iff (h : 0 ∉ s.bytes ∨ 0 ∉ t.bytes) : tokenStrcmp s t = true ↔ s.bytes = t.bytes := by
  have hcmp : s.len = t.len → (strncmpEq s.str t.str s.len = true ↔ s.bytes = t.bytes) := by
    intro hlen
    have hlen' : s.bytes.length = t.bytes.length := by simpa using hlen
    rw [strncmpEq, decide_eq_true_eq, ← bytes, hlen, ← bytes]
    rcases h with hs | ht
    · rw [eq_comm, takeWhile_eq_iff hs hlen'.symm, eq_comm]
    · exact takeWhile_eq_iff ht hlen'
  rw [tokenStrcmp, decide_eq_true_eq]
  refine ⟨fun h => (hcmp h.1).1 h.2, fun heq => ?_⟩
  have hlen : s.len = t.len := by rw [← length_bytes, heq, length_bytes]
  exact ⟨hlen, (hcmp hlen).2 heq⟩

@[simp] theorem bytes_tokenString (name : List UInt8) : (tokenString name).bytes = name := load_store_self _ name

/-! ## Setting, merging and trimming -/

theorem tokenStringSet_terminated_iff (hdest : dest.Terminated) (src : Bytes.CString) :
    dest.TerminatedFrom (tokenStringSet dest src).2 ↔
      src.bytes.length % 2 ^ 32 ≠ tokenStringMaxSize := by
  rw [tokenStringSet]
  by_cases hlong : src.bytes.length % 2 ^ 32 > tokenStringMaxSize
  · rw [if_pos hlong]
    exact iff_of_true hdest.from_self (by omega)
  · rw [if_neg hlong]
    constructor
    · intro h heq
      exact absurd heq (Nat.ne_of_lt h.1.len_lt)
    · intro hne
      have hlen : (src.bytes.take (src.bytes.length % 2 ^ 32)).length = src.bytes.length % 2 ^ 32 := by
        rw [length_take]
        exact Nat.min_eq_left (Nat.mod_le _ _)
      have h := @terminatedFrom_terminated (src.bytes.take (src.bytes.length % 2 ^ 32)) dest.str
        (by omega) (fun hmem => src.ne_zero 0 (mem_of_mem_take hmem) rfl) dest.len
      rwa [terminated, hlen] at h

theorem tokenMerge_terminated (hdest : dest.Terminated) (hsrc : 0 ∉ src.bytes) :
    dest.TerminatedFrom (tokenMerge dest src) := by
  rw [tokenMerge]
  split_ifs with hlong
  · exact hdest.from_self
  · rw [tokenStringMaxSize] at hlong
    have hlen : dest.len + src.bytes.length < tokenStringMaxSize := by
      rw [length_bytes, tokenStringMaxSize]
      omega
    have h := terminatedFrom_store hlen hdest.ne_zero hsrc dest.len
    rwa [length_bytes] at h

theorem bytes_tokenMerge (h : dest.len + src.len < tokenStringMaxSize) :
    (tokenMerge dest src).bytes = dest.bytes ++ src.bytes := by
  rw [tokenMerge, if_neg (by rw [tokenStringMaxSize] at h ⊢; omega)]
  simp only [bytes, load, Nat.zero_add, range_add, map_append, map_map]
  congr 1
  · refine map_congr_left fun i hi => store_of_not_mem ?_
    rw [mem_range] at hi
    omega
  · refine map_congr_left fun k hk => ?_
    rw [mem_range] at hk
    rw [Function.comp_apply, store_add (by simp; omega), getElem_append_left (by simpa using hk)]
    simp

theorem tokenTrimNewline_terminated_iff (ht : t.Terminated) :
    t.TerminatedFrom (tokenTrimNewline t) ↔ ∀ c ∈ t.bytes, c ≠ 13 ∧ c ≠ 10 ∧ c ≠ 32 := by
  have hcut : t.bytes.takeWhile (fun c => c ≠ 13 ∧ c ≠ 10 ∧ c ≠ 32) = t.bytes ↔
      ∀ c ∈ t.bytes, c ≠ 13 ∧ c ≠ 10 ∧ c ≠ 32 := by
    rw [takeWhile_eq_self_iff]
    simp
  rw [← hcut]
  have hpre := takeWhile_prefix (l := t.bytes) fun c => decide (c ≠ 13 ∧ c ≠ 10 ∧ c ≠ 32)
  constructor
  · intro h
    refine hpre.eq_of_length (le_antisymm hpre.length_le (not_lt.1 fun hlt => ?_))
    rw [length_bytes] at hlt
    exact ht.ne_zero _ hlt h.1.eq_zero
  · intro heq
    have hsame : tokenTrimNewline t = t := by rw [tokenTrimNewline, heq, length_bytes]
    rw [hsame]
    exact ht.from_self

/-! ## `token_split` -/

def SlotsTerminated (c₀ c : TokenContainerType) : Prop :=
  ∀ i, c.array i = c₀.array i ∨ ((c.array i).type = .string → (c.array i).body.Terminated)

variable {c₀ c c' : TokenContainerType} {buffer buffer' : TokenStringType} {b : UInt8}

theorem TokenStringType.Open.push (h : buffer.Open) (hlen : buffer.len + 1 < tokenStringMaxSize)
    (hb : b ≠ 0) : (buffer.push b).Open := by
  refine ⟨hlen, fun i hi => ?_⟩
  rcases Nat.lt_succ_iff_lt_or_eq.1 hi with hi | rfl
  · simp only [TokenStringType.push]
    rw [store_of_not_mem (by simp; omega)]
    exact h.ne_zero i hi
  · simpa [TokenStringType.push] using @store_add buffer.str buffer.len [b] 0 (by simp) ▸ hb

theorem setToken_terminated (hslots : SlotsTerminated c₀ c) (hbuffer : buffer.Open)
    (h : setToken W c buffer = some (c', buffer')) : SlotsTerminated c₀ c' := by
  have hterm := (@terminatedFrom_store [] _ _ hbuffer.len_lt hbuffer.ne_zero List.not_mem_nil 0).1
  rw [setToken] at h
  split_ifs at h
  cases h
  intro i
  by_cases hi : i = c.num - 1
  · subst hi
    right
    simp only [Function.update_self, tokenOf]
    split
    · rintro ⟨⟩
    · split_ifs
      · split
        · rintro ⟨⟩
        · exact fun _ => hterm
      · exact fun _ => hterm
  · simpa only [Function.update_of_ne hi] using hslots i

theorem tokenSplitCommonLoop_terminated {ex : Option UInt8} {line : List UInt8} {state : TokenCheckStateType}
    {err : StdReturnType} (hslots : SlotsTerminated c₀ c) (hbuffer : buffer.Open)
    (hstate : state = .demiliter → buffer.len = 0)
    (h : tokenSplitCommonLoop W ex line state buffer c = some (err, c')) : SlotsTerminated c₀ c' := by
  have hne : ∀ {b}, ¬ isDelimiter ex b = true → b ≠ 0 := by
    rintro b hb rfl
    exact hb isDelimiter_zero
  have hstart : ∀ {buffer : TokenStringType}, buffer.len = 0 → buffer.len + 1 < tokenStringMaxSize := by
    intro buffer hlen
    rw [hlen]
    decide
  have hlast : ∀ {c : TokenContainerType} {buffer : TokenStringType}, SlotsTerminated c₀ c →
      buffer.Open → (setToken W c buffer).map (fun p => (StdReturnType.ok, p.1)) = some (err, c') →
      SlotsTerminated c₀ c' := by
    intro c buffer hslots hbuffer h
    obtain ⟨⟨c'', buffer'⟩, hset, heq⟩ := Option.map_eq_some_iff.1 h
    cases heq
    exact setToken_terminated hslots hbuffer hset
  fun_induction tokenSplitCommonLoop W ex line state buffer c with
  | case1 => cases h; exact hslots
  | case2 _ _ _ _ _ ih => exact ih hslots hbuffer hstate h
  | case3 => cases h; exact hslots
  | case4 _ _ _ hb =>
    refine hlast ?_ (hbuffer.push (hstart (hstate rfl)) (hne hb)) h
    exact hslots
  | case5 _ _ _ _ hb _ _ _ _ ih =>
    exact ih hslots (hbuffer.push (hstart (hstate rfl)) (hne hb)) nofun h
  | case6 => cases h
  | case7 _ _ _ _ _ _ _ hset ih =>
    have hpos : 0 < tokenStringMaxSize := by decide
    exact ih (setToken_terminated hslots hbuffer hset) ⟨hpos, nofun⟩ (fun _ => rfl) h
  | case8 => cases h; exact hslots
  | case9 _ _ _ hb hlen => exact hlast hslots (hbuffer.push (by omega) (hne hb)) h
  | case10 _ _ _ _ hb hlen _ _ ih => exact ih hslots (hbuffer.push (by omega) (hne hb)) nofun h

theorem tokenSplitCommon_terminated {ex : Option UInt8} {stale : Nat → UInt8} {line : List UInt8}
    {err : StdReturnType} (h : tokenSplitCommon W ex stale c line = some (err, c')) :
    SlotsTerminated c c' := by
  have hpos : 0 < tokenStringMaxSize := by decide
  have hslots : SlotsTerminated c { c with num := 0 } := fun _ => .inl rfl
  exact tokenSplitCommonLoop_terminated hslots ⟨hpos, fun i hi => absurd hi (Nat.not_lt_zero i)⟩
    (fun _ => rfl) h

/-! ## `token_split_merge` -/

def Unprintable (t : TokenValueType) : Prop :=
  t.type = .string ∧
    tokenStringMaxSize ≤
      ((FlatMemory.load t.body.str 0 tokenStringMaxSize).takeWhile (· ≠ 0)).length + 1

theorem mergeToken_eq_none (out : TokenStringType) (i : Nat) :
    mergeToken W c out i = none ↔ Unprintable (c.array i) := by
  unfold mergeToken tokenText Unprintable
  cases ht : (c.array i).type <;> simp

theorem foldlM_eq_none {α β : Type} {f : β → α → Option β} {P : α → Prop}
    (h : ∀ out i, f out i = none ↔ P i) (l : List α) (out : β) :
    l.foldlM f out = none ↔ ∃ i ∈ l, P i := by
  induction l generalizing out with
  | nil => simp
  | cons i l ih =>
    rw [foldlM_cons]
    cases hf : f out i with
    | none =>
      exact iff_of_true rfl ⟨i, .head _, (h out i).1 hf⟩
    | some out' =>
      have hi : ¬ P i := fun hP => by rw [(h out i).2 hP] at hf; cases hf
      simp [ih, hi]

theorem tokenSplitMerge_eq_none {start : Nat} {out : TokenStringType} :
    tokenSplitMerge W c start out = none ↔
      ∃ i, start ≤ i ∧ i < c.num ∧ Unprintable (c.array i) := by
  unfold tokenSplitMerge
  rw [foldlM_eq_none mergeToken_eq_none]
  simp only [mem_range'_1, and_assoc]
  refine exists_congr fun i => and_congr_right fun hi => and_congr_left fun _ => ?_
  omega

theorem le_of_mem_toDigits {base n : Nat} (hbase : 1 < base) (hbase' : base ≤ 16)
    (h : b ∈ tokenName (Nat.toDigits base n)) : 48 ≤ b := by
  have hdigit : ∀ d < 16, 48 ≤ UInt8.ofNat (Nat.digitChar d).toNat := by decide
  induction n using Nat.strong_induction_on with
  | _ n ih =>
    by_cases hlt : n < base
    · rw [Nat.toDigits_of_lt_base hlt] at h
      exact mem_singleton.1 h ▸ hdigit n (by omega)
    · rw [Nat.toDigits_of_base_le hbase (not_lt.1 hlt), tokenName, map_append] at h
      have hmod := Nat.mod_lt n (show base > 0 by omega)
      rcases mem_append.1 h with h | h
      · exact ih _ (Nat.div_lt_self (by omega) hbase) h
      · exact mem_singleton.1 h ▸ hdigit (n % base) (by omega)

theorem zero_not_mem_tokenText {slot : TokenValueType} {text : List UInt8}
    (h : tokenText W slot = some text) : 0 ∉ text := by
  have hdigits : ∀ base n, 1 < base → base ≤ 16 → 0 ∉ tokenName (Nat.toDigits base n) :=
    fun base n h h' hmem => absurd (le_of_mem_toDigits h h' hmem) (by decide)
  unfold tokenText at h
  cases htype : slot.type with
  | string =>
    simp only [htype, Option.some.injEq] at h
    subst h
    intro hmem
    rcases mem_append.1 hmem with hmem | hmem
    · simpa using mem_takeWhile_imp hmem
    · exact absurd hmem (by decide)
  | valueDec =>
    simp only [htype, Option.some.injEq] at h
    subst h
    rw [tokenName, map_append, map_append, mem_append, mem_append, not_or, not_or]
    refine ⟨⟨?_, hdigits 10 _ (by decide) (by decide)⟩, by decide⟩
    split_ifs <;> decide
  | valueHex =>
    simp only [htype, Option.some.injEq] at h
    subst h
    rw [tokenName, map_append, map_append, mem_append, mem_append, not_or, not_or]
    exact ⟨⟨by decide, hdigits 16 _ (by decide) (by decide)⟩, by decide⟩
  | unknown => simp [htype] at h

theorem mergeToken_terminated {i : Nat} (hout : out.Terminated) (h : mergeToken W c out i = some t) :
    out.TerminatedFrom t := by
  rw [mergeToken] at h
  split at h
  · cases h
    exact hout.from_self
  · split_ifs at h
    cases h
    refine tokenMerge_terminated hout ?_
    rw [bytes, load_store_self]
    exact zero_not_mem_tokenText ‹_›

theorem tokenSplitMerge_terminated_iff (hout : out.Terminated) (start : Nat) :
    (∃ out', tokenSplitMerge W c start out = some out' ∧ out.TerminatedFrom out') ↔
      ¬ ∃ i, start ≤ i ∧ i < c.num ∧ Unprintable (c.array i) := by
  rw [← @tokenSplitMerge_eq_none W c start out, ← ne_eq, Option.ne_none_iff_exists']
  refine exists_congr fun out' => and_iff_left_of_imp fun h => ?_
  have hfold : ∀ (l : List Nat) {s : TokenStringType}, s.Terminated → ∀ {s'},
      l.foldlM (mergeToken W c) s = some s' → s.TerminatedFrom s' := by
    intro l
    induction l with
    | nil =>
      rintro s hs s' ⟨⟩
      exact hs.from_self
    | cons i l ih =>
      intro s hs s' h
      rw [foldlM_cons] at h
      obtain ⟨s₁, hs₁, h⟩ := Option.bind_eq_some_iff.1 h
      have hone := mergeToken_terminated hs hs₁
      have hrest := ih hone.1 h
      exact ⟨hrest.1, fun j hj => (hrest.2 j hj).trans (hone.2 j hj)⟩
  exact hfold _ hout h

end

end Athrill
