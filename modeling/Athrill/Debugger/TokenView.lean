import Athrill.Debugger.Token

/-!
# What a slot says

A slot of a token container shows a number or a text, and these depend on the word that was stored there
alone (`tokenOf_terminated`, `tokenSplitCommon_words`).
-/

namespace Athrill

open FlatMemory List TokenStringType

variable {W : Nat} {ex : Option UInt8}

inductive TokenView (W : Nat)
  | dec (value : Nat)
  | hex (value : AthrillAddrType W)
  | text (bytes : List UInt8)
  | unknown
  deriving DecidableEq

def wordView (W : Nat) (w : List UInt8) : TokenView W :=
  match strtol w with
  | some v => .dec (uint32OfInt v)
  | none =>
    if w.length > 2 ∧ w.getD 0 0 = 48 ∧ w.getD 1 0 = 120 then
      match strtoull w with
      | some v => .hex (BitVec.ofNat W v)
      | none => .text w
    else .text w

def TokenStringType.cstr (s : TokenStringType) : List UInt8 :=
  (load s.str 0 tokenStringMaxSize).takeWhile (· ≠ 0)

section
variable {stale : Nat → UInt8} {w : List UInt8}

theorem str_terminated {i : Nat} (hi : i < w.length) : (terminated stale w).str i = w[i] := by
  have h := @store_add stale 0 (w ++ [0]) i (by simp; omega)
  rw [Nat.zero_add, getElem_append_left hi] at h
  exact h

theorem str_terminated_length : (terminated stale w).str w.length = 0 := by
  have h := @store_add stale 0 (w ++ [0]) w.length (by simp)
  rw [Nat.zero_add, getElem_concat_length] at h
  · exact h
  · rfl

theorem bytes_terminated : (terminated stale w).bytes = w := by
  refine ext_getElem (by simp [bytes, load, terminated]) fun i _ hi => ?_
  simpa [bytes, load] using str_terminated hi

theorem cstr_terminated (hw : 0 ∉ w) (hlen : w.length < tokenStringMaxSize) :
    (terminated stale w).cstr = w := by
  obtain ⟨k, hk⟩ := Nat.exists_eq_add_of_lt hlen
  have hload : load (terminated stale w).str 0 tokenStringMaxSize =
      w ++ 0 :: load (terminated stale w).str (w.length + 1) k := by
    rw [hk]
    refine ext_getElem (by simp [load]; omega) fun i hi hi' => ?_
    simp only [load, getElem_map, getElem_range, Nat.zero_add]
    rcases Nat.lt_trichotomy i w.length with hlt | rfl | hgt
    · rw [str_terminated hlt, getElem_append_left hlt]
    · rw [str_terminated_length, getElem_append_right (Nat.le_refl _)]
      simp
    · rw [getElem_append_right hgt.le, getElem_cons, dif_neg (by omega)]
      simp only [getElem_map, getElem_range]
      congr 1
      omega
  have htake : ∀ b ∈ w, (decide (b ≠ 0)) = true := fun b hb => by
    simp only [ne_eq, decide_not, Bool.not_eq_eq_eq_not, Bool.not_true, decide_eq_false_iff_not]
    rintro rfl
    exact hw hb
  rw [cstr, hload, takeWhile_append_of_pos htake]
  simp

theorem hexValue_setHexValue_self (hW : W = 32 ∨ W = 64) (body : TokenStringType)
    (v : AthrillAddrType W) : (body.setHexValue v).hexValue W = v := by
  have hload := load_store_self body.str (Bytes.leBytes (W / 8 - 4) (v.toNat / 2 ^ 32))
  rw [Bytes.length_leBytes] at hload
  simp only [hexValue, setHexValue, hload, Bytes.leValue_leBytes]
  apply BitVec.eq_of_toNat_eq
  have hv := v.isLt
  rw [BitVec.toNat_ofNat]
  rcases hW with rfl | rfl
  · simp only [Nat.reduceDiv, Nat.reduceSub, Nat.reducePow, Nat.mod_one] at hv ⊢
    omega
  · simp only [Nat.reduceDiv, Nat.reduceSub, Nat.reducePow] at hv ⊢
    omega

def TokenView.token (buffer : TokenStringType) : TokenView W → Token W
  | .dec v => .dec v
  | .hex v => .hex v
  | _ => .string buffer

theorem tokenOf_terminated :
    tokenOf W (terminated stale w) = (wordView W w).token (terminated stale w) := by
  have hcond : ((terminated stale w).len > 2 ∧ (terminated stale w).str 0 = 48 ∧
      (terminated stale w).str 1 = 120) ↔ (w.length > 2 ∧ w.getD 0 0 = 48 ∧ w.getD 1 0 = 120) := by
    refine and_congr_right fun hlen => ?_
    have hlen' : w.length > 2 := hlen
    rw [str_terminated (show 0 < w.length by omega), str_terminated (show 1 < w.length by omega),
      getD_eq_getElem?_getD, getD_eq_getElem?_getD,
      getElem?_eq_getElem (show 0 < w.length by omega),
      getElem?_eq_getElem (show 1 < w.length by omega), Option.getD_some, Option.getD_some]
  simp only [tokenOf, wordView, bytes_terminated, hcond]
  cases strtol w with
  | some v => rfl
  | none =>
    dsimp only
    split_ifs
    · cases strtoull w <;> rfl
    · rfl

theorem wordView_cases (w : List UInt8) : (∃ v, wordView W w = .dec v) ∨ (∃ v, wordView W w = .hex v) ∨
    wordView W w = .text w := by
  unfold wordView
  cases strtol w with
  | some v => exact .inl ⟨_, rfl⟩
  | none =>
    dsimp only
    split_ifs
    · cases strtoull w with
      | some v => exact .inr (.inl ⟨_, rfl⟩)
      | none => exact .inr (.inr rfl)
    · exact .inr (.inr rfl)

theorem body_write_of_text {t : List UInt8} (slot : TokenValueType) (h : wordView W w = .text t) :
    t = w ∧ ((tokenOf W (terminated stale w)).write slot).body = terminated stale w := by
  obtain ⟨v, hv⟩ | ⟨v, hv⟩ | hv := @wordView_cases W w
  · rw [hv] at h
    cases h
  · rw [hv] at h
    cases h
  · rw [tokenOf_terminated, h]
    exact ⟨TokenView.text.inj (h.symm.trans hv), rfl⟩

end

/-! ## The words of a line -/

theorem length_le_of_mem_tokenWords {w v line : List UInt8} (h : v ∈ tokenWords ex w line) :
    v.length ≤ w.length + line.length := by
  induction line generalizing w with
  | nil =>
    rw [tokenWords] at h
    split_ifs at h
    · cases h
    · rw [mem_singleton.1 h]
      omega
  | cons b line ih =>
    rw [tokenWords] at h
    simp only [length_cons]
    split_ifs at h with hdelim hw
    · have hv := ih h
      simp only [length_nil] at hv
      omega
    · rcases mem_cons.1 h with rfl | h
      · omega
      · have hv := ih h
        simp only [length_nil] at hv
        omega
    · have hv := ih h
      simp only [length_append, length_singleton] at hv
      omega

theorem zero_not_mem_of_mem_tokenWords {w v line : List UInt8} (hw : 0 ∉ w)
    (h : v ∈ tokenWords ex w line) : 0 ∉ v := by
  induction line generalizing w with
  | nil =>
    rw [tokenWords] at h
    split_ifs at h
    · cases h
    · rwa [mem_singleton.1 h]
  | cons b line ih =>
    rw [tokenWords] at h
    split_ifs at h with hdelim hnil
    · exact ih (not_mem_nil) h
    · rcases mem_cons.1 h with rfl | h
      · exact hw
      · exact ih (not_mem_nil) h
    · refine ih (fun hmem => ?_) h
      rcases mem_append.1 hmem with hmem | hmem
      · exact hw hmem
      · rw [← mem_singleton.1 hmem] at hdelim
        exact hdelim isDelimiter_zero

theorem splitOutcome_eq {stale : Nat → UInt8} {n : Nat} {ws : List (List UInt8)}
    (hlen : ∀ w ∈ ws, w.length < tokenStringMaxSize) :
    (n + ws.length ≤ tokenContainerMaxSize → ∃ ts : List (Token W),
      splitOutcome W stale n ws = .tokens ts ∧ ts.length = ws.length ∧
        ∀ (i : Nat) w, ws[i]? = some w → ∃ st, ts[i]? = some (tokenOf W (terminated st w))) ∧
    (tokenContainerMaxSize < n + ws.length → n ≤ tokenContainerMaxSize →
      splitOutcome W stale n ws = .outside) := by
  induction ws generalizing stale n with
  | nil =>
    refine ⟨fun _ => ⟨[], rfl, rfl, fun i w hw => by cases hw⟩, fun h h' => ?_⟩
    rw [length_nil] at h
    omega
  | cons w ws ih =>
    have hw : ¬ w.length ≥ tokenStringMaxSize := not_le.2 (hlen w (.head _))
    have hrest := @ih (terminated stale w).str (n + 1) fun v hv => hlen v (.tail _ hv)
    rw [splitOutcome, if_neg hw, length_cons]
    constructor
    · intro hle
      obtain ⟨ts, hts, htl, hget⟩ := hrest.1 (by omega)
      rw [if_neg (by omega), hts]
      refine ⟨tokenOf W (terminated stale w) :: ts, rfl, by rw [length_cons, htl], ?_⟩
      intro i v hv
      cases i with
      | zero =>
        cases hv
        exact ⟨stale, rfl⟩
      | succ i => exact hget i v hv
    · intro hlt hle
      by_cases hn : n ≥ tokenContainerMaxSize
      · rw [if_pos hn]
      · rw [if_neg hn, hrest.2 (by omega) (by omega)]
        rfl

theorem tokenSplitCommon_words (stale : Nat → UInt8) (c : TokenContainerType) {line : List UInt8}
    (hlen : ∀ w ∈ tokenWords ex [] line, w.length < tokenStringMaxSize) :
    ((tokenWords ex [] line).length ≤ tokenContainerMaxSize → ∃ c',
      tokenSplitCommon W ex stale c line = some (.ok, c') ∧ c'.num = (tokenWords ex [] line).length ∧
        ∀ (i : Nat) w, (tokenWords ex [] line)[i]? = some w → ∃ st,
          c'.array i = (tokenOf W (terminated st w)).write (c.array i)) ∧
    (tokenContainerMaxSize < (tokenWords ex [] line).length → tokenSplitCommon W ex stale c line = none) := by
  have hgives := tokenSplitCommon_gives W ex stale c line
  have hwords := @splitOutcome_eq W stale 0 _ hlen
  rw [Nat.zero_add] at hwords
  constructor
  · intro hle
    obtain ⟨ts, hts, htl, hget⟩ := hwords.1 hle
    rw [hts] at hgives
    refine ⟨_, hgives, htl, fun i w hw => ?_⟩
    obtain ⟨st, hst⟩ := hget i w hw
    refine ⟨st, ?_⟩
    simp only [TokenContainerType.fill, hst]
  · intro hlt
    rw [hwords.2 hlt (Nat.zero_le _)] at hgives
    exact hgives

end Athrill
