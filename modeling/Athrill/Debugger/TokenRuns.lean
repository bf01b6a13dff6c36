import Mathlib.Data.Nat.Digits.Defs
import Athrill.Debugger.TokenView

/-!
# Runs and numerals (`lib/token.c`)

`token_split` and `token_split_with_delimiter` are one scanner, `token_split_common`. Main results:
`token_split_common_iff`, `set_token_number_iff`.
-/

namespace Athrill

open List Option Strtoul

variable {W : Nat} {ex : Option UInt8}

/-! ## The scanner -/

def tokenRuns (ex : Option UInt8) (line : List UInt8) : List (List UInt8) :=
  (line.splitOnP (isDelimiter ex)).filter (· ≠ [])

theorem modifyHead_nil_append (ws : List (List UInt8)) : ws.modifyHead ([] ++ ·) = ws := by
  cases ws <;> rfl

theorem tokenWords_eq (w line : List UInt8) : tokenWords ex w line =
    ((line.splitOnP (isDelimiter ex)).modifyHead (w ++ ·)).filter (· ≠ []) := by
  induction line generalizing w with
  | nil => by_cases hw : w = [] <;> simp [tokenWords, hw]
  | cons b rest ih =>
    rw [tokenWords, splitOnP_cons_eq_if_modifyHead]
    by_cases hb : isDelimiter ex b = true
    · rw [if_pos hb, if_pos hb, ih, modifyHead_nil_append]
      by_cases hw : w = [] <;> simp [hw]
    · rw [if_neg hb, if_neg hb, ih, modifyHead_modifyHead]
      simp [Function.comp_def]

theorem tokenWords_nil (line : List UInt8) : tokenWords ex [] line = tokenRuns ex line := by
  rw [tokenWords_eq, modifyHead_nil_append, tokenRuns]

theorem splitOutcome_outside {stale : Nat → UInt8} {n : Nat} {ws : List (List UInt8)}
    (hn : n ≤ tokenContainerMaxSize) :
    (splitOutcome W stale n ws = .outside ↔ tokenContainerMaxSize < n + ws.length ∧
      ∀ w ∈ ws.take (tokenContainerMaxSize + 1 - n), w.length < tokenStringMaxSize) ∧
    ∀ ts, splitOutcome W stale n ws = .tokens ts → ∀ w ∈ ws, w.length < tokenStringMaxSize := by
  induction ws generalizing stale n with
  | nil =>
    refine ⟨iff_of_false (fun h => by cases h) fun h => ?_, fun _ _ _ hw => by cases hw⟩
    rw [length_nil] at h
    omega
  | cons w ws ih =>
    rw [splitOutcome, Nat.succ_sub hn, take_succ_cons, forall_mem_cons, length_cons]
    by_cases hw : w.length ≥ tokenStringMaxSize
    · rw [if_pos hw]
      exact ⟨iff_of_false (fun h => by cases h) fun h => absurd h.2.1 (by omega), fun _ h => by cases h⟩
    · rw [if_neg hw]
      by_cases hfull : n ≥ tokenContainerMaxSize
      · rw [if_pos hfull, Nat.sub_eq_zero_of_le hfull, take_zero]
        exact ⟨iff_of_true rfl ⟨by omega, by omega, fun _ hw => by cases hw⟩, fun _ h => by cases h⟩
      · have hrest := @ih (terminated stale w).str (n + 1) (by omega)
        rw [Nat.add_sub_add_right] at hrest
        rw [if_neg hfull, forall_mem_cons]
        generalize splitOutcome W (terminated stale w).str (n + 1) ws = o at hrest
        refine ⟨?_, fun ts hts => ⟨by omega, ?_⟩⟩
        · have hcons : o.cons (tokenOf W (terminated stale w)) = .outside ↔ o = .outside := by
            cases o <;> simp [SplitOutcome.cons]
          rw [hcons, hrest.1, and_iff_right (show w.length < tokenStringMaxSize by omega)]
          exact and_congr_left' (by omega)
        · cases o with
          | invalid => cases hts
          | outside => cases hts
          | tokens ts' => exact hrest.2 ts' rfl

/-- The scanner stays in the container, accepts the lines whose runs fit, and gives each run its token. -/
def TokensKept (W : Nat) (ex : Option UInt8) (stale : Nat → UInt8) (c : TokenContainerType)
    (line : List UInt8) : Prop :=
  ∃ err c', tokenSplitCommon W ex stale c line = some (err, c') ∧
    (err = .ok ↔ (tokenRuns ex line).length ≤ tokenContainerMaxSize ∧
      ∀ w ∈ tokenRuns ex line, w.length < tokenStringMaxSize) ∧
    (err = .ok → c'.num = (tokenRuns ex line).length ∧ ∀ (i : Nat) w,
      (tokenRuns ex line)[i]? = some w →
        ∃ st, c'.array i = (tokenOf W (terminated st w)).write (c.array i))

theorem tokenSplitCommon_eq_none_iff (stale : Nat → UInt8) (c : TokenContainerType)
    (line : List UInt8) : tokenSplitCommon W ex stale c line = none ↔
      tokenContainerMaxSize < (tokenRuns ex line).length ∧
        ∀ w ∈ (tokenRuns ex line).take (tokenContainerMaxSize + 1), w.length < tokenStringMaxSize := by
  have hout := (@splitOutcome_outside W stale 0 (tokenRuns ex line) (Nat.zero_le _)).1
  have hgives := tokenSplitCommon_gives W ex stale c line
  rw [Nat.zero_add, Nat.sub_zero] at hout
  rw [tokenWords_nil] at hgives
  rw [← hout]
  cases ho : splitOutcome W stale 0 (tokenRuns ex line) with
  | invalid =>
    rw [ho] at hgives
    obtain ⟨c', hc'⟩ := hgives
    exact iff_of_false (hc' ▸ nofun) nofun
  | outside => exact iff_of_true (by rwa [ho] at hgives) rfl
  | tokens ts =>
    rw [ho] at hgives
    exact iff_of_false (hgives ▸ nofun) nofun

/-- The scanner does what is expected of it unless there are more runs than slots and the first one
without a slot is stored. -/
theorem token_split_common_iff (W : Nat) (ex : Option UInt8) (stale : Nat → UInt8)
    (c : TokenContainerType) (line : List UInt8) :
    TokensKept W ex stale c line ↔ ¬ (tokenContainerMaxSize < (tokenRuns ex line).length ∧
      ∀ w ∈ (tokenRuns ex line).take (tokenContainerMaxSize + 1), w.length < tokenStringMaxSize) := by
  rw [← @tokenSplitCommon_eq_none_iff W ex stale c]
  constructor
  · rintro ⟨err, c', hsplit, -⟩ hnone
    exact absurd (hnone.symm.trans hsplit) nofun
  · intro hsome
    by_cases hshort : ∀ w ∈ tokenRuns ex line, w.length < tokenStringMaxSize
    · have hwords := @tokenSplitCommon_words W ex stale c line
      rw [tokenWords_nil] at hwords
      have hle : (tokenRuns ex line).length ≤ tokenContainerMaxSize :=
        not_lt.1 fun hlt => hsome ((hwords hshort).2 hlt)
      obtain ⟨c', hsplit, hnum, harray⟩ := (hwords hshort).1 hle
      exact ⟨.ok, c', hsplit, iff_of_true rfl ⟨hle, hshort⟩, fun _ => ⟨hnum, harray⟩⟩
    · have hgives := tokenSplitCommon_gives W ex stale c line
      have hlong := (@splitOutcome_outside W stale 0 (tokenRuns ex line) (Nat.zero_le _)).2
      rw [tokenWords_nil] at hgives
      cases ho : splitOutcome W stale 0 (tokenRuns ex line) with
      | invalid =>
        rw [ho] at hgives
        obtain ⟨c', hsplit⟩ := hgives
        exact ⟨.invalid, c', hsplit, iff_of_false nofun fun h => hshort h.2, nofun⟩
      | outside => exact absurd (by rwa [ho] at hgives) hsome
      | tokens ts => exact absurd (hlong ts ho) hshort

/-- 129 runs: the last one is stored behind the container. -/
theorem token_split_common_behind : ¬ TokensKept 32 none (fun _ => 0) ⟨0, fun _ => ⟨.unknown, {}⟩⟩
    ((replicate 129 [97, 32]).flatten) := by
  rintro ⟨err, c', hsplit, -⟩
  refine absurd (hsplit.symm.trans ((tokenSplitCommon_eq_none_iff _ _ _).2 ?_)) nofun
  decide +kernel

/-! ## Numerals -/

def Numeral (base : Nat) (ds : List UInt8) (n : Nat) : Prop :=
  ds ≠ [] ∧ ∃ vs, ds.mapM (digitValue base) = some vs ∧ n = Nat.ofDigits base vs.reverse

/-- A decimal numeral, with or without a sign, and its value. -/
inductive Decimal : List UInt8 → Int → Prop
  | plain {ds : List UInt8} {n : Nat} : Numeral 10 ds n → Decimal ds n
  | plus {ds : List UInt8} {n : Nat} : Numeral 10 ds n → Decimal (43 :: ds) n
  | minus {ds : List UInt8} {n : Nat} : Numeral 10 ds n → Decimal (45 :: ds) (-n)

inductive Hexadecimal : List UInt8 → Nat → Prop
  | mk {ds : List UInt8} {n : Nat} : Numeral 16 ds n → Hexadecimal (48 :: 120 :: ds) n

theorem digits_foldlM (base : Nat) (ds : List UInt8) (a : Nat) :
    ds.foldlM (fun v b => (digitValue base b).map (v * base + ·)) a =
      (ds.mapM (digitValue base)).map fun vs =>
        a * base ^ vs.length + Nat.ofDigits base vs.reverse := by
  induction ds generalizing a with
  | nil => simp
  | cons b ds ih =>
    rw [foldlM_cons, mapM_cons]
    cases digitValue base b with
    | none => rfl
    | some d =>
      simp only [Option.map_some, Option.bind_eq_bind, Option.bind_some, ih, Option.pure_def]
      cases ds.mapM (digitValue base) with
      | none => rfl
      | some vs =>
        simp only [Option.map_some, Option.bind_some, length_cons, reverse_cons,
          Nat.ofDigits_append, Nat.ofDigits_singleton, length_reverse]
        congr 1
        ring

theorem digitsValue_eq_some_iff {base n : Nat} {ds : List UInt8} :
    digitsValue base ds = some n ↔ Numeral base ds n := by
  rw [digitsValue, Numeral]
  by_cases hds : ds = []
  · simp [hds]
  · simp [hds, digits_foldlM, eq_comm]

theorem Numeral.head {base n : Nat} {b : UInt8} {ds : List UInt8} (h : Numeral base (b :: ds) n) :
    digitValue base b ≠ none := by
  obtain ⟨-, vs, hvs, -⟩ := h
  intro hb
  simp [mapM_cons, hb] at hvs

theorem Numeral.unique {base n m : Nat} {ds : List UInt8} (hn : Numeral base ds n)
    (hm : Numeral base ds m) : n = m :=
  some.inj ((digitsValue_eq_some_iff.2 hn).symm.trans (digitsValue_eq_some_iff.2 hm))

theorem Decimal.unique {w : List UInt8} {n m : Int} (hn : Decimal w n) (hm : Decimal w m) : n = m := by
  cases hn with
  | plain hn =>
    cases hm with
    | plain hm => rw [hn.unique hm]
    | plus => exact absurd (by decide) hn.head
    | minus => exact absurd (by decide) hn.head
  | plus hn =>
    cases hm with
    | plain hm => exact absurd (by decide) hm.head
    | plus hm => rw [hn.unique hm]
  | minus hn =>
    cases hm with
    | plain hm => exact absurd (by decide) hm.head
    | minus hm => rw [hn.unique hm]

theorem Decimal.not_hexadecimal {w : List UInt8} {n : Int} {m : Nat} (h : Decimal w n) :
    ¬ Hexadecimal w m := by
  rintro ⟨hm⟩
  cases h with
  | plain hn =>
    obtain ⟨-, vs, hvs, -⟩ := hn
    simp [mapM_cons, show digitValue 10 120 = none by decide] at hvs

theorem strtol_eq_some_iff {w : List UInt8} {n : Int} :
    strtol w = some n ↔ Decimal w n ∧ -2 ^ 63 ≤ n ∧ n < 2 ^ 63 := by
  have hunsigned : ∀ ds, strtol.strtolUnsigned ds = some n ↔
      ∃ v : Nat, Numeral 10 ds v ∧ v = n ∧ -2 ^ 63 ≤ n ∧ n < 2 ^ 63 := by
    intro ds
    simp only [strtol.strtolUnsigned, ← digitsValue_eq_some_iff]
    cases digitsValue 10 ds with
    | none => simp
    | some v =>
      simp only [some.injEq, exists_eq_left']
      split_ifs with hv
      · rw [some.injEq, eq_comm]
        omega
      · simp; omega
  unfold strtol
  split
  · rename_i ds
    constructor
    · cases hv : digitsValue 10 ds with
      | none => nofun
      | some v =>
        intro h
        obtain ⟨hle, rfl⟩ : v ≤ 2 ^ 63 ∧ -(v : Int) = n := by simpa using h
        exact ⟨.minus (digitsValue_eq_some_iff.1 hv), by omega, by omega⟩
    · rintro ⟨h, hlo, hhi⟩
      cases h with
      | plain h => exact absurd (by decide) h.head
      | minus h =>
        rw [digitsValue_eq_some_iff.2 h]
        exact if_pos (by omega)
  · rename_i ds
    rw [hunsigned]
    constructor
    · rintro ⟨v, hv, rfl, hrange⟩
      exact ⟨.plus hv, hrange⟩
    · rintro ⟨h, hrange⟩
      cases h with
      | plain h => exact absurd (by decide) h.head
      | plus h => exact ⟨_, h, rfl, hrange⟩
  · rename_i hminus hplus
    rw [hunsigned]
    constructor
    · rintro ⟨v, hv, rfl, hrange⟩
      exact ⟨.plain hv, hrange⟩
    · rintro ⟨h, hrange⟩
      cases h with
      | plain h => exact ⟨_, h, rfl, hrange⟩
      | plus h => exact absurd rfl (hplus _)
      | minus h => exact absurd rfl (hminus _)

theorem strtoull_eq_some_iff {w : List UInt8} {n : Nat} :
    (w.length > 2 ∧ w.getD 0 0 = 48 ∧ w.getD 1 0 = 120) ∧ strtoull w = some n ↔
      Hexadecimal w n ∧ n < 2 ^ 64 := by
  have hread : ∀ ds, strtoull (48 :: 120 :: ds) = some n ↔ Numeral 16 ds n ∧ n < 2 ^ 64 := by
    intro ds
    rw [← digitsValue_eq_some_iff, strtoull, drop_succ_cons, drop_succ_cons, drop_zero]
    cases digitsValue 16 ds with
    | none => simp
    | some v =>
      simp only [ite_none_right_eq_some, some.injEq]
      omega
  constructor
  · rintro ⟨⟨hlen, h0, h1⟩, hread'⟩
    obtain _ | ⟨a, _ | ⟨b, ds⟩⟩ := w
    · cases hlen
    · simp at hlen
    · obtain rfl : a = 48 := h0
      obtain rfl : b = 120 := h1
      exact ⟨⟨((hread ds).1 hread').1⟩, ((hread ds).1 hread').2⟩
  · rintro ⟨⟨h⟩, hn⟩
    have hpos := length_pos_of_ne_nil h.1
    exact ⟨⟨by simp only [length_cons]; omega, rfl, rfl⟩, (hread _).2 ⟨h, hn⟩⟩

/-- A text taken for a number writes one, and the slot holds it; `field` reads the bits of `dec.value`. -/
def NumberKept (W : Nat) (field : Nat → Int) (stale : Nat → UInt8) (w : List UInt8) : Prop :=
  match tokenOf W (terminated stale w) with
  | .dec v => ∃ n, Decimal w n ∧ field v = n
  | .hex v => ∃ n, Hexadecimal w n ∧ v.toNat = n
  | .string _ => True

/-- The numerals that the readers take are in the range of the fields. -/
def NumeralFits (W : Nat) (lo hi : Int) (w : List UInt8) : Prop :=
  (∀ n, Decimal w n → -2 ^ 63 ≤ n → n < 2 ^ 63 → lo ≤ n ∧ n < hi) ∧
    ∀ n, Hexadecimal w n → n < 2 ^ 64 → n < 2 ^ W

theorem numberKept_iff {lo hi : Int} {field : Nat → Int} {stale : Nat → UInt8} {w : List UInt8}
    (hfield : ∀ n : Int, field (uint32OfInt n) = n ↔ lo ≤ n ∧ n < hi) :
    NumberKept W field stale w ↔ NumeralFits W lo hi w := by
  rw [NumberKept, tokenOf_terminated, wordView]
  cases hdec : strtol w with
  | some n =>
    obtain ⟨hn, hrange⟩ := strtol_eq_some_iff.1 hdec
    have huniq : ∀ {m}, Decimal w m → m = n := fun hm => hm.unique hn
    constructor
    · rintro ⟨m, hm, hval⟩
      cases huniq hm
      exact ⟨fun m' hm' _ _ => huniq hm' ▸ (hfield n).1 hval, fun m' hm' => absurd hm' hn.not_hexadecimal⟩
    · intro h
      exact ⟨n, hn, (hfield n).2 (h.1 n hn hrange.1 hrange.2)⟩
  | none =>
    have hnone : ∀ n, Decimal w n → -2 ^ 63 ≤ n → n < 2 ^ 63 → lo ≤ n ∧ n < hi := fun n hn hlo hhi =>
      by cases hdec.symm.trans (strtol_eq_some_iff.2 ⟨hn, hlo, hhi⟩)
    rw [NumeralFits, and_iff_right hnone]
    have hread := @strtoull_eq_some_iff w
    dsimp only
    split_ifs with hcond
    · cases hhex : strtoull w with
      | none =>
        refine iff_of_true trivial fun n hn hlt => ?_
        cases hhex.symm.trans (hread.2 ⟨hn, hlt⟩).2
      | some n =>
        obtain ⟨hn, hlt⟩ := hread.1 ⟨hcond, hhex⟩
        have huniq : ∀ {m}, Hexadecimal w m → m = n := fun hm => by
          cases hm with
          | mk hm =>
            cases hn with
            | mk hn => exact hm.unique hn
        constructor
        · rintro ⟨m, hm, hval⟩ m' hm' -
          cases huniq hm
          rw [huniq hm', ← hval]
          exact BitVec.isLt _
        · intro h
          exact ⟨n, hn, (BitVec.toNat_ofNat ..).trans (Nat.mod_eq_of_lt (h n hn hlt))⟩
    · refine iff_of_true trivial fun n hn hlt => ?_
      exact absurd (hread.2 ⟨hn, hlt⟩).1 hcond

/-- A slot holds the number that is written exactly if the numerals that the readers take are in the
range of its field: `dec.value` as the `uint32` that it is, and as the `int` that `%d` prints. -/
theorem set_token_number_iff (W : Nat) (stale : Nat → UInt8) (w : List UInt8) :
    (NumberKept W Int.ofNat stale w ↔ NumeralFits W 0 (2 ^ 32) w) ∧
      (NumberKept W intOfUint32 stale w ↔ NumeralFits W (-2 ^ 31) (2 ^ 31) w) := by
  refine ⟨numberKept_iff fun n => ?_, numberKept_iff fun n => ?_⟩
  · simp only [uint32OfInt, Int.ofNat_eq_natCast]
    omega
  · simp only [uint32OfInt, intOfUint32]
    split_ifs <;> omega

/-- `4294967296` is stored as 0, and `0x100000000` where an address has 32 bits. -/
theorem set_token_number_wraps :
    (let w := tokenName ['4', '2', '9', '4', '9', '6', '7', '2', '9', '6']
     tokenOf 64 (terminated (fun _ => 0) w) = .dec 0 ∧ ∀ field, field 0 = (0 : Int) →
        ¬ NumberKept 64 field (fun _ => 0) w) ∧
    (let w := tokenName ['0', 'x', '1', '0', '0', '0', '0', '0', '0', '0', '0']
     tokenOf 32 (terminated (fun _ => 0) w) = .hex 0 ∧ ∀ field, ¬ NumberKept 32 field (fun _ => 0) w) := by
  refine ⟨⟨rfl, fun field hfield h => ?_⟩, rfl, fun field h => ?_⟩
  · obtain ⟨n, hn, hval⟩ : ∃ n, Decimal _ n ∧ field 0 = n := h
    rw [hfield, hn.unique (m := 4294967296) (strtol_eq_some_iff.1 rfl).1] at hval
    exact absurd hval (by decide)
  · obtain ⟨n, hn, hval⟩ : ∃ n, Hexadecimal _ n ∧ (0 : BitVec 32).toNat = n := h
    cases hn with
    | mk hn =>
      rw [hn.unique (m := 4294967296) (digitsValue_eq_some_iff.1 rfl)] at hval
      exact absurd hval (by decide)

end Athrill
