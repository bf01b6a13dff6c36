import Athrill.StdTypes
import Athrill.Lib.FlatMemory
import Athrill.Lib.Strtoul

/-!
# Tokens (`lib/token.c`)

`token_split` cuts a line into words and leaves one token for each in the slots of a container that the
caller has not initialised.
-/

namespace Athrill

open List Function FlatMemory Strtoul

inductive TokenEnumType
  | valueHex
  | valueDec
  | string
  | unknown
  deriving DecidableEq, Repr

def tokenStringMaxSize : Nat := 4096

def tokenContainerMaxSize : Nat := 128

structure TokenStringType where
  len : Nat := 0
  str : Nat → UInt8 := fun _ => 0

/-- The union as the bytes of its string: `dec.value` lies on `len`, and `hex.value` may reach into `str`. -/
structure TokenValueType where
  type : TokenEnumType
  body : TokenStringType

structure TokenContainerType where
  num : Nat
  array : Nat → TokenValueType

namespace TokenStringType

def decValue (body : TokenStringType) : Nat := body.len

def hexValue (W : Nat) (body : TokenStringType) : AthrillAddrType W :=
  BitVec.ofNat W (body.len + 2 ^ 32 * Bytes.leValue (load body.str 0 (W / 8 - 4)))

def setDecValue (body : TokenStringType) (v : Nat) : TokenStringType := { body with len := v }

def setHexValue {W : Nat} (body : TokenStringType) (v : AthrillAddrType W) : TokenStringType where
  len := v.toNat % 2 ^ 32
  str := store body.str 0 (Bytes.leBytes (W / 8 - 4) (v.toNat / 2 ^ 32))

def bytes (s : TokenStringType) : List UInt8 := load s.str 0 s.len

end TokenStringType

/-- Whether `strncmp` of two strings gives 0: it ends at a NUL. -/
def strncmpEq (a b : Nat → UInt8) (n : Nat) : Bool :=
  (load a 0 n).takeWhile (· ≠ 0) = (load b 0 n).takeWhile (· ≠ 0)

def tokenStrcmp (str1 str2 : TokenStringType) : Bool :=
  str1.len = str2.len ∧ strncmpEq str1.str str2.str str1.len

/-- A constant token string, such as the names of the commands. -/
def tokenString (name : List UInt8) : TokenStringType := ⟨name.length, store (fun _ => 0) 0 name⟩

def tokenName (cs : List Char) : List UInt8 := cs.map fun c => UInt8.ofNat c.toNat

/-! ## Numbers -/

def strtol : List UInt8 → Option Int
  | 45 :: ds =>
    match digitsValue 10 ds with
    | some v => if v ≤ 2 ^ 63 then some (-v) else none
    | none => none
  | 43 :: ds => strtolUnsigned ds
  | ds => strtolUnsigned ds
where
  strtolUnsigned (ds : List UInt8) : Option Int :=
    match digitsValue 10 ds with
    | some v => if v < 2 ^ 63 then some v else none
    | none => none

def strtoull (s : List UInt8) : Option Nat :=
  match digitsValue 16 (s.drop 2) with
  | some v => if v < 2 ^ 64 then some v else none
  | none => none

/-! ## One token -/

inductive Token (W : Nat)
  | dec (value : Nat)
  | hex (value : AthrillAddrType W)
  | string (buffer : TokenStringType)

def tokenOf (W : Nat) (buffer : TokenStringType) : Token W :=
  match strtol buffer.bytes with
  | some v => .dec (uint32OfInt v)
  | none =>
    if buffer.len > 2 ∧ buffer.str 0 = 48 ∧ buffer.str 1 = 120 then
      match strtoull buffer.bytes with
      | some v => .hex (BitVec.ofNat W v)
      | none => .string buffer
    else .string buffer

def Token.write {W : Nat} (t : Token W) (slot : TokenValueType) : TokenValueType :=
  match t with
  | .dec v => { type := .valueDec, body := slot.body.setDecValue v }
  | .hex v => { type := .valueHex, body := slot.body.setHexValue v }
  | .string buffer => { type := .string, body := buffer }

def setToken (W : Nat) (c : TokenContainerType) (buffer : TokenStringType) :
    Option (TokenContainerType × TokenStringType) :=
  let inx := c.num - 1
  let buffer := { buffer with str := store buffer.str buffer.len [0] }
  if inx < tokenContainerMaxSize then
    some ({ c with array := update c.array inx ((tokenOf W buffer).write (c.array inx)) },
      buffer)
  else none

/-! ## `token_split` -/

def isDelimiter (ex : Option UInt8) (b : UInt8) : Bool :=
  (9 ≤ b ∧ b ≤ 13) ∨ b = 32 ∨ b = 44 ∨ b = 58 ∨ b = 0 ∨ ex = some b

theorem isDelimiter_zero {ex : Option UInt8} : isDelimiter ex 0 = true := by simp [isDelimiter]

inductive TokenCheckStateType
  | demiliter
  | code
  deriving DecidableEq, Repr

def TokenStringType.push (buffer : TokenStringType) (b : UInt8) : TokenStringType where
  len := buffer.len + 1
  str := store buffer.str buffer.len [b]

def tokenSplitCommonLoop (W : Nat) (ex : Option UInt8) : List UInt8 → TokenCheckStateType →
    TokenStringType → TokenContainerType → Option (StdReturnType × TokenContainerType)
  | [], _, _, c => some (.ok, c)
  | b :: rest, .demiliter, buffer, c =>
    if isDelimiter ex b then tokenSplitCommonLoop W ex rest .demiliter buffer c
    else if c.num > tokenContainerMaxSize then some (.invalid, c)
    else
      let c := { c with num := c.num + 1 }
      let buffer := buffer.push b
      if rest = [] then (setToken W c buffer).map fun p => (.ok, p.1)
      else tokenSplitCommonLoop W ex rest .code buffer c
  | b :: rest, .code, buffer, c =>
    if isDelimiter ex b then
      match setToken W c buffer with
      | none => none
      | some (c, buffer) => tokenSplitCommonLoop W ex rest .demiliter { buffer with len := 0 } c
    else if buffer.len ≥ tokenStringMaxSize - 1 then some (.invalid, c)
    else
      let buffer := buffer.push b
      if rest = [] then (setToken W c buffer).map fun p => (.ok, p.1)
      else tokenSplitCommonLoop W ex rest .code buffer c

/-- `ex` is the delimiter of `token_split_with_delimiter`; `token_split` has none. -/
def tokenSplitCommon (W : Nat) (ex : Option UInt8) (stale : Nat → UInt8) (c : TokenContainerType)
    (line : List UInt8) : Option (StdReturnType × TokenContainerType) :=
  tokenSplitCommonLoop W ex line .demiliter { len := 0, str := stale } { c with num := 0 }

def tokenSplit (W : Nat) : (Nat → UInt8) → TokenContainerType → List UInt8 →
    Option (StdReturnType × TokenContainerType) := tokenSplitCommon W none

/-! ## Merging -/

def tokenMerge (dest src : TokenStringType) : TokenStringType :=
  if dest.len + src.len > tokenStringMaxSize - 1 then dest
  else
    { len := dest.len + src.len
      str := store dest.str dest.len (src.bytes ++ [0]) }

def tokenText (W : Nat) (t : TokenValueType) : Option (List UInt8) :=
  match t.type with
  | .string => some ((load t.body.str 0 tokenStringMaxSize).takeWhile (· ≠ 0) ++ [32])
  | .valueDec =>
    let v := intOfUint32 t.body.decValue
    let sign := if v < 0 then ['-'] else []
    some (tokenName (sign ++ Nat.toDigits 10 v.natAbs ++ [' ']))
  | .valueHex =>
    some (tokenName (['0', 'x'] ++ Nat.toDigits 16 (t.body.hexValue W).toNat ++ [' ']))
  | .unknown => none

def mergeToken (W : Nat) (c : TokenContainerType) (out : TokenStringType) (i : Nat) :
    Option TokenStringType :=
  match tokenText W (c.array i) with
  | none => some out
  | some text =>
    if (c.array i).type = .string ∧ text.length ≥ tokenStringMaxSize then none
    else
      some (tokenMerge out { len := text.length, str := store (fun _ => 0) 0 text })

def tokenSplitMerge (W : Nat) (c : TokenContainerType) (startIndex : Nat) (out : TokenStringType) :
    Option TokenStringType :=
  (range' startIndex (c.num - startIndex)).foldlM (mergeToken W c) out

def tokenTrimNewline (t : TokenStringType) : TokenStringType :=
  { t with len := (t.bytes.takeWhile fun c => c ≠ 13 ∧ c ≠ 10 ∧ c ≠ 32).length }

/-! ## The words of a line -/

def tokenWords (ex : Option UInt8) (w : List UInt8) : List UInt8 → List (List UInt8)
  | [] => if w = [] then [] else [w]
  | b :: rest =>
    if isDelimiter ex b then (if w = [] then [] else [w]) ++ tokenWords ex [] rest
    else tokenWords ex (w ++ [b]) rest

def bufferOf (stale : Nat → UInt8) (w : List UInt8) : TokenStringType where
  len := w.length
  str := store stale 0 w

def terminated (stale : Nat → UInt8) (w : List UInt8) : TokenStringType where
  len := w.length
  str := store stale 0 (w ++ [0])

inductive SplitOutcome (W : Nat)
  | invalid
  | outside
  | tokens (ts : List (Token W))

def SplitOutcome.cons {W : Nat} (t : Token W) : SplitOutcome W → SplitOutcome W
  | .invalid => .invalid
  | .outside => .outside
  | .tokens ts => .tokens (t :: ts)

def splitOutcome (W : Nat) (stale : Nat → UInt8) (n : Nat) : List (List UInt8) → SplitOutcome W
  | [] => .tokens []
  | w :: ws =>
    if w.length ≥ tokenStringMaxSize then .invalid
    else if n ≥ tokenContainerMaxSize then .outside
    else
      (splitOutcome W (terminated stale w).str (n + 1) ws).cons (tokenOf W (terminated stale w))

def TokenContainerType.add {W : Nat} (c : TokenContainerType) (t : Token W) : TokenContainerType where
  num := c.num + 1
  array := update c.array c.num (t.write (c.array c.num))

def TokenContainerType.fill {W : Nat} (c : TokenContainerType) (ts : List (Token W)) :
    TokenContainerType where
  num := ts.length
  array := fun i =>
    match ts[i]? with
    | some t => t.write (c.array i)
    | none => c.array i

def SplitOutcome.Gives {W : Nat} (o : SplitOutcome W) (c : TokenContainerType)
    (r : Option (StdReturnType × TokenContainerType)) : Prop :=
  match o with
  | .invalid => ∃ c', r = some (.invalid, c')
  | .outside => r = none
  | .tokens ts => r = some (.ok, ts.foldl TokenContainerType.add c)

section
variable {W : Nat} {ex : Option UInt8} {stale : Nat → UInt8} {c : TokenContainerType} {w : List UInt8} {b : UInt8}

@[simp] theorem bufferOf_nil : bufferOf stale [] = { len := 0, str := stale } := by
  simp [bufferOf]

theorem store_bufferOf :
    store (bufferOf stale w).str (bufferOf stale w).len [b] =
      store stale 0 (w ++ [b]) := by
  simpa [bufferOf] using @FlatMemory.store_append stale 0 w [b]

theorem bufferOf_push : (bufferOf stale w).push b = bufferOf stale (w ++ [b]) := by
  rw [TokenStringType.push, store_bufferOf]
  simp [bufferOf]

theorem setToken_bufferOf (hn : c.num < tokenContainerMaxSize) :
    setToken W { c with num := c.num + 1 } (bufferOf stale w) =
      some (c.add (tokenOf W (terminated stale w)), terminated stale w) := by
  simp only [setToken, store_bufferOf, Nat.add_sub_cancel, if_pos hn]
  rfl

theorem setToken_outside (hn : tokenContainerMaxSize ≤ c.num) (buffer : TokenStringType) :
    setToken W { c with num := c.num + 1 } buffer = none :=
  if_neg (by simpa using hn)

theorem SplitOutcome.Gives.cons {o : SplitOutcome W} {t : Token W}
    {r : Option (StdReturnType × TokenContainerType)} (h : o.Gives (c.add t) r) :
    (o.cons t).Gives c r := by
  cases o <;> exact h

theorem gives_word {ws : List (List UInt8)} {r : Option (StdReturnType × TokenContainerType)}
    (hw : w.length < tokenStringMaxSize) (hin : c.num < tokenContainerMaxSize →
      (splitOutcome W (terminated stale w).str (c.num + 1) ws).Gives
        (c.add (tokenOf W (terminated stale w))) r) (hout : tokenContainerMaxSize ≤ c.num → r = none) :
    (splitOutcome W stale c.num (w :: ws)).Gives c r := by
  rw [splitOutcome, if_neg (by omega)]
  split_ifs with hn
  · exact hout hn
  · exact (hin (by omega)).cons

theorem tokenWords_of_ne_nil (hw : w ≠ []) (bs : List UInt8) :
    ∃ w' ws, tokenWords ex w bs = w' :: ws ∧ w.length ≤ w'.length := by
  induction bs generalizing w with
  | nil => exact ⟨w, [], if_neg hw, le_rfl⟩
  | cons b bs ih =>
    rw [tokenWords]
    split_ifs
    · exact ⟨w, tokenWords ex [] bs, rfl, le_rfl⟩
    · obtain ⟨w', ws, heq, hle⟩ := ih (w := w ++ [b]) (by simp)
      exact ⟨w', ws, heq, by simp at hle; omega⟩

theorem splitOutcome_of_long (hw : w.length ≥ tokenStringMaxSize) (bs : List UInt8) (n : Nat) :
    splitOutcome W stale n (tokenWords ex w bs) = .invalid := by
  have hne : w ≠ [] := by
    rintro rfl
    exact absurd hw (by decide)
  obtain ⟨w', ws, heq, hle⟩ := tokenWords_of_ne_nil hne bs
  rw [heq, splitOutcome, if_pos (hw.trans hle)]

theorem tokenSplitCommonLoop_gives (bs : List UInt8) :
    (∀ stale c, c.num ≤ tokenContainerMaxSize →
      (splitOutcome W stale c.num (tokenWords ex [] bs)).Gives c
        (tokenSplitCommonLoop W ex bs .demiliter { len := 0, str := stale } c)) ∧
    (∀ stale c w, w ≠ [] → w.length < tokenStringMaxSize → bs ≠ [] →
      c.num ≤ tokenContainerMaxSize →
      (splitOutcome W stale c.num (tokenWords ex w bs)).Gives c
        (tokenSplitCommonLoop W ex bs .code (bufferOf stale w) { c with num := c.num + 1 })) := by
  induction bs with
  | nil => exact ⟨fun _ _ _ => rfl, fun _ _ _ _ _ h => absurd rfl h⟩
  | cons b bs ih =>
    -- A byte that belongs to a word: the word so far is `w`, and `w ++ [b]` fits.
    have hgrow : ∀ stale (c : TokenContainerType) w, (w ++ [b]).length < tokenStringMaxSize →
        c.num ≤ tokenContainerMaxSize →
        (splitOutcome W stale c.num (tokenWords ex (w ++ [b]) bs)).Gives c
          (if bs = [] then
            (setToken W { c with num := c.num + 1 } ((bufferOf stale w).push b)).map
              fun p => (.ok, p.1)
          else tokenSplitCommonLoop W ex bs .code ((bufferOf stale w).push b)
            { c with num := c.num + 1 }) := by
      intro stale c w hlen hnum
      rw [bufferOf_push]
      split_ifs with hbs
      · subst hbs
        rw [tokenWords, if_neg (by simp)]
        refine gives_word hlen (fun hn => ?_) (fun hn => ?_)
        · rw [setToken_bufferOf hn]
          rfl
        · rw [setToken_outside hn]
          rfl
      · exact ih.2 stale c (w ++ [b]) (by simp) hlen hbs hnum
    refine ⟨fun stale c hnum => ?_, fun stale c w hw hlen _ hnum => ?_⟩
    · rw [tokenSplitCommonLoop, tokenWords]
      by_cases hd : isDelimiter ex b = true
      · rw [if_pos hd, if_pos hd]
        exact ih.1 stale c hnum
      · rw [if_neg hd, if_neg hd, if_neg (not_lt.2 hnum), ← bufferOf_nil]
        exact hgrow stale c [] (by simp [tokenStringMaxSize]) hnum
    · rw [tokenSplitCommonLoop, tokenWords]
      by_cases hd : isDelimiter ex b = true
      · rw [if_pos hd, if_pos hd, if_neg hw]
        refine gives_word hlen (fun hn => ?_) (fun hn => ?_)
        · rw [setToken_bufferOf hn]
          exact ih.1 _ (c.add (tokenOf W (terminated stale w))) hn
        · rw [setToken_outside hn]
      · rw [if_neg hd, if_neg hd]
        by_cases hlong : (bufferOf stale w).len ≥ tokenStringMaxSize - 1
        · have hlen' : (w ++ [b]).length ≥ tokenStringMaxSize := by
            rw [length_append, length_singleton]
            exact Nat.sub_le_iff_le_add.1 hlong
          rw [if_pos hlong, splitOutcome_of_long hlen']
          exact ⟨_, rfl⟩
        · rw [if_neg hlong]
          have hlen' : (w ++ [b]).length < tokenStringMaxSize := by
            rw [length_append, length_singleton]
            exact Nat.add_lt_of_lt_sub (not_le.1 hlong)
          exact hgrow stale c w hlen' hnum

theorem add_num (c : TokenContainerType) (t : Token W) : (c.add t).num = c.num + 1 := rfl

theorem foldl_add_num (ts : List (Token W)) (c : TokenContainerType) :
    (ts.foldl TokenContainerType.add c).num = c.num + ts.length := by
  induction ts generalizing c with
  | nil => rfl
  | cons t ts ih =>
    rw [foldl_cons, ih, length_cons, add_num]
    omega

theorem foldl_add_array_of_lt {i : Nat} (ts : List (Token W)) (hi : i < c.num) :
    (ts.foldl TokenContainerType.add c).array i = c.array i := by
  induction ts generalizing c with
  | nil => rfl
  | cons t ts ih =>
    rw [foldl_cons, ih (Nat.lt_succ_of_lt hi)]
    exact update_of_ne (Nat.ne_of_lt hi) _ _

theorem foldl_add_array (ts : List (Token W)) (c : TokenContainerType) (k : Nat) :
    (ts.foldl TokenContainerType.add c).array (c.num + k) =
      match ts[k]? with
      | some t => t.write (c.array (c.num + k))
      | none => c.array (c.num + k) := by
  induction ts generalizing c k with
  | nil => rfl
  | cons t ts ih =>
    rw [foldl_cons]
    cases k with
    | zero =>
      rw [foldl_add_array_of_lt ts (Nat.lt_succ_self c.num)]
      exact update_self ..
    | succ k =>
      have hne : c.num + (k + 1) ≠ c.num := by omega
      have hslot : (c.add t).array (c.num + (k + 1)) = c.array (c.num + (k + 1)) :=
        update_of_ne hne _ _
      have hk := ih (c.add t) k
      rw [add_num, Nat.add_assoc, Nat.add_comm 1 k, hslot] at hk
      exact hk

theorem foldl_add_eq_fill (ts : List (Token W)) (c : TokenContainerType) :
    ts.foldl TokenContainerType.add { c with num := 0 } = c.fill ts := by
  have hnum := foldl_add_num ts { c with num := 0 }
  have harray := foldl_add_array ts { c with num := 0 }
  generalize ts.foldl TokenContainerType.add { c with num := 0 } = c' at hnum harray
  obtain ⟨num, array⟩ := c'
  simp only [Nat.zero_add] at hnum harray
  simp only [TokenContainerType.fill, hnum, TokenContainerType.mk.injEq, true_and]
  exact funext harray

end

theorem tokenSplitCommon_gives (W : Nat) (ex : Option UInt8) (stale : Nat → UInt8) (c : TokenContainerType) (line : List UInt8) :
    match splitOutcome W stale 0 (tokenWords ex [] line) with
    | .invalid => ∃ c', tokenSplitCommon W ex stale c line = some (.invalid, c')
    | .outside => tokenSplitCommon W ex stale c line = none
    | .tokens ts => tokenSplitCommon W ex stale c line = some (.ok, c.fill ts) := by
  have h : (splitOutcome W stale 0 (tokenWords ex [] line)).Gives { c with num := 0 }
      (tokenSplitCommon W ex stale c line) :=
    (tokenSplitCommonLoop_gives line).1 stale { c with num := 0 } (Nat.zero_le _)
  cases ho : splitOutcome W stale 0 (tokenWords ex [] line) with
  | invalid => rwa [ho] at h
  | outside => rwa [ho] at h
  | tokens ts =>
    rw [ho, SplitOutcome.Gives, foldl_add_eq_fill] at h
    exact h

end Athrill
