import Athrill.Debugger.Parser
import Athrill.Debugger.TokenString

/-!
# What stale tokens can do

`dbg_parse` does not initialise its `token_container`, so its slots hold what the last call left on the
stack. Main result: `dbg_parse_determined_iff`.
-/

namespace Athrill

open List FlatMemory TokenContainerType TokenStringType

/-! ## Slots that look the same -/

structure SlotAgree (W : Nat) (a b : TokenValueType) : Prop where
  type : a.type = b.type
  dec : a.body.decValue = b.body.decValue
  string : a.type = .string → a.body = b.body
  hex : a.type = .valueHex → a.body.hexValue W = b.body.hexValue W

structure Agree (W : Nat) (c c' : TokenContainerType) : Prop where
  num : c.num = c'.num
  slot : ∀ i < c.num, SlotAgree W (c.array i) (c'.array i)

section
variable {W : Nat}

theorem hexValue_setHexValue (body body' : TokenStringType) (v : AthrillAddrType W) :
    (body.setHexValue v).hexValue W = (body'.setHexValue v).hexValue W := by
  have hload : ∀ byte : Nat → UInt8,
      load (store byte 0 (Bytes.leBytes (W / 8 - 4) (v.toNat / 2 ^ 32))) 0
        (W / 8 - 4) = Bytes.leBytes (W / 8 - 4) (v.toNat / 2 ^ 32) := by
    intro byte
    have hself := load_store_self byte (Bytes.leBytes (W / 8 - 4) (v.toNat / 2 ^ 32))
    rwa [Bytes.length_leBytes] at hself
  simp only [hexValue, setHexValue, hload]

theorem Token.write_agree (t : Token W) (a b : TokenValueType) :
    SlotAgree W (t.write a) (t.write b) := by
  cases t with
  | dec v => exact ⟨rfl, rfl, nofun, nofun⟩
  | hex v => exact ⟨rfl, rfl, nofun, fun _ => hexValue_setHexValue a.body b.body v⟩
  | string buffer => exact ⟨rfl, rfl, fun _ => rfl, nofun⟩

theorem fill_array {c : TokenContainerType} {ts : List (Token W)} {i : Nat} (hi : i < ts.length) :
    (c.fill ts).array i = ts[i].write (c.array i) := by
  simp only [fill, getElem?_eq_getElem hi]

theorem fill_agree (c c' : TokenContainerType) (ts : List (Token W)) :
    Agree W (c.fill ts) (c'.fill ts) := by
  refine ⟨rfl, fun i hi => ?_⟩
  rw [fill_array hi, fill_array hi]
  exact Token.write_agree _ _ _

end

/-! ## Parsers that look at the tokens only -/

section
variable {W : Nat} {c c' : TokenContainerType} {i : Nat} (arg : DbgCmdExecutorType W)

section
variable (h : Agree W c c')
include h

@[grind →] theorem Agree.num_eq : c.num = c'.num := h.num

@[grind .] theorem Agree.type (hi : i < c.num) :
    (c.array i).type = (c'.array i).type := (h.slot i hi).type

@[grind .] theorem Agree.dec (hi : i < c.num) :
    (c.array i).body.decValue = (c'.array i).body.decValue := (h.slot i hi).dec

@[grind .] theorem Agree.string (hi : i < c.num) (ht : (c.array i).type = .string) :
    (c.array i).body = (c'.array i).body :=
  (h.slot i hi).string ht

@[grind .] theorem Agree.hex (hi : i < c.num) (ht : (c.array i).type = .valueHex) :
    (c.array i).body.hexValue W = (c'.array i).body.hexValue W := (h.slot i hi).hex ht

@[grind .] theorem Agree.isName (hi : i < c.num) (ht : (c.array i).type = .string) (names : List (List UInt8)) :
    c.isName i names = c'.isName i names := by
  rw [TokenContainerType.isName, TokenContainerType.isName, h.string hi ht]

theorem dbgParseSingle_congr (names : List (List UInt8)) (id : DbgCmdStdIdType) :
    dbgParseSingle names id arg c = dbgParseSingle names id arg c' := by
  grind [dbgParseSingle]

theorem dbgParseDelete_congr : dbgParseDelete arg c = dbgParseDelete arg c' := by
  grind [dbgParseDelete]

theorem dbgParseIntr_congr : dbgParseIntr arg c = dbgParseIntr arg c' := by
  grind [dbgParseIntr]

theorem watchSet_congr : watchSet arg c = watchSet arg c' := by
  grind [watchSet]

theorem watchTypeOf_congr (hn : 1 < c.num) (ht : (c.array 1).type = .string) :
    watchTypeOf c = watchTypeOf c' := by
  grind [watchTypeOf]

theorem dbgParseWatchData_congr :
    dbgParseWatchData arg c = dbgParseWatchData arg c' := by
  have hset := fun arg : DbgCmdExecutorType W => watchSet_congr arg h
  grind [dbgParseWatchData, watchTypeOf_congr]

theorem dbgParseCont_congr (hn : c.num ≠ 0) :
    dbgParseCont arg c = dbgParseCont arg c' := by
  grind [dbgParseCont]

theorem dbgParseCore_congr (coreNum : Nat) :
    dbgParseCore arg c coreNum = dbgParseCore arg c' coreNum := by
  grind [dbgParseCore, coreArgsOk]

theorem dbgParsePrint_congr : dbgParsePrint arg c = dbgParsePrint arg c' := by
  grind [dbgParsePrint]

theorem dbgParseMemset_congr : dbgParseMemset arg c = dbgParseMemset arg c' := by
  grind [dbgParseMemset]

theorem dbgParseInfoCpu_congr :
    dbgParseInfoCpu arg c = dbgParseInfoCpu arg c' := by
  grind [dbgParseInfoCpu]

theorem dbgParseFuncTrace_congr :
    dbgParseFuncTrace arg c = dbgParseFuncTrace arg c' := by
  grind [dbgParseFuncTrace]

theorem dbgParseDataAccessInfo_congr :
    dbgParseDataAccessInfo arg c = dbgParseDataAccessInfo arg c' := by
  grind [dbgParseDataAccessInfo]

theorem dbgParseHelp_congr : dbgParseHelp arg c = dbgParseHelp arg c' := by
  grind [dbgParseHelp]

theorem dbgParseBreak_congr
  (hinfo : c.num = 2 ∨ c.num = 3 → (c.array 0).type = .string →
      c.isName 0 [breakInfoString] = true →
      c.isName 1 [breakString] = c'.isName 1 [breakString]) :
    dbgParseBreak arg c = dbgParseBreak arg c' := by
  grind [dbgParseBreak]

end

end

/-! ## Merging the input of `serial` -/

section
variable {W : Nat} {c c' : TokenContainerType}

theorem tokenText_congr {a b : TokenValueType} (h : SlotAgree W a b) :
    tokenText W a = tokenText W b := by
  unfold tokenText
  rw [← h.type]
  cases ht : a.type with
  | string => rw [h.string ht]
  | valueDec => rw [h.dec]
  | valueHex => rw [h.hex ht]
  | unknown => rfl

theorem mergeToken_congr (h : Agree W c c') {i : Nat} (hi : i < c.num) (out : TokenStringType) :
    mergeToken W c out i = mergeToken W c' out i := by
  unfold mergeToken
  rw [tokenText_congr (h.slot i hi), h.type hi]

theorem foldlM_congr {α β : Type} {f g : β → α → Option β} {l : List α}
    (h : ∀ i ∈ l, ∀ out, f out i = g out i) (out : β) : l.foldlM f out = l.foldlM g out := by
  induction l generalizing out with
  | nil => rfl
  | cons i l ih =>
    rw [foldlM_cons, foldlM_cons, h i (.head _) out]
    exact congrArg _ (funext fun out => ih (fun j hj => h j (.tail _ hj)) out)

theorem tokenSplitMerge_congr (h : Agree W c c') (start : Nat) (out : TokenStringType) :
    tokenSplitMerge W c start out = tokenSplitMerge W c' start out := by
  unfold tokenSplitMerge
  rw [← h.num]
  refine foldlM_congr (fun i hi out => mergeToken_congr h ?_ out) out
  have := mem_range'_1.1 hi
  omega

theorem dbgParseSerialin_congr (arg : DbgCmdExecutorType W) (h : Agree W c c') :
    dbgParseSerialin arg c = dbgParseSerialin arg c' := by
  have hmerge := tokenSplitMerge_congr h 2 arg.parsedArgs.serialin.input
  grind [dbgParseSerialin]

end

/-! ## Strings of a line -/

section
variable {W : Nat}

theorem tokenOf_eq_string {buffer b : TokenStringType} (h : tokenOf W buffer = .string b) :
    b = buffer := by
  unfold tokenOf at h
  split at h
  · cases h
  · split_ifs at h
    · split at h <;> cases h
      rfl
    · cases h
      rfl

theorem splitOutcome_terminated {stale : Nat → UInt8} {n : Nat} {ws : List (List UInt8)}
    {ts : List (Token W)} (hws : ∀ w ∈ ws, 0 ∉ w) (h : splitOutcome W stale n ws = .tokens ts) :
    ∀ b, Token.string b ∈ ts → b.Terminated := by
  induction ws generalizing stale n ts with
  | nil => cases h; exact fun _ hb => nomatch hb
  | cons w ws ih =>
    rw [splitOutcome] at h
    split_ifs at h with hlen hn
    cases hrest : splitOutcome W (terminated stale w).str (n + 1) ws with
    | invalid => rw [hrest] at h; cases h
    | outside => rw [hrest] at h; cases h
    | tokens ts' =>
      rw [hrest] at h
      cases h
      intro b hb
      rcases mem_cons.1 hb with hb | hb
      · rw [tokenOf_eq_string hb.symm]
        exact (terminatedFrom_terminated (not_le.1 hlen) (hws w (.head _)) 0).1
      · exact ih (fun w' hw' => hws w' (.tail _ hw')) hrest b hb

end

/-! ## Numbers over strings -/

def Token.LeavesOpen {W : Nat} (t : Token W) (name : List UInt8) : Prop :=
  match t with
  | .dec v => v = name.length
  | .hex v =>
    v.toNat % 2 ^ 32 = name.length ∧ Bytes.leBytes (W / 8 - 4) (v.toNat / 2 ^ 32) <+: name ∧
      Bytes.leBytes (W / 8 - 4) (v.toNat / 2 ^ 32) ≠ name
  | .string _ => False

section
variable {W : Nat} {name : List UInt8}

theorem isName_iff {c : TokenContainerType} {i : Nat} {names : List (List UInt8)}
    (h : ∀ name ∈ names, 0 ∉ (c.array i).body.bytes ∨ 0 ∉ name) :
    c.isName i names = true ↔ (c.array i).body.bytes ∈ names := by
  simp only [isName, any_eq_true]
  constructor
  · rintro ⟨name, hmem, hname⟩
    rw [tokenStrcmp_iff (by simpa using h name hmem), bytes_tokenString] at hname
    exact hname ▸ hmem
  · intro hmem
    refine ⟨_, hmem, (tokenStrcmp_iff ?_).2 (bytes_tokenString _).symm⟩
    simpa using h _ hmem

theorem isName_iff_of_names {c : TokenContainerType} {i : Nat} {names : List (List UInt8)}
    (h : ∀ name ∈ names, 0 ∉ name) : c.isName i names = true ↔ (c.array i).body.bytes ∈ names :=
  isName_iff fun name hmem => .inr (h name hmem)

theorem load_store (byte : Nat → UInt8) (p : List UInt8) (m : Nat) :
    load (store byte 0 p) 0 m =
      p.take m ++ load byte p.length (m - p.length) := by
  refine ext_getElem (by simp [load]; omega) fun i h₁ h₂ => ?_
  have hread : (load (store byte 0 p) 0 m)[i] = store byte 0 p i := by
    simp [load]
  have him : i < m := by simpa [load] using h₁
  rw [hread]
  by_cases hi : i < p.length
  · rw [getElem_append_left (by simp; omega), getElem_take]
    simpa using @FlatMemory.store_add byte 0 p i hi
  · rw [getElem_append_right (by simp; omega), store_of_not_mem (by omega)]
    simp only [load, getElem_map, getElem_range, length_take]
    congr 1
    omega

theorem bytes_eq_of_not_open {byte byte' : Nat → UInt8} {n : Nat} {p : List UInt8}
    (hopen : ¬ (n = name.length ∧ p <+: name ∧ p ≠ name))
    (h : bytes { len := n, str := store byte 0 p } = name) :
    bytes { len := n, str := store byte' 0 p } = name := by
  simp only [bytes, load_store] at h ⊢
  rcases Nat.lt_or_ge p.length n with hlt | hge
  · -- the comparison reads behind the stored bytes, so they are the first of the name
    rw [take_of_length_le (by omega)] at h
    have hlen : n = name.length := by
      rw [← h]
      simp [load]
      omega
    refine absurd ⟨hlen, ⟨_, h⟩, fun heq => ?_⟩ hopen
    rw [heq] at hlt
    omega
  · rw [Nat.sub_eq_zero_of_le hge] at h ⊢
    exact h

theorem write_isName_congr {t : Token W} (hopen : ¬ t.LeavesOpen name) (a b : TokenValueType) :
    (t.write a).body.bytes = name ↔ (t.write b).body.bytes = name := by
  cases t with
  | dec v =>
    have hopen' : ¬ (v = name.length ∧ [] <+: name ∧ [] ≠ name) := fun h => hopen h.1
    have hkeep : ∀ byte byte' : Nat → UInt8,
        bytes { len := v, str := byte } = name →
          bytes { len := v, str := byte' } = name := fun byte byte' h => by
      simpa using @bytes_eq_of_not_open name byte byte' v [] hopen' (by simpa using h)
    exact ⟨hkeep _ _, hkeep _ _⟩
  | hex v => exact ⟨bytes_eq_of_not_open hopen, bytes_eq_of_not_open hopen⟩
  | string buffer => exact Iff.rfl

theorem exists_bytes_of_open {n : Nat} {p : List UInt8} (hn : n = name.length) (hp : p <+: name)
    (hne : p ≠ name) (hzero : 0 ∉ name) :
    (∃ byte, bytes { len := n, str := store byte 0 p } = name) ∧
      ∃ byte, bytes { len := n, str := store byte 0 p } ≠ name := by
  obtain ⟨r, rfl⟩ := hp
  have hr : r ≠ [] := by rintro rfl; simp at hne
  have hread : ∀ byte : Nat → UInt8,
      bytes { len := n, str := store byte 0 p } =
        p ++ load byte p.length r.length := by
    intro byte
    rw [bytes, load_store]
    simp only [hn, length_append, Nat.add_sub_cancel_left]
    rw [take_of_length_le (by omega)]
  refine ⟨⟨fun i => (p ++ r).getD i 0, ?_⟩, ⟨fun _ => 0, fun heq => ?_⟩⟩
  · rw [hread]
    congr 1
    refine ext_getElem (by simp [load]) fun i _ hi => ?_
    simp [load, getElem?_append_right, hi]
  · rw [hread, append_cancel_left_eq] at heq
    obtain ⟨b, r, rfl⟩ := exists_cons_of_ne_nil hr
    have hhead : b = 0 := by
      have hget := congrArg (·[0]?) heq
      simpa [load] using hget.symm
    exact hzero (by simp [hhead])

theorem exists_write_of_open {t : Token W} (hopen : t.LeavesOpen name) (hname : name ≠ [])
    (hzero : 0 ∉ name) :
    ∃ a b, (t.write a).body.bytes = name ∧ (t.write b).body.bytes ≠ name := by
  have hslot : ∀ byte : Nat → UInt8, ∃ a : TokenValueType, a.body.str = byte := fun byte =>
    ⟨{ type := .unknown, body := { len := 0, str := byte } }, rfl⟩
  cases t with
  | dec v =>
    obtain ⟨⟨byte, h⟩, ⟨byte', h'⟩⟩ :=
      exists_bytes_of_open hopen List.nil_prefix hname.symm hzero
    rw [store_nil] at h h'
    obtain ⟨⟨a, rfl⟩, ⟨b, rfl⟩⟩ := And.intro (hslot byte) (hslot byte')
    exact ⟨a, b, h, h'⟩
  | hex v =>
    obtain ⟨⟨byte, h⟩, ⟨byte', h'⟩⟩ := exists_bytes_of_open hopen.1 hopen.2.1 hopen.2.2 hzero
    obtain ⟨⟨a, rfl⟩, ⟨b, rfl⟩⟩ := And.intro (hslot byte) (hslot byte')
    exact ⟨a, b, h, h'⟩
  | string buffer => exact hopen.elim

end

/-! ## The loop over the table -/

section
variable {W coreNum : Nat} {c c' : TokenContainerType}

theorem dbgParseTable_congr {parsers : List (DbgCmdExecutorType W → TokenContainerType → ParseResult W)}
    (h : ∀ parse ∈ parsers, ∀ arg, parse arg c = parse arg c') (arg : DbgCmdExecutorType W) :
    dbgParseTable c parsers arg = dbgParseTable c' parsers arg := by
  induction parsers generalizing arg with
  | nil => rfl
  | cons parse parsers ih =>
    have hrest := ih fun parse' hmem => h parse' (.tail _ hmem)
    simp only [dbgParseTable, h parse (.head _) arg, hrest]

theorem dbgParseTable_append
    (parsers parsers' : List (DbgCmdExecutorType W → TokenContainerType → ParseResult W))
    (arg : DbgCmdExecutorType W) :
    dbgParseTable c (parsers ++ parsers') arg =
      match dbgParseTable c parsers arg with
      | some (arg', false) => dbgParseTable c parsers' arg'
      | r => r := by
  induction parsers generalizing arg with
  | nil => rfl
  | cons parse parsers ih =>
    rw [cons_append, dbgParseTable, dbgParseTable]
    rcases parse arg c with _ | ⟨arg', _ | _⟩
    · rfl
    · exact ih arg'
    · rfl

theorem dbgCmdParserStdTable_split :
    dbgCmdParserStdTable W coreNum =
      (dbgCmdParserStdTable W coreNum).take 14 ++
        dbgParseSerialin :: (dbgCmdParserStdTable W coreNum).drop 15 := rfl

theorem dbgParseSerialin_of_table_none {arg : DbgCmdExecutorType W}
    (h : dbgParseTable c (dbgCmdParserStdTable W coreNum) arg = none) :
    ∃ arg' : DbgCmdExecutorType W, dbgParseSerialin arg' c = none := by
  rw [dbgCmdParserStdTable_split, dbgParseTable_append] at h
  have hbefore := dbgParseTable_answers (c := c)
    (forall₂_take 14 (dbgCmdParserStdTable_answers W coreNum)) arg
  rcases hb : dbgParseTable c ((dbgCmdParserStdTable W coreNum).take 14) arg with
    _ | ⟨arg', _ | _⟩ <;> rw [hb] at h hbefore
  · obtain ⟨cmd, hmem, heq⟩ := hbefore
    have hall : ∀ cmd ∈ dbgCmdStdNames.take 14, cmd.2 ≠ .serialin := by decide
    exact absurd heq (hall cmd hmem)
  · refine ⟨arg', ?_⟩
    dsimp only at h
    rw [dbgParseTable] at h
    rcases hs : dbgParseSerialin arg' c with _ | ⟨arg'', _ | _⟩ <;> rw [hs] at h
    · have hafter := dbgParseTable_answers (c := c)
        (forall₂_drop 15 (dbgCmdParserStdTable_answers W coreNum)) arg''
      dsimp only at h
      rw [h] at hafter
      obtain ⟨cmd, hmem, heq⟩ := hafter
      have hall : ∀ cmd ∈ dbgCmdStdNames.drop 15, cmd.2 ≠ .serialin := by decide
      exact absurd heq (hall cmd hmem)
    · cases h
  · cases h

end

/-! ## Lines whose result is determined -/

def InfoOfNumber {W : Nat} (ts : List (Token W)) : Prop :=
  ∃ name t rest, ts = .string name :: t :: rest ∧ rest.length ≤ 1 ∧ name.bytes = breakInfoString ∧
    t.LeavesOpen breakString

def SerialTooLong {W : Nat} (ts : List (Token W)) : Prop :=
  ∃ name v rest b, ts = .string name :: .dec v :: rest ∧
    name.bytes ∈ [serialString, serialStringShort] ∧ .string b ∈ rest ∧
    b.len = tokenStringMaxSize - 1

/-- The line fits the buffer, and a word of it is too long, or it has words and is none of the lines above. -/
def LineDetermined (W : Nat) (buffer : Nat → UInt8) (line : List UInt8) : Prop :=
  line.length < dbgCmdBufferSize ∧
    match splitOutcome W buffer 0 (tokenWords none [] line) with
    | .invalid => True
    | .outside => False
    | .tokens ts => ts ≠ [] ∧ ¬ InfoOfNumber ts ∧ ¬ SerialTooLong ts

section
variable {W coreNum : Nat} {c c' : TokenContainerType} {ts : List (Token W)}

theorem write_type_string {t : Token W} {a : TokenValueType} (h : (t.write a).type = .string) :
    ∃ b, t = .string b ∧ (t.write a).body = b := by
  cases t with
  | string b => exact ⟨b, rfl, rfl⟩
  | dec v => cases h
  | hex v => cases h

theorem write_type_dec {t : Token W} {a : TokenValueType} (h : (t.write a).type = .valueDec) :
    ∃ v, t = .dec v := by
  cases t with
  | dec v => exact ⟨v, rfl⟩
  | string b => cases h
  | hex v => cases h

theorem unprintable_iff {b : TokenStringType} (hb : b.Terminated) (a : TokenValueType) :
    Unprintable ((Token.string (W := W) b).write a) ↔ b.len = tokenStringMaxSize - 1 := by
  have hlt := hb.len_lt
  simp only [Unprintable, Token.write, true_and, hb.takeWhile, length_bytes]
  omega

theorem exists_cons_cons (hlen : 2 ≤ ts.length) : ∃ t t' rest, ts = t :: t' :: rest := by
  match ts, hlen with
  | t :: t' :: rest, _ => exact ⟨t, t', rest, rfl⟩

theorem dbgParseBreak_fill_congr (hinfo : ¬ InfoOfNumber ts) (arg : DbgCmdExecutorType W) :
    dbgParseBreak arg (c.fill ts) = dbgParseBreak arg (c'.fill ts) := by
  refine dbgParseBreak_congr arg (fill_agree c c' ts) fun hnum htype hname => ?_
  have hnum' : ts.length = 2 ∨ ts.length = 3 := hnum
  obtain ⟨t, t', rest, rfl⟩ := exists_cons_cons (by omega : 2 ≤ ts.length)
  obtain ⟨name, rfl, hbody⟩ := write_type_string htype
  have hbytes : name.bytes = breakInfoString := mem_singleton.1 ((isName_iff_of_names (by decide)).1 hname)
  have hopen : ¬ t'.LeavesOpen breakString := fun hopen =>
    hinfo ⟨name, t', rest, rfl, by simp only [length_cons] at hnum'; omega, hbytes, hopen⟩
  rw [Bool.eq_iff_iff, isName_iff_of_names (by decide), isName_iff_of_names (by decide), mem_singleton,
    mem_singleton]
  exact write_isName_congr hopen (c.array 1) (c'.array 1)

theorem dbgParseTable_fill_congr (hne : ts ≠ []) (hinfo : ¬ InfoOfNumber ts) (arg : DbgCmdExecutorType W) :
    dbgParseTable (c.fill ts) (dbgCmdParserStdTable W coreNum) arg =
      dbgParseTable (c'.fill ts) (dbgCmdParserStdTable W coreNum) arg := by
  refine dbgParseTable_congr (fun parse hmem arg => ?_) arg
  have h := fill_agree c c' ts
  have hnum : (c.fill ts).num ≠ 0 := fun hzero => hne (length_eq_zero_iff.1 hzero)
  simp only [dbgCmdParserStdTable, mem_cons, not_mem_nil, or_false] at hmem
  obtain rfl | rfl | rfl | rfl | rfl | rfl | rfl | rfl | rfl | rfl | rfl | rfl | rfl | rfl | rfl |
    rfl | rfl | rfl | rfl | rfl | rfl | rfl := hmem
  · exact dbgParseBreak_fill_congr hinfo arg
  · exact dbgParseDelete_congr arg h
  · exact dbgParseIntr_congr arg h
  · exact dbgParseWatchData_congr arg h
  · exact dbgParseCont_congr arg h hnum
  · exact dbgParseCore_congr arg h coreNum
  · exact dbgParseSingle_congr arg h _ _
  · exact dbgParseSingle_congr arg h _ _
  · exact dbgParseSingle_congr arg h _ _
  · exact dbgParseSingle_congr arg h _ _
  · exact dbgParsePrint_congr arg h
  · exact dbgParseMemset_congr arg h
  · exact dbgParseSingle_congr arg h _ _
  · exact dbgParseSingle_congr arg h _ _
  · exact dbgParseSerialin_congr arg h
  · exact dbgParseInfoCpu_congr arg h
  · exact dbgParseFuncTrace_congr arg h
  · exact dbgParseDataAccessInfo_congr arg h
  · exact dbgParseSingle_congr arg h _ _
  · exact dbgParseSingle_congr arg h _ _
  · exact dbgParseSingle_congr arg h _ _
  · exact dbgParseHelp_congr arg h

theorem dbgParseSerialin_eq_none {arg : DbgCmdExecutorType W} :
    dbgParseSerialin arg c = none ↔
      3 ≤ c.num ∧ (c.array 0).type = .string ∧ (c.array 1).type = .valueDec ∧
        c.isName 0 [serialString, serialStringShort] = true ∧
        tokenSplitMerge W c 2 arg.parsedArgs.serialin.input = none := by
  unfold dbgParseSerialin
  split_ifs with hnum htype hdec hname
  · exact iff_of_false nofun fun h => absurd h.1 (by omega)
  · exact iff_of_false nofun fun h => htype h.2.1
  · exact iff_of_false nofun fun h => hdec h.2.2.1
  · cases tokenSplitMerge W c 2 arg.parsedArgs.serialin.input with
    | none =>
      exact iff_of_true rfl ⟨not_lt.1 hnum, not_not.1 htype, not_not.1 hdec, hname, rfl⟩
    | some input => exact iff_of_false nofun fun h => nomatch h.2.2.2.2
  · exact iff_of_false nofun fun h => hname h.2.2.2.1

theorem dbgParseSerialin_fill_eq_none (hterm : ∀ b, Token.string b ∈ ts → b.Terminated)
    (arg : DbgCmdExecutorType W) :
    dbgParseSerialin arg (c.fill ts) = none ↔ SerialTooLong ts := by
  rw [dbgParseSerialin_eq_none]
  constructor
  · rintro ⟨hnum, htype, hdec, hname, hmerge⟩
    have hlen : 3 ≤ ts.length := hnum
    obtain ⟨t, t', rest, rfl⟩ := exists_cons_cons (by omega : 2 ≤ ts.length)
    obtain ⟨name, rfl, -⟩ := write_type_string htype
    obtain ⟨v, rfl⟩ := write_type_dec hdec
    obtain ⟨i, hi, hlt, hbad⟩ := tokenSplitMerge_eq_none.1 hmerge
    obtain ⟨k, rfl⟩ := Nat.exists_eq_add_of_le' hi
    have hk : k < rest.length := by
      have : k + 2 < rest.length + 2 := hlt
      omega
    rw [fill_array hlt] at hbad
    obtain ⟨b, hb, -⟩ := write_type_string hbad.1
    rw [hb] at hbad
    have hmem : Token.string b ∈ rest := by
      have hget : rest[k] = .string b := hb
      exact hget ▸ getElem_mem hk
    exact ⟨name, v, rest, b, rfl, (isName_iff_of_names (by decide)).1 hname, hmem,
      (unprintable_iff (hterm b (.tail _ (.tail _ hmem))) _).1 hbad⟩
  · rintro ⟨name, v, rest, b, rfl, hname, hmem, hlen⟩
    obtain ⟨k, hk, hget⟩ := getElem_of_mem hmem
    have hlt : k + 2 < (Token.string name :: Token.dec v :: rest).length := by simp; omega
    refine ⟨by simp [fill]; omega, rfl, rfl, (isName_iff_of_names (by decide)).2 hname, ?_⟩
    refine tokenSplitMerge_eq_none.2 ⟨k + 2, Nat.le_add_left _ _, hlt, ?_⟩
    have hget' : (Token.string name :: Token.dec v :: rest)[k + 2] = .string b := hget
    rw [fill_array hlt, hget']
    exact (unprintable_iff (hterm b (.tail _ (.tail _ hmem))) _).2 hlen

/-! ## Whole lines -/

def DbgCall.over (e : DbgCall) (c : TokenContainerType) : DbgCall := { e with container := c }

variable {e : DbgCall} {s : DbgParserState W}

theorem dbgParseLine_over (hsize : e.line.length < dbgCmdBufferSize) (c : TokenContainerType) :
    dbgParseLine coreNum (e.over c) =
      match splitOutcome W e.buffer 0 (tokenWords none [] e.line) with
      | .invalid => notFound (dbgDefaultError e.line)
      | .outside => none
      | .tokens ts =>
        dbgParseTable (c.fill ts) (dbgCmdParserStdTable W coreNum) (dbgDefaultError e.line) := by
  have hsplit := tokenSplitCommon_gives W none e.buffer c e.line
  have hfits : ¬ (e.over c).line.length ≥ dbgCmdBufferSize := not_le.2 hsize
  rw [dbgParseLine, if_neg hfits]
  cases ho : splitOutcome W e.buffer 0 (tokenWords none [] e.line) with
  | invalid =>
    rw [ho] at hsplit
    obtain ⟨c', hsplit⟩ := hsplit
    simp only [DbgCall.over, tokenSplit, hsplit]
    rfl
  | outside =>
    rw [ho] at hsplit
    simp only [DbgCall.over, tokenSplit, hsplit]
  | tokens ts =>
    rw [ho] at hsplit
    simp only [DbgCall.over, tokenSplit, hsplit]
    rfl

theorem dbgParseLine_of_determined (h : LineDetermined W e.buffer e.line) :
    ∃ r, ∀ c, dbgParseLine (W := W) coreNum (e.over c) = some r := by
  obtain ⟨hsize, hline⟩ := h
  simp only [dbgParseLine_over hsize]
  cases ho : splitOutcome W e.buffer 0 (tokenWords none [] e.line) with
  | invalid => exact ⟨_, fun _ => rfl⟩
  | outside => rw [ho] at hline; exact hline.elim
  | tokens ts =>
    rw [ho] at hline
    obtain ⟨hne, hinfo, hserial⟩ := hline
    have hterm := splitOutcome_terminated
      (fun _ => zero_not_mem_of_mem_tokenWords not_mem_nil) ho
    cases hr : dbgParseTable (e.container.fill ts) (dbgCmdParserStdTable W coreNum)
        (dbgDefaultError e.line) with
    | none =>
      obtain ⟨arg, harg⟩ := dbgParseSerialin_of_table_none hr
      exact absurd ((dbgParseSerialin_fill_eq_none hterm arg).1 harg) hserial
    | some r => exact ⟨r, fun c => (dbgParseTable_fill_congr hne hinfo _).trans hr⟩

theorem exists_dbgParse_of_line {r : DbgCmdExecutorType W × Bool}
    (h : ∀ c, dbgParseLine coreNum (e.over c) = some r) :
    ∃ p, ∀ c, dbgParse coreNum s (e.over c) = some p := by
  have hsame : ∀ c, dbgParse coreNum s (e.over c) = dbgParse coreNum s (e.over e.container) := by
    intro c
    unfold dbgParse
    rw [h c, h e.container]
    rfl
  cases hp : dbgParse coreNum s (e.over e.container) with
  | some p => exact ⟨p, fun c => (hsame c).trans hp⟩
  | none =>
    obtain ⟨arg, b⟩ := r
    rw [dbgParse, h e.container] at hp
    cases b <;> split_ifs at hp
    dsimp only at hp
    split_ifs at hp

theorem parseCommand_of_dbgParse {s' : DbgParserState W} {o : DbgReturn W}
    (hnew : ¬ (e.line = [] ∧ s.lastCommand = true)) (h : dbgParse coreNum s e = some (s', o)) :
    ∃ b, dbgParseLine coreNum e = some (s'.parseCommand, b) := by
  cases DbgTrans.of_dbgParse h with
  | repeats hline hlast => exact absurd ⟨hline, hlast⟩ hnew
  | errs _ hparse | accepts _ hparse | refuses _ hparse => exact ⟨_, hparse⟩

theorem not_determined_of_run_ne {arg arg' : DbgCmdExecutorType W} {b b' : Bool}
    (hnew : ¬ (e.line = [] ∧ s.lastCommand = true)) (h : dbgParseLine coreNum (e.over c) = some (arg, b))
    (h' : dbgParseLine coreNum (e.over c') = some (arg', b')) (hrun : arg.run ≠ arg'.run) :
    ¬ ∃ r, ∀ c, dbgParse coreNum s (e.over c) = some r := by
  rintro ⟨⟨s', o⟩, hall⟩
  obtain ⟨_, hc⟩ := parseCommand_of_dbgParse (e := e.over c) hnew (hall c)
  obtain ⟨_, hc'⟩ := parseCommand_of_dbgParse (e := e.over c') hnew (hall c')
  cases h.symm.trans hc
  cases h'.symm.trans hc'
  exact hrun rfl

theorem dbgParseTable_no_tokens (arg : DbgCmdExecutorType W) :
    (∃ c arg', dbgParseTable (fill (W := W) c [])
      (dbgCmdParserStdTable W coreNum) arg = some (arg', true) ∧ arg'.run = .cont) ∧
    ∃ c, dbgParseTable (fill (W := W) c [])
      (dbgCmdParserStdTable W coreNum) arg = notFound arg :=
  ⟨⟨⟨0, fun _ => ⟨.string, bufferOf (fun _ => 0) contStringShort⟩⟩, _, rfl, rfl⟩,
    ⟨⟨0, fun _ => ⟨.unknown, {}⟩⟩, rfl⟩⟩

theorem dbgParseBreak_info {name : TokenStringType} {t : Token W} {rest : List (Token W)}
    (hrest : rest.length ≤ 1) (hname : name.bytes = breakInfoString) (arg : DbgCmdExecutorType W) :
    dbgParseBreak arg (c.fill (.string name :: t :: rest)) =
      if (t.write (c.array 1)).body.bytes = breakString then
        found { arg with stdId := .break_, run := .break_, parsedArgs.break_.type := .info }
      else notFound arg := by
  have hnum : ¬ ((c.fill (.string name :: t :: rest)).num ≠ 2 ∧
      (c.fill (.string name :: t :: rest)).num ≠ 3) := by
    simp only [fill, length_cons]
    omega
  have hbreak : ¬ (c.fill (.string name :: t :: rest)).isName 0 [breakString, breakStringShort] =
      true := by
    have hbytes : name.bytes ∉ [breakString, breakStringShort] := by rw [hname]; decide
    exact fun h => hbytes ((isName_iff_of_names (by decide)).1 h)
  have hinfo : (c.fill (.string name :: t :: rest)).isName 0 [breakInfoString] = true :=
    (isName_iff_of_names (by decide)).2 (mem_singleton.2 hname)
  have hsecond : (c.fill (.string name :: t :: rest)).isName 1 [breakString] = true ↔
      (t.write (c.array 1)).body.bytes = breakString := by
    rw [isName_iff_of_names (by decide), mem_singleton]
    rfl
  rw [dbgParseBreak, if_neg hnum, if_neg (fun h => h rfl), if_neg hbreak, if_pos hinfo]
  exact if_congr hsecond rfl rfl

theorem dbgParseTable_info (hinfo : InfoOfNumber ts) (arg : DbgCmdExecutorType W)
    (harg : arg.run = .parseError) :
    (∃ c arg', dbgParseTable (fill c ts) (dbgCmdParserStdTable W coreNum) arg =
      some (arg', true) ∧ arg'.run = .break_) ∧
    ∃ c, ∀ arg' b, dbgParseTable (fill c ts)
      (dbgCmdParserStdTable W coreNum) arg = some (arg', b) → arg'.run ≠ .break_ := by
  obtain ⟨name, t, rest, rfl, hrest, hname, hopen⟩ := hinfo
  obtain ⟨x, y, hx, hy⟩ := exists_write_of_open hopen (by decide) (by decide)
  have hbreak := fun x : TokenValueType =>
    dbgParseBreak_info (c := ⟨0, fun _ => x⟩) (t := t) hrest hname arg
  refine ⟨⟨⟨0, fun _ => x⟩, { arg with
    stdId := .break_, run := .break_, parsedArgs.break_.type := .info }, ?_, rfl⟩,
    ⟨0, fun _ => y⟩, fun arg' b h => ?_⟩
  · rw [dbgCmdParserStdTable, dbgParseTable, hbreak, if_pos hx]
    rfl
  · rw [dbgCmdParserStdTable, dbgParseTable, hbreak, if_neg hy] at h
    have hanswer := dbgParseTable_answers
      (c := fill ⟨0, fun _ => y⟩ (.string name :: t :: rest))
      (forall₂_drop 1 (dbgCmdParserStdTable_answers W coreNum)) arg
    rw [show dbgParseTable _ ((dbgCmdParserStdTable W coreNum).drop 1) arg = some (arg', b) from h]
      at hanswer
    cases b with
    | false => exact fun hrun => by rw [show arg'.run = arg.run from hanswer, harg] at hrun; cases hrun
    | true =>
      obtain ⟨cmd, hmem, hrun, -⟩ := hanswer
      have hall : ∀ cmd ∈ dbgCmdStdNames.drop 1, cmd.2 ≠ .break_ := by decide
      exact hrun ▸ hall cmd hmem

theorem dbgParseTable_serialTooLong (hterm : ∀ b, Token.string b ∈ ts → b.Terminated)
    (hserial : SerialTooLong ts) (c : TokenContainerType) (arg : DbgCmdExecutorType W) :
    dbgParseTable (c.fill ts) (dbgCmdParserStdTable W coreNum) arg = none := by
  rw [dbgCmdParserStdTable_split, dbgParseTable_append]
  have hbefore := dbgParseTable_answers (c := c.fill ts)
    (forall₂_take 14 (dbgCmdParserStdTable_answers W coreNum)) arg
  cases hb : dbgParseTable (c.fill ts) ((dbgCmdParserStdTable W coreNum).take 14) arg with
  | none => rfl
  | some r =>
    obtain ⟨arg', b⟩ := r
    rw [hb] at hbefore
    cases b with
    | false =>
      have hnone := (dbgParseSerialin_fill_eq_none (c := c) hterm arg').2 hserial
      simp only [dbgParseTable, hnone]
    | true =>
      -- no command before it has its names
      obtain ⟨cmd, hmem, -, hname⟩ := hbefore
      obtain ⟨name, v, rest, b, rfl, hbytes, -⟩ := hserial
      have hall : ∀ cmd ∈ dbgCmdStdNames.take 14, ∀ name ∈ [serialString, serialStringShort],
          name ∉ cmd.1 := by decide
      have hzero : ∀ cmd ∈ dbgCmdStdNames.take 14, ∀ name ∈ cmd.1, 0 ∉ name := by decide
      exact absurd ((isName_iff_of_names (hzero cmd hmem)).1 hname) (hall cmd hmem name.bytes hbytes)

theorem lineDetermined_of_fits (hsize : e.line.length < dbgCmdBufferSize)
    (hnew : ¬ (e.line = [] ∧ s.lastCommand = true))
    (hdet : ∃ r, ∀ c, dbgParse coreNum s (e.over c) = some r) :
    LineDetermined W e.buffer e.line := by
  have hover : ∀ c, dbgParseLine (W := W) coreNum (e.over c) = _ := dbgParseLine_over hsize
  obtain ⟨⟨s', o⟩, hall⟩ := hdet
  have hparsed : ∀ c, ∃ b, dbgParseLine coreNum (e.over c) = some (s'.parseCommand, b) := fun c =>
    parseCommand_of_dbgParse (e := e.over c) hnew (hall c)
  refine ⟨hsize, ?_⟩
  cases ho : splitOutcome W e.buffer 0 (tokenWords none [] e.line) with
  | invalid => trivial
  | outside =>
    obtain ⟨b, hb⟩ := hparsed e.container
    simp only [hover, ho] at hb
    cases hb
  | tokens ts =>
    simp only [ho] at hover
    refine ⟨?_, fun hinfo => ?_, fun hserial => ?_⟩
    · rintro rfl
      obtain ⟨⟨c, arg, hc, hrun⟩, ⟨c', hc'⟩⟩ := dbgParseTable_no_tokens (dbgDefaultError e.line)
      refine not_determined_of_run_ne hnew ((hover c).trans hc) ((hover c').trans hc') ?_
        ⟨_, hall⟩
      rw [hrun]
      exact fun h => DbgCmdStdIdType.noConfusion h
    · obtain ⟨⟨c, arg, hc, hrun⟩, ⟨c', hc'⟩⟩ :=
        dbgParseTable_info hinfo (dbgDefaultError e.line) rfl
      obtain ⟨b, hb⟩ := hparsed c'
      exact not_determined_of_run_ne hnew ((hover c).trans hc) hb
        (fun heq => hc' _ b ((hover c').symm.trans hb) (heq.symm.trans hrun)) ⟨_, hall⟩
    · have hterm := splitOutcome_terminated
        (fun _ => zero_not_mem_of_mem_tokenWords not_mem_nil) ho
      obtain ⟨b, hb⟩ := hparsed e.container
      rw [hover, dbgParseTable_serialTooLong hterm hserial] at hb
      cases hb

end

/-- **When the result does not depend on the stack.** A call of `dbg_parse` returns, and leaves its
variables, the same for every contents of the uninitialised `token_container`, if and only if it
repeats the remembered command or its line is determined. -/
theorem dbg_parse_determined_iff {W : Nat} (coreNum : Nat) (s : DbgParserState W) (e : DbgCall) :
    (∃ r, ∀ c, dbgParse coreNum s (e.over c) = some r) ↔
      (e.line = [] ∧ s.lastCommand = true) ∨ LineDetermined W e.buffer e.line := by
  constructor
  · intro hdet
    by_cases hnew : e.line = [] ∧ s.lastCommand = true
    · exact .inl hnew
    · refine .inr (lineDetermined_of_fits (not_le.1 fun hsize => ?_) hnew hdet)
      obtain ⟨⟨s', o⟩, hall⟩ := hdet
      obtain ⟨b, hb⟩ := parseCommand_of_dbgParse (e := e.over e.container) hnew (hall e.container)
      have hlong : (e.over e.container).line.length ≥ dbgCmdBufferSize := hsize
      rw [dbgParseLine, if_pos hlong] at hb
      cases hb
  · rintro (hrep | hline)
    · exact ⟨_, fun c => dbgParse_of_empty (e := e.over c) hrep.1 hrep.2⟩
    · obtain ⟨r, hr⟩ := dbgParseLine_of_determined hline
      exact exists_dbgParse_of_line hr

/-- A blank line in debug mode is an error, or continues for the clocks that the second slot still
holds if the first still holds `c`. -/
theorem blank_line_returns_stale_cont :
    (dbgParse (W := 32) 1 {} (.ofLine [' '] .debug)).map
        (fun r => r.2.command.map fun cmd => (cmd.run, cmd.parsedArgs.cont.contClocks)) =
      some (some (.parseError, 0)) ∧
    (dbgParse (W := 32) 1 {} ((DbgCall.ofLine [' '] .debug).over
        { num := 2
          array := fun i =>
            if i = 0 then { type := .string, body := bufferOf (fun _ => 0) contStringShort }
            else { type := .valueDec, body := { len := 1000 } } })).map
        (fun r => r.2.command.map fun cmd => (cmd.run, cmd.parsedArgs.cont.contClocks)) =
      some (some (.cont, 1000)) := by
  decide +kernel

end Athrill
