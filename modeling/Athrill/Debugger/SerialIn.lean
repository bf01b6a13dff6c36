import Athrill.Debugger.ParserStale

/-!
# The serial command (`dbg_std_parser.c`, `dbg_std_executor.c`)

`serial <channel> <text>` is split into tokens, the tokens of the text are printed back and joined, and the
result is trimmed. Main result: `dbg_std_executor_serialin_iff`.
-/

namespace Athrill

open FlatMemory List

variable {W : Nat}

def dbgStdExecutorSerialin {σ : Type} (dbgSerialIn : UInt8 → UInt8 → σ → StdReturnType × σ)
    (channel : UInt8) : List UInt8 → σ → List UInt8
  | [], _ => []
  | b :: bs, s =>
    match dbgSerialIn channel b s with
    | (.ok, s') => b :: dbgStdExecutorSerialin dbgSerialIn channel bs s'
    | _ => [b]

def joinWords : List (List UInt8) → List UInt8
  | [] => []
  | [w] => w
  | w :: ws => w ++ 32 :: joinWords ws

def PrintableWord (w : List UInt8) : Prop :=
  w ≠ [] ∧ ∀ b ∈ w, 33 ≤ b ∧ b ≤ 126 ∧ b ≠ 44 ∧ b ≠ 58

instance instDecidablePrintableWord (w : List UInt8) : Decidable (PrintableWord w) :=
  @instDecidableAnd _ _ inferInstance (List.decidableBAll _ w)

def printedWord (W : Nat) (w : List UInt8) : List UInt8 :=
  match wordView W w with
  | .dec v =>
    let sign := if intOfUint32 v < 0 then ['-'] else []
    tokenName (sign ++ Nat.toDigits 10 (intOfUint32 v).natAbs)
  | .hex v => tokenName (['0', 'x'] ++ Nat.toDigits 16 v.toNat)
  | _ => w

section
variable {w v : List UInt8} {ws : List (List UInt8)}

/-! ## The words of the line -/

theorem PrintableWord.not_delimiter (h : PrintableWord w) : ∀ b ∈ w, ¬ isDelimiter none b = true := by
  intro b hb
  obtain ⟨hlo, -, hcomma, hcolon⟩ := h.2 b hb
  have hlow : ∀ c : UInt8, c < 33 → ¬ b ≤ c := fun c hc hle =>
    absurd (UInt8.le_trans hlo hle) (UInt8.not_le.2 hc)
  simp only [isDelimiter, decide_eq_true_eq]
  rintro (⟨-, h⟩ | rfl | rfl | rfl | rfl | h)
  · exact hlow 13 (by decide) h
  · exact hlow 32 (by decide) (UInt8.le_refl _)
  · exact hcomma rfl
  · exact hcolon rfl
  · exact hlow 0 (by decide) (UInt8.le_refl _)
  · cases h

theorem tokenWords_append (hw : ∀ b ∈ w, ¬ isDelimiter none b = true) (rest : List UInt8) :
    tokenWords none v (w ++ rest) = tokenWords none (v ++ w) rest := by
  induction w generalizing v with
  | nil => simp
  | cons b w ih =>
    rw [cons_append, tokenWords, if_neg (hw b (.head _)), ih fun b hb => hw b (.tail _ hb)]
    simp

theorem tokenWords_joinWords (hws : ∀ w ∈ ws, PrintableWord w) : tokenWords none [] (joinWords ws) = ws := by
  induction ws with
  | nil => rfl
  | cons w ws ih =>
    have hw := hws w (.head _)
    cases ws with
    | nil =>
      rw [joinWords, ← append_nil w, tokenWords_append hw.not_delimiter, tokenWords, if_neg (by simpa using hw.1)]
      simp
    | cons w' ws =>
      rw [joinWords, tokenWords_append hw.not_delimiter, tokenWords, if_pos (by decide), nil_append, if_neg hw.1,
        ih fun w hw => hws w (.tail _ hw)]
      · rfl
      · rintro ⟨⟩

/-! ## Printing a word -/

theorem tokenText_write (hW : W = 32 ∨ W = 64) {stale : Nat → UInt8} {slot : TokenValueType}
    (hzero : 0 ∉ w) (hlen : w.length < tokenStringMaxSize) :
    tokenText W ((tokenOf W (terminated stale w)).write slot) = some (printedWord W w ++ [32]) := by
  rw [tokenOf_terminated, printedWord]
  obtain ⟨v, hv⟩ | ⟨v, hv⟩ | hv := @wordView_cases W w
  · rw [hv]
    exact congrArg some map_append
  · rw [hv]
    simp only [TokenView.token, Token.write, tokenText, hexValue_setHexValue_self hW]
    exact congrArg some map_append
  · have hcstr := @cstr_terminated stale w hzero hlen
    rw [hv]
    simp only [TokenView.token, Token.write, tokenText]
    rw [← TokenStringType.cstr, hcstr]

theorem lt_of_mem_printedWord {b : UInt8} (h : PrintableWord w) (hb : b ∈ printedWord W w) : 32 < b := by
  have hdigits : ∀ base n, 1 < base → base ≤ 16 → b ∈ tokenName (Nat.toDigits base n) → 32 < b :=
    fun _ _ hbase hbase' hb => UInt8.lt_of_lt_of_le (b := 48) (by decide) (le_of_mem_toDigits hbase hbase' hb)
  rw [printedWord] at hb
  obtain ⟨v, hv⟩ | ⟨v, hv⟩ | hv := @wordView_cases W w
  · rw [hv] at hb
    simp only [tokenName, map_append] at hb
    rcases mem_append.1 hb with hb | hb
    · split_ifs at hb
      · rw [mem_singleton.1 hb]
        decide
      · cases hb
    · exact hdigits 10 _ (by decide) (by decide) hb
  · rw [hv] at hb
    simp only [tokenName, map_append] at hb
    rcases mem_append.1 hb with hb | hb
    · have hall : (tokenName ['0', 'x']).all (32 < ·) = true := by decide
      simpa using all_eq_true.1 hall b hb
    · exact hdigits 16 _ (by decide) (by decide) hb
  · rw [hv] at hb
    exact UInt8.lt_of_lt_of_le (b := 33) (by decide) (h.2 b hb).1

theorem lt_of_wordView_dec {n : Nat} (h : wordView W w = .dec n) : n < 2 ^ 32 := by
  rw [wordView] at h
  split at h
  · obtain rfl := TokenView.dec.inj h
    rw [uint32OfInt]
    omega
  · split_ifs at h
    split at h <;> cases h

theorem length_printedWord (hW : W = 32 ∨ W = 64) (hlen : w.length < 4000) :
    (printedWord W w).length < 4000 := by
  rw [printedWord]
  obtain ⟨v, hv⟩ | ⟨v, hv⟩ | hv := @wordView_cases W w
  · have hlt := lt_of_wordView_dec hv
    have hdigits : (Nat.toDigits 10 (intOfUint32 v).natAbs).length ≤ 10 := by
      refine (Nat.length_toDigits_le_iff (by decide) (by decide)).2 ?_
      rw [intOfUint32]
      split_ifs <;> omega
    have hsign : (if intOfUint32 v < 0 then ['-'] else []).length ≤ 1 := by split_ifs <;> decide
    rw [hv]
    simp only [tokenName, length_map, length_append]
    omega
  · have hdigits : (Nat.toDigits 16 v.toNat).length ≤ 16 := by
      refine (Nat.length_toDigits_le_iff (by decide) (by decide)).2 (v.isLt.trans_le ?_)
      rcases hW with rfl | rfl <;> decide
    rw [hv]
    simp only [tokenName, length_map, length_append, length_cons, length_nil]
    omega
  · rwa [hv]

/-! ## Merging and trimming -/

variable {c : TokenContainerType} {out out' : TokenStringType}

theorem bytes_prefix_tokenMerge (dest src : TokenStringType) : dest.bytes <+: (tokenMerge dest src).bytes := by
  by_cases hfits : dest.len + src.len < tokenStringMaxSize
  · rw [bytes_tokenMerge hfits]
    exact prefix_append ..
  · rw [tokenMerge, if_pos (by rw [tokenStringMaxSize] at hfits ⊢; omega)]

theorem bytes_prefix_foldlM {l : List Nat} (h : l.foldlM (mergeToken W c) out = some out') :
    out.bytes <+: out'.bytes := by
  induction l generalizing out with
  | nil =>
    cases h
    exact prefix_rfl
  | cons i l ih =>
    rw [foldlM_cons] at h
    obtain ⟨out₁, hone, h⟩ := Option.bind_eq_some_iff.1 h
    refine List.IsPrefix.trans ?_ (ih h)
    rw [mergeToken] at hone
    split at hone
    · cases hone
      exact prefix_rfl
    · split_ifs at hone
      cases hone
      exact bytes_prefix_tokenMerge ..

theorem bytes_tokenTrimNewline (t : TokenStringType) : (tokenTrimNewline t).bytes =
    t.bytes.takeWhile fun c => c ≠ 13 ∧ c ≠ 10 ∧ c ≠ 32 := by
  have htake : ∀ n ≤ t.len, TokenStringType.bytes ⟨n, t.str⟩ = t.bytes.take n := by
    intro n hn
    simp only [TokenStringType.bytes, load, ← map_take, take_range, Nat.min_eq_left hn]
  have hpre := takeWhile_prefix (l := t.bytes) fun c => decide (c ≠ 13 ∧ c ≠ 10 ∧ c ≠ 32)
  have hle := hpre.length_le
  rw [length_bytes] at hle
  rw [prefix_iff_eq_take] at hpre
  rw [tokenTrimNewline, htake _ hle]
  exact hpre.symm

theorem bytes_trim_of_begins (hw : PrintableWord w) (h : printedWord W w ++ [32] <+: out.bytes) :
    (tokenTrimNewline out).bytes = printedWord W w := by
  obtain ⟨rest, hrest⟩ := h
  have hkeep : ∀ b ∈ printedWord W w, decide (b ≠ 13 ∧ b ≠ 10 ∧ b ≠ 32) = true := by
    intro b hb
    have hlt := lt_of_mem_printedWord hw hb
    refine decide_eq_true ⟨?_, ?_, ?_⟩ <;> rintro rfl <;> exact absurd hlt (by decide)
  rw [bytes_tokenTrimNewline, ← hrest, append_assoc, takeWhile_append_of_pos hkeep]
  simp

/-! ## The command -/

structure SerialSlots (W : Nat) (c : TokenContainerType) (ch : Nat) (words : List (List UInt8)) : Prop where
  num : c.num = words.length + 2
  name : (c.array 0).type = .string ∧ (c.array 0).body.bytes = serialString
  channel : (c.array 1).type = .valueDec ∧ (c.array 1).body.decValue = ch
  text : ∀ (i : Nat) w, words[i]? = some w →
    tokenText W (c.array (i + 2)) = some (printedWord W w ++ [32]) ∧ ¬ Unprintable (c.array (i + 2))

theorem SerialSlots.passes {ch coreNum : Nat} (h : SerialSlots W c ch (w :: ws)) :
    ∀ parse ∈ (dbgCmdParserStdTable W coreNum).take 14, ∀ arg, parse arg c = notFound arg := by
  have hname : ∀ names, serialString ∉ names → c.isName 0 names = false := by
    intro names hnames
    rw [Bool.eq_false_iff, ne_eq, isName_iff fun _ _ => .inl (by rw [h.name.2]; decide), h.name.2]
    exact hnames
  have hnum := h.num
  rw [length_cons] at hnum
  have htype := h.name.1
  have hch := h.channel.1
  intro parse hmem arg
  simp only [dbgCmdParserStdTable, take_succ_cons, take_zero, mem_cons, not_mem_nil, or_false] at hmem
  have hsingle : ∀ names id, dbgParseSingle names id arg c = notFound arg := fun names id =>
    if_pos (by omega)
  obtain rfl | rfl | rfl | rfl | rfl | rfl | rfl | rfl | rfl | rfl | rfl | rfl | rfl | rfl := hmem
  · rw [dbgParseBreak, hname _ (by decide), hname _ (by decide)]
    simp
  · exact if_pos (by omega)
  · exact if_pos (by omega)
  · simp [dbgParseWatchData, hch]
  · exact if_pos (by omega)
  · change dbgParseCore arg c coreNum = notFound arg
    rw [dbgParseCore, hname _ (by decide)]
    simp
  · exact hsingle ..
  · exact hsingle ..
  · exact hsingle ..
  · exact hsingle ..
  · rw [dbgParsePrint, hname _ (by decide)]
    simp
  · rw [dbgParseMemset, hname _ (by decide)]
    simp
  · exact hsingle ..
  · exact hsingle ..

theorem dbgParseTable_of_passes {parsers : List (DbgCmdExecutorType W → TokenContainerType → ParseResult W)}
    (h : ∀ parse ∈ parsers, ∀ arg, parse arg c = notFound arg) (arg : DbgCmdExecutorType W) :
    dbgParseTable c parsers arg = notFound arg := by
  induction parsers with
  | nil => rfl
  | cons parse parsers ih =>
    rw [dbgParseTable, h parse (.head _)]
    exact ih fun parse hmem => h parse (.tail _ hmem)

theorem SerialSlots.merged {ch : Nat} (h : SerialSlots W c ch (w :: ws))
    (hlen : (printedWord W w).length < 4000) :
    ∃ out, tokenSplitMerge W c 2 {} = some out ∧ printedWord W w ++ [32] <+: out.bytes := by
  obtain ⟨out, hout⟩ : ∃ out, tokenSplitMerge W c 2 {} = some out := by
    refine Option.ne_none_iff_exists'.1 fun hnone => ?_
    obtain ⟨i, hi, hlt, hbad⟩ := tokenSplitMerge_eq_none.1 hnone
    obtain ⟨k, rfl⟩ := Nat.exists_eq_add_of_le' hi
    have hk : k < (w :: ws).length := by
      rw [h.num] at hlt
      omega
    exact (h.text k _ (getElem?_eq_getElem hk)).2 hbad
  refine ⟨out, hout, ?_⟩
  have hcount : c.num - 2 = ws.length + 1 := by rw [h.num, length_cons]; omega
  rw [tokenSplitMerge, hcount, range'_succ, foldlM_cons] at hout
  obtain ⟨out₁, hone, hrest⟩ := Option.bind_eq_some_iff.1 hout
  refine List.IsPrefix.trans ?_ (bytes_prefix_foldlM hrest)
  rw [mergeToken, (h.text 0 w rfl).1] at hone
  dsimp only at hone
  split_ifs at hone
  cases hone
  have hfits : 0 + (printedWord W w ++ [32]).length < tokenStringMaxSize := by
    rw [length_append, length_singleton, tokenStringMaxSize]
    omega
  rw [bytes_tokenMerge hfits, TokenStringType.bytes, TokenStringType.bytes, load_store_self]
  exact prefix_rfl

theorem SerialSlots.parsed {ch : Nat} (coreNum : Nat) (h : SerialSlots W c ch (w :: ws))
    (hw : PrintableWord w) (hlen : (printedWord W w).length < 4000) (line : List UInt8) :
    ∃ arg : DbgCmdExecutorType W,
      dbgParseTable c (dbgCmdParserStdTable W coreNum) (dbgDefaultError line) = found arg ∧
        arg.stdId = .serialin ∧ arg.run = .serialin ∧ arg.parsedArgs.serialin.input.bytes = printedWord W w := by
  obtain ⟨out, hout, hpre⟩ := h.merged hlen
  have hnum := h.num
  rw [length_cons] at hnum
  have hname : c.isName 0 [serialString, serialStringShort] = true := by
    rw [isName_iff_of_names (by decide), h.name.2]
    exact .head _
  rw [dbgCmdParserStdTable_split, dbgParseTable_append, dbgParseTable_of_passes h.passes]
  change ∃ arg, dbgParseTable c (dbgParseSerialin :: _) (dbgDefaultError line) = found arg ∧ _
  rw [dbgParseTable, dbgParseSerialin, if_neg (by omega), if_neg (not_not.2 h.name.1),
    if_neg (not_not.2 h.channel.1), if_pos hname]
  simp only [dbgDefaultError, hout]
  exact ⟨_, rfl, rfl, rfl, bytes_trim_of_begins hw hpre⟩

theorem serialSlots_of_words (hW : W = 32 ∨ W = 64) {ch : List UInt8} {n : Int}
    (hnum : strtol ch = some n) (hws : ∀ w ∈ ws, PrintableWord w ∧ w.length < 4000)
    {c₀ : TokenContainerType} (hcount : c.num = ws.length + 2)
    (hget : ∀ (i : Nat) w, (serialString :: ch :: ws)[i]? = some w →
      ∃ st, c.array i = (tokenOf W (terminated st w)).write (c₀.array i)) :
    SerialSlots W c (uint32OfInt n) ws := by
  obtain ⟨st₀, h₀⟩ := hget 0 _ rfl
  obtain ⟨st₁, h₁⟩ := hget 1 _ rfl
  refine ⟨hcount, ?_, ?_, fun i w hi => ?_⟩
  · have hview : wordView W serialString = .text serialString := rfl
    rw [h₀, (body_write_of_text _ hview).2, bytes_terminated, tokenOf_terminated, hview]
    exact ⟨rfl, rfl⟩
  · have hview : wordView W ch = .dec (uint32OfInt n) := by rw [wordView, hnum]
    rw [h₁, tokenOf_terminated, hview]
    exact ⟨rfl, rfl⟩
  · obtain ⟨st, hst⟩ := hget (i + 2) w hi
    obtain ⟨hw, hlen⟩ := hws w (mem_of_getElem? hi)
    have hzero : 0 ∉ w := fun hmem => absurd (hw.2 0 hmem).1 (by decide)
    have hshort : w.length < tokenStringMaxSize := hlen.trans (by decide)
    rw [hst]
    refine ⟨tokenText_write hW hzero hshort, ?_⟩
    rintro ⟨htype, hlong⟩
    obtain ⟨b, hb, hbody⟩ := write_type_string htype
    rw [hbody, tokenOf_eq_string hb] at hlong
    change tokenStringMaxSize ≤ (terminated st w).cstr.length + 1 at hlong
    rw [cstr_terminated hzero hshort, tokenStringMaxSize] at hlong
    omega

theorem fed_of_accepted {σ : Type} {dbgSerialIn : UInt8 → UInt8 → σ → StdReturnType × σ}
    (hin : ∀ channel b s, (dbgSerialIn channel b s).1 = .ok) (channel : UInt8) (bs : List UInt8) (s : σ) :
    dbgStdExecutorSerialin dbgSerialIn channel bs s = bs := by
  induction bs generalizing s with
  | nil => rfl
  | cons b bs ih =>
    have hok := hin channel b s
    rw [dbgStdExecutorSerialin]
    generalize dbgSerialIn channel b s = r at hok
    obtain ⟨err, s'⟩ := r
    cases hok
    exact congrArg _ (ih s')

theorem printedWord_eq_joinWords (hw : PrintableWord w) :
    printedWord W w = joinWords (w :: ws) ↔ ws = [] ∧ printedWord W w = w := by
  cases ws with
  | nil => simp [joinWords]
  | cons w' ws =>
    refine iff_of_false (fun h => ?_) nofun
    have hblank : 32 ∈ printedWord W w := by
      rw [h, joinWords]
      · simp
      · exact nofun
    exact absurd (lt_of_mem_printedWord hw hblank) (by decide)

end

/-- The line is a serial command whose executor hands the bytes of `text` to `dbg_serial_in`. -/
def SerialDelivered {σ : Type} (coreNum : Nat) (s : DbgParserState W) (e : DbgCall)
    (dbgSerialIn : UInt8 → UInt8 → σ → StdReturnType × σ) (dev : σ) (text : List UInt8) : Prop :=
  ∃ s' cmd, dbgParse coreNum s e = some (s', .accepted cmd) ∧ cmd.run = .serialin ∧
    dbgStdExecutorSerialin dbgSerialIn (UInt8.ofNat cmd.parsedArgs.serialin.channel)
      cmd.parsedArgs.serialin.input.bytes dev = text

theorem printableWord_serialString : PrintableWord serialString := by
  decide

/-- A line `serial <channel> <words>` in debug mode with printable words and single blanks. -/
structure SerialCommand (e : DbgCall) (ch : List UInt8) (words : List (List UInt8)) : Prop where
  line : e.line = joinWords (serialString :: ch :: words)
  length_lt : e.line.length < 4000
  mode : e.mode = .debug
  channel : PrintableWord ch ∧ (strtol ch).isSome
  words_ne_nil : words ≠ []
  printable : ∀ w ∈ words, PrintableWord w

section
variable {σ : Type} {e : DbgCall} {ch w : List UInt8} {ws words : List (List UInt8)}
  {dbgSerialIn : UInt8 → UInt8 → σ → StdReturnType × σ}

theorem SerialCommand.tokenWords_eq (h : SerialCommand e ch words) :
    tokenWords none [] e.line = serialString :: ch :: words := by
  rw [h.line]
  refine tokenWords_joinWords fun v hv => ?_
  simp only [mem_cons] at hv
  obtain rfl | rfl | hv := hv
  · exact printableWord_serialString
  · exact h.channel.1
  · exact h.printable v hv

theorem SerialCommand.length_word (h : SerialCommand e ch words) :
    ∀ v ∈ serialString :: ch :: words, v.length < 4000 := by
  intro v hv
  rw [← h.tokenWords_eq] at hv
  have hle := length_le_of_mem_tokenWords hv
  have hlt := h.length_lt
  rw [length_nil] at hle
  omega

theorem SerialCommand.delivered_iff (h : SerialCommand e ch (w :: ws)) (hW : W = 32 ∨ W = 64)
    (hin : ∀ channel b dev, (dbgSerialIn channel b dev).1 = .ok) (coreNum : Nat) (s : DbgParserState W)
    (dev : σ) (text : List UInt8) : SerialDelivered coreNum s e dbgSerialIn dev text ↔
      (w :: ws).length + 2 ≤ tokenContainerMaxSize ∧ printedWord W w = text := by
  have hw := h.printable w (.head _)
  have hfill := @tokenSplitCommon_words W none e.buffer e.container e.line
  rw [h.tokenWords_eq] at hfill
  replace hfill := hfill fun v hv => (h.length_word v hv).trans (by decide)
  have hsize : ¬ e.line.length ≥ dbgCmdBufferSize := by
    have hlt := h.length_lt
    rw [dbgCmdBufferSize]
    omega
  have hnew : ¬ (e.line.length = 0 ∧ s.lastCommand = true) := by
    rintro ⟨hzero, -⟩
    have hsplit := h.tokenWords_eq
    rw [length_eq_zero_iff.1 hzero] at hsplit
    cases hsplit
  by_cases hcount : (w :: ws).length + 2 ≤ tokenContainerMaxSize
  · rw [and_iff_right hcount]
    obtain ⟨c, hok, hc, hget⟩ := hfill.1 hcount
    obtain ⟨n, hn⟩ := Option.isSome_iff_exists.1 h.channel.2
    have hslots : SerialSlots W c (uint32OfInt n) (w :: ws) :=
      serialSlots_of_words hW hn
        (fun v hv => ⟨h.printable v hv, h.length_word v (.tail _ (.tail _ hv))⟩) hc hget
    obtain ⟨arg, htable, hid, hrun, hbytes⟩ := hslots.parsed coreNum hw
      (length_printedWord hW (h.length_word w (.tail _ (.tail _ (.head _))))) e.line
    have hparse : dbgParse coreNum s e = some (⟨arg, true⟩, .accepted arg) := by
      have hexec : canExecute e.mode arg = true := by
        rw [h.mode, canExecute, hid]
        decide
      rw [dbgParse, if_neg hnew, dbgParseLine, if_neg hsize, tokenSplit, hok]
      simp only [ne_eq, not_true_eq_false, if_false, htable, found, hexec, if_true]
    constructor
    · rintro ⟨s', cmd, hparse', -, hfed⟩
      cases hparse.symm.trans hparse'
      rwa [fed_of_accepted hin, hbytes] at hfed
    · intro heq
      exact ⟨_, arg, hparse, hrun, by rw [fed_of_accepted hin, hbytes, heq]⟩
  · refine iff_of_false ?_ fun hle => hcount hle.1
    rintro ⟨s', cmd, hparse, -⟩
    rw [dbgParse, if_neg hnew, dbgParseLine, if_neg hsize, tokenSplit, hfill.2 (not_le.1 hcount)] at hparse
    cases hparse

/-- The text of a serial command is delivered exactly if it is one word that is printed as it stands: a
word that is no number, or a number as `%d` or `0x%x` writes it. -/
theorem dbg_std_executor_serialin_iff (h : SerialCommand e ch words) (hW : W = 32 ∨ W = 64)
    (hin : ∀ channel b dev, (dbgSerialIn channel b dev).1 = .ok) (coreNum : Nat) (s : DbgParserState W)
    (dev : σ) : SerialDelivered coreNum s e dbgSerialIn dev (joinWords words) ↔
      ∃ w, words = [w] ∧ printedWord W w = w := by
  obtain ⟨w, ws, rfl⟩ := exists_cons_of_ne_nil h.words_ne_nil
  rw [h.delivered_iff hW hin, printedWord_eq_joinWords (h.printable w (.head _))]
  constructor
  · rintro ⟨-, rfl, heq⟩
    exact ⟨w, rfl, heq⟩
  · rintro ⟨v, hv, heq⟩
    cases hv
    exact ⟨show 3 ≤ tokenContainerMaxSize by decide, rfl, heq⟩

end

def takesAll : UInt8 → UInt8 → Unit → StdReturnType × Unit := fun _ _ _ => (.ok, ())

def serialCall (words : List (List UInt8)) : DbgCall where
  line := joinWords (serialString :: [48] :: words)
  mode := .debug
  container := ⟨0, fun _ => ⟨.unknown, {}⟩⟩
  buffer := fun _ => 0

theorem serialCommand_serialCall (w : List UInt8) (ws : List (List UInt8))
    (hwords : ∀ v ∈ w :: ws, PrintableWord v) (hlen : (serialCall (w :: ws)).line.length < 4000) :
    SerialCommand (serialCall (w :: ws)) [48] (w :: ws) :=
  ⟨rfl, hlen, rfl, ⟨by decide, rfl⟩, cons_ne_nil _ _, hwords⟩

theorem dbg_std_executor_serialin_word :
    SerialDelivered (W := 32) 1 ⟨{}, false⟩ (serialCall [[97]]) takesAll () (joinWords [[97]]) := by
  have h := serialCommand_serialCall [97] [] (by decide) (by decide)
  exact (dbg_std_executor_serialin_iff h (.inl rfl) (fun _ _ _ => rfl) 1 _ ()).2 ⟨[97], rfl, by decide⟩

/-- Of `a b` only `a` is delivered, and `007` arrives as `7`. -/
theorem dbg_std_executor_serialin_lost :
    ¬ SerialDelivered (W := 32) 1 ⟨{}, false⟩ (serialCall [[97], [98]]) takesAll () [97, 32, 98] ∧
      ¬ SerialDelivered (W := 32) 1 ⟨{}, false⟩ (serialCall [[48, 48, 55]]) takesAll () [48, 48, 55] := by
  have htwo := serialCommand_serialCall [97] [[98]] (by decide) (by decide)
  have hzeros := serialCommand_serialCall [48, 48, 55] [] (by decide) (by decide)
  rw [htwo.delivered_iff (.inl rfl) fun _ _ _ => rfl, hzeros.delivered_iff (.inl rfl) fun _ _ _ => rfl]
  decide

end Athrill
