import Athrill.Main.ArgumentParser

/-!
# The options of the command line (`main/option/option.c`)

The options that `parse_args` knows, and the words that spell them: flags in a bundle, values joined or in
the next word. Main result: `argument_parser_next_long_options`.
-/

namespace Athrill

open Bytes List Option ParserInput CString

/-! ## Options and their spellings -/

inductive ShortFlag
  | i
  | r
  | b
  deriving DecidableEq, Repr

inductive ShortOption
  | t
  | p
  | d
  | c
  | m
  | g
  deriving DecidableEq, Repr

inductive LongOption
  | hakoniwa
  | pdudef
  | deltaUsec
  | maxDelayUsec
  | realSleepMsec
  deriving DecidableEq, Repr

/-- An option with its value, as the user means it. -/
inductive CmdOption
  | flag (f : ShortFlag)
  | short (o : ShortOption) (value : CString)
  | disableConductor
  | long (o : LongOption) (value : CString)

def ShortFlag.code : ShortFlag → UInt8
  | .i => 105
  | .r => 114
  | .b => 98

def ShortOption.code : ShortOption → UInt8
  | .t => 116
  | .p => 112
  | .d => 100
  | .c => 99
  | .m => 109
  | .g => 103

def LongOption.name : LongOption → CString
  | .hakoniwa => .ofChars ['h', 'a', 'k', 'o', 'n', 'i', 'w', 'a'] rfl
  | .pdudef => .ofChars ['p', 'd', 'u', 'd', 'e', 'f'] rfl
  | .deltaUsec => .ofChars ['d', 'e', 'l', 't', 'a', '-', 'u', 's', 'e', 'c'] rfl
  | .maxDelayUsec =>
    .ofChars ['m', 'a', 'x', '-', 'd', 'e', 'l', 'a', 'y', '-', 'u', 's', 'e', 'c'] rfl
  | .realSleepMsec =>
    .ofChars ['r', 'e', 'a', 'l', '-', 's', 'l', 'e', 'e', 'p', '-', 'm', 's', 'e', 'c'] rfl

def LongOption.value : LongOption → Int
  | .hakoniwa => 256
  | .pdudef => 257
  | .deltaUsec => 258
  | .maxDelayUsec => 259
  | .realSleepMsec => 261

def disableConductorName : CString :=
  .ofChars ['d', 'i', 's', 'a', 'b', 'l', 'e', '-', 'c', 'o', 'n', 'd', 'u', 'c', 't', 'o', 'r'] rfl

def cmdOptionString : CString :=
  .ofChars ['i', 'r', 'b', 't', ':', 'p', ':', 'd', ':', 'c', ':', 'm', ':', 'g', ':'] rfl

def cmdLongOptions : List ArgumentParserLongOption :=
  [⟨LongOption.hakoniwa.name, true, 256⟩, ⟨LongOption.pdudef.name, true, 257⟩,
    ⟨LongOption.deltaUsec.name, true, 258⟩, ⟨LongOption.maxDelayUsec.name, true, 259⟩,
    ⟨disableConductorName, false, 260⟩, ⟨LongOption.realSleepMsec.name, true, 261⟩]

def cmdInput (argv : List CString) : ParserInput := ⟨argv, cmdOptionString, cmdLongOptions⟩

def CmdOption.returned : CmdOption → Int × Option CString
  | .flag f => (f.code.toNat, none)
  | .short o value => (o.code.toNat, some value)
  | .disableConductor => (260, none)
  | .long o value => (o.value, some value)

theorem ShortFlag.code_ne_zero (f : ShortFlag) : f.code ≠ 0 := by
  cases f <;> decide

theorem ShortOption.code_ne_zero (o : ShortOption) : o.code ≠ 0 := by
  cases o <;> decide

/-- A way to write options as words. -/
inductive Spelling
  | bundle (f : ShortFlag) (flags : List ShortFlag)
  | joined (flags : List ShortFlag) (o : ShortOption) (value : CString) (h : value.bytes ≠ [])
  | spaced (flags : List ShortFlag) (o : ShortOption) (value : CString)
  | disableConductor
  | longJoined (o : LongOption) (value : CString)
  | longSpaced (o : LongOption) (value : CString)

def emptyString : CString := .ofChars [] rfl

def dashed (s : CString) : CString := .cons 45 (by decide) s

def flagString (flags : List ShortFlag) (rest : CString) : CString :=
  flags.foldr (fun f s => .cons f.code f.code_ne_zero s) rest

def Spelling.words : Spelling → List CString
  | .bundle f flags => [dashed (flagString (f :: flags) emptyString)]
  | .joined flags o value _ => [dashed (flagString flags (.cons o.code o.code_ne_zero value))]
  | .spaced flags o value => [dashed (flagString flags (.cons o.code o.code_ne_zero emptyString)), value]
  | .disableConductor => [dashed (dashed disableConductorName)]
  | .longJoined o value => [dashed (dashed (o.name.append (.cons 61 (by decide) value)))]
  | .longSpaced o value => [dashed (dashed o.name), value]

def Spelling.options : Spelling → List CmdOption
  | .bundle f flags => (f :: flags).map .flag
  | .joined flags o value _ => flags.map .flag ++ [.short o value]
  | .spaced flags o value => flags.map .flag ++ [.short o value]
  | .disableConductor => [.disableConductor]
  | .longJoined o value => [.long o value]
  | .longSpaced o value => [.long o value]

inductive LoadFile
  | plain (name : CString) (h : name.bytes.head? ≠ some 45)
  | dashes (name : CString)

def LoadFile.before : LoadFile → List CString
  | .plain _ _ => []
  | .dashes _ => [dashed (dashed emptyString)]

def LoadFile.name : LoadFile → CString
  | .plain name _ => name
  | .dashes name => name

@[simp] theorem bytes_flagString (flags : List ShortFlag) (rest : CString) :
    (flagString flags rest).bytes = flags.map ShortFlag.code ++ rest.bytes := by
  induction flags with
  | nil => rfl
  | cons f flags ih => simpa [flagString] using ih

/-! ## Reading them back -/

def place (index characterIndex : Nat) : ArgumentParserState := ⟨index, characterIndex, none, 0⟩

section
variable {argv : List CString} {k c : Nat} {w value : CString} {tail : List UInt8}
  {returned : List (Int × Option CString)} {last st st' : ArgumentParserState}

theorem ParserInput.Parses.congr {p : ParserInput}
    (h : p.argumentParserNextLong st = p.argumentParserNextLong st') (hp : p.Parses st' returned last) :
    p.Parses st returned last := by
  cases hp with
  | done hcall => exact .done (h.trans hcall)
  | call hcall hne hrest => exact .call (h.trans hcall) hne hrest

theorem ParserInput.Parses.of_place {p : ParserInput} {argument : Option CString} {error : Int}
    (h : p.Parses (place k c) returned last) : p.Parses ⟨k, c, argument, error⟩ returned last :=
  @ParserInput.Parses.congr returned last _ (place k c) p rfl h

theorem next_middle (hword : argv[k]? = some w) (hc : c ≠ 0) :
    (cmdInput argv).argumentParserNextLong (place k c) =
      (cmdInput argv).shortOption (place k c) w := by
  have hget : (cmdInput argv).argv[(place k c).index]? = some w := hword
  simp only [argumentParserNextLong, hget]
  exact if_neg hc

theorem next_start (hword : argv[k]? = some w) :
    (cmdInput argv).argumentParserNextLong (place k 0) = (cmdInput argv).startWord (place k 0) w := by
  have hget : (cmdInput argv).argv[(place k 0).index]? = some w := hword
  simp only [argumentParserNextLong, hget]
  exact if_pos rfl

theorem next_bundle {x : UInt8} (hword : argv[k]? = some w) (hbytes : w.bytes = 45 :: x :: tail)
    (hx : x ≠ 45) : (cmdInput argv).argumentParserNextLong (place k 0) =
      (cmdInput argv).argumentParserNextLong (place k 1) := by
  obtain ⟨hfirst, -⟩ := @CString.char_of_drop w 0 45 (x :: tail) (by rw [hbytes]; rfl)
  obtain ⟨hsecond, hne⟩ := @CString.char_of_drop w 1 x tail (by rw [hbytes]; rfl)
  rw [next_start hword, next_middle hword (by decide), startWord, hfirst, bind_some,
    if_neg (by decide), hsecond, bind_some, if_neg hne, if_neg hx]
  rfl

variable {text : CString} {rest : List CString}

theorem next_long (hword : argv[k]? = some (dashed (dashed text)))
    (htext : text.bytes ≠ []) : (cmdInput argv).argumentParserNextLong (place k 0) =
      (cmdInput argv).longOption (place k 0) text := by
  obtain ⟨x, tail, hbytes⟩ := exists_cons_of_ne_nil htext
  have hword' : (dashed (dashed text)).bytes = 45 :: 45 :: x :: tail := by simp [dashed, hbytes]
  obtain ⟨hfirst, -⟩ := @CString.char_of_drop (dashed (dashed text)) 0 45 (45 :: x :: tail) hword'
  obtain ⟨hsecond, -⟩ := @CString.char_of_drop (dashed (dashed text)) 1 45 (x :: tail)
    (by rw [hword']; rfl)
  obtain ⟨hthird, hne⟩ := @CString.char_of_drop (dashed (dashed text)) 2 x tail (by rw [hword']; rfl)
  have hsuffix : (dashed (dashed text)).suffix 2 = some text := by
    rw [suffix, if_pos (by rw [hword']; simp)]
    rfl
  rw [next_start hword, startWord, hfirst, bind_some, if_neg (by decide), hsecond,
    bind_some, if_neg (by decide), if_pos rfl, hthird, bind_some, if_neg hne, hsuffix,
    bind_some]

theorem next_dashes (hword : argv[k]? = some (dashed (dashed emptyString))) :
    (cmdInput argv).argumentParserNextLong (place k 0) = some (-1, place (k + 1) 0) :=
  next_start hword

theorem next_plain (hword : argv[k]? = some w) (h : w.bytes.head? ≠ some 45) :
    (cmdInput argv).argumentParserNextLong (place k 0) = some (-1, place k 0) := by
  obtain ⟨first, hfirst⟩ := @CString.char_isSome w 0 (Nat.zero_le _)
  have hdash : first ≠ 45 := by
    rintro rfl
    apply h
    have hlt := lt_length_of_char hfirst (by decide)
    rw [char_of_lt hlt] at hfirst
    rw [head?_eq_getElem?, getElem?_eq_getElem hlt, hfirst]
  rw [next_start hword, startWord, hfirst, bind_some, if_pos hdash]

/-! ### Short options -/

theorem ShortFlag.defined (f : ShortFlag) : ∃ definition mark,
    cmdOptionString.strchr f.code = some definition ∧ f.code ≠ 58 ∧
      cmdOptionString.char (definition + 1) = some mark ∧ mark ≠ 58 := by
  cases f <;> exact ⟨_, _, rfl, by decide, rfl, by decide⟩

theorem ShortOption.defined (o : ShortOption) : ∃ definition,
    cmdOptionString.strchr o.code = some definition ∧ o.code ≠ 58 ∧
      cmdOptionString.char (definition + 1) = some 58 := by
  cases o <;> exact ⟨_, rfl, by decide, rfl⟩

theorem char_succ_of_drop {x : UInt8} (h : w.bytes.drop c = x :: tail) :
    w.bytes.drop (c + 1) = tail ∧ c + 1 ≤ w.bytes.length ∧
      ∃ next, w.char (c + 1) = some next ∧ (next = 0 ↔ tail = []) := by
  have hdrop : w.bytes.drop (c + 1) = tail := by
    rw [← drop_drop, h]
    rfl
  have hlen := congrArg length h
  rw [length_drop, length_cons] at hlen
  refine ⟨hdrop, by omega, ?_⟩
  cases tail with
  | nil =>
    have hend : c + 1 = w.bytes.length := by
      rw [length_nil] at hlen
      omega
    exact ⟨0, by rw [hend, char_length], by simp⟩
  | cons y tail =>
    obtain ⟨hchar, hne⟩ := char_of_drop hdrop
    exact ⟨y, hchar, by simp [hne]⟩

theorem next_flag {f : ShortFlag} (hword : argv[k]? = some w) (hc : c ≠ 0)
    (hdrop : w.bytes.drop c = f.code :: tail) :
    (cmdInput argv).argumentParserNextLong (place k c) =
      some ((f.code.toNat : Int), if tail = [] then place (k + 1) 0 else place k (c + 1)) := by
  obtain ⟨hchar, -⟩ := char_of_drop hdrop
  obtain ⟨-, -, next, hnext, hzero⟩ := char_succ_of_drop hdrop
  obtain ⟨definition, mark, hstrchr, hcolon, hmark, hflag⟩ := f.defined
  rw [next_middle hword hc]
  simp only [shortOption, place, cmdInput, hchar, hstrchr, hmark, hnext, bind_some,
    map_some, if_neg hcolon, if_neg hflag, endWord, hzero]

theorem next_joined {o : ShortOption} (hword : argv[k]? = some w) (hc : c ≠ 0)
    (hdrop : w.bytes.drop c = o.code :: value.bytes) (hvalue : value.bytes ≠ []) :
    (cmdInput argv).argumentParserNextLong (place k c) =
      some ((o.code.toNat : Int), ⟨k + 1, 0, some value, 0⟩) := by
  obtain ⟨hchar, -⟩ := char_of_drop hdrop
  obtain ⟨hrest, hlen, next, hnext, hzero⟩ := char_succ_of_drop hdrop
  obtain ⟨definition, hstrchr, hcolon, hmark⟩ := o.defined
  have hsuffix : w.suffix (c + 1) = some value := by
    rw [suffix, if_pos hlen]
    exact congrArg some (eq_of_bytes hrest)
  have hne : next ≠ 0 := fun h => hvalue (hzero.1 h)
  rw [next_middle hword hc]
  simp only [shortOption, shortValue, place, cmdInput, hchar, hstrchr, hmark,
    hnext, hsuffix, bind_some, map_some, if_neg hcolon, if_pos hne, if_true]

theorem next_spaced {o : ShortOption} (hword : argv[k]? = some w) (hc : c ≠ 0)
    (hdrop : w.bytes.drop c = [o.code]) (hvalue : argv[k + 1]? = some value) :
    (cmdInput argv).argumentParserNextLong (place k c) =
      some ((o.code.toNat : Int), ⟨k + 2, 0, some value, 0⟩) := by
  obtain ⟨hchar, -⟩ := char_of_drop hdrop
  obtain ⟨-, -, next, hnext, hzero⟩ := char_succ_of_drop hdrop
  obtain ⟨definition, hstrchr, hcolon, hmark⟩ := o.defined
  have hend : next = 0 := hzero.2 rfl
  rw [next_middle hword hc]
  simp only [shortOption, shortValue, nextWord, place, cmdInput,
    hchar, hstrchr, hmark, hnext, hend, hvalue, bind_some, map_some, if_neg hcolon,
    ne_eq, not_true_eq_false, if_false, if_true]

theorem parses_flags (hword : argv[k]? = some w) (flags : List ShortFlag) (hc : c ≠ 0)
    (hdrop : w.bytes.drop c = flags.map ShortFlag.code ++ tail) (hsome : flags ≠ [] ∨ tail ≠ [])
    (hend : tail = [] → (cmdInput argv).Parses (place (k + 1) 0) returned last)
    (hrest : ∀ d ≠ 0, w.bytes.drop d = tail → tail ≠ [] →
      (cmdInput argv).Parses (place k d) returned last) :
    (cmdInput argv).Parses (place k c) ((flags.map CmdOption.flag).map CmdOption.returned ++ returned)
      last := by
  induction flags generalizing c with
  | nil => exact hrest c hc hdrop (hsome.resolve_left (· rfl))
  | cons f flags ih =>
    rw [map_cons, cons_append] at hdrop
    obtain ⟨hdrop', -, -⟩ := char_succ_of_drop hdrop
    have hcall := next_flag hword hc hdrop
    have hcode : ((f.code.toNat : Int)) ≠ -1 := by omega
    by_cases hlast : flags.map ShortFlag.code ++ tail = []
    · rw [if_pos hlast] at hcall
      obtain ⟨hflags, htail⟩ := append_eq_nil_iff.1 hlast
      obtain rfl := map_eq_nil_iff.1 hflags
      exact .call hcall hcode (hend htail)
    · rw [if_neg hlast] at hcall
      refine .call hcall hcode (ih (Nat.succ_ne_zero c) hdrop' ?_)
      by_contra hnone
      rw [not_or, not_not, not_not] at hnone
      exact hlast (by rw [hnone.1, hnone.2]; rfl)

theorem parses_bundle {flags : List ShortFlag} (hword : argv[k]? = some (dashed (flagString flags text)))
    (hsome : flags ≠ [] ∨ text.bytes ≠ []) (hfirst : text.bytes.head? ≠ some 45)
    (hend : text.bytes = [] → (cmdInput argv).Parses (place (k + 1) 0) returned last)
    (hrest : ∀ d ≠ 0, (dashed (flagString flags text)).bytes.drop d = text.bytes → text.bytes ≠ [] →
      (cmdInput argv).Parses (place k d) returned last) :
    (cmdInput argv).Parses (place k 0) ((flags.map CmdOption.flag).map CmdOption.returned ++ returned)
      last := by
  have hflags := parses_flags hword flags (by decide : 1 ≠ 0) (by simp [dashed]) hsome hend hrest
  cases flags with
  | nil =>
    obtain ⟨x, tail, hbytes⟩ := exists_cons_of_ne_nil (hsome.resolve_left (· rfl))
    refine hflags.congr (@next_bundle _ _ _ tail x hword (by simp [dashed, hbytes]) ?_)
    rintro rfl
    exact hfirst (by rw [hbytes]; rfl)
  | cons f flags =>
    refine hflags.congr (@next_bundle _ _ _ (flags.map ShortFlag.code ++ text.bytes) f.code hword
      (by simp [dashed]) ?_)
    cases f <;> decide

/-! ### Long options -/

theorem LongOption.find (o : LongOption) :
    (cmdLongOptions.find? fun l => l.name.bytes = o.name.bytes) = some ⟨o.name, true, o.value⟩ := by
  cases o <;> rfl

theorem LongOption.equals_not_mem (o : LongOption) : 61 ∉ o.name.bytes := by
  cases o <;> decide

theorem LongOption.value_ne (o : LongOption) : o.value ≠ -1 := by
  cases o <;> decide

theorem LongOption.name_ne_nil (o : LongOption) : o.name.bytes ≠ [] := by
  cases o <;> decide

theorem longName_eq_self (h : 61 ∉ text.bytes) :
    longName text = text.bytes := by
  rw [longName, takeWhile_eq_self_iff]
  intro x hx
  rw [decide_eq_true_eq]
  rintro rfl
  exact h hx

theorem longName_joined {name : CString} (h : 61 ∉ name.bytes) (value : CString) :
    longName (name.append (.cons 61 (by decide) value)) = name.bytes := by
  have hname := longName_eq_self h
  rw [longName, takeWhile_eq_self_iff] at hname
  rw [longName, bytes_append, takeWhile_append_of_pos hname]
  simp

theorem next_longJoined {o : LongOption}
    (hword : argv[k]? = some (dashed (dashed (o.name.append (.cons 61 (by decide) value))))) :
    (cmdInput argv).argumentParserNextLong (place k 0) = some (o.value, ⟨k + 1, 0, some value, 0⟩) := by
  have hname := longName_joined o.equals_not_mem value
  have hequals : (o.name.append (.cons 61 (by decide) value)).bytes.contains 61 = true := by simp
  have hsuffix : (o.name.append (.cons 61 (by decide) value)).suffix (o.name.bytes.length + 1) =
      some value := by
    rw [suffix, if_pos (by simp)]
    exact congrArg some (eq_of_bytes (by simp))
  rw [next_long hword (by simp)]
  simp only [longOption, hname, cmdInput, o.find, hequals, hsuffix, map_some, if_true]
  rfl

theorem next_longSpaced {o : LongOption} (hword : argv[k]? = some (dashed (dashed o.name)))
    (hvalue : argv[k + 1]? = some value) :
    (cmdInput argv).argumentParserNextLong (place k 0) = some (o.value, ⟨k + 2, 0, some value, 0⟩) := by
  have hname := longName_eq_self o.equals_not_mem
  have hequals : ¬ o.name.bytes.contains 61 = true := fun h => o.equals_not_mem (contains_iff_mem.1 h)
  rw [next_long hword o.name_ne_nil]
  simp only [longOption, hname, cmdInput, o.find, if_neg hequals, if_true,
    nextWord, place, hvalue]

theorem next_disableConductor (hword : argv[k]? = some (dashed (dashed disableConductorName))) :
    (cmdInput argv).argumentParserNextLong (place k 0) = some (260, place (k + 1) 0) := by
  rw [next_long hword (by decide)]
  rfl

/-! ### Whole command lines -/

theorem parses_spelling (s : Spelling) (hargv : argv.drop k = s.words ++ rest)
    (h : (cmdInput argv).Parses (place (k + s.words.length) 0) returned last) :
    (cmdInput argv).Parses (place k 0) (s.options.map CmdOption.returned ++ returned) last := by
  have hget : ∀ i, (s.words ++ rest)[i]? = argv[k + i]? := by
    intro i
    rw [← hargv, getElem?_drop]
  have hcode : ∀ x : UInt8, ((x.toNat : Int)) ≠ -1 := fun x => by omega
  have hword := (hget 0).symm
  have hnext := (hget 1).symm
  cases s with
  | bundle f flags =>
    exact parses_bundle hword (.inl (cons_ne_nil _ _)) (by simp [emptyString, ofChars, ascii]) (fun _ => h)
      (fun _ _ _ hne => absurd rfl hne)
  | joined flags o value hvalue =>
    rw [Spelling.options, map_append, append_assoc]
    refine parses_bundle hword (.inr (cons_ne_nil _ _)) (by cases o <;> simp [ShortOption.code])
      (fun hnil => by cases hnil) fun d hd hdrop _ => ?_
    exact .call (next_joined hword hd hdrop hvalue) (hcode _) h.of_place
  | spaced flags o value =>
    rw [Spelling.options, map_append, append_assoc]
    refine parses_bundle hword (.inr (cons_ne_nil _ _)) (by cases o <;> simp [ShortOption.code])
      (fun hnil => by cases hnil) fun d hd hdrop _ => ?_
    exact .call (next_spaced hword hd hdrop hnext) (hcode _) h.of_place
  | disableConductor => exact .call (next_disableConductor hword) (by decide) h
  | longJoined o value => exact .call (next_longJoined hword) o.value_ne h.of_place
  | longSpaced o value => exact .call (next_longSpaced hword hnext) o.value_ne h.of_place

def cmdLine (program : CString) (spellings : List Spelling) (load : LoadFile) (rest : List CString) :
    List CString :=
  program :: (spellings.flatMap Spelling.words ++ (load.before ++ load.name :: rest))

theorem parses_spellings (spellings : List Spelling)
    (hargv : argv.drop k = spellings.flatMap Spelling.words ++ rest)
    (h : (cmdInput argv).Parses (place (k + (spellings.flatMap Spelling.words).length) 0) [] last) :
    (cmdInput argv).Parses (place k 0)
      ((spellings.flatMap Spelling.options).map CmdOption.returned) last := by
  induction spellings generalizing k with
  | nil => exact h
  | cons s spellings ih =>
    rw [flatMap_cons, append_assoc] at hargv
    rw [flatMap_cons, map_append]
    refine parses_spelling s hargv (ih ?_ ?_)
    · rw [← drop_drop, hargv, drop_left]
    · rw [flatMap_cons, length_append] at h
      rwa [Nat.add_assoc]

theorem parses_load (load : LoadFile) (hargv : argv.drop k = load.before ++ load.name :: rest) :
    (cmdInput argv).Parses (place k 0) [] (place (k + load.before.length) 0) := by
  have hget : ∀ i, (load.before ++ load.name :: rest)[i]? = argv[k + i]? := by
    intro i
    rw [← hargv, getElem?_drop]
  cases load with
  | plain name h => exact .done (next_plain (hget 0).symm h)
  | dashes name => exact .done (next_dashes (hget 0).symm)

end

/-- **The options are read back** from every command line that spells them, in order and with their values,
and the calls stop at the load file. On every command line whatsoever they stop, and read nothing but
its words. -/
theorem argument_parser_next_long_options :
    (∀ (program : CString) (spellings : List Spelling) (load : LoadFile) (rest : List CString),
      ∃ last, (cmdInput (cmdLine program spellings load rest)).Parses argumentParserInit
          ((spellings.flatMap Spelling.options).map CmdOption.returned) last ∧
        last.index = 1 + (spellings.flatMap Spelling.words).length + load.before.length ∧
        (cmdLine program spellings load rest)[last.index]? = some load.name) ∧
    ∀ argv : List CString, ∃ returned last, (cmdInput argv).Parses argumentParserInit returned last := by
  constructor
  · intro program spellings load rest
    have hdrop : (cmdLine program spellings load rest).drop
        (1 + (spellings.flatMap Spelling.words).length) = load.before ++ load.name :: rest := by
      rw [← drop_drop]
      exact drop_left
    refine ⟨place (1 + (spellings.flatMap Spelling.words).length + load.before.length) 0,
      parses_spellings spellings rfl (parses_load load hdrop), rfl, ?_⟩
    rw [place, ← getElem?_drop, hdrop, getElem?_append_right (Nat.le_refl _), Nat.sub_self]
    rfl
  · intro argv
    exact exists_parses (.inl rfl)

end Athrill
