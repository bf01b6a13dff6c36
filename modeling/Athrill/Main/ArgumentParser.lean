import Athrill.Lib.Bytes
import Mathlib.Algebra.Order.BigOperators.Group.List
import Mathlib.Algebra.Order.Ring.Nat
import Mathlib.Data.List.TakeWhile

/-!
# Command-line options (`main/option/argument_parser.c`)

`argument_parser_next_long` returns one option of the command line in each call and keeps its place in a
state: the word, and the character in it if the word is a bundle of short options.
-/

namespace Athrill

open Bytes List Option CString

structure ArgumentParserState where
  index : Nat
  characterIndex : Nat
  argument : Option CString
  errorOption : Int

structure ArgumentParserLongOption where
  name : CString
  requiresArgument : Bool
  value : Int

def argumentParserInit : ArgumentParserState := ⟨1, 0, none, 0⟩

structure ParserInput where
  argv : List CString
  optionString : CString
  longOptions : List ArgumentParserLongOption

def errorMark : Int := 63

namespace ParserInput

variable (p : ParserInput) (st : ArgumentParserState)

def endWord (next : UInt8) : ArgumentParserState :=
  if next = 0 then { st with index := st.index + 1, characterIndex := 0 } else st

def nextWord (opt : Int) : Int × ArgumentParserState :=
  match p.argv[st.index + 1]? with
  | some value => (opt, { st with argument := some value, index := st.index + 2 })
  | none => (errorMark, { st with errorOption := opt, index := st.index + 1 })

def longName (text : CString) : List UInt8 := text.bytes.takeWhile (· ≠ 61)

def longOption (text : CString) : Option (Int × ArgumentParserState) :=
  let equals := text.bytes.contains 61
  match p.longOptions.find? fun o => o.name.bytes = longName text with
  | none => some (errorMark, { st with index := st.index + 1, errorOption := 0 })
  | some o =>
    if o.requiresArgument then
      if equals then
        (text.suffix ((longName text).length + 1)).map fun value =>
          (o.value, { st with argument := some value, index := st.index + 1 })
      else some (p.nextWord st o.value)
    else if equals then some (errorMark, { st with index := st.index + 1, errorOption := o.value })
    else some (o.value, { st with index := st.index + 1 })

def shortValue (current : CString) (option : UInt8) : Option (Int × ArgumentParserState) :=
  (current.char st.characterIndex).bind fun next =>
    if next ≠ 0 then
      (current.suffix st.characterIndex).map fun value =>
        (option.toNat, { st with argument := some value, index := st.index + 1, characterIndex := 0 })
    else some (p.nextWord { st with characterIndex := 0 } option.toNat)

def shortOption (current : CString) : Option (Int × ArgumentParserState) :=
  (current.char st.characterIndex).bind fun option =>
    let st := { st with characterIndex := st.characterIndex + 1 }
    let unknown := (current.char st.characterIndex).map fun next =>
      (errorMark, endWord { st with errorOption := option.toNat } next)
    match p.optionString.strchr option with
    | none => unknown
    | some definition =>
      if option = 58 then unknown
      else
        (p.optionString.char (definition + 1)).bind fun mark =>
          if mark = 58 then p.shortValue st current option
          else (current.char st.characterIndex).map fun next => (option.toNat, endWord st next)

def startWord (current : CString) : Option (Int × ArgumentParserState) :=
  (current.char 0).bind fun first =>
    if first ≠ 45 then some (-1, st)
    else
      (current.char 1).bind fun second =>
        if second = 0 then some (-1, st)
        else if second = 45 then
          (current.char 2).bind fun third =>
            if third = 0 then some (-1, { st with index := st.index + 1 })
            else (current.suffix 2).bind fun text => p.longOption st text
        else p.shortOption { st with characterIndex := 1 } current

def argumentParserNextLong : Option (Int × ArgumentParserState) :=
  let st := { st with argument := none, errorOption := 0 }
  match p.argv[st.index]? with
  | none => some (-1, st)
  | some current =>
    if st.characterIndex = 0 then p.startWord st current else p.shortOption st current

/-- Calls until one returns `-1`, with what the others return. -/
inductive Parses : ArgumentParserState → List (Int × Option CString) → ArgumentParserState → Prop
  | done {st last} : p.argumentParserNextLong st = some (-1, last) → Parses st [] last
  | call {st st' last opt rest} : p.argumentParserNextLong st = some (opt, st') → opt ≠ -1 →
      Parses st' rest last → Parses st ((opt, st'.argument) :: rest) last

end ParserInput

/-! ## Progress -/

section
variable {p : ParserInput} {st st' : ArgumentParserState} {current : CString}

/-- `character_index` is 0 or inside the current argument. -/
def ParserInput.Inside (p : ParserInput) (st : ArgumentParserState) : Prop :=
  st.characterIndex = 0 ∨
    ∃ current, p.argv[st.index]? = some current ∧ st.characterIndex < current.bytes.length

def ParserInput.left (p : ParserInput) (st : ArgumentParserState) : Nat :=
  ((p.argv.drop st.index).map fun w => w.bytes.length + 1).sum - st.characterIndex

def MovesOn (current : CString) (st st' : ArgumentParserState) : Prop :=
  st.index < st'.index ∧ st'.characterIndex = 0 ∨
    st'.index = st.index ∧ st.characterIndex < st'.characterIndex ∧
      st'.characterIndex < current.bytes.length

theorem MovesOn.inside (h : p.argv[st.index]? = some current) (hmoves : MovesOn current st st') :
    p.Inside st' := by
  rcases hmoves with ⟨-, hstart⟩ | ⟨hindex, -, hlt⟩
  · exact .inl hstart
  · exact .inr ⟨current, by rw [hindex, h], hlt⟩

theorem MovesOn.left_lt (h : p.argv[st.index]? = some current)
    (hchar : st.characterIndex ≤ current.bytes.length) (hmoves : MovesOn current st st') :
    p.left st' < p.left st := by
  obtain ⟨hlt, hget⟩ := List.getElem?_eq_some_iff.1 h
  have hword : p.left st = current.bytes.length + 1 +
      ((p.argv.drop (st.index + 1)).map fun w => w.bytes.length + 1).sum - st.characterIndex := by
    rw [ParserInput.left, drop_eq_getElem_cons hlt, hget, map_cons, sum_cons]
  rcases hmoves with ⟨hindex, hstart⟩ | ⟨hindex, hnext, hlast⟩
  · have hsub : ((p.argv.drop st'.index).map fun w => w.bytes.length + 1).Sublist
        ((p.argv.drop (st.index + 1)).map fun w => w.bytes.length + 1) :=
      (drop_sublist_drop_left p.argv hindex).map _
    have hle := hsub.sum_le_sum fun _ _ => Nat.zero_le _
    rw [hword, ParserInput.left, hstart]
    omega
  · have hword' : p.left st' = current.bytes.length + 1 +
        ((p.argv.drop (st.index + 1)).map fun w => w.bytes.length + 1).sum - st'.characterIndex := by
      rw [ParserInput.left, hindex, drop_eq_getElem_cons hlt, hget, map_cons, sum_cons]
    rw [hword, hword']
    omega

theorem nextWord_place (p : ParserInput) (st : ArgumentParserState) (opt : Int) :
    st.index < (p.nextWord st opt).2.index ∧
      (p.nextWord st opt).2.characterIndex = st.characterIndex := by
  unfold ParserInput.nextWord
  cases p.argv[st.index + 1]? with
  | some value => exact ⟨Nat.lt_add_of_pos_right (by decide), rfl⟩
  | none => exact ⟨Nat.lt_succ_self _, rfl⟩

theorem length_longName_lt {text : CString} (h : text.bytes.contains 61 = true) :
    (ParserInput.longName text).length + 1 ≤ text.bytes.length := by
  by_contra hge
  have hall : ParserInput.longName text = text.bytes :=
    (List.takeWhile_prefix _).eq_of_length_le (by rw [ParserInput.longName] at hge; omega)
  have hmem : (61 : UInt8) ∈ ParserInput.longName text := by
    rw [hall]
    exact contains_iff_mem.1 h
  simpa using all_eq_true.1 all_takeWhile _ hmem

theorem longOption_moves (text : CString) (hstart : st.characterIndex = 0) :
    ∃ opt st', p.longOption st text = some (opt, st') ∧ MovesOn current st st' := by
  have hone : ∀ argument error, MovesOn current st ⟨st.index + 1, st.characterIndex, argument, error⟩ :=
    fun _ _ => .inl ⟨Nat.lt_succ_self _, hstart⟩
  rcases hfind : p.longOptions.find? fun o => o.name.bytes = ParserInput.longName text with _ | o
  · simp only [ParserInput.longOption, hfind]
    exact ⟨_, _, rfl, hone _ _⟩
  · simp only [ParserInput.longOption, hfind]
    by_cases hequals : text.bytes.contains 61 = true
    · rw [if_pos hequals, if_pos hequals]
      have hlen := length_longName_lt hequals
      rw [suffix, if_pos hlen, map_some]
      by_cases hvalue : o.requiresArgument = true
      · exact ⟨_, _, if_pos hvalue, hone _ _⟩
      · exact ⟨_, _, if_neg hvalue, hone _ _⟩
    · rw [if_neg hequals, if_neg hequals]
      by_cases hvalue : o.requiresArgument = true
      · obtain ⟨hindex, hchar⟩ := nextWord_place p st o.value
        exact ⟨_, _, if_pos hvalue, .inl ⟨hindex, hchar.trans hstart⟩⟩
      · exact ⟨_, _, if_neg hvalue, hone _ _⟩

theorem endWord_moves {next : UInt8} {error : Int}
    (hnext : current.char (st.characterIndex + 1) = some next) :
    MovesOn current st (ParserInput.endWord
      ⟨st.index, st.characterIndex + 1, st.argument, error⟩ next) := by
  unfold ParserInput.endWord
  by_cases hzero : next = 0
  · rw [if_pos hzero]
    exact .inl ⟨Nat.lt_succ_self _, rfl⟩
  · rw [if_neg hzero]
    exact .inr ⟨rfl, Nat.lt_succ_self _, lt_length_of_char hnext hzero⟩

theorem exists_mark {option : UInt8} {definition : Nat} (hoption : option ≠ 0)
    (h : p.optionString.strchr option = some definition) :
    ∃ mark, p.optionString.char (definition + 1) = some mark := by
  obtain ⟨hlt, hget, -⟩ := findIdx?_eq_some_iff_getElem.1 h
  have hchar : p.optionString.char definition = some option := by
    rw [char, getElem?_eq_getElem hlt, of_decide_eq_true hget]
  exact char_isSome (lt_length_of_char hchar hoption)

theorem shortOption_moves (hlt : st.characterIndex < current.bytes.length) :
    ∃ opt st', p.shortOption st current = some (opt, st') ∧ MovesOn current st st' := by
  obtain ⟨next, hnext⟩ := char_isSome (s := current) (i := st.characterIndex + 1) hlt
  have hchar := char_of_lt hlt
  have hne := current.ne_zero _ (getElem_mem hlt)
  have hend : ∀ error, MovesOn current st (ParserInput.endWord
      ⟨st.index, st.characterIndex + 1, st.argument, error⟩ next) := fun _ => endWord_moves hnext
  simp only [ParserInput.shortOption, hchar, bind_some, hnext, map_some]
  rcases hfind : p.optionString.strchr current.bytes[st.characterIndex] with _ | definition
  · exact ⟨_, _, rfl, hend _⟩
  · obtain ⟨mark, hmark⟩ := exists_mark hne hfind
    simp only [hmark, bind_some]
    by_cases hcolon : current.bytes[st.characterIndex] = 58
    · exact ⟨_, _, if_pos hcolon, hend _⟩
    · rw [if_neg hcolon]
      by_cases hvalue : mark = 58
      · rw [if_pos hvalue]
        simp only [ParserInput.shortValue, hnext, bind_some]
        by_cases hjoined : next ≠ 0
        · rw [if_pos hjoined, suffix, if_pos (Nat.succ_le_of_lt hlt)]
          exact ⟨_, _, rfl, .inl ⟨Nat.lt_succ_self _, rfl⟩⟩
        · rw [if_neg hjoined]
          exact ⟨_, _, rfl, .inl (nextWord_place p { st with characterIndex := 0 } _)⟩
      · exact ⟨_, _, if_neg hvalue, hend _⟩

theorem startWord_moves (hstart : st.characterIndex = 0) :
    ∃ opt st', p.startWord st current = some (opt, st') ∧ (opt = -1 ∨ MovesOn current st st') := by
  unfold ParserInput.startWord
  obtain ⟨first, hfirst⟩ := char_isSome (s := current) (Nat.zero_le _)
  rw [hfirst, bind_some]
  by_cases hdash : first ≠ 45
  · exact ⟨_, _, if_pos hdash, .inl rfl⟩
  · rw [if_neg hdash]
    have hone : 1 ≤ current.bytes.length :=
      lt_length_of_char hfirst (by rw [not_not.1 hdash]; decide)
    obtain ⟨second, hsecond⟩ := char_isSome (s := current) hone
    rw [hsecond, bind_some]
    by_cases hend : second = 0
    · exact ⟨_, _, if_pos hend, .inl rfl⟩
    · rw [if_neg hend]
      have htwo : 2 ≤ current.bytes.length := lt_length_of_char hsecond hend
      by_cases hlong : second = 45
      · rw [if_pos hlong]
        obtain ⟨third, hthird⟩ := char_isSome (s := current) htwo
        rw [hthird, bind_some]
        by_cases hstop : third = 0
        · exact ⟨_, _, if_pos hstop, .inl rfl⟩
        · rw [if_neg hstop, suffix, if_pos htwo, bind_some]
          obtain ⟨opt, st', hcall, hplace⟩ := @longOption_moves p st current _ hstart
          exact ⟨opt, st', hcall, .inr hplace⟩
      · rw [if_neg hlong]
        obtain ⟨opt, st', hcall, hplace⟩ := @shortOption_moves p { st with characterIndex := 1 } current htwo
        refine ⟨opt, st', hcall, .inr ?_⟩
        rcases hplace with hword | ⟨hsame, hlt, hinside⟩
        · exact .inl hword
        · exact .inr ⟨hsame, by rw [hstart]; exact Nat.zero_lt_of_lt hlt, hinside⟩

theorem argumentParserNextLong_moves (h : p.Inside st) :
    ∃ opt st', p.argumentParserNextLong st = some (opt, st') ∧
      (opt = -1 ∨ p.Inside st' ∧ p.left st' < p.left st) := by
  unfold ParserInput.argumentParserNextLong
  dsimp only
  rcases hword : p.argv[st.index]? with _ | current
  · exact ⟨_, _, rfl, .inl rfl⟩
  · dsimp only
    by_cases hzero : st.characterIndex = 0
    · rw [if_pos hzero]
      obtain ⟨opt, st', hcall, hend | hmoves⟩ := @startWord_moves p
        { st with argument := none, errorOption := 0 } current hzero
      · exact ⟨opt, st', hcall, .inl hend⟩
      · exact ⟨opt, st', hcall, .inr ⟨hmoves.inside hword, hmoves.left_lt hword (by rw [hzero]; omega)⟩⟩
    · rw [if_neg hzero]
      obtain hstart | ⟨current', hword', hlt⟩ := h
      · exact absurd hstart hzero
      · cases hword.symm.trans hword'
        obtain ⟨opt, st', hcall, hmoves⟩ := @shortOption_moves p
          { st with argument := none, errorOption := 0 } current hlt
        exact ⟨opt, st', hcall, .inr ⟨hmoves.inside hword, hmoves.left_lt hword hlt.le⟩⟩

theorem exists_parses (h : p.Inside st) : ∃ returned last, p.Parses st returned last := by
  induction hn : p.left st using Nat.strong_induction_on generalizing st with
  | _ n ih =>
    obtain ⟨opt, st', hcall, hnext⟩ := argumentParserNextLong_moves h
    by_cases hend : opt = -1
    · subst hend
      exact ⟨_, _, .done hcall⟩
    · obtain ⟨hinside, hless⟩ := hnext.resolve_left hend
      obtain ⟨returned, last, hrest⟩ := ih _ (hn ▸ hless) hinside rfl
      exact ⟨_, _, .call hcall hend hrest⟩

end

end Athrill
