import Athrill.Debugger.Token

/-!
# The command parsers (`concrete_parser/dbg_std_parser.c`)

Every parser of `dbg_cmd_parser_std_table` gets the tokens of a line and the one command buffer, and returns
the buffer or `NULL`.
-/

namespace Athrill

open List.Subset

/-! ## The command buffer -/

inductive DbgCmdStdIdType
  | parseError
  | break_
  | delete
  | cont
  | core
  | intr
  | dataWatch
  | elaps
  | next
  | return_
  | view
  | print
  | memset
  | quit
  | exit
  | serialin
  | infoCpu
  | funcTrace
  | dataAccessInfo
  | backTrace
  | profile
  | list
  | help
  deriving DecidableEq, Repr

inductive DbgCmdBreakType
  | set
  | setSymbol
  | setFileLine
  | info
  deriving DecidableEq, Repr

inductive DbgCmdDeleteType
  | all
  | one
  deriving DecidableEq, Repr

inductive DbgCmdContType
  | all
  | clocks
  deriving DecidableEq, Repr

inductive DbgCmdCoreType
  | all
  | single
  | show_
  deriving DecidableEq, Repr

inductive DbgCmdDPrintType
  | symbol
  | addr
  | addrSize
  | addrType
  deriving DecidableEq, Repr

inductive DbgCmdDWatchDataType
  | set
  | setSymbol
  | deleteOne
  | deleteAll
  | info
  deriving DecidableEq, Repr

structure DbgCmdExecutorBreakType (W : Nat) where
  type : DbgCmdBreakType := .set
  breakAddr : AthrillAddrType W := 0
  symbol : TokenStringType := {}
  line : Nat := 0

structure DbgCmdExecutorDeleteType where
  type : DbgCmdDeleteType := .all
  deleteBreakNo : Nat := 0

structure DbgCmdExecutorContType where
  type : DbgCmdContType := .all
  contClocks : Nat := 0

structure DbgCmdExecutorCoreType where
  type : DbgCmdCoreType := .all
  coreId : Nat := 0
  isDebugMode : Bool := false

structure DbgCmdExecutorPrintType (W : Nat) where
  type : DbgCmdDPrintType := .symbol
  symbol : TokenStringType := {}
  addr : AthrillAddrType W := 0
  size : Nat := 0
  dataType : TokenStringType := {}
  dataTypeName : TokenStringType := {}

structure DbgCmdExecutorMemsetType (W : Nat) where
  addr : AthrillAddrType W := 0
  value : UInt8 := 0

structure DbgCmdExecutorSerialInType where
  channel : Nat := 0
  input : TokenStringType := {}

structure DbgCmdExecutorInfoCpuType where
  type : DbgCmdCoreType := .all
  coreId : Nat := 0

structure DbgCmdExecutorFuncTraceType where
  btNumber : Nat := 0
  btWay : Bool := false

structure DbgCmdExecutorWatchDataType (W : Nat) where
  type : DbgCmdDWatchDataType := .set
  watchType : UInt8 := 0
  symbol : TokenStringType := {}
  addr : AthrillAddrType W := 0
  size : Nat := 0
  delno : Nat := 0

structure DbgParsedArgs (W : Nat) where
  break_ : DbgCmdExecutorBreakType W := {}
  delete : DbgCmdExecutorDeleteType := {}
  cont : DbgCmdExecutorContType := {}
  core : DbgCmdExecutorCoreType := {}
  print : DbgCmdExecutorPrintType W := {}
  memset : DbgCmdExecutorMemsetType W := {}
  serialin : DbgCmdExecutorSerialInType := {}
  infoCpu : DbgCmdExecutorInfoCpuType := {}
  funcTrace : DbgCmdExecutorFuncTraceType := {}
  watchData : DbgCmdExecutorWatchDataType W := {}
  dataAccessInfo : TokenStringType := {}
  intr : Nat := 0
  help : Bool := false

structure DbgCmdExecutorType (W : Nat) where
  stdId : DbgCmdStdIdType := .parseError
  run : DbgCmdStdIdType := .parseError
  parsedArgs : DbgParsedArgs W := {}
  originalStr : List UInt8 := []

abbrev ParseResult (W : Nat) := Option (DbgCmdExecutorType W × Bool)

def found {W : Nat} (arg : DbgCmdExecutorType W) : ParseResult W := some (arg, true)

def notFound {W : Nat} (arg : DbgCmdExecutorType W) : ParseResult W := some (arg, false)

/-! ## The names of the commands -/

def breakString : List UInt8 := tokenName ['b', 'r', 'e', 'a', 'k']
def breakStringShort : List UInt8 := tokenName ['b']
def breakInfoString : List UInt8 := tokenName ['i', 'n', 'f', 'o']
def watchString : List UInt8 := tokenName ['w', 'a', 't', 'c', 'h']
def watchStringShort : List UInt8 := tokenName ['w']
def watchInfoString : List UInt8 := tokenName ['i', 'n', 'f', 'o']
def watchOptionStringReadset : List UInt8 := tokenName ['r']
def watchOptionStringWriteset : List UInt8 := tokenName ['w']
def watchOptionStringRwset : List UInt8 := tokenName ['r', 'w']
def watchOptionStringDelete : List UInt8 := tokenName ['d']
def deleteString : List UInt8 := tokenName ['d', 'e', 'l', 'e', 't', 'e']
def deleteStringShort : List UInt8 := tokenName ['d']
def contString : List UInt8 := tokenName ['c', 'o', 'n', 't']
def contStringShort : List UInt8 := tokenName ['c']
def coreString : List UInt8 := tokenName ['c', 'o', 'r', 'e']
def cpuAll : List UInt8 := tokenName ['a', 'l', 'l']
def dbgModeTrue : List UInt8 := tokenName ['t']
def intrString : List UInt8 := tokenName ['i', 'n', 't', 'r']
def intrStringShort : List UInt8 := tokenName ['i']
def elapsString : List UInt8 := tokenName ['e', 'l', 'a', 'p', 's']
def elapsStringShort : List UInt8 := tokenName ['e']
def nextString : List UInt8 := tokenName ['n', 'e', 'x', 't']
def nextStringShort : List UInt8 := tokenName ['n']
def returnString : List UInt8 := tokenName ['r', 'e', 't', 'u', 'r', 'n']
def returnStringShort : List UInt8 := tokenName ['r']
def viewString : List UInt8 := tokenName ['v', 'i', 'e', 'w']
def viewStringShort : List UInt8 := tokenName ['v']
def printString : List UInt8 := tokenName ['p', 'r', 'i', 'n', 't']
def printStringShort : List UInt8 := tokenName ['p']
def memsetString : List UInt8 := tokenName ['s', 'e', 't']
def memsetStringShort : List UInt8 := tokenName ['s']
def quitString : List UInt8 := tokenName ['q', 'u', 'i', 't']
def quitStringShort : List UInt8 := tokenName ['q']
def listString : List UInt8 := tokenName ['l', 'i', 's', 't']
def listStringShort : List UInt8 := tokenName ['l']
def exitString : List UInt8 := tokenName ['e', 'x', 'i', 't']
def serialString : List UInt8 := tokenName ['s', 'e', 'r', 'i', 'a', 'l']
def serialStringShort : List UInt8 := tokenName ['S']
def infoCpuString : List UInt8 := tokenName ['c', 'p', 'u']
def funcTraceString : List UInt8 := tokenName ['f', 't']
def dataAccessInfoString : List UInt8 := tokenName ['a', 'c', 'c', 'e', 's', 's']
def backTraceString : List UInt8 := tokenName ['b', 't']
def profString : List UInt8 := tokenName ['p', 'r', 'o', 'f']
def helpString : List UInt8 := tokenName ['h', 'e', 'l', 'p']

/-! ## The parsers -/

def TokenContainerType.isName (c : TokenContainerType) (i : Nat) (names : List (List UInt8)) : Bool :=
  names.any fun name => tokenStrcmp (c.array i).body (tokenString name)

def dbgParseSingle {W : Nat} (names : List (List UInt8)) (id : DbgCmdStdIdType)
    (arg : DbgCmdExecutorType W) (c : TokenContainerType) : ParseResult W :=
  if c.num ≠ 1 then notFound arg
  else if (c.array 0).type ≠ .string then notFound arg
  else if c.isName 0 names then found { arg with stdId := id, run := id }
  else notFound arg

section
variable {W : Nat} (arg : DbgCmdExecutorType W) (c : TokenContainerType)

def dbgParseBreak : ParseResult W :=
  if c.num ≠ 2 ∧ c.num ≠ 3 then notFound arg
  else if (c.array 0).type ≠ .string then notFound arg
  else if c.isName 0 [breakString, breakStringShort] then
    if (c.array 1).type = .valueHex then
      found { arg with
        stdId := .break_, run := .break_, parsedArgs.break_.type := .set,
        parsedArgs.break_.breakAddr := (c.array 1).body.hexValue W }
    else if (c.array 1).type = .string then
      if c.num = 2 then
        found { arg with
          stdId := .break_, run := .break_, parsedArgs.break_.type := .setSymbol,
          parsedArgs.break_.symbol := (c.array 1).body }
      else if c.num = 3 ∧ (c.array 2).type = .valueDec then
        found { arg with
          stdId := .break_, run := .break_, parsedArgs.break_.type := .setFileLine,
          parsedArgs.break_.symbol := (c.array 1).body,
          parsedArgs.break_.line := (c.array 2).body.decValue }
      else notFound arg
    else notFound arg
  else if c.isName 0 [breakInfoString] then
    -- The type of the second token is not tested here.
    if c.isName 1 [breakString] then
      found { arg with stdId := .break_, run := .break_, parsedArgs.break_.type := .info }
    else notFound arg
  else notFound arg

def watchTypeOf : Option UInt8 :=
  if c.isName 1 [watchOptionStringReadset] then some 0x01
  else if c.isName 1 [watchOptionStringWriteset] then some 0x10
  else if c.isName 1 [watchOptionStringRwset] then some 0x11
  else none

def watchSet : ParseResult W :=
  if c.num = 3 ∧ (c.array 2).type = .string then
    found { arg with
      stdId := .dataWatch, run := .dataWatch, parsedArgs.watchData.type := .setSymbol,
      parsedArgs.watchData.symbol := (c.array 2).body }
  else if c.num = 4 ∧ (c.array 2).type = .valueHex ∧ (c.array 3).type = .valueDec then
    found { arg with
      stdId := .dataWatch, run := .dataWatch, parsedArgs.watchData.type := .set,
      parsedArgs.watchData.addr := (c.array 2).body.hexValue W,
      parsedArgs.watchData.size := (c.array 3).body.decValue }
  else notFound arg

def dbgParseWatchData : ParseResult W :=
  if c.num < 2 then notFound arg
  else if (c.array 0).type ≠ .string then notFound arg
  else if (c.array 1).type ≠ .string then notFound arg
  else if c.isName 0 [watchString, watchStringShort] then
    if c.isName 1 [watchOptionStringDelete] ∧ c.num = 2 then
      found { arg with
        stdId := .dataWatch, run := .dataWatch, parsedArgs.watchData.type := .deleteAll }
    else if c.isName 1 [watchOptionStringDelete] ∧ c.num = 3 ∧ (c.array 2).type = .valueDec then
      found { arg with
        stdId := .dataWatch, run := .dataWatch, parsedArgs.watchData.type := .deleteOne,
        parsedArgs.watchData.delno := (c.array 2).body.decValue }
    else
      match watchTypeOf c with
      | none => notFound arg
      | some watchType => watchSet { arg with parsedArgs.watchData.watchType := watchType } c
  else if c.isName 0 [watchInfoString] then
    if c.isName 1 [watchString] then
      found { arg with
        stdId := .dataWatch, run := .dataWatch, parsedArgs.watchData.type := .info }
    else notFound arg
  else notFound arg

def dbgParseDelete : ParseResult W :=
  if c.num > 2 then notFound arg
  else if (c.array 0).type ≠ .string then notFound arg
  else if c.isName 0 [deleteString, deleteStringShort] then
    if c.num = 1 then
      found { arg with stdId := .delete, run := .delete, parsedArgs.delete.type := .all }
    else if c.num = 2 ∧ (c.array 1).type = .valueDec then
      found { arg with
        stdId := .delete, run := .delete, parsedArgs.delete.type := .one,
        parsedArgs.delete.deleteBreakNo := (c.array 1).body.decValue }
    else notFound arg
  else notFound arg

def dbgParseCont : ParseResult W :=
  if c.num > 2 then notFound arg
  else if (c.array 0).type ≠ .string then notFound arg
  else if c.num = 2 ∧ (c.array 1).type ≠ .valueDec then notFound arg
  else if c.isName 0 [contString, contStringShort] then
    if c.num = 1 then
      found { arg with stdId := .cont, run := .cont, parsedArgs.cont.type := .all }
    else
      -- Two tokens, or none.
      found { arg with
        stdId := .cont, run := .cont, parsedArgs.cont.type := .clocks,
        parsedArgs.cont.contClocks := (c.array 1).body.decValue }
  else notFound arg

def coreArgsOk (coreNum : Nat) : Bool :=
  (if (c.array 1).type = .string then c.isName 1 [cpuAll]
    else (c.array 1).type = .valueDec ∧ (c.array 1).body.decValue < coreNum) ∧
  (c.array 2).type = .string

def dbgParseCore (coreNum : Nat) : ParseResult W :=
  if c.num ≠ 1 ∧ c.num ≠ 3 then notFound arg
  else if (c.array 0).type ≠ .string then notFound arg
  else if c.num = 3 ∧ ¬ coreArgsOk c coreNum then notFound arg
  else if c.isName 0 [coreString] then
    let arg := { arg with stdId := .core }
    if c.num = 3 then
      if (c.array 1).type = .string then
        let arg := { arg with
          parsedArgs.core.type := .all, parsedArgs.core.isDebugMode := true }
        if c.isName 2 [dbgModeTrue] then found { arg with run := .core } else notFound arg
      else
        found { arg with
          run := .core, parsedArgs.core.type := .single,
          parsedArgs.core.coreId := (c.array 1).body.decValue,
          parsedArgs.core.isDebugMode := c.isName 2 [dbgModeTrue] }
    else found { arg with run := .core, parsedArgs.core.type := .show_ }
  else notFound arg

def dbgParseIntr : ParseResult W :=
  if c.num ≠ 2 then notFound arg
  else if (c.array 0).type ≠ .string then notFound arg
  else if (c.array 1).type ≠ .valueDec then notFound arg
  else if c.isName 0 [intrString, intrStringShort] then
    found { arg with
      stdId := .intr, run := .intr, parsedArgs.intr := (c.array 1).body.decValue }
  else notFound arg

def dbgParseElaps : ParseResult W :=
  dbgParseSingle [elapsString, elapsStringShort] .elaps arg c

def dbgParseNext : ParseResult W :=
  dbgParseSingle [nextString, nextStringShort] .next arg c

def dbgParseReturn : ParseResult W :=
  dbgParseSingle [returnString, returnStringShort] .return_ arg c

def dbgParseView : ParseResult W :=
  dbgParseSingle [viewString, viewStringShort] .view arg c

def dbgParsePrint : ParseResult W :=
  if c.num ≠ 2 ∧ c.num ≠ 3 ∧ c.num ≠ 4 then notFound arg
  else if (c.array 0).type ≠ .string then notFound arg
  else if ¬ c.isName 0 [printString, printStringShort] then notFound arg
  else if c.num = 2 then
    if (c.array 1).type = .string then
      found { arg with
        stdId := .print, run := .print, parsedArgs.print.type := .symbol,
        parsedArgs.print.symbol := (c.array 1).body }
    else if (c.array 1).type = .valueHex then
      found { arg with
        stdId := .print, run := .print, parsedArgs.print.type := .addr,
        parsedArgs.print.addr := BitVec.ofNat W (c.array 1).body.decValue }
    else notFound arg
  else if c.num = 3 then
    if (c.array 1).type = .valueHex ∧ (c.array 2).type = .valueDec then
      found { arg with
        stdId := .print, run := .print, parsedArgs.print.type := .addrSize,
        parsedArgs.print.addr := BitVec.ofNat W (c.array 1).body.decValue,
        parsedArgs.print.size := (c.array 2).body.decValue }
    else notFound arg
  else if (c.array 1).type = .valueHex ∧ (c.array 2).type = .string ∧
      (c.array 3).type = .string then
    found { arg with
      stdId := .print, run := .print, parsedArgs.print.type := .addrType,
      parsedArgs.print.addr := BitVec.ofNat W (c.array 1).body.decValue,
      parsedArgs.print.dataType := (c.array 2).body,
      parsedArgs.print.dataTypeName := (c.array 3).body }
  else notFound arg

def dbgParseMemset : ParseResult W :=
  if c.num ≠ 3 then notFound arg
  else if (c.array 0).type ≠ .string then notFound arg
  else if ¬ c.isName 0 [memsetString, memsetStringShort] then notFound arg
  else if (c.array 1).type ≠ .valueHex then notFound arg
  else if (c.array 2).type ≠ .valueDec then notFound arg
  else
    found { arg with
      run := .memset, parsedArgs.memset.addr := (c.array 1).body.hexValue W,
      parsedArgs.memset.value := UInt8.ofNat (c.array 2).body.decValue }

def dbgParseQuit : ParseResult W :=
  dbgParseSingle [quitString, quitStringShort] .quit arg c

def dbgParseList : ParseResult W :=
  dbgParseSingle [listString, listStringShort] .list arg c

def dbgParseExit : ParseResult W :=
  dbgParseSingle [exitString] .exit arg c

def dbgParseSerialin : ParseResult W :=
  if c.num < 3 then notFound arg
  else if (c.array 0).type ≠ .string then notFound arg
  else if (c.array 1).type ≠ .valueDec then notFound arg
  else if c.isName 0 [serialString, serialStringShort] then
    match tokenSplitMerge W c 2 arg.parsedArgs.serialin.input with
    | none => none
    | some input =>
      found { arg with
        stdId := .serialin, run := .serialin,
        parsedArgs.serialin.channel := (c.array 1).body.decValue,
        parsedArgs.serialin.input := tokenTrimNewline input }
  else notFound arg

def dbgParseInfoCpu : ParseResult W :=
  if c.num ≠ 1 ∧ c.num ≠ 2 then notFound arg
  else if (c.array 0).type ≠ .string then notFound arg
  else if c.num = 2 ∧ (c.array 1).type ≠ .valueDec then notFound arg
  else if c.isName 0 [infoCpuString] then
    if c.num = 1 then
      found { arg with stdId := .infoCpu, run := .infoCpu, parsedArgs.infoCpu.type := .all }
    else
      found { arg with
        stdId := .infoCpu, run := .infoCpu, parsedArgs.infoCpu.type := .single,
        parsedArgs.infoCpu.coreId := (c.array 1).body.decValue }
  else notFound arg

def dbgParseFuncTrace : ParseResult W :=
  if c.num ≠ 2 ∧ c.num ≠ 3 then notFound arg
  else
    let arg := { arg with parsedArgs.funcTrace.btWay := c.num = 3 }
    if (c.array 0).type ≠ .string then notFound arg
    else if (c.array 1).type ≠ .valueDec then notFound arg
    else if c.isName 0 [funcTraceString] then
      found { arg with
        stdId := .funcTrace, run := .funcTrace,
        parsedArgs.funcTrace.btNumber := (c.array 1).body.decValue }
    else notFound arg

def dbgParseDataAccessInfo : ParseResult W :=
  if c.num ≠ 2 then notFound arg
  else if (c.array 0).type ≠ .string then notFound arg
  else if (c.array 1).type ≠ .string then notFound arg
  else if c.isName 0 [dataAccessInfoString] then
    found { arg with
      stdId := .dataAccessInfo, run := .dataAccessInfo,
      parsedArgs.dataAccessInfo := (c.array 1).body }
  else notFound arg

def dbgParseBackTrace : ParseResult W :=
  dbgParseSingle [backTraceString] .backTrace arg c

def dbgParseProfile : ParseResult W :=
  dbgParseSingle [profString] .profile arg c

def dbgParseHelp : ParseResult W :=
  if c.num ≠ 1 then notFound arg
  else if (c.array 0).type ≠ .string then notFound arg
  else if c.isName 0 [helpString] then
    found { arg with stdId := .help, run := .help, parsedArgs.help := true }
  else notFound arg

end

def dbgCmdParserStdTable (W coreNum : Nat) :
    List (DbgCmdExecutorType W → TokenContainerType → ParseResult W) :=
  [dbgParseBreak, dbgParseDelete, dbgParseIntr, dbgParseWatchData, dbgParseCont,
    fun arg c => dbgParseCore arg c coreNum, dbgParseElaps, dbgParseNext, dbgParseReturn,
    dbgParseView, dbgParsePrint, dbgParseMemset, dbgParseQuit, dbgParseExit, dbgParseSerialin,
    dbgParseInfoCpu, dbgParseFuncTrace, dbgParseDataAccessInfo, dbgParseBackTrace,
    dbgParseProfile, dbgParseList, dbgParseHelp]

/-! ## What a parser answers -/

def Answers {W : Nat} (names : List (List UInt8)) (id : DbgCmdStdIdType)
    (arg : DbgCmdExecutorType W) (c : TokenContainerType) : ParseResult W → Prop
  | none => id = .serialin
  | some (arg', true) => arg'.run = id ∧ c.isName 0 names = true
  | some (arg', false) => arg'.run = arg.run

section
variable {W : Nat} {names : List (List UInt8)} {id : DbgCmdStdIdType} {arg : DbgCmdExecutorType W}
  {c : TokenContainerType} {P : Prop} [Decidable P] {r r' : ParseResult W}

theorem Answers.ite (h : Answers names id arg c r) (h' : Answers names id arg c r') :
    Answers names id arg c (if P then r else r') := by
  split_ifs
  · exact h
  · exact h'

theorem Answers.name {names' : List (List UInt8)} (hsub : names' ⊆ names)
    (h : c.isName 0 names = true → Answers names id arg c r) (h' : Answers names id arg c r') :
    Answers names id arg c (if c.isName 0 names' = true then r else r') := by
  split_ifs with hname
  · obtain ⟨name, hmem, heq⟩ := List.any_eq_true.1 hname
    exact h (List.any_eq_true.2 ⟨name, hsub hmem, heq⟩)
  · exact h'

theorem Answers.not_name (h : Answers names id arg c r)
    (h' : c.isName 0 names = true → Answers names id arg c r') :
    Answers names id arg c (if ¬ c.isName 0 names = true then r else r') := by
  split_ifs with hname
  · exact h' hname
  · exact h

end

section
variable {W : Nat} (arg : DbgCmdExecutorType W) (c : TokenContainerType)

theorem dbgParseSingle_answers (names : List (List UInt8)) (id : DbgCmdStdIdType) :
    Answers names id arg c (dbgParseSingle names id arg c) :=
  .ite rfl (.ite rfl (.name (refl _) (fun h => ⟨rfl, h⟩) rfl))

theorem dbgParseBreak_answers :
    Answers [breakString, breakStringShort, breakInfoString] .break_ arg c
      (dbgParseBreak arg c) :=
  .ite rfl (.ite rfl (.name (by simp)
    (fun h => .ite ⟨rfl, h⟩ (.ite (.ite ⟨rfl, h⟩ (.ite ⟨rfl, h⟩ rfl)) rfl))
    (.name (by simp) (fun h => .ite ⟨rfl, h⟩ rfl) rfl)))

theorem dbgParseDelete_answers :
    Answers [deleteString, deleteStringShort] .delete arg c (dbgParseDelete arg c) :=
  .ite rfl (.ite rfl (.name (refl _)
    (fun h => .ite ⟨rfl, h⟩ (.ite ⟨rfl, h⟩ rfl)) rfl))

theorem dbgParseIntr_answers :
    Answers [intrString, intrStringShort] .intr arg c (dbgParseIntr arg c) :=
  .ite rfl (.ite rfl (.ite rfl (.name (refl _) (fun h => ⟨rfl, h⟩) rfl)))

theorem dbgParseWatchData_answers :
    Answers [watchString, watchStringShort, watchInfoString] .dataWatch arg c
      (dbgParseWatchData arg c) := by
  unfold dbgParseWatchData
  refine .ite rfl (.ite rfl (.ite rfl (.name (by simp)
    (fun h => .ite ⟨rfl, h⟩ (.ite ⟨rfl, h⟩ ?_))
    (.name (by simp) (fun h => .ite ⟨rfl, h⟩ rfl) rfl))))
  cases watchTypeOf c with
  | none => rfl
  | some watchType => exact .ite ⟨rfl, h⟩ (.ite ⟨rfl, h⟩ rfl)

theorem dbgParseCont_answers :
    Answers [contString, contStringShort] .cont arg c (dbgParseCont arg c) :=
  .ite rfl (.ite rfl (.ite rfl (.name (refl _)
    (fun h => .ite ⟨rfl, h⟩ ⟨rfl, h⟩) rfl)))

theorem dbgParseCore_answers (coreNum : Nat) :
    Answers [coreString] .core arg c (dbgParseCore arg c coreNum) :=
  .ite rfl (.ite rfl (.ite rfl (.name (refl _)
    (fun h => .ite (.ite (.ite ⟨rfl, h⟩ rfl) ⟨rfl, h⟩) ⟨rfl, h⟩) rfl)))

theorem dbgParsePrint_answers :
    Answers [printString, printStringShort] .print arg c (dbgParsePrint arg c) :=
  .ite rfl (.ite rfl (.not_name rfl fun h =>
    .ite (.ite ⟨rfl, h⟩ (.ite ⟨rfl, h⟩ rfl)) (.ite (.ite ⟨rfl, h⟩ rfl) (.ite ⟨rfl, h⟩ rfl))))

theorem dbgParseMemset_answers :
    Answers [memsetString, memsetStringShort] .memset arg c (dbgParseMemset arg c) :=
  .ite rfl (.ite rfl (.not_name rfl fun h => .ite rfl (.ite rfl ⟨rfl, h⟩)))

theorem dbgParseSerialin_answers :
    Answers [serialString, serialStringShort] .serialin arg c (dbgParseSerialin arg c) := by
  unfold dbgParseSerialin
  refine .ite rfl (.ite rfl (.ite rfl (.name (refl _) (fun h => ?_) rfl)))
  cases tokenSplitMerge W c 2 arg.parsedArgs.serialin.input with
  | none => rfl
  | some input => exact ⟨rfl, h⟩

theorem dbgParseInfoCpu_answers : Answers [infoCpuString] .infoCpu arg c (dbgParseInfoCpu arg c) :=
  .ite rfl (.ite rfl (.ite rfl (.name (refl _)
    (fun h => .ite ⟨rfl, h⟩ ⟨rfl, h⟩) rfl)))

theorem dbgParseFuncTrace_answers :
    Answers [funcTraceString] .funcTrace arg c (dbgParseFuncTrace arg c) :=
  .ite rfl (.ite rfl (.ite rfl (.name (refl _) (fun h => ⟨rfl, h⟩) rfl)))

theorem dbgParseDataAccessInfo_answers :
    Answers [dataAccessInfoString] .dataAccessInfo arg c (dbgParseDataAccessInfo arg c) :=
  .ite rfl (.ite rfl (.ite rfl (.name (refl _) (fun h => ⟨rfl, h⟩) rfl)))

theorem dbgParseHelp_answers : Answers [helpString] .help arg c (dbgParseHelp arg c) :=
  .ite rfl (.ite rfl (.name (refl _) (fun h => ⟨rfl, h⟩) rfl))

end

def dbgCmdStdNames : List (List (List UInt8) × DbgCmdStdIdType) :=
  [([breakString, breakStringShort, breakInfoString], .break_),
    ([deleteString, deleteStringShort], .delete), ([intrString, intrStringShort], .intr),
    ([watchString, watchStringShort, watchInfoString], .dataWatch),
    ([contString, contStringShort], .cont), ([coreString], .core),
    ([elapsString, elapsStringShort], .elaps), ([nextString, nextStringShort], .next),
    ([returnString, returnStringShort], .return_), ([viewString, viewStringShort], .view),
    ([printString, printStringShort], .print), ([memsetString, memsetStringShort], .memset),
    ([quitString, quitStringShort], .quit), ([exitString], .exit),
    ([serialString, serialStringShort], .serialin), ([infoCpuString], .infoCpu),
    ([funcTraceString], .funcTrace), ([dataAccessInfoString], .dataAccessInfo),
    ([backTraceString], .backTrace), ([profString], .profile),
    ([listString, listStringShort], .list), ([helpString], .help)]

theorem dbgCmdParserStdTable_answers (W coreNum : Nat) :
    List.Forall₂ (fun parse cmd => ∀ arg c, Answers cmd.1 cmd.2 arg c (parse arg c))
      (dbgCmdParserStdTable W coreNum) dbgCmdStdNames :=
  .cons dbgParseBreak_answers <| .cons dbgParseDelete_answers <| .cons dbgParseIntr_answers <|
  .cons dbgParseWatchData_answers <| .cons dbgParseCont_answers <|
  .cons (fun arg c => dbgParseCore_answers arg c coreNum) <|
  .cons (fun arg c => dbgParseSingle_answers arg c _ _) <|
  .cons (fun arg c => dbgParseSingle_answers arg c _ _) <|
  .cons (fun arg c => dbgParseSingle_answers arg c _ _) <|
  .cons (fun arg c => dbgParseSingle_answers arg c _ _) <|
  .cons dbgParsePrint_answers <| .cons dbgParseMemset_answers <|
  .cons (fun arg c => dbgParseSingle_answers arg c _ _) <|
  .cons (fun arg c => dbgParseSingle_answers arg c _ _) <|
  .cons dbgParseSerialin_answers <| .cons dbgParseInfoCpu_answers <|
  .cons dbgParseFuncTrace_answers <| .cons dbgParseDataAccessInfo_answers <|
  .cons (fun arg c => dbgParseSingle_answers arg c _ _) <|
  .cons (fun arg c => dbgParseSingle_answers arg c _ _) <|
  .cons (fun arg c => dbgParseSingle_answers arg c _ _) <|
  .cons dbgParseHelp_answers .nil

end Athrill
