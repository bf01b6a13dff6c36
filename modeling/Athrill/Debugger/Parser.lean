import Athrill.Debugger.StdParser
import Athrill.Lib.Run

/-!
# The command line of the debugger (`front/parser/dbg_parser.c`)

`dbg_parse` keeps one command buffer, `parse_command`, and a pointer `last_command` that is `NULL` or points
to it. Main results: `commands_allowed_iff`, `empty_line_repeats_accepted_iff`.
-/

namespace Athrill

inductive DbgModeType
  | debug
  | cpu
  deriving DecidableEq, Repr

def dbgCmdBufferSize : Nat := 4096 * 256

/-- The statics of the parser; `last_command` is `NULL` or points to `parse_command`. -/
structure DbgParserState (W : Nat) where
  parseCommand : DbgCmdExecutorType W := {}
  lastCommand : Bool := false

/-- The line, the mode in force, and what the local buffers hold before they are written. -/
structure DbgCall where
  line : List UInt8
  mode : DbgModeType
  container : TokenContainerType
  buffer : Nat → UInt8

/-- The remembered command, an accepted one, `NULL` for one that the mode refuses, or the error command. -/
inductive DbgReturn (W : Nat)
  | repeated (cmd : DbgCmdExecutorType W)
  | accepted (cmd : DbgCmdExecutorType W)
  | refused
  | error (cmd : DbgCmdExecutorType W)

def DbgReturn.command {W : Nat} : DbgReturn W → Option (DbgCmdExecutorType W)
  | .repeated cmd | .accepted cmd | .error cmd => some cmd
  | .refused => none

def canExecute {W : Nat} (mode : DbgModeType) (res : DbgCmdExecutorType W) : Bool :=
  match mode with
  | .debug => res.stdId ≠ .quit
  | .cpu => res.stdId = .quit

def dbgParseTable {W : Nat} (c : TokenContainerType) :
    List (DbgCmdExecutorType W → TokenContainerType → ParseResult W) → DbgCmdExecutorType W →
      ParseResult W
  | [], arg => notFound arg
  | parse :: parsers, arg =>
    match parse arg c with
    | none => none
    | some (arg, true) => found arg
    | some (arg, false) => dbgParseTable c parsers arg

def dbgDefaultError {W : Nat} (line : List UInt8) : DbgCmdExecutorType W where
  stdId := .parseError
  run := .parseError
  parsedArgs := {}
  originalStr := line

def dbgParseLine {W : Nat} (coreNum : Nat) (e : DbgCall) : ParseResult W :=
  if e.line.length ≥ dbgCmdBufferSize then none
  else
    match tokenSplit W e.buffer e.container e.line with
    | none => none
    | some (err, c) =>
      if err ≠ .ok then notFound (dbgDefaultError e.line)
      else dbgParseTable c (dbgCmdParserStdTable W coreNum) (dbgDefaultError e.line)

def dbgParse {W : Nat} (coreNum : Nat) (s : DbgParserState W) (e : DbgCall) :
    Option (DbgParserState W × DbgReturn W) :=
  if e.line.length = 0 ∧ s.lastCommand then some (s, .repeated s.parseCommand)
  else
    match dbgParseLine coreNum e with
    | none => none
    | some (arg, false) => some ({ parseCommand := arg, lastCommand := false }, .error arg)
    | some (arg, true) =>
      if canExecute e.mode arg then
        some ({ parseCommand := arg, lastCommand := true }, .accepted arg)
      else some ({ s with parseCommand := arg }, .refused)

/-! ## What a call can do -/

inductive DbgTrans {W : Nat} (coreNum : Nat) (s : DbgParserState W) (e : DbgCall) :
    DbgParserState W → DbgReturn W → Prop
  | repeats (hline : e.line = []) (hlast : s.lastCommand = true) :
    DbgTrans coreNum s e s (.repeated s.parseCommand)
  | errs {arg : DbgCmdExecutorType W} (hnew : ¬ (e.line = [] ∧ s.lastCommand = true))
      (hparse : dbgParseLine coreNum e = notFound arg) :
    DbgTrans coreNum s e { parseCommand := arg, lastCommand := false } (.error arg)
  | accepts {arg : DbgCmdExecutorType W} (hnew : ¬ (e.line = [] ∧ s.lastCommand = true))
      (hparse : dbgParseLine coreNum e = found arg) (hmode : canExecute e.mode arg = true) :
    DbgTrans coreNum s e { parseCommand := arg, lastCommand := true } (.accepted arg)
  | refuses {arg : DbgCmdExecutorType W} (hnew : ¬ (e.line = [] ∧ s.lastCommand = true))
      (hparse : dbgParseLine coreNum e = found arg) (hmode : canExecute e.mode arg = false) :
    DbgTrans coreNum s e { s with parseCommand := arg } .refused

section
variable {W coreNum : Nat} {s s' : DbgParserState W} {e : DbgCall} {o : DbgReturn W}

theorem dbgParse_of_empty (hline : e.line = []) (hlast : s.lastCommand = true) :
    dbgParse coreNum s e = some (s, .repeated s.parseCommand) :=
  if_pos ⟨by rw [hline, List.length_nil], hlast⟩

theorem DbgTrans.of_dbgParse (h : dbgParse coreNum s e = some (s', o)) :
    DbgTrans coreNum s e s' o := by
  by_cases hrep : e.line = [] ∧ s.lastCommand = true
  · rw [dbgParse_of_empty hrep.1 hrep.2] at h
    cases h
    exact .repeats hrep.1 hrep.2
  · rw [dbgParse, if_neg (by rwa [List.length_eq_zero_iff])] at h
    cases hparse : dbgParseLine coreNum e with
    | none => rw [hparse] at h; cases h
    | some r =>
      obtain ⟨arg, b⟩ := r
      simp only [hparse] at h
      cases b with
      | false => cases h; exact .errs hrep hparse
      | true =>
        dsimp only at h
        split_ifs at h with hmode
        · cases h; exact .accepts hrep hparse hmode
        · cases h; exact .refuses hrep hparse (Bool.eq_false_iff.2 hmode)

def TableAnswers (cmds : List (List (List UInt8) × DbgCmdStdIdType)) (arg : DbgCmdExecutorType W)
    (c : TokenContainerType) : ParseResult W → Prop
  | none => ∃ cmd ∈ cmds, cmd.2 = .serialin
  | some (arg', true) => ∃ cmd ∈ cmds, arg'.run = cmd.2 ∧ c.isName 0 cmd.1 = true
  | some (arg', false) => arg'.run = arg.run

theorem dbgParseTable_answers {c : TokenContainerType}
    {parsers : List (DbgCmdExecutorType W → TokenContainerType → ParseResult W)}
    {cmds : List (List (List UInt8) × DbgCmdStdIdType)}
    (h : List.Forall₂ (fun parse cmd => ∀ arg c, Answers cmd.1 cmd.2 arg c (parse arg c))
      parsers cmds) (arg : DbgCmdExecutorType W) :
    TableAnswers cmds arg c (dbgParseTable c parsers arg) := by
  induction h generalizing arg with
  | nil => rfl
  | @cons parse cmd parsers cmds hfirst _ ih =>
    have hfirst := hfirst arg c
    rw [dbgParseTable]
    cases hparse : parse arg c with
    | none =>
      rw [hparse] at hfirst
      exact ⟨cmd, .head _, hfirst⟩
    | some r =>
      obtain ⟨arg', b⟩ := r
      rw [hparse] at hfirst
      cases b with
      | true => exact ⟨cmd, .head _, hfirst⟩
      | false =>
        have hrun : arg'.run = arg.run := hfirst
        have hrest := ih arg'
        dsimp only
        generalize dbgParseTable c parsers arg' = r at hrest
        rcases r with _ | ⟨arg'', _ | _⟩
        · obtain ⟨cmd', hmem, heq⟩ := hrest
          exact ⟨cmd', .tail _ hmem, heq⟩
        · exact hrest.trans hrun
        · obtain ⟨cmd', hmem, heq⟩ := hrest
          exact ⟨cmd', .tail _ hmem, heq⟩

theorem dbgParseLine_cases {r : DbgCmdExecutorType W × Bool} (h : dbgParseLine coreNum e = some r) :
    some r = notFound (dbgDefaultError e.line) ∨
      ∃ c, TableAnswers dbgCmdStdNames (dbgDefaultError e.line) c (some r) := by
  unfold dbgParseLine at h
  split_ifs at h
  cases hsplit : tokenSplit W e.buffer e.container e.line with
  | none => rw [hsplit] at h; cases h
  | some p =>
    simp only [hsplit] at h
    split_ifs at h
    · exact .inl h.symm
    · exact .inr ⟨p.2, h ▸ dbgParseTable_answers (dbgCmdParserStdTable_answers W coreNum) _⟩

theorem run_eq_of_notFound {arg : DbgCmdExecutorType W} (h : dbgParseLine coreNum e = notFound arg) :
    arg.run = .parseError := by
  obtain heq | ⟨c, hrun⟩ := dbgParseLine_cases h
  · cases heq; rfl
  · exact hrun

theorem run_ne_of_found {arg : DbgCmdExecutorType W} (h : dbgParseLine coreNum e = found arg) :
    arg.run ≠ .parseError := by
  obtain heq | ⟨c, cmd, hmem, hrun, -⟩ := dbgParseLine_cases h
  · cases heq
  · have hall : ∀ cmd ∈ dbgCmdStdNames, cmd.2 ≠ .parseError := by decide
    exact hrun ▸ hall cmd hmem

/-! ## The mode -/

theorem run_ne_of_step (h : dbgParse coreNum s e = some (s', o))
    (hs : s.lastCommand = true → s.parseCommand.run ≠ .parseError) :
    s'.lastCommand = true → s'.parseCommand.run ≠ .parseError := by
  cases DbgTrans.of_dbgParse h with
  | repeats => exact hs
  | errs => exact nofun
  | accepts _ hparse | refuses _ hparse => exact fun _ => run_ne_of_found hparse

theorem canExecute_of_returned {cmd : DbgCmdExecutorType W} (h : dbgParse coreNum s e = some (s', o))
    (hcmd : o.command = some cmd) (hrun : cmd.run ≠ .parseError)
    (hrep : e.line = [] → s.lastCommand = true → canExecute e.mode s.parseCommand = true) :
    canExecute e.mode cmd = true := by
  cases DbgTrans.of_dbgParse h with
  | repeats hline hlast => cases hcmd; exact hrep hline hlast
  | errs _ hparse => cases hcmd; exact absurd (run_eq_of_notFound hparse) hrun
  | accepts _ _ hmode => cases hcmd; exact hmode
  | refuses => cases hcmd

end

/-- Every command that a session returns, but the error command, is allowed in the mode in force. -/
def CommandsAllowed (W coreNum : Nat) (es : List DbgCall) : Prop :=
  ∀ pre e (s : DbgParserState W) os s' o cmd, pre ++ [e] <+: es →
    Machine.run (dbgParse coreNum) {} pre = some (s, os) → dbgParse coreNum s e = some (s', o) →
    o.command = some cmd → cmd.run ≠ .parseError → canExecute e.mode cmd = true

/-- Where an empty line repeats a command, the mode in force allows it. -/
def RepeatsAllowed (W coreNum : Nat) (es : List DbgCall) : Prop :=
  ∀ pre e (s : DbgParserState W) os, pre ++ [e] <+: es →
    Machine.run (dbgParse coreNum) {} pre = some (s, os) → e.line = [] → s.lastCommand = true →
    canExecute e.mode s.parseCommand = true

/-- **Commands and modes.** In every session of lines and mode changes, every command returned for
execution other than the error command is allowed in the mode in force, if and only if an empty line is
entered only while the mode allows the remembered command. -/
theorem commands_allowed_iff (W coreNum : Nat) (es : List DbgCall) :
    CommandsAllowed W coreNum es ↔ RepeatsAllowed W coreNum es := by
  constructor
  · intro hall pre e s os hpre hrun hline hlast
    have hne : s.lastCommand = true → s.parseCommand.run ≠ .parseError :=
      Machine.run_invariant (fun s => s.lastCommand = true → s.parseCommand.run ≠ .parseError)
        (fun _ _ _ _ hs h => run_ne_of_step h hs) pre (fun h => by cases h) hrun
    exact hall pre e s os s (.repeated s.parseCommand) s.parseCommand hpre hrun
      (dbgParse_of_empty hline hlast) rfl (hne hlast)
  · intro hcond pre e s os s' o cmd hpre hrun hstep hcmd hne
    exact canExecute_of_returned hstep hcmd hne (hcond pre e s os hpre hrun)

def DbgCall.ofLine (line : List Char) (mode : DbgModeType) : DbgCall where
  line := tokenName line
  mode := mode
  container := { num := 0, array := fun _ => { type := .valueHex, body := {} } }
  buffer := fun _ => 0

/-- `cont` is accepted in debug mode. The CPU runs, and the next line is empty: it returns `cont` in
CPU mode. -/
theorem empty_line_returns_cont_in_cpu_mode :
    (Machine.run (dbgParse (W := 32) 1) {}
        [.ofLine ['c', 'o', 'n', 't'] .debug, .ofLine [] .cpu]).map
      (fun r => r.2.map fun o => o.command.map fun cmd => (cmd.stdId, cmd.run)) =
      some [some (.cont, .cont), some (.cont, .cont)] ∧
    ¬ CommandsAllowed 32 1 [.ofLine ['c', 'o', 'n', 't'] .debug, .ofLine [] .cpu] := by
  refine ⟨by decide +kernel, fun hall => ?_⟩
  have hcont : (Machine.run (dbgParse (W := 32) 1) {} [.ofLine ['c', 'o', 'n', 't'] .debug]).map
      (fun r => (r.1.lastCommand, r.1.parseCommand.stdId, r.1.parseCommand.run)) =
      some (true, .cont, .cont) := by decide +kernel
  obtain ⟨⟨s, os⟩, hrun, heq⟩ := Option.map_eq_some_iff.1 hcont
  simp only [Prod.mk.injEq] at heq
  have hmode := hall _ (.ofLine [] .cpu) s os s (.repeated s.parseCommand) s.parseCommand
    (List.prefix_refl _) hrun (dbgParse_of_empty rfl heq.1) rfl (by simp [heq.2.2])
  simp [canExecute, DbgCall.ofLine, heq.2.1] at hmode

/-! ## The remembered command -/

structure DbgSession (W : Nat) where
  parser : DbgParserState W := {}
  accepted : Option (DbgCmdExecutorType W) := none

def dbgSessionStep {W : Nat} (coreNum : Nat) (t : DbgSession W) (e : DbgCall) :
    Option (DbgSession W × DbgReturn W) :=
  match dbgParse coreNum t.parser e with
  | none => none
  | some (s, .accepted cmd) => some ({ parser := s, accepted := some cmd }, .accepted cmd)
  | some (s, o) => some ({ t with parser := s }, o)

structure SameCommand {W : Nat} (cmd cmd' : DbgCmdExecutorType W) : Prop where
  stdId : cmd.stdId = cmd'.stdId
  run : cmd.run = cmd'.run
  parsedArgs : cmd.parsedArgs = cmd'.parsedArgs

def RemembersAccepted {W : Nat} (t : DbgSession W) : Prop :=
  t.parser.lastCommand = true →
    ∃ cmd, t.accepted = some cmd ∧ SameCommand t.parser.parseCommand cmd

/-- A line that the mode refuses while a command is remembered parses to that command again. -/
def RefusedIsRemembered {W : Nat} (coreNum : Nat) (t : DbgSession W) (e : DbgCall) : Prop :=
  t.parser.lastCommand = true → e.line ≠ [] → ∀ cmd, dbgParseLine coreNum e = found cmd →
    canExecute e.mode cmd = false → SameCommand cmd t.parser.parseCommand

section
variable {W coreNum : Nat} {t t' : DbgSession W} {e : DbgCall} {o : DbgReturn W}

theorem SameCommand.symm {cmd cmd' : DbgCmdExecutorType W} (h : SameCommand cmd cmd') :
    SameCommand cmd' cmd := ⟨h.stdId.symm, h.run.symm, h.parsedArgs.symm⟩

theorem SameCommand.trans {cmd cmd' cmd'' : DbgCmdExecutorType W} (h : SameCommand cmd cmd')
    (h' : SameCommand cmd' cmd'') : SameCommand cmd cmd'' :=
  ⟨h.stdId.trans h'.stdId, h.run.trans h'.run, h.parsedArgs.trans h'.parsedArgs⟩

theorem found_inj {arg arg' : DbgCmdExecutorType W} (h : found arg = found arg') : arg = arg' :=
  (Prod.mk.inj (Option.some.inj h)).1

theorem dbgSessionStep_of_empty (hline : e.line = []) (hlast : t.parser.lastCommand = true) :
    dbgSessionStep coreNum t e = some (t, .repeated t.parser.parseCommand) := by
  rw [dbgSessionStep, dbgParse_of_empty hline hlast]

theorem remembersAccepted_iff (ht : RemembersAccepted t) (h : dbgSessionStep coreNum t e = some (t', o)) :
    RemembersAccepted t' ↔ RefusedIsRemembered coreNum t e := by
  rw [dbgSessionStep] at h
  cases hparse : dbgParse coreNum t.parser e with
  | none => rw [hparse] at h; cases h
  | some r =>
    obtain ⟨s, o'⟩ := r
    rw [hparse] at h
    cases DbgTrans.of_dbgParse hparse with
    | repeats hline =>
      cases h
      exact iff_of_true ht fun _ hne => absurd hline hne
    | errs _ hnone =>
      cases h
      refine iff_of_true nofun fun _ _ cmd hcmd => ?_
      cases hnone.symm.trans hcmd
    | @accepts arg _ hcmd hmode =>
      cases h
      refine iff_of_true (fun _ => ⟨arg, rfl, rfl, rfl, rfl⟩) fun _ _ cmd hcmd' hmode' => ?_
      cases found_inj (hcmd.symm.trans hcmd')
      rw [hmode] at hmode'
      cases hmode'
    | @refuses arg hnew hcmd hmode =>
      cases h
      constructor
      · intro ht' hlast _ cmd hcmd' _
        cases found_inj (hcmd.symm.trans hcmd')
        obtain ⟨a, ha, hsame⟩ := ht hlast
        obtain ⟨a', ha', hsame'⟩ := ht' hlast
        cases ha.symm.trans ha'
        exact hsame'.trans hsame.symm
      · intro hc hlast
        have hline : e.line ≠ [] := fun hline => hnew ⟨hline, hlast⟩
        obtain ⟨a, ha, hsame⟩ := ht hlast
        exact ⟨a, ha, (hc hlast hline arg hcmd hmode).trans hsame⟩

theorem refusedIsRemembered_of_none (h : dbgSessionStep coreNum t e = none) :
    RefusedIsRemembered coreNum t e := by
  intro _ hline cmd hcmd hmode
  have hnew : ¬ (e.line.length = 0 ∧ t.parser.lastCommand = true) := fun hrep =>
    hline (List.length_eq_zero_iff.1 hrep.1)
  have hstep : dbgParse coreNum t.parser e =
      some ({ t.parser with parseCommand := cmd }, .refused) := by
    rw [dbgParse, if_neg hnew, hcmd]
    simp only [found, hmode, Bool.false_eq_true, if_false]
  rw [dbgSessionStep, hstep] at h
  cases h

end

/-- An empty line returns the command accepted last, with the arguments it had then. -/
def EmptyLineRepeats (W coreNum : Nat) (es : List DbgCall) : Prop :=
  ∀ pre (t : DbgSession W) os, pre <+: es →
    Machine.run (dbgSessionStep coreNum) {} pre = some (t, os) →
    ∀ e : DbgCall, e.line = [] → t.parser.lastCommand = true →
      ∃ cmd cmd', dbgSessionStep coreNum t e = some (t, .repeated cmd) ∧
        t.accepted = some cmd' ∧ SameCommand cmd cmd'

/-- **The command that an empty line repeats.** In every session of lines and mode changes, wherever a
command is remembered an empty line returns exactly the command accepted last, if and only if a line
that is refused because of the mode while a command is remembered parses to that command again. -/
theorem empty_line_repeats_accepted_iff (W coreNum : Nat) (es : List DbgCall) :
    EmptyLineRepeats W coreNum es ↔
      Machine.StepsMeet (dbgSessionStep (W := W) coreNum) (RefusedIsRemembered coreNum) {} es := by
  rw [← Machine.forall_prefix_iff_stepsMeet_of_partial RemembersAccepted
    (fun _ _ _ _ ht h => remembersAccepted_iff ht h)
    (fun _ _ _ h => refusedIsRemembered_of_none h) es (fun h => by cases h)]
  constructor
  · intro hall pre t os hpre hrun hlast
    obtain ⟨cmd, cmd', hstep, hacc, hsame⟩ :=
      hall pre t os hpre hrun (.ofLine [] .debug) rfl hlast
    rw [dbgSessionStep_of_empty rfl hlast] at hstep
    cases hstep
    exact ⟨cmd', hacc, hsame⟩
  · intro hall pre t os hpre hrun e hline hlast
    obtain ⟨cmd', hacc, hsame⟩ := hall pre t os hpre hrun hlast
    exact ⟨_, cmd', dbgSessionStep_of_empty hline hlast, hacc, hsame⟩

/-- `cont` is accepted in debug mode, and `next` is refused while the CPU runs. Back in debug mode an
empty line returns `next`. -/
theorem empty_line_returns_refused_command :
    (Machine.run (dbgSessionStep (W := 32) 1) {}
        [.ofLine ['c', 'o', 'n', 't'] .debug, .ofLine ['n', 'e', 'x', 't'] .cpu,
          .ofLine [] .debug]).map
      (fun r => r.2.map fun o => o.command.map fun cmd => (cmd.stdId, cmd.run)) =
      some [some (.cont, .cont), none, some (.next, .next)] ∧
    ¬ EmptyLineRepeats 32 1
      [.ofLine ['c', 'o', 'n', 't'] .debug, .ofLine ['n', 'e', 'x', 't'] .cpu] := by
  refine ⟨by decide +kernel, fun hall => ?_⟩
  have hnext : (Machine.run (dbgSessionStep (W := 32) 1) {}
        [.ofLine ['c', 'o', 'n', 't'] .debug, .ofLine ['n', 'e', 'x', 't'] .cpu]).map
      (fun r => (r.1.parser.lastCommand, r.1.parser.parseCommand.stdId,
        r.1.accepted.map (·.stdId))) = some (true, .next, some .cont) := by decide +kernel
  obtain ⟨⟨t, os⟩, hrun, heq⟩ := Option.map_eq_some_iff.1 hnext
  simp only [Prod.mk.injEq] at heq
  obtain ⟨cmd, cmd', hstep, hacc, hsame⟩ :=
    hall _ t os (List.prefix_refl _) hrun (.ofLine [] .debug) rfl heq.1
  rw [dbgSessionStep_of_empty rfl heq.1] at hstep
  cases hstep
  have hid := hsame.stdId
  rw [heq.2.1] at hid
  simp [hacc, ← hid] at heq

end Athrill
