import MyWorkEnv.Lib.CString
import MyWorkEnv.MyUtils.CommonUtil

/-!
# From the command line to the handler

Of `myCmdLine.c`, what becomes of a command that is given to a running program.
The client compares the first word with the options, as a whole, and counts
the words; what it sends is all words in one text of at most 63 characters. The
server takes the first option that occurs anywhere in the text, the external ones
first. Both ignore case. So the handler that runs is the one that was asked for
just when none of the options that are tested earlier occurs in the text, be it in
the argument, and the option itself has not been cut off.

An option is the C string at `Opt`. The help texts of the built-in options are
only printed, and left out.
-/

namespace MyWorkEnv

open CString

/-- `MY_CMD_TYPE` -/
inductive MyCmdType where
  | start | stop | help | showStat | changeTPoolTimeout | changeTPoolQueueLength | changeLogLevel
deriving DecidableEq

/-- `sg_CmdLineCont` -/
def MyCmdType.opt : MyCmdType → List UInt8
  | .start => ascii ['s', 't', 'a', 'r', 't']
  | .stop => ascii ['s', 't', 'o', 'p']
  | .help => ascii ['h', 'e', 'l', 'p']
  | .showStat => ascii ['s', 'h', 'o', 'w', 'M', 'o', 'd', 'u', 'l', 'e', 'S', 't', 'a', 't']
  | .changeTPoolTimeout =>
      ascii ['c', 'h', 'a', 'n', 'g', 'e', 'T', 'P', 'o', 'o', 'l', 'T', 'i', 'm', 'e', 'o', 'u',
        't']
  | .changeTPoolQueueLength =>
      ascii ['c', 'h', 'a', 'n', 'g', 'e', 'T', 'P', 'o', 'o', 'l', 'M', 'a', 'x', 'Q', 'u', 'e',
        'u', 'e', 'L', 'e', 'n', 'g', 't', 'h']
  | .changeLogLevel =>
      ascii ['c', 'h', 'a', 'n', 'g', 'e', 'L', 'o', 'g', 'L', 'e', 'v', 'e', 'l']

def MyCmdType.argc : MyCmdType → ℕ
  | .start | .stop | .help | .showStat => 2
  | .changeTPoolTimeout | .changeTPoolQueueLength | .changeLogLevel => 3

/-- The options in the order of `MY_CMD_TYPE`. -/
def MyCmdType.all : List MyCmdType :=
  [.start, .stop, .help, .showStat, .changeTPoolTimeout, .changeTPoolQueueLength,
    .changeLogLevel]

/-- `MY_CMD_EXTERNAL_CONT`; `Cb` is an address. -/
structure MyCmdExternalCont where
  opt : List UInt8
  help : List UInt8
  argc : ℤ
  cb : Option ℕ
deriving DecidableEq

/-- `MY_CMD_EXTERN_WORKER`, with what is in the list behind `ExternalCmdHead`. -/
structure MyCmdExternWorker where
  inited : Bool
  externalCmds : List MyCmdExternalCont

/-- `sg_CmdExternalWorker` -/
def MyCmdExternWorker.start : MyCmdExternWorker := ⟨false, []⟩

/-- While `sg_CmdLineWorker.Exit` is `exit`, and there is memory for the list head if it is
still needed, and for the node. -/
def cmdExternalRegister (w : MyCmdExternWorker) (exit headMemory nodeMemory : Bool)
    (cont : MyCmdExternalCont) : ℤ × MyCmdExternWorker :=
  if !exit then (-myEnosys, w)
  else if !w.inited && !headMemory then (-myEnoMem, w)
  else
    let w := { w with inited := true }
    if cont.argc ≤ 1 ∨ cont.opt = [] ∨ cont.help = [] ∨ cont.cb = none then (-myEinval, w)
    else if !nodeMemory then (-myEnoMem, w)
    else (mySuccess, { w with externalCmds := w.externalCmds ++ [cont] })

/-! ## The client -/

def cmdLineInputIsOk (w : MyCmdExternWorker) (argv : List (List UInt8)) : Bool :=
  match argv[1]? with
  | none => false
  | some arg =>
      (MyCmdType.all.any fun loop => strcasecmpEq arg loop.opt && argv.length == loop.argc) ||
        w.externalCmds.any fun loop => strcasecmpEq arg loop.opt && (argv.length : ℤ) == loop.argc

/-- How far `_CmdClientWorkerProc` gets. -/
inductive CmdClientRun where
  | usage
  | alreadyRunning
  | sends (cmd : List UInt8)
deriving DecidableEq

def cmdClientWorkerProc (w : MyCmdExternWorker) (argv : List (List UInt8)) : CmdClientRun :=
  match argv with
  | [_, arg] =>
      if !cmdLineInputIsOk w argv then .usage
      else if strcasecmpEq MyCmdType.start.opt arg then .alreadyRunning
      else .sends (snprintfStr 64 (cStr arg))
  | [_, arg, value] =>
      if !cmdLineInputIsOk w argv then .usage
      else if strcasecmpEq MyCmdType.start.opt arg then .alreadyRunning
      else .sends (snprintfStr 64 (cStr arg ++ 32 :: cStr value))
  | _ => .usage

/-! ## The server -/

/-- What is executed for a command, and the number it is executed with; `none` is for
`atoi(NULL)`. -/
inductive CmdHandler where
  | external (cont : MyCmdExternalCont)
  | stop
  | showStat
  | changeTPoolTimeout (timeout : Option UInt32)
  | changeTPoolQueueLength (queueLength : Option (BitVec 32))
  | changeLogLevel (logLevel : Option UInt32)
deriving DecidableEq

/-- The option it is the handler of. -/
def CmdHandler.opt : CmdHandler → List UInt8
  | .external cont => cont.opt
  | .stop => MyCmdType.stop.opt
  | .showStat => MyCmdType.showStat.opt
  | .changeTPoolTimeout _ => MyCmdType.changeTPoolTimeout.opt
  | .changeTPoolQueueLength _ => MyCmdType.changeTPoolQueueLength.opt
  | .changeLogLevel _ => MyCmdType.changeLogLevel.opt

/-- The handler that `_CmdServerHandleMsg` executes; `none` for `-MY_ENOSYS`. -/
def cmdServerHandleMsg (w : MyCmdExternWorker) (buff : List UInt8) : Option CmdHandler :=
  match w.externalCmds.find? fun loop => strcasestr buff loop.opt with
  | some loop => some (.external loop)
  | none =>
      let value := (strchr buff 32).map atoi
      if strcasestr buff MyCmdType.stop.opt then some .stop
      else if strcasestr buff MyCmdType.showStat.opt then some .showStat
      else if strcasestr buff MyCmdType.changeTPoolTimeout.opt then
        some (.changeTPoolTimeout (value.map fun v => .ofInt v))
      else if strcasestr buff MyCmdType.changeTPoolQueueLength.opt then
        some (.changeTPoolQueueLength (value.map fun v => .ofInt 32 v))
      else if strcasestr buff MyCmdType.changeLogLevel.opt then
        some (.changeLogLevel (value.map fun v => .ofInt v))
      else none

/-- The options in the order in which the server tests them. -/
def serverOpts (w : MyCmdExternWorker) : List (List UInt8) :=
  w.externalCmds.map MyCmdExternalCont.opt ++
    [MyCmdType.stop, .showStat, .changeTPoolTimeout, .changeTPoolQueueLength,
      .changeLogLevel].map MyCmdType.opt

/-- Those it tests before it comes to the one that is `arg`. -/
def testedBefore (w : MyCmdExternWorker) (arg : List UInt8) : List (List UInt8) :=
  (serverOpts w).takeWhile fun opt => !strcasecmpEq arg opt

theorem cmdServerHandleMsg_opt (w : MyCmdExternWorker) (buff : List UInt8) :
    (cmdServerHandleMsg w buff).map CmdHandler.opt = (serverOpts w).find? (strcasestr buff) := by
  rw [serverOpts, List.find?_append, List.find?_map]
  simp only [cmdServerHandleMsg, Function.comp_def]
  cases w.externalCmds.find? fun loop => strcasestr buff loop.opt with
  | some loop => rfl
  | none =>
      simp only [Option.map_none, Option.none_or, List.map_cons, List.map_nil, List.find?_cons,
        List.find?_nil]
      cases strcasestr buff MyCmdType.stop.opt <;>
        cases strcasestr buff MyCmdType.showStat.opt <;>
        cases strcasestr buff MyCmdType.changeTPoolTimeout.opt <;>
        cases strcasestr buff MyCmdType.changeTPoolQueueLength.opt <;>
        cases strcasestr buff MyCmdType.changeLogLevel.opt <;> rfl

/-! ## Whose handler runs -/

/-- The first element with `p` has `q` just when the first one with `q` has `p` and those
before it have not; `p` is the same for all with `q`. -/
theorem find?_meets_iff {α : Type} {p q : α → Bool} {l : List α}
    (hpq : ∀ x y, q x = true → q y = true → p x = p y) {x : α} (hx : x ∈ l) (hqx : q x = true) :
    (∃ y, l.find? p = some y ∧ q y = true) ↔
      p x = true ∧ ∀ y ∈ l.takeWhile (fun y => !q y), p y = false := by
  induction l with
  | nil => cases hx
  | cons a l ih =>
      rw [List.find?_cons, List.takeWhile_cons]
      cases hqa : q a with
      | true =>
          simp only [Bool.not_true, Bool.false_eq_true, if_false, List.not_mem_nil,
            false_implies, implies_true, and_true]
          rw [hpq x a hqx hqa]
          cases hpa : p a with
          | true => exact iff_of_true ⟨a, rfl, hqa⟩ rfl
          | false =>
              refine iff_of_false ?_ Bool.false_ne_true
              rintro ⟨y, hy, hqy⟩
              have hpy := List.find?_some hy
              rw [hpq y a hqy hqa, hpa] at hpy
              cases hpy
      | false =>
          have hxl : x ∈ l := by
            rcases List.mem_cons.mp hx with rfl | hxl
            · rw [hqx] at hqa
              cases hqa
            · exact hxl
          simp only [Bool.not_false, if_true, List.forall_mem_cons]
          cases hpa : p a with
          | true => simp [hqa]
          | false =>
              rw [ih hxl]
              simp

variable {w : MyCmdExternWorker} {argv : List (List UInt8)} {arg : List UInt8}

/-- What is accepted and not for the client itself is an option of the server. -/
theorem mem_serverOpts (harg : argv[1]? = some arg) (hok : cmdLineInputIsOk w argv = true)
    (hstart : strcasecmpEq arg MyCmdType.start.opt = false)
    (hhelp : strcasecmpEq arg MyCmdType.help.opt = false) :
    ∃ opt ∈ serverOpts w, strcasecmpEq arg opt = true := by
  simp only [cmdLineInputIsOk, harg, Bool.or_eq_true, List.any_eq_true, Bool.and_eq_true] at hok
  rcases hok with ⟨t, -, heq, -⟩ | ⟨cont, hcont, heq, -⟩
  · refine ⟨t.opt, List.mem_append_right _ ?_, heq⟩
    cases t with
    | start =>
        rw [hstart] at heq
        cases heq
    | help =>
        rw [hhelp] at heq
        cases heq
    | _ => simp
  · exact ⟨cont.opt, List.mem_append_left _ (List.mem_map_of_mem hcont), heq⟩

theorem strcasecmpEq_comm (a b : List UInt8) : strcasecmpEq a b = strcasecmpEq b a :=
  Bool.beq_comm

/-- The text begins with the first word, and what of it fits. -/
theorem cmdClientWorkerProc_sends (harg : argv[1]? = some arg)
    (hargc : argv.length = 2 ∨ argv.length = 3) (hok : cmdLineInputIsOk w argv = true)
    (hstart : strcasecmpEq arg MyCmdType.start.opt = false) :
    ∃ rest, 0 ∉ rest ∧
      cmdClientWorkerProc w argv = .sends (snprintfStr 64 (cStr arg ++ rest)) := by
  rw [strcasecmpEq_comm] at hstart
  rcases hargc with h | h
  · obtain ⟨a₀, a₁, rfl⟩ := List.length_eq_two.mp h
    obtain rfl : a₁ = arg := by simpa using harg
    refine ⟨[], by simp, ?_⟩
    simp [cmdClientWorkerProc, hok, hstart]
  · obtain ⟨a₀, a₁, a₂, rfl⟩ := List.length_eq_three.mp h
    obtain rfl : a₁ = arg := by simpa using harg
    refine ⟨32 :: cStr a₂, ?_, ?_⟩
    · rw [List.mem_cons, not_or]
      exact ⟨by decide, zero_notMem_cStr a₂⟩
    · simp [cmdClientWorkerProc, hok, hstart]

/-- **For a command that the client accepts, the server executes the handler of the option it
names if and only if the option fits in the text and none of those tested before occurs in
it.** -/
theorem command_dispatched_iff (harg : argv[1]? = some arg)
    (hargc : argv.length = 2 ∨ argv.length = 3) (hok : cmdLineInputIsOk w argv = true)
    (hstart : strcasecmpEq arg MyCmdType.start.opt = false)
    (hhelp : strcasecmpEq arg MyCmdType.help.opt = false) :
    ∃ text, cmdClientWorkerProc w argv = .sends text ∧
      ((∃ handler, cmdServerHandleMsg w text = some handler ∧
          strcasecmpEq arg handler.opt = true) ↔
        (cStr arg).length ≤ 63 ∧ ∀ opt ∈ testedBefore w arg, strcasestr text opt = false) := by
  obtain ⟨rest, hrest, hsends⟩ := cmdClientWorkerProc_sends harg hargc hok hstart
  obtain ⟨opt, hopt, heq⟩ := mem_serverOpts harg hok hstart hhelp
  refine ⟨_, hsends, ?_⟩
  have hzero : 0 ∉ cStr arg ++ rest := by
    rw [List.mem_append, not_or]
    exact ⟨zero_notMem_cStr arg, hrest⟩
  have htext := cStr_snprintfStr 64 hzero
  set text := snprintfStr 64 (cStr arg ++ rest) with hdef
  have hhandler : (∃ handler, cmdServerHandleMsg w text = some handler ∧
      strcasecmpEq arg handler.opt = true) ↔
      ∃ opt, (serverOpts w).find? (strcasestr text) = some opt ∧ strcasecmpEq arg opt = true := by
    rw [← cmdServerHandleMsg_opt]
    simp
  have hsame : ∀ o o', strcasecmpEq arg o = true → strcasecmpEq arg o' = true →
      strcasestr text o = strcasestr text o' := by
    intro o o' ho ho'
    rw [← strcasestr_congr ho, strcasestr_congr ho']
  -- the option is in the text if it was not cut off
  have hfits : strcasestr text opt = true ↔ (cStr arg).length ≤ 63 := by
    rw [← strcasestr_congr heq]
    constructor
    · intro hin
      by_contra hlong
      have hlength : (cStr text).length < (cStr arg).length := by
        rw [htext, hdef, snprintfStr, List.length_take]
        omega
      rw [strcasestr_of_length_lt hlength] at hin
      cases hin
    · intro hle
      have hstarts : cStr text = cStr arg ++ rest.take (63 - (cStr arg).length) := by
        rw [htext, hdef, snprintfStr, List.take_append, List.take_of_length_le hle]
      exact strcasestr_of_startsWith hstarts
  rw [hhandler, find?_meets_iff hsame hopt heq, hfits]
  rfl

/-- The first command that `_ServerCmdRegister` registers. -/
def showServerProcStat : MyCmdExternalCont where
  opt := ascii ['S', 'h', 'o', 'w', 'S', 'e', 'r', 'v', 'e', 'r', 'P', 'r', 'o', 'c', 'S', 't', 'a',
    't']
  help := ascii ['s', 'h', 'o', 'w', ' ', 'c', 'u', 'r', 'r', 'e', 'n', 't', ' ', 'c', 'o', 'n', 'n',
    'e', 'c', 't', 'e', 'd', ' ', 'c', 'l', 'i', 'e', 'n', 't', 's', ' ', 'i', 'n', 'f', 'o']
  argc := 2
  cb := some 1

def serverCmds : MyCmdExternWorker :=
  (cmdExternalRegister .start true true true showServerProcStat).2

/-- The same word, in small letters. -/
def showArgv : List (List UInt8) := [ascii ['s'], showServerProcStat.opt.map tolower]

theorem command_dispatched_iff_show :
    ∃ text handler, cmdClientWorkerProc serverCmds showArgv = .sends text ∧
      cmdServerHandleMsg serverCmds text = some handler ∧
      handler.opt = showServerProcStat.opt := by
  obtain ⟨text, hsends, hiff⟩ := @command_dispatched_iff serverCmds showArgv
    (showServerProcStat.opt.map tolower) rfl (.inl rfl) (by decide) (by decide)
    (by decide)
  have htext : cmdClientWorkerProc serverCmds showArgv =
      .sends (showServerProcStat.opt.map tolower) := by
    decide
  obtain rfl := CmdClientRun.sends.inj (hsends.symm.trans htext)
  obtain ⟨handler, hhandler, -⟩ := hiff.mpr (by decide)
  refine ⟨_, handler, hsends, hhandler, ?_⟩
  have hexternal : cmdServerHandleMsg serverCmds (showServerProcStat.opt.map tolower) =
      some (.external showServerProcStat) := by
    decide
  rw [hexternal] at hhandler
  rw [← Option.some.inj hhandler]
  rfl

/-- Without external commands, `changeLogLevel stop` is accepted, and stops the process. -/
theorem argument_taken_for_command :
    cmdLineInputIsOk .start [ascii ['s'], MyCmdType.changeLogLevel.opt, MyCmdType.stop.opt] =
        true ∧
      ∃ text, cmdClientWorkerProc .start
          [ascii ['s'], MyCmdType.changeLogLevel.opt, MyCmdType.stop.opt] = .sends text ∧
        cmdServerHandleMsg .start text = some .stop ∧
        strcasecmpEq MyCmdType.changeLogLevel.opt CmdHandler.stop.opt = false :=
  ⟨by decide, _, rfl, by decide, by decide⟩

end MyWorkEnv
