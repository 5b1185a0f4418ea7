import MyWorkEnv.Lib.Numerals
import MyWorkEnv.MyUtils.CmdLine.ModuleReport
import MyWorkEnv.MyUtils.CmdLine.SafeInput
import MyWorkEnv.MyUtils.TPool.Counters

/-!
# What a command changes

The branches of `_CmdServerHandleMsg`: the answer to a command, and what it
does to the pool, to the log level and to `ExecCnt`. An operator gives a number
on the command line of a second process, which sends it as text. The number that
the server sets is the number that was typed, the operator is told so, and it
stays set until another command of the same kind comes, whatever other commands
come and whatever the pool does in the meantime (`command_sets`).

The server's one `recv` gets all that the client's one `send` has sent. What the
callbacks of external commands do, other than to answer, is left out.
-/

namespace MyWorkEnv

open ByteMemory CString Snprintf Transition

/-! ## The handlers -/

/-- What a command can change; `exits` is how often `ExitCb` was called. -/
structure CmdTarget where
  pool : ThreadPool
  logLevel : ℤ
  execCnt : BitVec 32
  exits : ℕ

abbrev myLogLevelError : ℕ := 3

namespace CmdTarget

def tPoolSetTimeout (s : CmdTarget) (timeout : UInt32) : CmdTarget :=
  { s with pool := s.pool.next (.setTimeout timeout.toBitVec) }

def tPoolSetMaxQueueLength (s : CmdTarget) (queueLen : BitVec 32) : CmdTarget :=
  { s with pool := s.pool.next (.setMaxQueueLength queueLen) }

def logSetLevel (s : CmdTarget) (logLevel : UInt32) : CmdTarget :=
  if logLevel.toNat ≤ myLogLevelError then { s with logLevel := logLevel.toNat } else s

end CmdTarget

/-- What an external callback returns and puts into `retString`, the collectors with what is
behind `retString` in memory, and whether `send` succeeds. -/
structure CmdEnv where
  cb : MyCmdExternalCont → List UInt8 → ℤ × List UInt8
  table : List ModuleReprt
  behind : Memory
  sends : Bool

/-- `ret`, the texts that are sent, and what has become of the rest. -/
structure CmdReply where
  ret : ℤ
  sent : List (List UInt8)
  target : CmdTarget

/-- From `CommonReturn` on; `ExecCnt` was incremented at the start, and is decremented if the
command fails. -/
def cmdCommonReturn (ret : ℤ) (retString : List UInt8) (s : CmdTarget) : CmdReply where
  ret := ret
  sent := if cStr retString = [] then [] else [cStr retString]
  target := if ret = mySuccess then { s with execCnt := s.execCnt + 1 } else s

/-- `"Set tpool timeout as %u."` and the like. -/
def setText (front : String) (value : ℕ) : List UInt8 := str front ++ decimal value ++ str "."

def setTPoolTimeoutText (timeout : UInt32) : List UInt8 :=
  setText "Set tpool timeout as " timeout.toNat

def setTPoolQueueLengthText (queueLength : BitVec 32) : List UInt8 :=
  setText "Set tpool queue length as " queueLength.toNat

def setLogLevelText (logLevel : UInt32) : List UInt8 :=
  setText "Set log level as " logLevel.toNat

/-- The branch that is taken; `none` where `atoi` gets `NULL`. -/
def CmdHandler.run (env : CmdEnv) (s : CmdTarget) (buff : List UInt8) :
    CmdHandler → Option CmdReply
  | .external cont =>
      let (ret, retString) := env.cb cont buff
      some (cmdCommonReturn ret retString s)
  | .stop =>
      -- answered on the spot, before `ExitCb`
      let ret := if env.sends then mySuccess else -myEio
      some { cmdCommonReturn ret [] { s with exits := s.exits + 1 } with
        sent := [str "Process stopped."] }
  | .showStat =>
      let ret := (moduleReprtLoop env.table 1 ((RetString.start env.behind).put 0 [newline])).1
      let retString := readBytes (showModuleStat env.table env.behind).mem 0 sizeofRetString
      some (cmdCommonReturn ret retString s)
  | .changeTPoolTimeout value =>
      value.map fun timeout =>
        cmdCommonReturn mySuccess (setTPoolTimeoutText timeout) (s.tPoolSetTimeout timeout)
  | .changeTPoolQueueLength value =>
      value.map fun queueLength =>
        cmdCommonReturn mySuccess (setTPoolQueueLengthText queueLength)
          (s.tPoolSetMaxQueueLength queueLength)
  | .changeLogLevel value =>
      value.map fun logLevel =>
        cmdCommonReturn mySuccess (setLogLevelText logLevel) (s.logSetLevel logLevel)

/-- `_CmdServerHandleMsg` as a whole. -/
def cmdServerReply (w : MyCmdExternWorker) (env : CmdEnv) (s : CmdTarget) (buff : List UInt8) :
    Option CmdReply :=
  match cmdServerHandleMsg w buff with
  | none => some (cmdCommonReturn (-myEnosys) [] s)
  | some handler => handler.run env s buff

/-- The bytes of a client that `recv` gives, and a step of the pool that is not the server's. -/
inductive CmdAction where
  | message (bs : List UInt8) (env : CmdEnv)
  | pool (a : TPoolAction)

/-- The setters are called for commands. -/
def TPoolAction.Sets : TPoolAction → Prop
  | .setTimeout _ | .setMaxQueueLength _ => True
  | _ => False

/-- A program with these external commands; they are registered before the server runs. -/
def operatorSystem (arg : TPoolModuleInitArg) (w : MyCmdExternWorker) :
    System CmdTarget CmdAction where
  init s := (∃ L, s.pool = .init arg L) ∧ 0 ≤ s.logLevel ∧ s.logLevel ≤ myLogLevelError
  enabled s
    | .message bs _ => bs ≠ [] ∧ bs.length ≤ 128 ∧ ReadsSafely w (recvBuff bs)
    | .pool a => s.pool.guard arg a = true ∧ ¬ a.Sets
  next s
    | .message bs env => ((cmdServerReply w env s (recvBuff bs)).map CmdReply.target).getD s
    | .pool a => { s with pool := s.pool.next a }

/-! ## A number on the command line -/

/-- What has a command with a number. -/
inductive CmdSetting where
  | timeout
  | queueLength
  | logLevel
deriving DecidableEq

namespace CmdSetting

def cmd : CmdSetting → MyCmdType
  | .timeout => .changeTPoolTimeout
  | .queueLength => .changeTPoolQueueLength
  | .logLevel => .changeLogLevel

def get (s : CmdTarget) : CmdSetting → ℤ
  | .timeout => s.pool.taskDefaultTimeout.toInt
  | .queueLength => s.pool.taskMaxLength.toInt
  | .logLevel => s.logLevel

/-- The numbers that can be set. -/
def Takes (z : ℤ) : CmdSetting → Prop
  | .timeout | .queueLength => -2 ^ 31 ≤ z ∧ z < 2 ^ 31
  | .logLevel => 0 ≤ z ∧ z ≤ myLogLevelError

def handler (z : ℤ) : CmdSetting → CmdHandler
  | .timeout => .changeTPoolTimeout (some (.ofInt z))
  | .queueLength => .changeTPoolQueueLength (some (.ofInt 32 z))
  | .logLevel => .changeLogLevel (some (.ofInt z))

/-- What a branch sets. -/
def ofHandler : CmdHandler → Option CmdSetting
  | .changeTPoolTimeout _ => some .timeout
  | .changeTPoolQueueLength _ => some .queueLength
  | .changeLogLevel _ => some .logLevel
  | .external _ | .stop | .showStat => none

/-- What the operator is told. -/
def reply (z : ℤ) : CmdSetting → List UInt8
  | .timeout => setTPoolTimeoutText (.ofInt z)
  | .queueLength => setTPoolQueueLengthText (.ofInt 32 z)
  | .logLevel => setLogLevelText (.ofInt z)

variable {w : MyCmdExternWorker} {c : CmdSetting} {arg : List UInt8} {z : ℤ}

theorem takes_int (h : c.Takes z) : -2 ^ 31 ≤ z ∧ z < 2 ^ 31 := by
  cases c with
  | logLevel =>
      obtain ⟨hlow, hhigh⟩ : 0 ≤ z ∧ z ≤ (3 : ℕ) := h
      omega
  | _ => exact h

/-- The text of a command. -/
def text (c : CmdSetting) (z : ℤ) : List UInt8 := c.cmd.opt ++ 32 :: signedDecimal z

theorem zero_notMem_signedDecimal (z : ℤ) : 0 ∉ signedDecimal z := by
  intro hmem
  rcases mem_signedDecimal hmem with hminus | hdigit
  · exact absurd hminus (by decide)
  · exact absurd hdigit.1 (by decide)

theorem length_signedDecimal (h : c.Takes z) : (signedDecimal z).length ≤ 11 := by
  have hint := takes_int h
  exact length_signedDecimal_le (Nat.succ_pos 9) (by omega)

theorem length_eq_of_strcasecmpEq {a b : List UInt8} (h : strcasecmpEq a b = true) :
    (cStr a).length = (cStr b).length := by
  rw [strcasecmpEq, beq_iff_eq] at h
  simpa using congrArg List.length h

theorem length_opt_le (c : CmdSetting) : (cStr c.cmd.opt).length ≤ 25 := by
  cases c <;> decide

/-- The client sends the command as it was typed. -/
theorem cmdClientWorkerProc_number (h : c.Takes z) (harg : strcasecmpEq arg c.cmd.opt = true)
    (prog : List UInt8) :
    cmdClientWorkerProc w [prog, arg, signedDecimal z] =
      .sends (cStr arg ++ 32 :: signedDecimal z) := by
  have hok : cmdLineInputIsOk w [prog, arg, signedDecimal z] = true := by
    have hcmd : MyCmdType.all.any (fun loop => strcasecmpEq arg loop.opt &&
        [prog, arg, signedDecimal z].length == loop.argc) = true := by
      rw [List.any_eq_true]
      refine ⟨c.cmd, by cases c <;> decide, ?_⟩
      rw [harg]
      cases c <;> rfl
    simp only [cmdLineInputIsOk, List.getElem?_cons_succ, List.getElem?_cons_zero, hcmd,
      Bool.true_or]
  have hstart : strcasecmpEq MyCmdType.start.opt arg = false := by
    rw [strcasecmpEq, beq_iff_eq] at harg
    rw [strcasecmpEq, harg]
    cases c <;> decide
  have hlen : (cStr arg ++ 32 :: signedDecimal z).length ≤ 63 := by
    have hnumber := length_signedDecimal h
    have hword := length_eq_of_strcasecmpEq harg
    have hopt := length_opt_le c
    rw [List.length_append, List.length_cons]
    omega
  simp only [cmdClientWorkerProc, hok, hstart, cStr_of_not_mem (zero_notMem_signedDecimal z),
    Bool.not_true, Bool.false_eq_true, if_false]
  rw [snprintfStr, List.take_of_length_le hlen]

/-! ## The branch that is taken -/

theorem zero_notMem_text (c : CmdSetting) (z : ℤ) : 0 ∉ c.text z := by
  have hopt : 0 ∉ c.cmd.opt := by cases c <;> decide
  rw [text, List.mem_append, List.mem_cons, not_or, not_or]
  exact ⟨hopt, by decide, zero_notMem_signedDecimal z⟩

/-- Neither the space nor a number has a letter of an option. -/
theorem strcasestr_text (c : CmdSetting) (z : ℤ) {opt : List UInt8} (hne : cStr opt ≠ [])
    (hletters : ∀ b ∈ cStr opt, 97 ≤ tolower b) :
    strcasestr (c.text z) opt = strcasestr c.cmd.opt opt := by
  have hnul : 0 ∉ c.text z := zero_notMem_text c z
  rw [text, List.mem_append, not_or] at hnul
  refine strcasestr_append hnul.1 hnul.2 hne fun b hb hmem => ?_
  obtain ⟨d, hd, heq⟩ := List.mem_map.mp hmem
  have hletter := hletters b hb
  rw [← heq] at hletter
  have hsmall : d ≤ 57 := by
    rcases List.mem_cons.mp hd with rfl | hd
    · decide
    · rcases mem_signedDecimal hd with rfl | hdigit
      · decide
      · exact hdigit.2
  have hsame : tolower d = d := by
    rw [tolower, if_neg]
    rintro ⟨hlow, -⟩
    exact absurd (UInt8.le_trans hlow hsmall) (by decide)
  rw [hsame] at hletter
  exact absurd (UInt8.le_trans hletter hsmall) (by decide)

theorem space_notMem (harg : strcasecmpEq arg c.cmd.opt = true) : 32 ∉ cStr arg := by
  intro hmem
  rw [strcasecmpEq, beq_iff_eq] at harg
  have hlower : (32 : UInt8) ∈ (cStr c.cmd.opt).map tolower := by
    rw [← harg]
    exact List.mem_map.mpr ⟨32, hmem, rfl⟩
  exact absurd hlower (by cases c <;> decide)

/-- What the server has received. -/
theorem cStr_received (arg : List UInt8) (z : ℤ) :
    cStr (recvBuff (cStr arg ++ 32 :: signedDecimal z ++ [0])) =
      cStr arg ++ 32 :: signedDecimal z := by
  have hnul : 0 ∉ cStr arg ++ 32 :: signedDecimal z := by
    rw [List.mem_append, List.mem_cons, not_or, not_or]
    exact ⟨zero_notMem_cStr arg, by decide, zero_notMem_signedDecimal z⟩
  have hstring : cStr (recvBuff (cStr arg ++ 32 :: signedDecimal z ++ [0]) ++ []) =
      cStr (cStr arg ++ 32 :: signedDecimal z ++ [0]) := cStr_recvBuff (.inr (by simp)) []
  rwa [List.append_nil, cStr_append_zero hnul] at hstring

theorem atoi_space (s : List UInt8) : atoi (32 :: s) = atoi s := by
  have hcons : cStr (32 :: s) = 32 :: cStr s := List.takeWhile_cons_of_pos (by decide)
  apply atoi_congr
  rw [number, hcons, List.dropWhile_cons_of_pos (by decide)]
  rfl

/-- **The branch is that of the option, and its number the one that was typed.** -/
theorem cmdServerHandleMsg_number (h : c.Takes z) (harg : strcasecmpEq arg c.cmd.opt = true)
    (hext : ∀ cont ∈ w.externalCmds, strcasestr (c.text z) cont.opt = false) :
    cmdServerHandleMsg w (recvBuff (cStr arg ++ 32 :: signedDecimal z ++ [0])) =
      some (c.handler z) := by
  have hreceived := cStr_received arg z
  set buff := recvBuff (cStr arg ++ 32 :: signedDecimal z ++ [0])
  have hsame : strcasecmpEq buff (c.text z) = true := by
    have hopt : cStr c.cmd.opt = c.cmd.opt := by cases c <;> decide
    rw [strcasecmpEq, beq_iff_eq] at harg ⊢
    rw [hreceived, cStr_of_not_mem (zero_notMem_text c z), text, List.map_append,
      List.map_append, harg, hopt]
  have hvalue : (strchr buff 32).map atoi = some z := by
    have hstring : strchr buff 32 = strchr (cStr arg ++ 32 :: signedDecimal z) 32 := by
      rw [strchr, strchr, hreceived, ← hreceived, cStr_of_not_mem (zero_notMem_cStr buff)]
    rw [hstring, strchr_append (zero_notMem_cStr arg) (zero_notMem_signedDecimal z) (by decide)
      (space_notMem harg), Option.map_some, atoi_space]
    have hread : atoi (signedDecimal z ++ []) = z :=
      atoi_signedDecimal (by simp [NotDigit]) (by simp) (takes_int h).1 (takes_int h).2
    rw [List.append_nil] at hread
    rw [hread]
  have hnone : w.externalCmds.find? (fun loop => strcasestr buff loop.opt) = none := by
    rw [List.find?_eq_none]
    intro cont hcont
    rw [strcasestr_congr_left hsame, hext cont hcont]
    exact Bool.false_ne_true
  have hbuilt : ∀ t ∈ [MyCmdType.stop, .showStat, .changeTPoolTimeout, .changeTPoolQueueLength,
      .changeLogLevel], strcasestr buff t.opt = strcasestr c.cmd.opt t.opt := by
    intro t ht
    rw [strcasestr_congr_left hsame]
    simp only [List.mem_cons, List.not_mem_nil, or_false] at ht
    rcases ht with rfl | rfl | rfl | rfl | rfl <;>
      exact strcasestr_text c z (by decide) (by decide +kernel)
  simp only [List.forall_mem_cons] at hbuilt
  obtain ⟨hstop, hshow, htimeout, hqueue, hlevel, -⟩ := hbuilt
  simp only [cmdServerHandleMsg, hnone, hvalue, hstop, hshow, htimeout, hqueue, hlevel]
  cases c with
  | timeout =>
      have hno : strcasestr MyCmdType.changeTPoolTimeout.opt MyCmdType.stop.opt = false ∧
          strcasestr MyCmdType.changeTPoolTimeout.opt MyCmdType.showStat.opt = false ∧
          strcasestr MyCmdType.changeTPoolTimeout.opt MyCmdType.changeTPoolTimeout.opt = true := by
        decide
      simp only [cmd, hno, Bool.false_eq_true, if_false, if_true]
      rfl
  | queueLength =>
      have hno : strcasestr MyCmdType.changeTPoolQueueLength.opt MyCmdType.stop.opt = false ∧
          strcasestr MyCmdType.changeTPoolQueueLength.opt MyCmdType.showStat.opt = false ∧
          strcasestr MyCmdType.changeTPoolQueueLength.opt MyCmdType.changeTPoolTimeout.opt =
            false ∧
          strcasestr MyCmdType.changeTPoolQueueLength.opt MyCmdType.changeTPoolQueueLength.opt =
            true := by
        decide
      simp only [cmd, hno, Bool.false_eq_true, if_false, if_true]
      rfl
  | logLevel =>
      have hno : strcasestr MyCmdType.changeLogLevel.opt MyCmdType.stop.opt = false ∧
          strcasestr MyCmdType.changeLogLevel.opt MyCmdType.showStat.opt = false ∧
          strcasestr MyCmdType.changeLogLevel.opt MyCmdType.changeTPoolTimeout.opt = false ∧
          strcasestr MyCmdType.changeLogLevel.opt MyCmdType.changeTPoolQueueLength.opt = false ∧
          strcasestr MyCmdType.changeLogLevel.opt MyCmdType.changeLogLevel.opt = true := by
        decide
      simp only [cmd, hno, Bool.false_eq_true, if_false, if_true]
      rfl

/-! ## What it does -/

theorem zero_notMem_setText {front : String} (hfront : 0 ∉ str front) (value : ℕ) :
    0 ∉ setText front value := by
  simp only [setText, List.mem_append, not_or]
  exact ⟨⟨hfront, fun hmem => absurd (isDigit_of_mem_decimal hmem).1 (by decide)⟩,
    by decide⟩

theorem setText_ne_nil (front : String) (value : ℕ) : setText front value ≠ [] := by
  have hdot : str "." ≠ [] := by decide
  exact List.append_ne_nil_of_right_ne_nil _ hdot

theorem sent_setText {front : String} (hfront : 0 ∉ str front) (value : ℕ) (ret : ℤ)
    (s : CmdTarget) :
    (cmdCommonReturn ret (setText front value) s).sent = [setText front value] := by
  have hstring := cStr_of_not_mem (zero_notMem_setText hfront value)
  simp only [cmdCommonReturn, hstring, if_neg (setText_ne_nil front value)]

theorem zero_notMem_reply (c : CmdSetting) (z : ℤ) : 0 ∉ c.reply z := by
  cases c <;> exact zero_notMem_setText (by decide) _

theorem toInt_ofInt (h : -2 ^ 31 ≤ z ∧ z < 2 ^ 31) : (BitVec.ofInt 32 z).toInt = z := by
  rw [BitVec.toInt_ofInt]
  exact Int.bmod_eq_of_le (by omega) (by omega)

variable {s : CmdTarget}

theorem get_tPoolSetTimeout (hc : c ≠ .timeout) (timeout : UInt32) :
    c.get (s.tPoolSetTimeout timeout) = c.get s := by
  cases c with
  | timeout => exact absurd rfl hc
  | queueLength =>
      simp only [get, CmdTarget.tPoolSetTimeout, ThreadPool.next]
      split_ifs <;> rfl
  | logLevel => rfl

theorem get_tPoolSetMaxQueueLength (hc : c ≠ .queueLength) (queueLen : BitVec 32) :
    c.get (s.tPoolSetMaxQueueLength queueLen) = c.get s := by
  cases c with
  | timeout =>
      simp only [get, CmdTarget.tPoolSetMaxQueueLength, ThreadPool.next]
      split_ifs <;> rfl
  | queueLength => exact absurd rfl hc
  | logLevel => rfl

theorem get_logSetLevel (hc : c ≠ .logLevel) (logLevel : UInt32) :
    c.get (s.logSetLevel logLevel) = c.get s := by
  unfold CmdTarget.logSetLevel
  split_ifs
  · cases c with
    | logLevel => exact absurd rfl hc
    | _ => rfl
  · rfl

theorem get_cmdCommonReturn (c : CmdSetting) (ret : ℤ) (retString : List UInt8) :
    c.get (cmdCommonReturn ret retString s).target = c.get s := by
  simp only [cmdCommonReturn]
  split_ifs
  · cases c <;> rfl
  · rfl

/-- A command with a number sets it, answers, and leaves the other settings. -/
structure Sets (c : CmdSetting) (z : ℤ) (s : CmdTarget) (r : CmdReply) : Prop where
  ret : r.ret = mySuccess
  sent : r.sent = [c.reply z]
  sets : c.get r.target = z
  others : ∀ c', c' ≠ c → c'.get r.target = c'.get s
  execCnt : r.target.execCnt = s.execCnt + 1

theorem toBitVec_ofInt (z : ℤ) : (UInt32.ofInt z).toBitVec = .ofInt 32 z := by
  have hlt : (z % 2 ^ 32).toNat < 2 ^ 32 := by omega
  apply BitVec.eq_of_toNat_eq
  rw [BitVec.toNat_ofInt, UInt32.ofInt, UInt32.toBitVec_ofNat', BitVec.toNat_ofNat]
  omega

theorem run_number (h : c.Takes z) (hup : s.pool.inited = true) (env : CmdEnv)
    (buff : List UInt8) : ∃ r, (c.handler z).run env s buff = some r ∧ c.Sets z s r := by
  have hint := toInt_ofInt (takes_int h)
  cases c with
  | timeout =>
      refine ⟨_, rfl, rfl, sent_setText (by decide) _ _ _, ?_, fun c' hc' => ?_, rfl⟩
      · rw [get_cmdCommonReturn]
        simp only [get, CmdTarget.tPoolSetTimeout, ThreadPool.next, hup, if_true, toBitVec_ofInt,
          hint]
      · rw [get_cmdCommonReturn, get_tPoolSetTimeout hc']
  | queueLength =>
      refine ⟨_, rfl, rfl, sent_setText (by decide) _ _ _, ?_, fun c' hc' => ?_, rfl⟩
      · rw [get_cmdCommonReturn]
        simp only [get, CmdTarget.tPoolSetMaxQueueLength, ThreadPool.next, hup, if_true, hint]
      · rw [get_cmdCommonReturn, get_tPoolSetMaxQueueLength hc']
  | logLevel =>
      obtain ⟨hlow, hhigh⟩ : 0 ≤ z ∧ z ≤ (3 : ℕ) := h
      have hnat : (UInt32.ofInt z).toNat = z.toNat := by
        rw [UInt32.ofInt, UInt32.toNat_ofNat']
        omega
      have hset : s.logSetLevel (.ofInt z) = { s with logLevel := z } := by
        have hle : z.toNat ≤ 3 := by omega
        rw [CmdTarget.logSetLevel, hnat, if_pos hle, Int.toNat_of_nonneg hlow]
      refine ⟨_, rfl, rfl, sent_setText (by decide) _ _ _, ?_, fun c' hc' => ?_, ?_⟩
      · rw [get_cmdCommonReturn, hset]
        rfl
      · rw [get_cmdCommonReturn, get_logSetLevel hc']
      · show (s.logSetLevel (.ofInt z)).execCnt + 1 = s.execCnt + 1
        rw [hset]

/-! ## What leaves it -/

/-- The branches that set something else, or nothing. -/
theorem get_run {handler : CmdHandler} (hother : ofHandler handler ≠ some c) {env : CmdEnv}
    {buff : List UInt8} {r : CmdReply} (hrun : handler.run env s buff = some r) :
    c.get r.target = c.get s := by
  cases handler with
  | external cont =>
      obtain rfl := Option.some.inj hrun
      exact get_cmdCommonReturn ..
  | stop =>
      obtain rfl := Option.some.inj hrun
      refine (get_cmdCommonReturn c _ []).trans ?_
      cases c <;> rfl
  | showStat =>
      obtain rfl := Option.some.inj hrun
      exact get_cmdCommonReturn ..
  | changeTPoolTimeout value =>
      obtain ⟨timeout, rfl, rfl⟩ := Option.map_eq_some_iff.mp hrun
      rw [get_cmdCommonReturn, get_tPoolSetTimeout]
      rintro rfl
      exact hother rfl
  | changeTPoolQueueLength value =>
      obtain ⟨queueLength, rfl, rfl⟩ := Option.map_eq_some_iff.mp hrun
      rw [get_cmdCommonReturn, get_tPoolSetMaxQueueLength]
      rintro rfl
      exact hother rfl
  | changeLogLevel value =>
      obtain ⟨logLevel, rfl, rfl⟩ := Option.map_eq_some_iff.mp hrun
      rw [get_cmdCommonReturn, get_logSetLevel]
      rintro rfl
      exact hother rfl

theorem next_taskDefaultTimeout {pool : ThreadPool} {a : TPoolAction} (ha : ¬ a.Sets) :
    (pool.next a).taskDefaultTimeout = pool.taskDefaultTimeout := by
  cases a with
  | insert t clockOk woke =>
      simp only [ThreadPool.next, ThreadPool.insert]
      split_ifs <;> rfl
  | worker w =>
      simp only [ThreadPool.next, ThreadPool.stepWorker]
      cases pool.worker w with
      | lockPool =>
          simp only [ThreadPool.examine]
          split_ifs <;> rfl
      | woken =>
          simp only [ThreadPool.examine]
          split_ifs <;> rfl
      | forEach loop tmp =>
          simp only
          cases ThreadPool.forEachTask w loop <;> rfl
      | body t tmp k =>
          simp only [ThreadPool.body]
          cases (pool.task t).bodyNext k <;> rfl
      | _ => rfl
  | setTimeout timeout => exact absurd trivial ha
  | setMaxQueueLength queueLen => exact absurd trivial ha
  | moduleExit =>
      simp only [ThreadPool.next, ThreadPool.moduleExit]
      cases pool.exitPc <;> rfl
  | _ => rfl

/-- Not a command for this setting. -/
def Keeps (w : MyCmdExternWorker) (c : CmdSetting) : CmdAction → Prop
  | .message bs _ => ∀ handler, cmdServerHandleMsg w (recvBuff bs) = some handler →
      ofHandler handler ≠ some c
  | .pool _ => True

theorem get_next {tp : TPoolModuleInitArg} {a : CmdAction} (ha : (operatorSystem tp w).enabled s a)
    (hkeeps : c.Keeps w a) : c.get ((operatorSystem tp w).next s a) = c.get s := by
  cases a with
  | message bs env =>
      show c.get (((cmdServerReply w env s (recvBuff bs)).map CmdReply.target).getD s) = c.get s
      unfold cmdServerReply
      cases hhandler : cmdServerHandleMsg w (recvBuff bs) with
      | none => exact get_cmdCommonReturn ..
      | some handler =>
          simp only
          cases hrun : handler.run env s (recvBuff bs) with
          | none => rfl
          | some r => exact get_run (hkeeps handler hhandler) hrun
  | pool a =>
      have hmax : a.KeepsMax := by
        cases a with
        | setMaxQueueLength queueLen => exact ha.2 trivial
        | _ => trivial
      cases c with
      | timeout => exact congrArg BitVec.toInt (next_taskDefaultTimeout ha.2)
      | queueLength => exact congrArg BitVec.toInt (ThreadPool.next_taskMaxLength hmax)
      | logLevel => rfl

/-- Only strings in the buffer are read. -/
theorem readsSafely_number (h : c.Takes z) (harg : strcasecmpEq arg c.cmd.opt = true)
    (hext : ∀ cont ∈ w.externalCmds, strcasestr (c.text z) cont.opt = false) :
    ReadsSafely w (recvBuff (cStr arg ++ 32 :: signedDecimal z ++ [0])) := by
  have hreceived := cStr_received arg z
  have hhandler := cmdServerHandleMsg_number h harg hext
  set buff := recvBuff (cStr arg ++ 32 :: signedDecimal z ++ [0])
  have hends : (cStr buff).length < 128 := by
    have hnumber := length_signedDecimal h
    have hword := length_eq_of_strcasecmpEq harg
    have hopt := length_opt_le c
    rw [hreceived, List.length_append, List.length_cons]
    omega
  have hspace : 32 ∈ cStr buff := by
    rw [hreceived]
    simp
  rw [ReadsSafely, cmdServerHandleMsgReads, hhandler, List.forall_mem_append]
  constructor
  · intro a ha
    obtain ⟨opt, -, rfl⟩ := List.mem_map.mp ha
    exact safe_string (Nat.zero_le _) hends
  · cases c <;> exact (numberReads_safe_iff hends).mpr hspace

end CmdSetting

/-- What `_CmdClientWorkerProc` prints of an answer. -/
def cmdClientPrints (received : List UInt8) : List UInt8 := cStr received ++ [newline]

/-- **The number that was typed is set, and stays.** A command with a number, in letters of any
size, reaches the branch of its option; the operator is shown the answer; the other settings are
not touched; and no other command, and nothing the pool does, changes what was set. -/
theorem command_sets (c : CmdSetting) {z : ℤ} (hz : c.Takes z) {w : MyCmdExternWorker}
    {arg : List UInt8} (harg : strcasecmpEq arg c.cmd.opt = true)
    (hext : ∀ cont ∈ w.externalCmds, strcasestr (c.text z) cont.opt = false)
    (prog : List UInt8) (tp : TPoolModuleInitArg) {s : CmdTarget} (hup : s.pool.inited = true)
    (env : CmdEnv) :
    ∃ bytes r, cmdClientWorkerProc w [prog, arg, signedDecimal z] = .sends bytes ∧
      (operatorSystem tp w).enabled s (.message (bytes ++ [0]) env) ∧
      cmdServerReply w env s (recvBuff (bytes ++ [0])) = some r ∧ c.Sets z s r ∧
      r.sent.map (fun text => cmdClientPrints (text ++ [0])) = [c.reply z ++ [newline]] ∧
      ∀ s', Reach ((operatorSystem tp w).onward
          ((operatorSystem tp w).next s (.message (bytes ++ [0]) env)))
        (fun _ a => c.Keeps w a) s' → c.get s' = z := by
  have hhandler := CmdSetting.cmdServerHandleMsg_number hz harg hext
  obtain ⟨r, hrun, hsets⟩ := CmdSetting.run_number hz hup env
    (recvBuff (cStr arg ++ 32 :: signedDecimal z ++ [0]))
  have hreply : cmdServerReply w env s (recvBuff (cStr arg ++ 32 :: signedDecimal z ++ [0])) =
      some r := by
    rw [cmdServerReply, hhandler]
    exact hrun
  refine ⟨_, r, CmdSetting.cmdClientWorkerProc_number hz harg prog, ⟨?_, ?_,
    CmdSetting.readsSafely_number hz harg hext⟩, hreply, hsets, ?_, fun s' hr => ?_⟩
  · simp
  · have hnumber := CmdSetting.length_signedDecimal hz
    have hword := CmdSetting.length_eq_of_strcasecmpEq harg
    have hopt := CmdSetting.length_opt_le c
    rw [List.length_append, List.length_append, List.length_cons, List.length_singleton]
    omega
  · rw [hsets.sent, List.map_singleton, cmdClientPrints,
      cStr_append_zero (CmdSetting.zero_notMem_reply c z)]
  · have hstart : c.get ((operatorSystem tp w).next s
        (.message (cStr arg ++ 32 :: signedDecimal z ++ [0]) env)) = z := by
      show c.get (((cmdServerReply w env s _).map CmdReply.target).getD s) = z
      rw [hreply]
      exact hsets.sets
    refine hr.invariant (I := fun s' => c.get s' = z) ?_ ?_
    · rintro s' rfl
      exact hstart
    · intro s' a hs' ha hkeeps
      exact (CmdSetting.get_next ha hkeeps).trans hs'

/-- A program with an external command, and an operator who types in small letters. -/
theorem command_sets_sixteen : ∃ (bytes : List UInt8) (r : CmdReply),
    cmdClientWorkerProc serverCmds
      [[], MyCmdType.changeTPoolQueueLength.opt.map tolower, signedDecimal 16] = .sends bytes ∧
    r.sent = [str "Set tpool queue length as 16."] ∧
    r.target.pool.taskMaxLength.toInt = 16 := by
  have harg : strcasecmpEq (MyCmdType.changeTPoolQueueLength.opt.map tolower)
      CmdSetting.queueLength.cmd.opt = true := by decide
  have hext : ∀ cont ∈ serverCmds.externalCmds,
      strcasestr (CmdSetting.queueLength.text 16) cont.opt = false := by decide
  obtain ⟨bytes, r, hsends, -, -, hsets, -⟩ := command_sets .queueLength (z := 16)
    ⟨by decide, by decide⟩ harg hext [] narrow (s := ⟨narrowPool, 0, 0, 0⟩) rfl
    ⟨fun _ _ => (0, []), [], fun _ => 0, true⟩
  refine ⟨bytes, r, hsends, hsets.sent.trans ?_, hsets.sets⟩
  decide

/-! ## What no command can set -/

theorem logLevel_next {tp : TPoolModuleInitArg} {w : MyCmdExternWorker} {s : CmdTarget}
    (hs : 0 ≤ s.logLevel ∧ s.logLevel ≤ (myLogLevelError : ℤ)) {a : CmdAction}
    (ha : (operatorSystem tp w).enabled s a) :
    0 ≤ ((operatorSystem tp w).next s a).logLevel ∧
      ((operatorSystem tp w).next s a).logLevel ≤ (myLogLevelError : ℤ) := by
  by_cases hkeeps : CmdSetting.logLevel.Keeps w a
  · have hsame : ((operatorSystem tp w).next s a).logLevel = s.logLevel :=
      CmdSetting.get_next ha hkeeps
    rwa [hsame]
  · cases a with
    | pool a => exact absurd trivial hkeeps
    | message bs env =>
        simp only [CmdSetting.Keeps, not_forall, not_not] at hkeeps
        obtain ⟨handler, hhandler, hset⟩ := hkeeps
        show 0 ≤ (((cmdServerReply w env s (recvBuff bs)).map CmdReply.target).getD s).logLevel ∧
          (((cmdServerReply w env s (recvBuff bs)).map CmdReply.target).getD s).logLevel ≤
            (myLogLevelError : ℤ)
        rw [cmdServerReply, hhandler]
        cases handler with
        | changeLogLevel value =>
            cases value with
            | none => exact hs
            | some logLevel =>
                show 0 ≤ (s.logSetLevel logLevel).logLevel ∧
                  (s.logSetLevel logLevel).logLevel ≤ (myLogLevelError : ℤ)
                unfold CmdTarget.logSetLevel
                split_ifs with hle
                · exact ⟨Int.natCast_nonneg _, Int.ofNat_le.mpr hle⟩
                · exact hs
        | _ => cases hset

/-- **Errors are logged,** whatever is typed for the level. -/
theorem logLevel_of_reach {tp : TPoolModuleInitArg} {w : MyCmdExternWorker} {s : CmdTarget}
    (hr : Reachable (operatorSystem tp w) s) :
    0 ≤ s.logLevel ∧ s.logLevel ≤ (myLogLevelError : ℤ) := by
  refine hr.invariant (I := fun s : CmdTarget => 0 ≤ s.logLevel ∧
    s.logLevel ≤ (myLogLevelError : ℤ)) ?_ ?_
  · intro s hs
    exact hs.2
  · intro s a hs ha _
    exact logLevel_next hs ha

end MyWorkEnv
