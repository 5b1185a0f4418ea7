import MyWorkEnv.MyUtils.Msg.Portable
import MyWorkEnv.Server.ServerMsgHandler

/-!
# The client's command line

A round of `ClientProcMainLoop` reads a line, splits it into a first word and
the rest (`_ClientGetArgFromCmd`), looks the word up in a table
(`ClientCmdSupported`) and sends the rest as the content of a message
(`ClientHandleCmd`). The argument passes through buffers of 1 MiB for the
line, 128 bytes for the second word and 1024 for the content, and through a
message to the server, which hands it to `popen`. It comes out as it went in
if it has at most 127 bytes (`popened_typed_iff`).

The table's help texts and what is printed are left out.
-/

namespace MyWorkEnv

open FixedWidth Transfer CString

abbrev myBuff32 : ℕ := 32
abbrev myBuff128 : ℕ := 128
abbrev myMsgTypeStartUnspec : ℤ := 0

structure ClientMsgHandle where
  opt : List UInt8
  argc : ℕ
  msgType : ℤ

def helpText : List UInt8 := ascii ['H', 'e', 'l', 'p']
def execCmdOpt : List UInt8 := ascii ['E', 'x', 'e', 'c', 'C', 'm', 'd']
def disconnectText : List UInt8 := ascii ['d', 'i', 's', 'c', 'o', 'n', 'n', 'e', 'c', 't']

def sgClientMsgHandle : List ClientMsgHandle :=
  [⟨helpText, 1, myMsgTypeStartUnspec⟩, ⟨execCmdOpt, 2, 10000⟩]

/-- `FirstCmd`, `SecondCmd` and `Argc` of the `CmdLen` bytes at `Cmd`, which end with a
NUL. -/
def clientGetArgFromCmd (cmd : List UInt8) (firstCmdLen secondCmdLen : ℕ) :
    List UInt8 × List UInt8 × ℕ :=
  let first := copyWhile (fun c => !isspace c) (firstCmdLen - 1) (cmd.dropWhile isspace)
  let second := copyWhile (fun _ => true) (secondCmdLen - 1) (first.2.dropWhile isspace)
  (first.1, second.1, if (cStr second.1).length ≠ 0 then 2 else 1)

/-- `*MsgType` and the string in `MsgCont`, a zeroed buffer, if the command is supported. -/
def clientCmdSupported (cmd : List UInt8) (msgContLen : ℕ) : Option (ℤ × List UInt8) :=
  let (firstCmd, secondCmd, argc) := clientGetArgFromCmd cmd myBuff32 myBuff128
  match sgClientMsgHandle.find? fun h =>
      strcasecmpEq firstCmd h.opt && argc == h.argc && h.msgType != myMsgTypeStartUnspec with
  | none => none
  | some h =>
      if msgContLen ≤ (cStr secondCmd).length then none
      else some (h.msgType, cStr secondCmd)

def clientCmdIsExit (cmd : List UInt8) : Bool := strcasecmpEq cmd disconnectText

/-- The return code, the calls of `SendMsg`, and the next session's number. -/
structure ClientHandled where
  ret : ℤ
  sends : List MyMsg
  sessionId : UInt32

/-- The message before it is filled. -/
def clientMsg (sessionId : UInt32) (msgType : ℤ) : MyMsg :=
  { MyMsg.new with
    head := { MyMsg.new.head with sessionId := sessionId, type := .ofInt msgType } }

/-- `ClientHandleCmd`; `newMsgOk` says whether `NewMsg` succeeds and `sendRet` is what
`SendMsg` returns. -/
def clientHandleCmd (newMsgOk : Bool) (sendRet : ℤ) (sessionId : UInt32) (msgType : ℤ)
    (msgCont : List UInt8) (msgContLen : UInt64) : ClientHandled :=
  if newMsgOk then
    let msgToSend := clientMsg sessionId msgType
    if msgToSend.head.type = myMsgTypeExecCmd then
      match fillMsgCont msgToSend msgCont msgContLen with
      | (ret, msgToSend) =>
          if ret ≠ mySuccess then ⟨ret, [], sessionId + 1⟩
          else ⟨sendRet, [msgToSend], sessionId + 1⟩
    else ⟨-myEnosys, [], sessionId + 1⟩
  else ⟨-myEnoMem, [], sessionId⟩

/-- How a round of the loop ends. -/
inductive ClientRound where
  | nullDeref
  | exit
  | usage
  | handled (handled : ClientHandled)

/-- One round of `ClientProcMainLoop` on what there is to read. Where `strchr` finds no
newline, the loop writes through the `NULL` it returns. -/
def clientRound (newMsgOk : Bool) (sendRet : ℤ) (sessionId : UInt32) (stdin : List UInt8) :
    ClientRound :=
  match fgets myMsgContentMaxLen stdin with
  | none => .nullDeref
  | some (buf, _) =>
      if newline ∉ cStr buf then .nullDeref
      else
        let buf := (cStr buf).takeWhile (· != newline)
        if clientCmdIsExit buf then .exit
        else
          match clientCmdSupported (buf ++ [0]) myBuff1024 with
          | none => .usage
          | some (msgType, msgCont) =>
              .handled (clientHandleCmd newMsgOk sendRet sessionId msgType msgCont
                (.ofNat msgCont.length))

/-! ## The words of a line -/

/-- A line that asks for `ExecCmd` with the argument `c`. -/
structure TypedCommand (ws c : List UInt8) : Prop where
  space : ws ≠ [] ∧ ∀ b ∈ ws, isspace b = true ∧ b ≠ newline
  start : c ≠ [] ∧ isspace (c.headD 0) = false
  text : 0 ∉ c ∧ newline ∉ c

/-- What is typed, without the newline. -/
def typedLine (ws c : List UInt8) : List UInt8 := execCmdOpt ++ ws ++ c

variable {ws c : List UInt8}

theorem cStr_take_append_zero (hc : 0 ∉ c) (n : ℕ) : cStr ((c ++ [0]).take n) = c.take n := by
  have hnul : 0 ∉ c.take n := fun h => hc (List.mem_of_mem_take h)
  by_cases hn : n ≤ c.length
  · rw [List.take_append_of_le_length hn]
    exact cStr_of_not_mem hnul
  · rw [List.take_of_length_le (by simp; omega), List.take_of_length_le (by omega)]
    exact cStr_append_zero hc []

/-- The second word is the argument, as far as the buffer goes. -/
theorem clientGetArgFromCmd_typed (h : TypedCommand ws c) :
    clientGetArgFromCmd (typedLine ws c ++ [0]) myBuff32 myBuff128 =
      (execCmdOpt, (c ++ [0]).take 127, 2) := by
  obtain ⟨w, ws', rfl⟩ := List.exists_cons_of_ne_nil h.space.1
  obtain ⟨d, c', rfl⟩ := List.exists_cons_of_ne_nil h.start.1
  have hskip : (typedLine (w :: ws') (d :: c') ++ [0]).dropWhile isspace =
      execCmdOpt ++ w :: (ws' ++ (d :: c') ++ [0]) := by
    simp [typedLine, execCmdOpt, ascii, isspace]
  have hfirst : copyWhile (fun b => !isspace b) (myBuff32 - 1)
      (execCmdOpt ++ w :: (ws' ++ (d :: c') ++ [0])) =
        (execCmdOpt, w :: (ws' ++ (d :: c') ++ [0])) := by
    refine copyWhile_word ?_ (by decide) ?_ _
    · simp [execCmdOpt, ascii, isspace]
    · rw [(h.space.2 w (by simp)).1]
      rfl
  have hsecond : (w :: (ws' ++ (d :: c') ++ [0])).dropWhile isspace = d :: c' ++ [0] := by
    have hws : ∀ b ∈ w :: ws', isspace b = true := fun b hb => (h.space.2 b hb).1
    have hd : ¬ isspace d = true := by
      rw [Bool.not_eq_true]
      exact h.start.2
    rw [List.append_assoc, ← List.cons_append, List.dropWhile_append_of_pos hws,
      List.cons_append, List.dropWhile_cons_of_neg hd]
  have hargc : (cStr ((d :: c' ++ [0]).take (myBuff128 - 1))).length ≠ 0 := by
    rw [cStr_take_append_zero h.text.1]
    simp
  unfold clientGetArgFromCmd
  rw [hskip, hfirst]
  dsimp only
  rw [hsecond, copyWhile_true, if_pos hargc]
  rfl

theorem clientCmdSupported_typed (h : TypedCommand ws c) :
    clientCmdSupported (typedLine ws c ++ [0]) myBuff1024 = some (10000, c.take 127) := by
  have hfind : (sgClientMsgHandle.find? fun h => strcasecmpEq execCmdOpt h.opt &&
      (2 : ℕ) == h.argc && h.msgType != myMsgTypeStartUnspec) =
        some ⟨execCmdOpt, 2, 10000⟩ := by
    rfl
  have hlen : ¬ myBuff1024 ≤ (c.take 127).length := by
    rw [List.length_take]
    unfold myBuff1024
    omega
  simp only [clientCmdSupported, clientGetArgFromCmd_typed h, hfind,
    cStr_take_append_zero h.text.1, if_neg hlen]

theorem typedLine_text (h : TypedCommand ws c) :
    0 ∉ typedLine ws c ∧ newline ∉ typedLine ws c := by
  have hws : 0 ∉ ws ∧ newline ∉ ws := by
    constructor
    · intro hmem
      exact absurd (h.space.2 0 hmem).1 (by decide)
    · intro hmem
      exact (h.space.2 newline hmem).2 rfl
  have hopt : 0 ∉ execCmdOpt ∧ newline ∉ execCmdOpt := by decide
  simp only [typedLine, List.mem_append, not_or]
  exact ⟨⟨⟨hopt.1, hws.1⟩, h.text.1⟩, ⟨hopt.2, hws.2⟩, h.text.2⟩

theorem clientCmdIsExit_typed (h : TypedCommand ws c) :
    clientCmdIsExit (typedLine ws c) = false := by
  rw [clientCmdIsExit, strcasecmpEq, cStr_of_not_mem (typedLine_text h).1]
  simp [typedLine, execCmdOpt, disconnectText, ascii, cStr, tolower]

/-! ## The round of a typed line -/

/-- The message for the argument. -/
def typedMsg (sessionId : UInt32) (c : List UInt8) : MyMsg :=
  (fillMsgCont (clientMsg sessionId 10000) (c.take 127) (.ofNat (c.take 127).length)).2

theorem fillMsgCont_typed (sessionId : UInt32) (hc : c ≠ []) :
    (fillMsgCont (clientMsg sessionId 10000) (c.take 127)
        (.ofNat (c.take 127).length)).1 = mySuccess ∧
      (typedMsg sessionId c).head.type = myMsgTypeExecCmd ∧
      (typedMsg sessionId c).head.contentLen.toNat ≤ 127 ∧
      (typedMsg sessionId c).content = c.take 127 := by
  have hpos : 0 < c.length := List.length_pos_iff.mpr hc
  have hlen : (c.take 127).length ≤ 127 := by simp
  have hnat : (UInt64.ofNat (c.take 127).length).toNat = (c.take 127).length := by
    rw [UInt64.toNat_ofNat']
    omega
  have hfits : Fits (clientMsg sessionId 10000) (.ofNat (c.take 127).length) := by
    have hempty : (clientMsg sessionId 10000).head.contentLen.toNat = 0 := rfl
    have hcap : myMsgContentMaxLen = 1048576 := rfl
    refine ⟨?_, by omega⟩
    intro hzero
    rw [hzero, List.length_take] at hnat
    simp at hnat
    omega
  obtain ⟨hret, hhead, hsum, hcontent⟩ := fillMsgCont_of_fits (c.take 127) hfits
  rw [hnat] at hsum hcontent
  refine ⟨hret, ?_, ?_, ?_⟩
  · rw [typedMsg, hhead]
    rfl
  · rw [typedMsg, hsum]
    have hempty : (clientMsg sessionId 10000).head.contentLen.toNat = 0 := rfl
    omega
  · rw [typedMsg, hcontent le_rfl, List.take_length]
    rfl

theorem clientHandleCmd_typed (sendRet : ℤ) (sessionId : UInt32) (hc : c ≠ []) :
    clientHandleCmd true sendRet sessionId 10000 (c.take 127) (.ofNat (c.take 127).length) =
      ⟨sendRet, [typedMsg sessionId c], sessionId + 1⟩ := by
  obtain ⟨hret, -⟩ := fillMsgCont_typed sessionId hc
  have htype : (clientMsg sessionId 10000).head.type = myMsgTypeExecCmd := rfl
  simp only [clientHandleCmd, if_true, htype, if_neg (not_not_intro hret)]
  rfl

/-- **A round.** A typed line that fits the buffer with its newline becomes a message, and a
longer one is the end of the client. -/
theorem clientRound_typed (h : TypedCommand ws c) (newMsgOk : Bool) (sendRet : ℤ)
    (sessionId : UInt32) (more : List UInt8) :
    clientRound newMsgOk sendRet sessionId (typedLine ws c ++ newline :: more) =
      if (typedLine ws c).length + 1 < myMsgContentMaxLen then
        .handled (if newMsgOk then ⟨sendRet, [typedMsg sessionId c], sessionId + 1⟩
          else ⟨-myEnoMem, [], sessionId⟩)
      else .nullDeref := by
  obtain ⟨hnul, hnl⟩ := typedLine_text h
  have hne : typedLine ws c ++ newline :: more ≠ [] := by simp
  unfold clientRound fgets
  rw [if_neg hne]
  simp only
  by_cases hlen : (typedLine ws c).length + 1 < myMsgContentMaxLen
  · have hroom : (typedLine ws c).length < myMsgContentMaxLen - 1 := by omega
    have hbuf := cStr_fgetsLine_line hnul hnl hroom more
    have hin : ¬ newline ∉ typedLine ws c ++ [newline] := by simp
    rw [if_pos hlen, hbuf, if_neg hin, takeWhile_line hnl, clientCmdIsExit_typed h,
      clientCmdSupported_typed h]
    simp only [Bool.false_eq_true, if_false]
    cases newMsgOk with
    | false => rfl
    | true => rw [clientHandleCmd_typed sendRet sessionId h.start.1, if_pos rfl]
  · rw [if_neg hlen, if_pos (newline_not_mem_of_long hnl (by omega) _)]

/-! ## From the keyboard to `popen` -/

/-- The bytes of a short text are the string that another host finds in the message. -/
theorem command_delivered (msg : MyMsg) (stamp : UInt64) (hnul : 0 ∉ msg.content)
    (hlen : msg.content.length < myMsgContentMaxLen) :
    command (delivered msg stamp) = msg.content := by
  have hzeros : List.replicate (myMsgContentMaxLen - msg.content.length) (0 : UInt8) =
      0 :: List.replicate (myMsgContentMaxLen - msg.content.length - 1) 0 := by
    rw [← List.replicate_succ]
    congr 1
    omega
  have hmem : (delivered msg stamp).cont.varLenCont.toList =
      msg.content ++ 0 :: List.replicate (myMsgContentMaxLen - msg.content.length - 1) 0 := by
    rw [← hzeros]
    show (buffer myMsgContentMaxLen msg.content).toList = _
    rw [buffer, Vector.toList_mk, List.take_of_length_le hlen.le]
  rw [command, hmem]
  exact cStr_append_zero hnul _

theorem popened_serverMsgExecCmdFn (env : HandlerEnv) (arg : ServerExecCmdArg) :
    (serverMsgExecCmdFn env arg).popened = [command arg.msg] := by
  unfold serverMsgExecCmdFn
  cases env.popen (command arg.msg) with
  | none => rfl
  | some output =>
      simp only
      split_ifs
      · split <;> rfl
      · rfl

/-- What the server, given memory and a pool that takes the task, does with the message
that `RecvMsg` left. -/
def Popens (env : HandlerEnv) (fd : ℕ) (got : RecvCall) (cmd : List UInt8) : Prop :=
  ∃ m arg, got.ret = mySuccess ∧ got.retMsg = some m ∧
    (serverHandleMsg env fd (some m)).task = some arg ∧
    (serverMsgExecCmdFn env arg).popened = [cmd]

/-- The command that arrives is what fits the second word's buffer. -/
theorem popens_typed (h : TypedCommand ws c) {l : Link} (hl : l.ErrorFree)
    (sessionId : UInt32) {tv : Timeval} {sent : SendCall} {got : RecvCall}
    (hx : l.Exchange (typedMsg sessionId c) tv sent got) {env : HandlerEnv}
    (henv : env.callocOk = true ∧ env.newMsgOk = true ∧ env.addTask = mySuccess) (fd : ℕ) :
    Popens env fd got (c.take 127) := by
  obtain ⟨-, htype, hlen, hcontent⟩ := fillMsgCont_typed sessionId h.start.1
  obtain ⟨hret, hretMsg⟩ := hx.got_eq hl (by
    have hcap : myMsgContentMaxLen = 1048576 := rfl
    omega)
  refine ⟨_, ⟨fd, delivered (typedMsg sessionId c) (betweenHosts l.sender l.receiver tv.ms)⟩,
    hret, hretMsg, ?_, ?_⟩
  · have hexec : (delivered (typedMsg sessionId c)
        (betweenHosts l.sender l.receiver tv.ms)).head.type = myMsgTypeExecCmd := htype
    simp [serverHandleMsg, hexec, serverMsgExecCmd, henv]
  · rw [popened_serverMsgExecCmdFn, command_delivered, hcontent]
    · rw [hcontent]
      exact fun hmem => h.text.1 (List.mem_of_mem_take hmem)
    · rw [hcontent, List.length_take]
      have hcap : myMsgContentMaxLen = 1048576 := rfl
      omega

/-- A server with memory, on which no command can be started. -/
def quietEnv : HandlerEnv := ⟨true, true, mySuccess, mySuccess, fun _ => none⟩

theorem quietEnv_queues :
    quietEnv.callocOk = true ∧ quietEnv.newMsgOk = true ∧ quietEnv.addTask = mySuccess :=
  ⟨rfl, rfl, rfl⟩

/-- Whatever the server can do at all, it runs one command only. -/
theorem Popens.unique {env env' : HandlerEnv} {fd fd' : ℕ} {got : RecvCall}
    {cmd cmd' : List UInt8} (h : Popens env fd got cmd) (h' : Popens env' fd' got cmd') :
    cmd = cmd' := by
  obtain ⟨m, arg, -, hm, harg, hcmd⟩ := h
  obtain ⟨m', arg', -, hm', harg', hcmd'⟩ := h'
  rw [hm, Option.some.injEq] at hm'
  rw [popened_serverMsgExecCmdFn, serverHandleMsg_task harg] at hcmd
  rw [popened_serverMsgExecCmdFn, serverHandleMsg_task harg', ← hm'] at hcmd'
  rw [← List.singleton_inj.mp hcmd, ← List.singleton_inj.mp hcmd']

/-- **What was typed.** A line that the client accepts becomes one message, if there is
memory for it; it arrives, and the server, if it has memory and a pool for the task, runs a
command, which is exactly what was typed when and only when that is at most 127 bytes. -/
theorem popened_typed_iff (l : Link) (hl : l.ErrorFree) (ws c more : List UInt8)
    (h : TypedCommand ws c) (newMsgOk : Bool) (sendRet : ℤ) (sessionId : UInt32)
    (handled : ClientHandled)
    (haccepts : clientRound newMsgOk sendRet sessionId (typedLine ws c ++ newline :: more) =
      .handled handled) :
    ∃ msg, handled.sends = (if newMsgOk then [msg] else []) ∧
      ∀ tv, (∃ sent got, l.Exchange msg tv sent got) ∧
        ∀ sent got, l.Exchange msg tv sent got → ∀ (env : HandlerEnv) (fd : ℕ),
          (env.callocOk = true ∧ env.newMsgOk = true ∧ env.addTask = mySuccess →
            ∃ cmd, Popens env fd got cmd) ∧
          ∀ cmd, Popens env fd got cmd → (cmd = c ↔ c.length ≤ 127) := by
  rw [clientRound_typed h] at haccepts
  have hroom : (typedLine ws c).length + 1 < myMsgContentMaxLen := by
    by_contra hlong
    rw [if_neg hlong] at haccepts
    simp at haccepts
  rw [if_pos hroom, ClientRound.handled.injEq] at haccepts
  obtain ⟨-, -, hlen, -⟩ := fillMsgCont_typed sessionId h.start.1
  have hfits : (typedMsg sessionId c).head.contentLen.toNat ≤ myMsgContentMaxLen :=
    hlen.trans (by decide)
  refine ⟨typedMsg sessionId c, ?_, fun tv => ⟨hl.exchange tv hfits, ?_⟩⟩
  · rw [← haccepts]
    cases newMsgOk <;> rfl
  · intro sent got hx env fd
    refine ⟨fun henv => ⟨_, popens_typed h hl sessionId hx henv fd⟩, ?_⟩
    intro cmd hcmd
    have htyped := popens_typed h hl sessionId hx quietEnv_queues fd
    rw [hcmd.unique htyped, List.take_eq_self_iff]

/-- `ExecCmd ls`, and `ExecCmd` with an argument of 128 times the letter a. -/
def lsArg : List UInt8 := ascii ['l', 's']
def longArg : List UInt8 := List.replicate 128 97

theorem typedCommand_ls : TypedCommand [32] lsArg where
  space := by simp [isspace, newline]
  start := by decide
  text := by decide

theorem typedCommand_long : TypedCommand [32] longArg where
  space := by simp [isspace, newline]
  start := by decide
  text := by simp [longArg, newline]

theorem popened_typed_iff_ls :
    ∃ msg, ClientHandled.sends ⟨mySuccess, [typedMsg 0 lsArg], 1⟩ = [msg] ∧
      ∀ tv, (∃ sent got, mixedLink.Exchange msg tv sent got) ∧
        ∀ sent got, mixedLink.Exchange msg tv sent got → ∀ (env : HandlerEnv) (fd : ℕ),
          (env.callocOk = true ∧ env.newMsgOk = true ∧ env.addTask = mySuccess →
            ∃ cmd, Popens env fd got cmd) ∧
          ∀ cmd, Popens env fd got cmd → (cmd = lsArg ↔ lsArg.length ≤ 127) :=
  popened_typed_iff mixedLink mixedLink_errorFree [32] lsArg [] typedCommand_ls true mySuccess 0
    ⟨mySuccess, [typedMsg 0 lsArg], 1⟩ (clientRound_typed typedCommand_ls true mySuccess 0 [])

/-- The last letter is not part of the command that runs. -/
theorem long_command_cut :
    clientRound true mySuccess 0 (typedLine [32] longArg ++ [newline]) =
      .handled ⟨mySuccess, [typedMsg 0 longArg], 1⟩ ∧
    ∃ sent got, mixedLink.Exchange (typedMsg 0 longArg) ⟨1, 500000⟩ sent got ∧
      Popens quietEnv 5 got (List.replicate 127 97) ∧
      ¬ Popens quietEnv 5 got longArg := by
  have hcap : myMsgContentMaxLen = 1048576 := rfl
  have hline : (typedLine [32] longArg).length = 136 := by
    simp [typedLine, execCmdOpt, ascii, longArg]
  refine ⟨?_, ?_⟩
  · rw [clientRound_typed typedCommand_long true mySuccess 0 [], if_pos (by omega)]
    rfl
  obtain ⟨-, -, hlen, -⟩ := fillMsgCont_typed 0 typedCommand_long.start.1
  have hfits : (typedMsg 0 longArg).head.contentLen.toNat ≤ myMsgContentMaxLen := by omega
  obtain ⟨sent, got, hx⟩ := mixedLink_errorFree.exchange ⟨1, 500000⟩ hfits
  have hcut : longArg.take 127 = List.replicate 127 97 := by decide
  have hcmd := popens_typed typedCommand_long mixedLink_errorFree 0 hx quietEnv_queues 5
  rw [hcut] at hcmd
  refine ⟨sent, got, hx, hcmd, ?_⟩
  intro hall
  have hlength := congrArg List.length (hcmd.unique hall)
  simp [longArg] at hlength

end MyWorkEnv
