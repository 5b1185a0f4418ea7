import MyWorkEnv.Lib.CString
import MyWorkEnv.MyUtils.Msg.FillCont
import MyWorkEnv.Server.ServerProc

/-!
# The server's message handlers

`ServerMsgHandler.c`. A handler's result is its return code with what it did
on the way: the messages it gave to `SendMsg`, and the task it left with the
pool. `answer` collects the `SendMsg` calls of a handler and of its task.

The default handler echoes the request without its last byte, which it takes
for a terminator, and appends `":success"`. `_ServerMsgExecCmdFn` answers with
the output of the command, in a copy of the request. What is logged is left
out, and so is a read error on the pipe, which ends the output.
-/

namespace MyWorkEnv

open FixedWidth Transfer CString

abbrev myBuff1024 : ℕ := 1024
abbrev myMsgTypeExecCmdReply : UInt16 := 10001

/-- `MY_SERVER_COMM_REPLY`, with the terminator that `sizeof` counts. -/
def myServerCommReply : List UInt8 := ascii ['s', 'u', 'c', 'c', 'e', 's', 's'] ++ [0]

def execCmdText : List UInt8 := ascii ['E', 'x', 'e', 'c', ' ', 'c', 'm', 'd', ':', ' ']
def failedText : List UInt8 := ascii [' ', 'f', 'a', 'i', 'l', 'e', 'd', '!']

/-- What the handlers depend on: whether `NewMsg` and `MyCalloc` have memory, the return
codes of `TPoolAddTask` and `SendMsg`, and what a command prints (`none` if `popen` fails). -/
structure HandlerEnv where
  newMsgOk : Bool
  callocOk : Bool
  addTask : ℤ
  sendRet : ℤ
  popen : List UInt8 → Option (List UInt8)

structure ServerExecCmdArg where
  fd : ℕ
  msg : MyMsg

/-- What a handler has done by the time it returns. -/
structure Handled where
  ret : ℤ
  sends : List (ℕ × MyMsg)
  task : Option ServerExecCmdArg

/-- The task's calls of `popen` and `SendMsg`. -/
structure ExecCmdRun where
  popened : List (List UInt8)
  sends : List (ℕ × MyMsg)

/-- `while (fgets(buffer, sizeof(buffer), pipe) != NULL)`, up to the first piece that
`FillMsgCont` refuses. -/
def readPipe (msg : MyMsg) (output : List UInt8) : MyMsg :=
  match _h : fgets myBuff1024 output with
  | none => msg
  | some (buffer, rest) =>
      match fillMsgCont msg buffer (.ofNat (cStr buffer).length) with
      | (ret, msg') => if ret ≠ mySuccess then msg' else readPipe msg' rest
termination_by output.length
decreasing_by exact (reads_of_fgets (by norm_num) _h).length_rest_lt

/-- What `popen` is called with. -/
def command (msg : MyMsg) : List UInt8 := cStr msg.cont.varLenCont.toList

/-- The copy of the request that becomes the reply. -/
def execCmdReply (msg : MyMsg) : MyMsg :=
  { clearMsgCont msg with
    head := { (clearMsgCont msg).head with type := myMsgTypeExecCmdReply } }

/-- What the reply says of a command without output. -/
def failedParts (tmpCmd : List UInt8) : List (List UInt8 × UInt64) :=
  [(execCmdText, 10), (tmpCmd, .ofNat tmpCmd.length), (failedText, 8)]

def serverMsgExecCmdFn (env : HandlerEnv) (arg : ServerExecCmdArg) : ExecCmdRun :=
  let tmpCmd := snprintfStr myBuff1024 (command arg.msg)
  match env.popen (command arg.msg) with
  | none => ⟨[command arg.msg], []⟩
  | some output =>
      let msg := readPipe (execCmdReply arg.msg) output
      if msg.head.contentLen = 0 then
        match fillAll msg (failedParts tmpCmd) with
        | none => ⟨[command arg.msg], []⟩
        | some msg => ⟨[command arg.msg], [(arg.fd, msg)]⟩
      else ⟨[command arg.msg], [(arg.fd, msg)]⟩

def serverMsgExecCmd (env : HandlerEnv) (fd : ℕ) (msg : MyMsg) : Handled :=
  if env.callocOk && env.newMsgOk then
    ⟨env.addTask, [], if env.addTask = mySuccess then some ⟨fd, msg⟩ else none⟩
  else ⟨-myEnoMem, [], none⟩

/-- The default reply before it is filled. -/
def replyHead (msg : MyMsg) : MyMsg :=
  { MyMsg.new with head := { MyMsg.new.head with type := msg.head.type + 1 } }

def echoParts (msg : MyMsg) : List (List UInt8 × UInt64) :=
  [(msg.cont.varLenCont.toList, (msg.head.contentLen - 1).toUInt64), (ascii [':'], 1),
    (myServerCommReply, 8)]

def serverDefaultMsgHandler (env : HandlerEnv) (fd : ℕ) (msg : MyMsg) : Handled :=
  if env.newMsgOk then
    match fillAll (replyHead msg) (echoParts msg) with
    | none => ⟨-myEio, [], none⟩
    | some replyMsg => ⟨env.sendRet, [(fd, replyMsg)], none⟩
  else ⟨-myEnoMem, [], none⟩

/-- `ServerHandleMsg(Fd, Msg)`, with `none` for a `NULL` pointer. -/
def serverHandleMsg (env : HandlerEnv) (fd : ℕ) : Option MyMsg → Handled
  | none => ⟨-myEio, [], none⟩
  | some msg =>
      if msg.head.type = myMsgTypeExecCmd then serverMsgExecCmd env fd msg
      else serverDefaultMsgHandler env fd msg

/-- All calls of `SendMsg` in answer to a message, when the pool runs an accepted task
once. -/
def answer (env : HandlerEnv) (fd : ℕ) (msg : MyMsg) : List (ℕ × MyMsg) :=
  let handled := serverHandleMsg env fd (some msg)
  handled.sends ++
    match handled.task with
    | none => []
    | some arg => (serverMsgExecCmdFn env arg).sends

/-! ## What is left to a task -/

/-- `_ServerMsgExecCmd` sends nothing itself, and its task keeps the message. -/
theorem serverMsgExecCmd_task (env : HandlerEnv) (fd : ℕ) (msg : MyMsg) :
    (serverMsgExecCmd env fd msg).sends = [] ∧
      ∀ arg, (serverMsgExecCmd env fd msg).task = some arg → arg = ⟨fd, msg⟩ := by
  unfold serverMsgExecCmd
  split_ifs
  · refine ⟨rfl, ?_⟩
    intro arg harg
    exact (Option.some.inj harg).symm
  · exact ⟨rfl, fun arg harg => by cases harg⟩
  · exact ⟨rfl, fun arg harg => by cases harg⟩

theorem task_serverDefaultMsgHandler (env : HandlerEnv) (fd : ℕ) (msg : MyMsg) :
    (serverDefaultMsgHandler env fd msg).task = none := by
  unfold serverDefaultMsgHandler
  split
  · cases fillAll (replyHead msg) (echoParts msg) <;> rfl
  · rfl

/-- **Any task** is for the message as it was received. -/
theorem serverHandleMsg_task {env : HandlerEnv} {fd : ℕ} {msg : MyMsg}
    {arg : ServerExecCmdArg} (h : (serverHandleMsg env fd (some msg)).task = some arg) :
    arg = ⟨fd, msg⟩ := by
  simp only [serverHandleMsg] at h
  split_ifs at h
  · exact (serverMsgExecCmd_task env fd msg).2 arg h
  · rw [task_serverDefaultMsgHandler] at h
    cases h

/-! ## The default handler -/

/-- The lengths whose echo fits a reply. -/
def Echoes (msg : MyMsg) : Prop :=
  2 ≤ msg.head.contentLen.toNat ∧ msg.head.contentLen.toNat ≤ 1048567

/-- `ContentLen - 1`, as the `size_t` that `FillMsgCont` gets. -/
theorem toNat_echoLen (len : UInt32) : (len - 1).toUInt64.toNat =
    if len.toNat = 0 then 2 ^ 32 - 1 else len.toNat - 1 := by
  have hlt := len.toNat_lt
  rw [UInt32.toNat_toUInt64, UInt32.toNat_sub, UInt32.toNat_one]
  split_ifs with hzero <;> omega

/-- An empty request wraps around, and one of a single byte leaves nothing to echo. -/
theorem fillAll_echo_iff (msg : MyMsg) :
    (fillAll (replyHead msg) (echoParts msg)).isSome = true ↔ Echoes msg := by
  have hecho := toNat_echoLen msg.head.contentLen
  have hne : (msg.head.contentLen - 1).toUInt64 ≠ 0 ↔
      (msg.head.contentLen - 1).toUInt64.toNat ≠ 0 := by
    rw [← UInt64.toNat_inj.ne]
    rfl
  have hempty : (replyHead msg).head.contentLen.toNat = 0 := rfl
  rw [fillAll_isSome_iff (echoParts msg) (by simp [echoParts]) (by rw [hempty]; omega), hempty]
  simp only [echoParts, List.forall_mem_cons, List.map_cons, List.map_nil, List.sum_cons,
    List.sum_nil, hne, hecho, Echoes]
  have hone : (1 : UInt64).toNat = 1 := rfl
  have height : (8 : UInt64).toNat = 8 := rfl
  have hcap : myMsgContentMaxLen = 1048576 := rfl
  rw [hone, height, hcap]
  constructor
  · rintro ⟨⟨hpos, -⟩, hsum⟩
    split_ifs at hpos hsum with hzero <;> omega
  · rintro ⟨htwo, hmax⟩
    have hzero : ¬ msg.head.contentLen.toNat = 0 := by omega
    rw [if_neg hzero]
    exact ⟨⟨by omega, by decide, by decide, by simp⟩, by omega⟩

theorem content_replyHead (msg : MyMsg) : (replyHead msg).content = [] := rfl

/-- **The default reply.** It goes out, on the fd of the request, for the lengths in
`Echoes`, with the next type, no ids, and the echo. -/
theorem serverDefaultMsgHandler_sends (env : HandlerEnv) (fd : ℕ) (msg : MyMsg) :
    (env.newMsgOk = true ∧ Echoes msg ∧ ∃ reply,
      (serverDefaultMsgHandler env fd msg).sends = [(fd, reply)] ∧
      reply.head.type = msg.head.type + 1 ∧ reply.head.sessionId = 0 ∧
      reply.head.clientId = 0 ∧
      reply.content = msg.content.dropLast ++ ascii [':'] ++ myServerCommReply) ∨
    (¬ (env.newMsgOk = true ∧ Echoes msg) ∧
      (serverDefaultMsgHandler env fd msg).sends = []) := by
  unfold serverDefaultMsgHandler
  by_cases hok : env.newMsgOk = true
  · rw [if_pos hok]
    have hiff := fillAll_echo_iff msg
    cases hfill : fillAll (replyHead msg) (echoParts msg) with
    | none =>
        rw [hfill] at hiff
        right
        exact ⟨fun h => absurd (hiff.mpr h.2) (by simp), rfl⟩
    | some reply =>
        rw [hfill] at hiff
        have hechoes := hiff.mp rfl
        have hlen : (msg.head.contentLen - 1).toUInt64.toNat = msg.head.contentLen.toNat - 1 := by
          rw [toNat_echoLen, if_neg (by have := hechoes.1; omega)]
        have hmax := hechoes.2
        have hcap : myMsgContentMaxLen = 1048576 := rfl
        have hsrc : ∀ part ∈ echoParts msg, part.2.toNat ≤ part.1.length := by
          simp only [echoParts, List.forall_mem_cons, hlen, Vector.length_toList]
          exact ⟨by omega, by decide, by decide, by simp⟩
        obtain ⟨hhead, hcontent⟩ := fillAll_eq_some hsrc (Nat.zero_le _) hfill
        left
        refine ⟨hok, hechoes, reply, rfl, by rw [hhead]; rfl, by rw [hhead]; rfl,
          by rw [hhead]; rfl, ?_⟩
        have hdrop : msg.content.dropLast =
            msg.cont.varLenCont.toList.take (msg.head.contentLen.toNat - 1) := by
          rw [MyMsg.content, List.dropLast_take]
          rw [Vector.length_toList]
          omega
        rw [hcontent, hdrop, content_replyHead]
        simp only [echoParts, List.map_cons, List.map_nil, hlen, List.nil_append,
          List.flatten_cons, List.flatten_nil, List.append_nil, List.append_assoc]
        rfl
  · right
    rw [if_neg hok]
    exact ⟨fun h => hok h.1, rfl⟩

/-! ## The pool task -/

theorem readPipe_nil (msg : MyMsg) : readPipe msg [] = msg := by
  rw [readPipe]
  rfl

/-- One round of the loop. -/
theorem readPipe_line (msg : MyMsg) {output buffer rest : List UInt8}
    (h : fgets myBuff1024 output = some (buffer, rest)) :
    readPipe msg output =
      if (fillMsgCont msg buffer (.ofNat (cStr buffer).length)).1 ≠ mySuccess then
        (fillMsgCont msg buffer (.ofNat (cStr buffer).length)).2
      else readPipe (fillMsgCont msg buffer (.ofNat (cStr buffer).length)).2 rest := by
  rw [readPipe]
  split
  · rename_i hnone
    simp [hnone] at h
  · rename_i line later hsome
    rw [hsome, Option.some.injEq, Prod.mk.injEq] at h
    obtain ⟨rfl, rfl⟩ := h
    rfl

theorem reads_line {output buffer rest : List UInt8}
    (h : fgets myBuff1024 output = some (buffer, rest)) :
    Reads myBuff1024 output buffer rest :=
  reads_of_fgets (by norm_num) h

theorem toNat_strlen {output buffer rest : List UInt8}
    (h : Reads myBuff1024 output buffer rest) :
    (UInt64.ofNat (cStr buffer).length).toNat = (cStr buffer).length := by
  have hle : (cStr buffer).length ≤ buffer.length := (List.takeWhile_prefix _).length_le
  have hlt := h.length_lt
  have hbuff : myBuff1024 = 1024 := rfl
  rw [UInt64.toNat_ofNat']
  omega

/-- The content only grows, and the rest of the head stays. -/
structure Grows (msg msg' : MyMsg) : Prop where
  head : msg'.head = { msg.head with contentLen := msg'.head.contentLen }
  le : msg.head.contentLen.toNat ≤ msg'.head.contentLen.toNat
  bound : msg'.head.contentLen.toNat ≤ myMsgContentMaxLen

theorem Grows.refl {msg : MyMsg} (h : msg.head.contentLen.toNat ≤ myMsgContentMaxLen) :
    Grows msg msg := ⟨rfl, le_rfl, h⟩

theorem Grows.trans {msg msg' msg'' : MyMsg} (h : Grows msg msg') (h' : Grows msg' msg'') :
    Grows msg msg'' :=
  ⟨by rw [h'.head, h.head], h.le.trans h'.le, h'.bound⟩

theorem grows_fillMsgCont {msg : MyMsg} (fillCont : List UInt8) (len : UInt64)
    (h : msg.head.contentLen.toNat ≤ myMsgContentMaxLen) :
    Grows msg (fillMsgCont msg fillCont len).2 := by
  rcases fillMsgCont_eq fillCont len h with ⟨hfits, -⟩ | ⟨-, -, hsame⟩
  · obtain ⟨-, hhead, hlen, -⟩ := fillMsgCont_of_fits fillCont hfits
    have hlt := hfits.2
    exact ⟨hhead, by omega, by omega⟩
  · rw [hsame]
    exact .refl h

theorem grows_fillAll {msg msg' : MyMsg} {parts : List (List UInt8 × UInt64)}
    (h : msg.head.contentLen.toNat ≤ myMsgContentMaxLen)
    (hfill : fillAll msg parts = some msg') : Grows msg msg' := by
  induction parts generalizing msg with
  | nil =>
      rw [fillAll, Option.some.injEq] at hfill
      rw [← hfill]
      exact .refl h
  | cons part parts ih =>
      have hgrows := grows_fillMsgCont part.1 part.2 h
      simp only [fillAll] at hfill
      split_ifs at hfill
      exact hgrows.trans (ih hgrows.bound hfill)

theorem grows_readPipe {msg : MyMsg} (h : msg.head.contentLen.toNat ≤ myMsgContentMaxLen)
    (output : List UInt8) : Grows msg (readPipe msg output) := by
  induction hn : output.length using Nat.strong_induction_on generalizing msg output with
  | _ n ih =>
      cases hline : fgets myBuff1024 output with
      | none =>
          rw [fgets_eq_none_iff.mp hline, readPipe_nil]
          exact .refl h
      | some line =>
          obtain ⟨buffer, rest⟩ := line
          have hgrows := grows_fillMsgCont buffer (.ofNat (cStr buffer).length) h
          rw [readPipe_line msg hline]
          split_ifs
          · exact hgrows
          · have hlt := (reads_line hline).length_rest_lt
            exact hgrows.trans (ih rest.length (by omega) hgrows.bound rest rfl)

/-- A line of text is appended if there is room for it. -/
theorem fillMsgCont_line (msg : MyMsg) {output buffer rest : List UInt8}
    (h : Reads myBuff1024 output buffer rest) (hnul : 0 ∉ output)
    (hroom : msg.head.contentLen.toNat + buffer.length < myMsgContentMaxLen) :
    (fillMsgCont msg buffer (.ofNat (cStr buffer).length)).1 = mySuccess ∧
      (fillMsgCont msg buffer (.ofNat (cStr buffer).length)).2.head.contentLen.toNat =
        msg.head.contentLen.toNat + buffer.length ∧
      (fillMsgCont msg buffer (.ofNat (cStr buffer).length)).2.content =
        msg.content ++ buffer := by
  have hbuffer := h.cStr_line hnul
  have hlen := toNat_strlen h
  rw [hbuffer] at hlen ⊢
  have hfits : Fits msg (.ofNat buffer.length) := by
    refine ⟨?_, by omega⟩
    intro hzero
    have hpos := List.length_pos_iff.mpr h.ne_nil
    rw [hzero] at hlen
    simp at hlen
    omega
  obtain ⟨hret, -, hsum, hcontent⟩ := fillMsgCont_of_fits buffer hfits
  rw [hlen] at hsum hcontent
  refine ⟨hret, hsum, ?_⟩
  rw [hcontent le_rfl, List.take_length]

/-- **The whole output.** Text that fits the message is in it when the loop ends. -/
theorem readPipe_content (msg : MyMsg) {output : List UInt8} (hnul : 0 ∉ output)
    (hroom : msg.head.contentLen.toNat + output.length < myMsgContentMaxLen) :
    (readPipe msg output).content = msg.content ++ output := by
  induction hn : output.length using Nat.strong_induction_on generalizing msg output with
  | _ n ih =>
      cases hline : fgets myBuff1024 output with
      | none => rw [fgets_eq_none_iff.mp hline, readPipe_nil, List.append_nil]
      | some line =>
          obtain ⟨buffer, rest⟩ := line
          have hreads := reads_line hline
          have hlen : buffer.length + rest.length = output.length := by
            rw [hreads.append, List.length_append]
          have hnul' := hreads.not_mem_rest hnul
          have hlt := hreads.length_rest_lt
          obtain ⟨hret, hsum, hcontent⟩ := fillMsgCont_line msg hreads hnul (by omega)
          rw [readPipe_line msg hline, if_neg (not_not_intro hret),
            ih rest.length (by omega) _ hnul' (by omega) rfl, hcontent, List.append_assoc,
            ← hreads.append]

/-- Some text, however long, leaves some content. -/
theorem readPipe_pos {msg : MyMsg} {output : List UInt8} (hnul : 0 ∉ output)
    (hne : output ≠ []) (hempty : msg.head.contentLen = 0) :
    0 < (readPipe msg output).head.contentLen.toNat := by
  have hzero : msg.head.contentLen.toNat = 0 := by rw [hempty]; rfl
  cases hline : fgets myBuff1024 output with
  | none => exact absurd (fgets_eq_none_iff.mp hline) hne
  | some line =>
      obtain ⟨buffer, rest⟩ := line
      have hreads := reads_line hline
      have hpos := List.length_pos_iff.mpr hreads.ne_nil
      have hlt := hreads.length_lt
      have hbuff : myBuff1024 = 1024 := rfl
      have hcap : myMsgContentMaxLen = 1048576 := rfl
      obtain ⟨hret, hsum, -⟩ := fillMsgCont_line msg hreads hnul (by omega)
      rw [readPipe_line msg hline, if_neg (not_not_intro hret)]
      have hbound : (fillMsgCont msg buffer (.ofNat (cStr buffer).length)).2.head.contentLen.toNat ≤
          myMsgContentMaxLen := by
        omega
      have hle := (grows_readPipe hbound rest).le
      omega

/-- The text for a command without output can be made if the command is not empty. -/
theorem fillAll_failed_iff {msg : MyMsg} (hempty : msg.head.contentLen = 0) (cmd : List UInt8) :
    (fillAll msg (failedParts (snprintfStr myBuff1024 cmd))).isSome = true ↔ cmd ≠ [] := by
  have hzero : msg.head.contentLen.toNat = 0 := by rw [hempty]; rfl
  have hlen : (snprintfStr myBuff1024 cmd).length ≤ 1023 := by simp [snprintfStr]
  have hnat : (UInt64.ofNat (snprintfStr myBuff1024 cmd).length).toNat =
      (snprintfStr myBuff1024 cmd).length := by
    rw [UInt64.toNat_ofNat']
    omega
  have hne : UInt64.ofNat (snprintfStr myBuff1024 cmd).length ≠ 0 ↔ cmd ≠ [] := by
    rw [← UInt64.toNat_inj.ne, hnat, ← List.length_pos_iff]
    simp [snprintfStr, List.length_pos_iff]
  have hten : (10 : UInt64).toNat = 10 := rfl
  have height : (8 : UInt64).toNat = 8 := rfl
  have hcap : myMsgContentMaxLen = 1048576 := rfl
  rw [fillAll_isSome_iff _ (by simp [failedParts]) (by omega), hzero]
  simp only [failedParts, List.forall_mem_cons, List.map_cons, List.map_nil, List.sum_cons,
    List.sum_nil, hne, hnat, hten, height, hcap]
  constructor
  · rintro ⟨⟨-, hcmd, -⟩, -⟩
    exact hcmd
  · intro hcmd
    exact ⟨⟨by decide, hcmd, by decide, by simp⟩, by omega⟩

/-- The reply's head: the request's, but for type and length. -/
structure RepliesTo (msg reply : MyMsg) : Prop where
  type : reply.head.type = myMsgTypeExecCmdReply
  sessionId : reply.head.sessionId = msg.head.sessionId
  clientId : reply.head.clientId = msg.head.clientId

theorem RepliesTo.of_grows {msg reply : MyMsg} (h : Grows (execCmdReply msg) reply) :
    RepliesTo msg reply :=
  ⟨by rw [h.head]; rfl, by rw [h.head]; rfl, by rw [h.head]; rfl⟩

theorem contentLen_execCmdReply (msg : MyMsg) : (execCmdReply msg).head.contentLen = 0 := rfl

/-- Whatever the command prints, a reply goes to the fd of the request and keeps its ids. -/
theorem serverMsgExecCmdFn_repliesTo (env : HandlerEnv) (arg : ServerExecCmdArg) :
    ∀ send ∈ (serverMsgExecCmdFn env arg).sends,
      send.1 = arg.fd ∧ RepliesTo arg.msg send.2 := by
  intro send hsend
  have hgrows : ∀ output, Grows (execCmdReply arg.msg)
      (readPipe (execCmdReply arg.msg) output) := by
    intro output
    refine grows_readPipe ?_ _
    rw [contentLen_execCmdReply]
    exact Nat.zero_le _
  unfold serverMsgExecCmdFn at hsend
  cases hpopen : env.popen (command arg.msg) with
  | none => simp [hpopen] at hsend
  | some output =>
      simp only [hpopen] at hsend
      split_ifs at hsend with hempty
      · cases hfill : fillAll (readPipe (execCmdReply arg.msg) output)
            (failedParts (snprintfStr myBuff1024 (command arg.msg))) with
        | none => simp [hfill] at hsend
        | some reply =>
            simp only [hfill, List.mem_singleton] at hsend
            subst hsend
            exact ⟨rfl, .of_grows ((hgrows output).trans (grows_fillAll (hgrows output).bound hfill))⟩
      · rw [List.mem_singleton] at hsend
        subst hsend
        exact ⟨rfl, .of_grows (hgrows output)⟩

/-- When the task answers: the command prints something, or has a name to complain of. -/
def Speaks (msg : MyMsg) (output : List UInt8) : Prop := output ≠ [] ∨ command msg ≠ []

theorem serverMsgExecCmdFn_sends_iff (env : HandlerEnv) (arg : ServerExecCmdArg)
    {output : List UInt8} (hpopen : env.popen (command arg.msg) = some output)
    (hnul : 0 ∉ output) :
    (∃ reply, (serverMsgExecCmdFn env arg).sends = [(arg.fd, reply)]) ↔
      Speaks arg.msg output := by
  unfold serverMsgExecCmdFn
  simp only [hpopen]
  by_cases hout : output = []
  · subst hout
    rw [readPipe_nil, if_pos (contentLen_execCmdReply arg.msg)]
    have hiff := fillAll_failed_iff (contentLen_execCmdReply arg.msg) (command arg.msg)
    have hspeaks : Speaks arg.msg [] ↔ command arg.msg ≠ [] := by simp [Speaks]
    rw [hspeaks, ← hiff]
    cases fillAll (execCmdReply arg.msg)
        (failedParts (snprintfStr myBuff1024 (command arg.msg))) with
    | none => simp
    | some reply => simp
  · have hpos := readPipe_pos hnul hout (contentLen_execCmdReply arg.msg)
    have hne : ¬ (readPipe (execCmdReply arg.msg) output).head.contentLen = 0 := by
      intro hzero
      rw [hzero] at hpos
      simp at hpos
    rw [if_neg hne]
    exact iff_of_true ⟨_, rfl⟩ (Or.inl hout)

/-- **The task's reply.** Output that is text and fits a message is answered with itself. -/
theorem serverMsgExecCmdFn_reply (env : HandlerEnv) (arg : ServerExecCmdArg)
    {output : List UInt8} (hpopen : env.popen (command arg.msg) = some output)
    (hnul : 0 ∉ output) (hne : output ≠ []) (hfits : output.length < myMsgContentMaxLen) :
    ∃ reply, (serverMsgExecCmdFn env arg).sends = [(arg.fd, reply)] ∧
      RepliesTo arg.msg reply ∧ reply.content = output := by
  obtain ⟨reply, hsends⟩ := (serverMsgExecCmdFn_sends_iff env arg hpopen hnul).mpr (Or.inl hne)
  have hto := serverMsgExecCmdFn_repliesTo env arg (arg.fd, reply) (by rw [hsends]; simp)
  refine ⟨reply, hsends, hto.2, ?_⟩
  have hpos := readPipe_pos hnul hne (contentLen_execCmdReply arg.msg)
  have hnot : ¬ (readPipe (execCmdReply arg.msg) output).head.contentLen = 0 := by
    intro hzero
    rw [hzero] at hpos
    simp at hpos
  unfold serverMsgExecCmdFn at hsends
  simp only [hpopen, if_neg hnot, List.cons.injEq, Prod.mk.injEq, true_and, and_true] at hsends
  have hcontent := readPipe_content (execCmdReply arg.msg) hnul
    (by rw [contentLen_execCmdReply]; simpa using hfits)
  rw [← hsends, hcontent]
  rfl

end MyWorkEnv
