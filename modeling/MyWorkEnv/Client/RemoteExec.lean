import MyWorkEnv.Client.ClientMsgHandler
import MyWorkEnv.Lib.Relay
import MyWorkEnv.Lib.Snprintf
import MyWorkEnv.Server.Answers
import MyWorkEnv.Server.CommandOutput
import MyWorkEnv.Server.EdgeTriggered

/-!
# Commands that run elsewhere

Clients and their server together: each client reads lines and sends what they
ask for, the server's loop queues what it receives, its workers run the
commands and send the replies, and each client's second thread prints what
comes back. All of them go on at the same time, so there may be any number of
requests under way. The connections are bytes: `SendMsg` puts a frame at the
end, `RecvMsg` takes one from the front, whatever the kernel grants at a time.

No command is answered twice, or on another client's screen
(`remote_exec_once`). That all are takes clients which the loop keeps up with:
a report that finds two messages leaves one behind (`second_message_unread`).

A call of `SendMsg` is one step. Two workers that answer one client at once
would mix their frames (`twoSends_mix`); here one waits for the other.
Statistics, what is logged, the prompt's help page and failing calls are left
out.
-/

namespace MyWorkEnv

open FixedWidth Transfer CString Snprintf Transition

/-! ## The parties -/

def recvMsgText : List UInt8 := str "<<<< Recv msg: \n"

/-- What `ClientHandleMsg` prints, with `none` for a `NULL` pointer. -/
def clientHandleMsg : Option MyMsg → List UInt8
  | none => []
  | some msg => recvMsgText ++ cStr msg.cont.varLenCont.toList ++ [newline]

/-- A client: what will be typed, the next session's number, the bytes on its connection in
either direction, whether the server's `epoll_wait` has an edge to report, and what has been
printed of replies. -/
structure ExecClient where
  stdin : List UInt8
  sessionId : UInt32
  up : List UInt8
  edge : Bool
  down : List UInt8
  stdout : List UInt8

/-- The clients by the server's fd for them, the reports that the server's loop has still to look
at, and the tasks of the pool, those that a worker has in hand among them. -/
structure RemoteExec where
  client : ℕ → ExecClient
  events : List ℕ
  tasks : List ServerExecCmdArg

/-- The byte orders of the hosts, the bytes behind a message in memory, and what the server's
handlers depend on. -/
structure ExecHosts where
  client : ℕ → Endian
  server : Endian
  past : ℕ → UInt8
  env : HandlerEnv

/-- A round of `ClientProcMainLoop`, the server's `epoll_wait` and what it does with a report,
a worker's task, and a call of `_ClientRecvMsg`, with the clock and what the kernel answers. -/
inductive ExecAction where
  | mainLoop (fd : ℕ) (tv : Timeval) (as : List WriteAnswer)
  | epollWait (fds : List ℕ)
  | recvRequest (as : List ReadAnswer) (tv : Timeval) (replies : List WriteAnswer)
  | execCmd (i : ℕ) (tv : Timeval) (as : List WriteAnswer)
  | recvReply (fd : ℕ) (as : List ReadAnswer)

namespace RemoteExec

def start (lines : ℕ → List (List UInt8)) : RemoteExec where
  client fd := ⟨(lines fd).flatMap (· ++ [newline]), 0, [], false, [], []⟩
  events := []
  tasks := []

def setClient (s : RemoteExec) (fd : ℕ) (c : ExecClient) : RemoteExec :=
  { s with client := Function.update s.client fd c }

/-- The server's calls of `SendMsg`, if they return. -/
def sendAll (h : ExecHosts) (tv : Timeval) :
    List (ℕ × MyMsg) → List WriteAnswer → RemoteExec → Option RemoteExec
  | [], _, s => some s
  | (fd, msg) :: sends, as, s =>
      match sendMsg h.server h.past .fresh msg tv as with
      | none => none
      | some (call, as') =>
          let c := s.client fd
          sendAll h tv sends as' (s.setClient fd { c with down := c.down ++ call.chunks.flatten })

def mainLoop (h : ExecHosts) (s : RemoteExec) (fd : ℕ) (tv : Timeval) (as : List WriteAnswer) :
    Option RemoteExec :=
  let c := s.client fd
  match fgets myMsgContentMaxLen c.stdin, clientRound true mySuccess c.sessionId c.stdin with
  | some (_, rest), .usage => some (s.setClient fd { c with stdin := rest })
  | some (_, rest), .handled handled =>
      match sendMsgs (h.client fd) h.past .fresh (handled.sends.map fun msg => (msg, tv)) as with
      | none => none
      | some calls =>
          some (s.setClient fd { c with
            stdin := rest
            sessionId := handled.sessionId
            up := c.up ++ wireOf calls
            edge := c.edge || !(wireOf calls).isEmpty })
  | _, _ => none

/-- Fds are edge triggered: the edge is used up by the report. -/
def epollWait (s : RemoteExec) (fds : List ℕ) : Option RemoteExec :=
  if s.events = [] ∧ fds ≠ [] ∧ fds.Nodup ∧ fds.length ≤ myServerMaxEvents ∧
      ∀ fd ∈ fds, (s.client fd).edge = true ∧ (s.client fd).up ≠ [] then
    some { s with
      client := fun fd => { s.client fd with edge := (s.client fd).edge && !fds.contains fd }
      events := fds }
  else none

/-- One `RecvMsg` for each report. -/
def recvRequest (h : ExecHosts) (s : RemoteExec) (as : List ReadAnswer) (tv : Timeval)
    (replies : List WriteAnswer) : Option RemoteExec :=
  match s.events with
  | [] => none
  | fd :: rest =>
      let c := s.client fd
      match recvMsg h.server .fresh (some .new) as ⟨c.up, .closed⟩ with
      | none => none
      | some (call, _, inb) =>
          if call.ret ≠ mySuccess then none
          else
            let handled := serverHandleMsg h.env fd call.retMsg
            sendAll h tv handled.sends replies
              { s.setClient fd { c with up := inb.bytes } with
                events := rest
                tasks := s.tasks ++ handled.task.toList }

def execCmd (h : ExecHosts) (s : RemoteExec) (i : ℕ) (tv : Timeval) (as : List WriteAnswer) :
    Option RemoteExec :=
  match s.tasks[i]? with
  | none => none
  | some arg =>
      sendAll h tv (serverMsgExecCmdFn h.env arg).sends as { s with tasks := s.tasks.eraseIdx i }

/-- The client reads when there is something to read. -/
def recvReply (h : ExecHosts) (s : RemoteExec) (fd : ℕ) (as : List ReadAnswer) :
    Option RemoteExec :=
  let c := s.client fd
  if c.down = [] then none
  else
    match recvMsg (h.client fd) .fresh (some .new) as ⟨c.down, .closed⟩ with
    | none => none
    | some (call, _, inb) =>
        if call.ret ≠ mySuccess then none
        else
          some (s.setClient fd { c with
            down := inb.bytes
            stdout := c.stdout ++ clientHandleMsg call.retMsg })

def step (h : ExecHosts) (s : RemoteExec) : ExecAction → Option RemoteExec
  | .mainLoop fd tv as => s.mainLoop h fd tv as
  | .epollWait fds => s.epollWait fds
  | .recvRequest as tv replies => s.recvRequest h as tv replies
  | .execCmd i tv as => s.execCmd h i tv as
  | .recvReply fd as => s.recvReply h fd as

end RemoteExec

/-- The kernel's answers are no errors. -/
def ExecAction.Benign : ExecAction → Prop
  | .mainLoop _ _ as | .execCmd _ _ as => WriteLoops.Benign isRetry as
  | .epollWait _ => True
  | .recvRequest as _ replies => ReadLoops.Benign isRetry as ∧ WriteLoops.Benign isRetry replies
  | .recvReply _ as => ReadLoops.Benign isRetry as

/-- Each client types its lines, over connections that do not break. -/
def remoteSystem (h : ExecHosts) (lines : ℕ → List (List UInt8)) :
    System RemoteExec ExecAction where
  init s := s = .start lines
  enabled s a := (s.step h a).isSome = true ∧ a.Benign
  next s a := (s.step h a).getD s

/-! ## What is asked -/

/-- A line that the client reads whole, and does not take for its end. -/
structure ExecLine (line : List UInt8) : Prop where
  text : 0 ∉ line ∧ newline ∉ line
  short : line.length + 1 < myMsgContentMaxLen
  stays : clientCmdIsExit line = false

/-- The command a line asks for, if it is one of the table. -/
def commandOf (line : List UInt8) : Option (List UInt8) :=
  (clientCmdSupported (line ++ [0]) myBuff1024).map Prod.snd

/-- What a line can ask for. -/
structure IsCommand (cmd : List UInt8) : Prop where
  ne_nil : cmd ≠ []
  text : 0 ∉ cmd
  short : cmd.length ≤ 127

variable {line cmd : List UInt8}

/-- Only `ExecCmd` is in the table with a type of its own. -/
theorem clientCmdSupported_eq_some {msgType : ℤ}
    (h : clientCmdSupported line myBuff1024 = some (msgType, cmd)) :
    msgType = 10000 ∧ IsCommand cmd := by
  unfold clientCmdSupported at h
  generalize harg : clientGetArgFromCmd line myBuff32 myBuff128 = args at h
  obtain ⟨first, second, argc⟩ := args
  simp only at h
  cases hfind : sgClientMsgHandle.find? fun e => strcasecmpEq first e.opt && argc == e.argc &&
      e.msgType != myMsgTypeStartUnspec with
  | none => simp [hfind] at h
  | some e =>
      simp only [hfind] at h
      split_ifs at h with hlen
      obtain ⟨rfl, rfl⟩ : e.msgType = msgType ∧ cStr second = cmd := by simpa using h
      have hmatch := List.find?_some hfind
      have hmem := List.mem_of_find?_eq_some hfind
      simp only [Bool.and_eq_true, beq_iff_eq, bne_iff_ne] at hmatch
      obtain ⟨⟨-, hargc⟩, htype⟩ := hmatch
      have hexec : e = ⟨execCmdOpt, 2, 10000⟩ := by
        simp only [sgClientMsgHandle, List.mem_cons, List.not_mem_nil, or_false] at hmem
        rcases hmem with rfl | rfl
        · exact absurd rfl htype
        · rfl
      subst hexec
      unfold clientGetArgFromCmd at harg
      simp only [copyWhile_true, Prod.mk.injEq] at harg
      obtain ⟨-, rfl, rfl⟩ := harg
      refine ⟨rfl, ?_, zero_notMem_cStr _, ?_⟩
      · intro hnil
        rw [hnil] at hargc
        exact absurd hargc (by decide)
      · refine (List.takeWhile_prefix _).length_le.trans ?_
        rw [List.length_take]
        exact min_le_left _ _

/-- Help is no command. -/
example : commandOf helpText = none ∧ commandOf (typedLine [32] lsArg) = some lsArg := by decide

theorem isCommand_of_line (h : commandOf line = some cmd) : IsCommand cmd := by
  obtain ⟨found, hfound, rfl⟩ := Option.map_eq_some_iff.mp h
  exact (clientCmdSupported_eq_some hfound).2

/-- A line and its newline are read, and what follows stays. -/
theorem fgets_execLine (h : ExecLine line) (more : List UInt8) :
    fgets myMsgContentMaxLen (line ++ newline :: more) = some (line ++ [newline], more) := by
  have hroom : line.length < myMsgContentMaxLen - 1 := by
    have hshort := h.short
    omega
  have hsplit : line ++ newline :: more = (line ++ [newline]) ++ more := by simp
  unfold fgets
  rw [if_neg (by simp), fgetsLine_line h.text.2 hroom]
  simp only
  rw [hsplit, List.drop_left]

theorem clientRound_execLine (h : ExecLine line) (sessionId : UInt32) (more : List UInt8) :
    clientRound true mySuccess sessionId (line ++ newline :: more) =
      match commandOf line with
      | none => .usage
      | some cmd => .handled ⟨mySuccess, [typedMsg sessionId cmd], sessionId + 1⟩ := by
  have hstring : cStr (line ++ [newline]) = line ++ [newline] := by
    refine cStr_of_not_mem ?_
    rw [List.mem_append, not_or]
    exact ⟨h.text.1, by decide⟩
  have hin : ¬ newline ∉ line ++ [newline] := by simp
  unfold clientRound commandOf
  rw [fgets_execLine h]
  simp only [hstring, if_neg hin, takeWhile_line h.text.2, h.stays, Bool.false_eq_true, if_false]
  cases hsupported : clientCmdSupported (line ++ [0]) myBuff1024 with
  | none => rfl
  | some found =>
      obtain ⟨msgType, cmd⟩ := found
      obtain ⟨rfl, hcmd⟩ := clientCmdSupported_eq_some hsupported
      have hwhole : cmd.take 127 = cmd := List.take_of_length_le hcmd.short
      have hhandled := clientHandleCmd_typed mySuccess sessionId hcmd.ne_nil
      rw [hwhole] at hhandled
      simp only [Option.map_some, hhandled]

/-! ## What is answered -/

/-- The chunks from the front, as long as they leave a byte of the room free. -/
def fitting : ℕ → List (List UInt8) → List UInt8
  | _, [] => []
  | room, chunk :: chunks =>
      if chunk.length < room then chunk ++ fitting (room - chunk.length) chunks else []

theorem fitting_startsWith (room : ℕ) (chunks : List (List UInt8)) :
    fitting room chunks <+: chunks.flatten := by
  induction chunks generalizing room with
  | nil => exact List.nil_prefix
  | cons chunk chunks ih =>
      rw [fitting, List.flatten_cons]
      split_ifs
      · exact List.prefix_append_right_inj chunk |>.mpr (ih _)
      · exact List.nil_prefix

/-- All of them, if there is room. -/
theorem fitting_of_lt {room : ℕ} {chunks : List (List UInt8)} (h : chunks.flatten.length < room) :
    fitting room chunks = chunks.flatten := by
  induction chunks generalizing room with
  | nil => rfl
  | cons chunk chunks ih =>
      rw [List.flatten_cons, List.length_append] at h
      rw [fitting, if_pos (by omega), ih (by omega), List.flatten_cons]

/-- The loop over the pipe takes what fits. -/
theorem readPipe_fitting {msg : MyMsg} {output : List UInt8} (hnul : 0 ∉ output)
    (hlen : msg.head.contentLen.toNat < myMsgContentMaxLen) :
    (readPipe msg output).content = msg.content ++
      fitting (myMsgContentMaxLen - msg.head.contentLen.toNat) (outputChunks output) := by
  induction hn : output.length using Nat.strong_induction_on generalizing msg output with
  | _ n ih =>
      cases hline : fgets myBuff1024 output with
      | none =>
          rw [fgets_eq_none_iff.mp hline, readPipe_nil, outputChunks_nil, fitting, List.append_nil]
      | some piece =>
          obtain ⟨buffer, rest⟩ := piece
          have hreads := reads_line hline
          have hlt := hreads.length_rest_lt
          rw [readPipe_line msg hline, outputChunks_line hline, fitting]
          by_cases hroom : msg.head.contentLen.toNat + buffer.length < myMsgContentMaxLen
          · obtain ⟨hret, hsum, hcontent⟩ := fillMsgCont_line msg hreads hnul hroom
            rw [if_neg (not_not_intro hret), if_pos (by omega),
              ih rest.length (by omega) (hreads.not_mem_rest hnul) (by omega) rfl, hcontent, hsum,
              List.append_assoc, Nat.sub_add_eq]
          · obtain ⟨hret, hsame⟩ :=
              fillMsgCont_noRoom hreads hnul hlen.le (Nat.le_of_not_lt hroom)
            rw [if_pos hret, hsame, if_neg (by omega), List.append_nil]

/-- What a client is told of its command. -/
def answerText (env : HandlerEnv) (cmd : List UInt8) : List UInt8 :=
  match env.popen cmd with
  | none => []
  | some output =>
      if output = [] then execCmdText ++ cmd ++ failedText
      else fitting myMsgContentMaxLen (outputChunks output)

/-- What it prints. -/
def screen (env : HandlerEnv) (cmd : List UInt8) : List UInt8 :=
  recvMsgText ++ answerText env cmd ++ [newline]

/-- Output that leaves a byte of the message free is shown as it is. -/
theorem screen_of_fits {env : HandlerEnv} {output : List UInt8}
    (hpopen : env.popen cmd = some output) (hne : output ≠ [])
    (hfits : output.length < myMsgContentMaxLen) :
    screen env cmd = recvMsgText ++ output ++ [newline] := by
  have hall : fitting myMsgContentMaxLen (outputChunks output) = output := by
    rw [fitting_of_lt] <;> rw [flatten_outputChunks]
    exact hfits
  simp only [screen, answerText, hpopen, if_neg hne, hall]

/-- A reply that carries this text. -/
structure CarriesText (text : List UInt8) (reply : MyMsg) : Prop where
  content : reply.content = text
  short : reply.head.contentLen.toNat < myMsgContentMaxLen
  noNul : 0 ∉ text

/-- **The reply to a command** is sent, and carries what is told of it. -/
theorem serverMsgExecCmdFn_carries {env : HandlerEnv} (henv : env.Succeeds)
    (arg : ServerExecCmdArg) (hcmd : IsCommand (command arg.msg)) :
    ∃ reply, (serverMsgExecCmdFn env arg).sends = [(arg.fd, reply)] ∧
      CarriesText (answerText env (command arg.msg)) reply := by
  obtain ⟨output, hpopen, hnul⟩ := henv.popen (command arg.msg)
  have hcap : myMsgContentMaxLen = 1048576 := rfl
  have hempty : (execCmdReply arg.msg).head.contentLen.toNat = 0 := rfl
  have hnil : (execCmdReply arg.msg).content = [] := rfl
  have hroom : (execCmdReply arg.msg).head.contentLen.toNat < myMsgContentMaxLen := by omega
  simp only [serverMsgExecCmdFn, answerText, hpopen]
  by_cases hout : output = []
  · -- no output: the command is named
    subst hout
    have hwhole : snprintfStr myBuff1024 (command arg.msg) = command arg.msg := by
      have hbuff : myBuff1024 = 1024 := rfl
      have hshort := hcmd.short
      exact List.take_of_length_le (by omega)
    have hnat : (UInt64.ofNat (command arg.msg).length).toNat = (command arg.msg).length := by
      have hshort := hcmd.short
      rw [UInt64.toNat_ofNat']
      omega
    have hmade := (fillAll_failed_iff (contentLen_execCmdReply arg.msg) (command arg.msg)).mpr
      hcmd.ne_nil
    rw [hwhole] at hmade
    rw [readPipe_nil, if_pos (contentLen_execCmdReply arg.msg), if_pos rfl, hwhole]
    obtain ⟨reply, hreply⟩ := Option.isSome_iff_exists.mp hmade
    have hparts : ∀ part ∈ failedParts (command arg.msg), part.2.toNat ≤ part.1.length := by
      simp only [failedParts, List.forall_mem_cons, hnat]
      exact ⟨by decide, le_rfl, by decide, by simp⟩
    obtain ⟨-, hcontent⟩ := fillAll_eq_some hparts hroom.le hreply
    have htext : reply.content = execCmdText ++ command arg.msg ++ failedText := by
      have hten : execCmdText.take (10 : UInt64).toNat = execCmdText := by decide
      have height : failedText.take (8 : UInt64).toNat = failedText := by decide
      rw [hcontent, hnil]
      simp only [failedParts, List.map_cons, List.map_nil, hnat, hten, height, List.take_length,
        List.flatten_cons, List.flatten_nil, List.append_nil, List.nil_append, List.append_assoc]
    have hbound := (grows_fillAll hroom.le hreply).bound
    have hlen := MyMsg.length_content hbound
    simp only [hreply]
    refine ⟨reply, rfl, htext, ?_, ?_⟩
    · have hshort := hcmd.short
      rw [← hlen, htext]
      simp only [List.length_append, execCmdText, failedText, ascii, List.length_map,
        List.length_cons, List.length_nil]
      omega
    · simp only [List.mem_append, not_or]
      exact ⟨⟨by decide, hcmd.text⟩, by decide⟩
  · have hpos := readPipe_pos hnul hout (contentLen_execCmdReply arg.msg)
    have hnot : ¬ (readPipe (execCmdReply arg.msg) output).head.contentLen = 0 := by
      intro hzero
      rw [hzero] at hpos
      exact absurd hpos (Nat.lt_irrefl 0)
    obtain ⟨-, -, hbound, -⟩ := readPipe_chunks hnul hroom
    have hstarts := fitting_startsWith myMsgContentMaxLen (outputChunks output)
    rw [flatten_outputChunks] at hstarts
    rw [if_neg hnot, if_neg hout]
    refine ⟨_, rfl, ?_, hbound, fun hmem => hnul (hstarts.subset hmem)⟩
    rw [readPipe_fitting hnul hroom, hnil, hempty, List.nil_append, Nat.sub_zero]

/-! ## Messages on a connection that does not break -/

/-- A message and the clock when it is sent, as it asks for a command. -/
def Asks (cmd : List UInt8) (call : MyMsg × Timeval) : Prop :=
  IsCommand cmd ∧ ∃ sessionId, call.1 = typedMsg sessionId cmd

/-- A task that runs the command of a client. -/
def Waits (request : ℕ × List UInt8) (arg : ServerExecCmdArg) : Prop :=
  arg.fd = request.1 ∧ command arg.msg = request.2 ∧ IsCommand request.2

def Replies (env : HandlerEnv) (cmd : List UInt8) (call : MyMsg × Timeval) : Prop :=
  CarriesText (answerText env cmd) call.1

theorem Asks.content {call : MyMsg × Timeval} (h : Asks cmd call) :
    call.1.head.type = myMsgTypeExecCmd ∧
      call.1.head.contentLen.toNat ≤ myMsgContentMaxLen ∧ call.1.content = cmd := by
  obtain ⟨hcmd, sessionId, heq⟩ := h
  obtain ⟨-, htype, hlen, hcontent⟩ := fillMsgCont_typed sessionId hcmd.ne_nil
  have hcap : myMsgContentMaxLen = 1048576 := rfl
  rw [heq]
  exact ⟨htype, by omega, hcontent.trans (List.take_of_length_le hcmd.short)⟩

/-- The task that is made of it on the server. -/
theorem Asks.waits {call : MyMsg × Timeval} (h : Asks cmd call) (fd : ℕ) (stamp : UInt64) :
    Waits (fd, cmd) ⟨fd, delivered call.1 stamp⟩ := by
  obtain ⟨-, -, hcontent⟩ := h.content
  have hcmd := h.1
  have hcap : myMsgContentMaxLen = 1048576 := rfl
  have hshort := hcmd.short
  refine ⟨rfl, ?_, hcmd⟩
  show command (delivered call.1 stamp) = cmd
  rw [command_delivered, hcontent]
  · rw [hcontent]
    exact hcmd.text
  · rw [hcontent]
    omega

theorem clientHandleMsg_delivered {env : HandlerEnv} {call : MyMsg × Timeval}
    (h : Replies env cmd call) (stamp : UInt64) :
    clientHandleMsg (some (delivered call.1 stamp)) = screen env cmd := by
  have hcontent : call.1.content = answerText env cmd := h.content
  have hlen := MyMsg.length_content h.short.le
  have hstring : command (delivered call.1 stamp) = answerText env cmd := by
    rw [command_delivered, hcontent]
    · rw [hcontent]
      exact h.noNul
    · rw [hlen]
      exact h.short
  show recvMsgText ++ command (delivered call.1 stamp) ++ [newline] = _
  rw [hstring, screen]

/-! ## Where the requests are -/

abbrev ExecRelay := Relay ℕ (List UInt8) (List UInt8)

/-- One client's lines, its messages in both directions, and what it has printed. -/
structure SeesClient (h : ExecHosts) (r : ExecRelay) (fd : ℕ) (c : ExecClient) : Prop where
  stdin : c.stdin = (r.asking fd).flatMap (· ++ [newline])
  lines : ∀ line ∈ r.asking fd, ExecLine line
  up : ∃ calls, c.up = framesOf (h.client fd) calls ∧ List.Forall₂ Asks (r.sent fd) calls
  down : ∃ calls, c.down = framesOf h.server calls ∧
    List.Forall₂ (Replies h.env) (r.answered fd) calls
  stdout : c.stdout = (r.shown fd).flatMap (screen h.env)

/-- `paced`: each message that has arrived has been reported, or its edge is there to come. -/
structure Sees (h : ExecHosts) (paced : Prop) (s : RemoteExec) (r : ExecRelay) : Prop where
  client : ∀ fd, SeesClient h r fd (s.client fd)
  tasks : List.Forall₂ Waits r.waiting s.tasks
  nodup : s.events.Nodup
  reported : ∀ fd ∈ s.events, r.sent fd ≠ []
  attended : paced → ∀ fd, (s.client fd).edge = true ∨
    (r.sent fd).length ≤ if fd ∈ s.events then 1 else 0

/-- The same is said of a client by a relay that has moved requests of others. -/
theorem SeesClient.congr {h : ExecHosts} {r r' : ExecRelay} {fd : ℕ} {c : ExecClient}
    (hc : SeesClient h r fd c) (hasking : r'.asking fd = r.asking fd)
    (hsent : r'.sent fd = r.sent fd) (hanswered : r'.answered fd = r.answered fd)
    (hshown : r'.shown fd = r.shown fd) : SeesClient h r' fd c where
  stdin := by rw [hasking]; exact hc.stdin
  lines := by rw [hasking]; exact hc.lines
  up := by rw [hsent]; exact hc.up
  down := by rw [hanswered]; exact hc.down
  stdout := by rw [hshown]; exact hc.stdout

variable {h : ExecHosts} {paced : Prop} {s : RemoteExec} {r : ExecRelay} {msg : MyMsg}

theorem start_sees (lines : ℕ → List (List UInt8))
    (hlines : ∀ fd, ∀ line ∈ lines fd, ExecLine line) :
    Sees h paced (.start lines) (.start lines) where
  client fd := ⟨rfl, hlines fd, ⟨[], rfl, .nil⟩, ⟨[], rfl, .nil⟩, rfl⟩
  tasks := .nil
  nodup := List.nodup_nil
  reported _ hfd := absurd hfd List.not_mem_nil
  attended _ _ := .inr (Nat.zero_le _)

/-- One client is changed, and the requests of no other; the bytes on its way to the server are
the same, or an edge comes with more of them. -/
theorem Sees.setClient (hs : Sees h paced s r) {r' : ExecRelay} {fd : ℕ} {c : ExecClient}
    {tasks : List ServerExecCmdArg} (hc : SeesClient h r' fd c)
    (hsent : (c.edge = true ∧ r'.sent fd ≠ []) ∨
      (c.edge = (s.client fd).edge ∧ r'.sent fd = r.sent fd))
    (hother : ∀ j, j ≠ fd → r'.asking j = r.asking j ∧ r'.sent j = r.sent j ∧
      r'.answered j = r.answered j ∧ r'.shown j = r.shown j)
    (htasks : List.Forall₂ Waits r'.waiting tasks) :
    Sees h paced { s.setClient fd c with tasks := tasks } r' where
  client j := by
    show SeesClient h r' j (Function.update s.client fd c j)
    by_cases hj : j = fd
    · subst hj
      rw [Function.update_self]
      exact hc
    · obtain ⟨hasking, hsent, hanswered, hshown⟩ := hother j hj
      rw [Function.update_of_ne hj]
      exact (hs.client j).congr hasking hsent hanswered hshown
  tasks := htasks
  nodup := hs.nodup
  reported j hj := by
    by_cases hjfd : j = fd
    · subst hjfd
      rcases hsent with ⟨-, hne⟩ | ⟨-, hsame⟩
      · exact hne
      · rw [hsame]
        exact hs.reported j hj
    · rw [(hother j hjfd).2.1]
      exact hs.reported j hj
  attended hp j := by
    show (Function.update s.client fd c j).edge = true ∨ _
    by_cases hjfd : j = fd
    · subst hjfd
      rw [Function.update_self]
      rcases hsent with ⟨hedge, -⟩ | ⟨hedge, hsame⟩
      · exact .inl hedge
      · rw [hedge, hsame]
        exact hs.attended hp j
    · rw [Function.update_of_ne hjfd, (hother j hjfd).2.1]
      exact hs.attended hp j

/-! ## What each action comes to -/

/-- The actions of a kind that return lead to `s'`, and some return. -/
structure LeadTo (h : ExecHosts) (s : RemoteExec) (kind : ExecAction → Prop) (s' : RemoteExec) :
    Prop where
  only : ∀ a, kind a → a.Benign → s.step h a = none ∨ s.step h a = some s'
  can : ∃ a, kind a ∧ a.Benign ∧ s.step h a = some s'

/-- An action that goes on when `SendMsg` returns. -/
theorem leadTo_send (e : Endian) (past : ℕ → UInt8) (tv : Timeval)
    {act : List WriteAnswer → ExecAction} (f : List UInt8 → RemoteExec)
    (hlen : msg.head.contentLen.toNat ≤ myMsgContentMaxLen)
    (hbenign : ∀ as, (act as).Benign ↔ WriteLoops.Benign isRetry as)
    (hstep : ∀ as, s.step h (act as) =
      (sendMsg e past .fresh msg tv as).map fun out => f out.1.chunks.flatten) :
    LeadTo h s (fun a => ∃ as, a = act as) (f (frame e msg tv)) where
  only := by
    rintro a ⟨as, rfl⟩ has
    rw [hstep]
    cases hsend : sendMsg e past .fresh msg tv as with
    | none => exact .inl rfl
    | some out =>
        obtain ⟨-, -, -, hframe, -⟩ := sendMsg_benign rfl hlen ((hbenign as).mp has) hsend
        right
        rw [Option.map_some, hframe]
  can := by
    have hinited : MyMsgStats.fresh.inited = true := rfl
    obtain ⟨n, hn⟩ := fairWrites_halting.exists_grants (frame e msg tv).length
    have has := fairWrites_halting.firstAnswers_benign n
    obtain ⟨call, as', hsend, -, -, hframe, -⟩ := sendMsg_of_grants e past tv hinited hlen has hn
    refine ⟨_, ⟨_, rfl⟩, (hbenign _).mpr has, ?_⟩
    rw [hstep, hsend, Option.map_some, hframe]

/-- An action that goes on when `RecvMsg` has returned a message. -/
theorem leadTo_recv (e e' : Endian) (tv : Timeval) (rest : List UInt8)
    {act : List ReadAnswer → ExecAction} {s' : RemoteExec}
    (f : Option MyMsg → List UInt8 → Option RemoteExec)
    (hlen : msg.head.contentLen.toNat ≤ myMsgContentMaxLen)
    (hbenign : ∀ as, (act as).Benign ↔ ReadLoops.Benign isRetry as)
    (hstep : ∀ as, s.step h (act as) =
      match recvMsg e' .fresh (some .new) as ⟨frame e msg tv ++ rest, .closed⟩ with
      | none => none
      | some (call, _, inb) =>
          if call.ret ≠ mySuccess then none else f call.retMsg inb.bytes)
    (hf : f (some (delivered msg (betweenHosts e e' tv.ms))) rest = some s') :
    LeadTo h s (fun a => ∃ as, a = act as) s' := by
  have hdone : ∀ as call as' inb, ReadLoops.Benign isRetry as →
      recvMsg e' .fresh (some .new) as ⟨frame e msg tv ++ rest, .closed⟩ =
        some (call, as', inb) → s.step h (act as) = some s' := by
    intro as call as' inb has hrecv
    obtain ⟨hret, hretMsg, -, hleft, -⟩ := recvMsg_benign rfl hlen has hrecv
    rw [hstep, hrecv]
    simp only
    rw [if_neg (not_not_intro hret), hretMsg, hleft, hf]
  constructor
  · rintro a ⟨as, rfl⟩ has
    cases hrecv : recvMsg e' .fresh (some .new) as ⟨frame e msg tv ++ rest, .closed⟩ with
    | none =>
        left
        rw [hstep, hrecv]
    | some out => exact .inr (hdone as _ _ _ ((hbenign as).mp has) hrecv)
  · have hinited : MyMsgStats.fresh.inited = true := rfl
    obtain ⟨n, hn⟩ := fairReads_halting.exists_grants ((frame e msg tv ++ rest).length + 1)
    have has := fairReads_halting.firstAnswers_benign n
    obtain ⟨call, as', hrecv, -⟩ := recvMsg_frame e e' tv rest .closed .new hinited hlen has hn
    exact ⟨_, ⟨_, rfl⟩, (hbenign _).mpr has, hdone _ _ _ _ has hrecv⟩

theorem sendAll_singleton (tv : Timeval) (fd : ℕ) (as : List WriteAnswer) :
    RemoteExec.sendAll h tv [(fd, msg)] as s =
      (sendMsg h.server h.past .fresh msg tv as).map fun out =>
        s.setClient fd { s.client fd with
          down := (s.client fd).down ++ out.1.chunks.flatten } := by
  rw [RemoteExec.sendAll]
  cases sendMsg h.server h.past .fresh msg tv as with
  | none => rfl
  | some out => rfl

theorem frame_append_ne_nil (e : Endian) (tv : Timeval)
    (hlen : msg.head.contentLen.toNat ≤ myMsgContentMaxLen) (rest : List UInt8) :
    frame e msg tv ++ rest ≠ [] := by
  intro hnil
  have hframe := length_frame (e := e) tv hlen
  rw [(List.append_eq_nil_iff.mp hnil).1, List.length_nil] at hframe
  omega

/-- A round of the main loop takes a line, and sends what it asks for. -/
theorem mainLoop_leads (hs : Sees h paced s r) {fd : ℕ} {rest : List (List UInt8)}
    (hask : r.asking fd = line :: rest) (tv : Timeval) :
    ∃ s', Sees h paced s' (r.next commandOf (.ask fd)) ∧ s'.events = s.events ∧
      LeadTo h s (fun a => ∃ as, a = .mainLoop fd tv as) s' := by
  have hc := hs.client fd
  have hline : ExecLine line := hc.lines line (by rw [hask]; exact List.mem_cons_self)
  have hlines : ∀ l ∈ rest, ExecLine l := by
    intro l hl
    exact hc.lines l (by rw [hask]; exact List.mem_cons_of_mem _ hl)
  have hstdin : (s.client fd).stdin = line ++ newline :: rest.flatMap (· ++ [newline]) := by
    rw [hc.stdin, hask, List.flatMap_cons, List.append_assoc, List.singleton_append]
  obtain ⟨calls, hup, hcalls⟩ := hc.up
  cases hcmd : commandOf line with
  | none =>
      -- the help page
      have hstep : ∀ as, s.step h (.mainLoop fd tv as) = some { s.setClient fd { s.client fd with
          stdin := rest.flatMap (· ++ [newline]) } with tasks := s.tasks } := by
        intro as
        simp only [RemoteExec.step, RemoteExec.mainLoop, hstdin, fgets_execLine hline,
          clientRound_execLine hline, hcmd]
        rfl
      refine ⟨_, ?_, ?_, ⟨?_, .mainLoop fd tv [], ⟨[], rfl⟩, ?_, hstep []⟩⟩
      · simp only [Relay.next, hask, hcmd, Option.toList_none, List.append_nil]
        refine hs.setClient ⟨?_, ?_, ?_, hc.down, hc.stdout⟩ (.inr ⟨rfl, ?_⟩) (fun j hj => ?_)
          hs.tasks
        · simp only [Function.update_self]
        · simpa only [Function.update_self] using hlines
        · simpa only [Function.update_self] using hc.up
        · simp only [Function.update_self]
        · simp only [Function.update_of_ne hj, and_self]
      · rfl
      · rintro a ⟨as, rfl⟩ -
        exact .inr (hstep as)
      · exact fun a ha => absurd ha List.not_mem_nil
  | some cmd =>
      have hasks : Asks cmd (typedMsg (s.client fd).sessionId cmd, tv) :=
        ⟨isCommand_of_line hcmd, _, rfl⟩
      have hlen := hasks.content.2.1
      refine ⟨_, ?_, ?_, leadTo_send (h.client fd) h.past tv (fun bytes =>
        { s.setClient fd { s.client fd with
          stdin := rest.flatMap (· ++ [newline])
          sessionId := (s.client fd).sessionId + 1
          up := (s.client fd).up ++ bytes
          edge := (s.client fd).edge || !bytes.isEmpty } with tasks := s.tasks })
        hlen (fun as => Iff.rfl) ?_⟩
      · have hedge : ((s.client fd).edge ||
            !(frame (h.client fd) (typedMsg (s.client fd).sessionId cmd) tv).isEmpty) = true := by
          have hne := frame_append_ne_nil (h.client fd) tv hlen []
          rw [List.append_nil] at hne
          simp [hne]
        simp only [Relay.next, hask, hcmd, Option.toList_some]
        refine hs.setClient ⟨?_, ?_, ?_, hc.down, hc.stdout⟩ (.inl ⟨hedge, ?_⟩) (fun j hj => ?_)
          hs.tasks
        · simp only [Function.update_self]
        · simpa only [Function.update_self] using hlines
        · refine ⟨calls ++ [(typedMsg (s.client fd).sessionId cmd, tv)], ?_, ?_⟩
          · simp [hup, framesOf]
          · simpa only [Function.update_self] using List.rel_append hcalls (.cons hasks .nil)
        · simp only [Function.update_self]
          exact List.append_ne_nil_of_right_ne_nil _ (List.cons_ne_nil _ _)
        · simp only [Function.update_of_ne hj, and_self]
      · rfl
      · intro as
        simp only [RemoteExec.step, RemoteExec.mainLoop, hstdin, fgets_execLine hline,
          clientRound_execLine hline, hcmd, List.map_cons, List.map_nil, sendMsgs]
        cases sendMsg (h.client fd) h.past .fresh (typedMsg (s.client fd).sessionId cmd) tv as with
        | none => rfl
        | some out => simp [wireOf, RemoteExec.setClient]

/-- The loop looks at a report: it takes a message off, and leaves its command for the pool. -/
theorem recvRequest_leads (henv : h.env.Succeeds) (hs : Sees h paced s r) {fd : ℕ}
    {later : List ℕ} (hevents : s.events = fd :: later) (tv : Timeval)
    {replies : List WriteAnswer} (hreplies : WriteLoops.Benign isRetry replies) :
    ∃ s', Sees h paced s' (r.next commandOf (.receive fd)) ∧ s'.events = later ∧
      LeadTo h s (fun a => ∃ as, a = .recvRequest as tv replies) s' := by
  have hc := hs.client fd
  obtain ⟨cmd, rest, hsent⟩ := List.exists_cons_of_ne_nil
    (hs.reported fd (by rw [hevents]; exact List.mem_cons_self))
  obtain ⟨hfresh, hnodup⟩ := List.nodup_cons.mp (hevents ▸ hs.nodup)
  obtain ⟨calls, hup, hcalls⟩ := hc.up
  rw [hsent] at hcalls
  cases hcalls with
  | @cons _ call _ calls hasks hcalls =>
      obtain ⟨htype, hlen, -⟩ := hasks.content
      have hframe : (s.client fd).up = frame (h.client fd) call.1 call.2 ++
          framesOf (h.client fd) calls := hup
      have hhandled : ∀ stamp, serverHandleMsg h.env fd (some (delivered call.1 stamp)) =
          ⟨mySuccess, [], some ⟨fd, delivered call.1 stamp⟩⟩ := by
        intro stamp
        have hexec : (delivered call.1 stamp).head.type = myMsgTypeExecCmd := htype
        simp [serverHandleMsg, hexec, serverMsgExecCmd, henv.callocOk, henv.newMsgOk,
          henv.addTask]
      refine ⟨{ s.setClient fd { s.client fd with up := framesOf (h.client fd) calls } with
        events := later
        tasks := s.tasks ++
          [⟨fd, delivered call.1 (betweenHosts (h.client fd) h.server call.2.ms)⟩] }, ?_, rfl,
        leadTo_recv (h.client fd) h.server call.2 (framesOf (h.client fd) calls)
          (fun got left => RemoteExec.sendAll h tv (serverHandleMsg h.env fd got).sends replies
            { s.setClient fd { s.client fd with up := left } with
              events := later
              tasks := s.tasks ++ (serverHandleMsg h.env fd got).task.toList }) hlen
          (fun as => and_iff_left hreplies) ?_ ?_⟩
      · simp only [Relay.next, hsent]
        refine ⟨fun j => ?_, ?_, hnodup, fun j hj => ?_, fun hp j => ?_⟩
        · show SeesClient h _ j (Function.update s.client fd _ j)
          by_cases hj : j = fd
          · subst hj
            rw [Function.update_self]
            refine ⟨hc.stdin, hc.lines, ⟨calls, rfl, ?_⟩, hc.down, hc.stdout⟩
            simpa only [Function.update_self] using hcalls
          · rw [Function.update_of_ne hj]
            exact (hs.client j).congr rfl (Function.update_of_ne hj _ _) rfl rfl
        · exact List.rel_append hs.tasks (.cons (hasks.waits fd _) .nil)
        · have hne : j ≠ fd := fun hjfd => hfresh (hjfd ▸ hj)
          show Function.update r.sent fd rest j ≠ []
          rw [Function.update_of_ne hne]
          exact hs.reported j (by rw [hevents]; exact List.mem_cons_of_mem _ hj)
        · have hold := hs.attended hp j
          show (Function.update s.client fd _ j).edge = true ∨
            (Function.update r.sent fd rest j).length ≤ _
          by_cases hj : j = fd
          · subst hj
            rw [hevents, if_pos List.mem_cons_self, hsent, List.length_cons] at hold
            rw [Function.update_self, Function.update_self, if_neg hfresh]
            exact hold.imp_right Nat.le_of_succ_le_succ
          · simp only [hevents, List.mem_cons, hj, false_or] at hold
            rwa [Function.update_of_ne hj, Function.update_of_ne hj]
      · intro as
        simp only [RemoteExec.step, RemoteExec.recvRequest, hevents, hframe]
      · simp only [hhandled, RemoteExec.sendAll, Option.toList_some]

theorem waits_getElem {ws : List (ℕ × List UInt8)} {tasks : List ServerExecCmdArg}
    (hall : List.Forall₂ Waits ws tasks) {i : ℕ} {w : ℕ × List UInt8} (hw : ws[i]? = some w) :
    ∃ arg, tasks[i]? = some arg ∧ Waits w arg := by
  obtain ⟨hi, rfl⟩ := List.getElem?_eq_some_iff.mp hw
  have hi' : i < tasks.length := hall.length_eq ▸ hi
  exact ⟨_, List.getElem?_eq_getElem hi', hall.get hi hi'⟩

/-- A worker runs the command of a task, and sends the reply. -/
theorem execCmd_leads (henv : h.env.Succeeds) (hs : Sees h paced s r) {i fd : ℕ}
    (hw : r.waiting[i]? = some (fd, cmd)) (tv : Timeval) :
    ∃ s', Sees h paced s' (r.next commandOf (.answer i)) ∧ s'.events = s.events ∧
      LeadTo h s (fun a => ∃ as, a = .execCmd i tv as) s' := by
  have hc := hs.client fd
  obtain ⟨arg, harg, hfd, hcommand, hcmd⟩ := waits_getElem hs.tasks hw
  obtain ⟨reply, hsends, hreply⟩ :=
    serverMsgExecCmdFn_carries henv arg (by rw [hcommand]; exact hcmd)
  rw [hfd] at hsends
  rw [hcommand] at hreply
  have hreplies : Replies h.env cmd (reply, tv) := hreply
  obtain ⟨calls, hdown, hcalls⟩ := hc.down
  refine ⟨_, ?_, ?_, leadTo_send h.server h.past tv (fun bytes =>
    { s.setClient fd { s.client fd with down := (s.client fd).down ++ bytes } with
      tasks := s.tasks.eraseIdx i }) hreply.short.le (fun as => Iff.rfl) ?_⟩
  · simp only [Relay.next, hw]
    refine hs.setClient ⟨hc.stdin, hc.lines, hc.up, ?_, hc.stdout⟩ (.inr ⟨rfl, rfl⟩)
      (fun j hj => ?_) ?_
    · refine ⟨calls ++ [(reply, tv)], ?_, ?_⟩
      · simp [hdown, framesOf]
      · simpa only [Function.update_self] using List.rel_append hcalls (.cons hreplies .nil)
    · simp only [Function.update_of_ne hj, and_self]
    · simp only [List.eraseIdx_eq_take_drop_succ]
      exact List.rel_append (List.forall₂_take _ hs.tasks) (List.forall₂_drop _ hs.tasks)
  · rfl
  · intro as
    simp only [RemoteExec.step, RemoteExec.execCmd, harg, hsends, sendAll_singleton]
    rfl

/-- A client prints the reply that comes first. -/
theorem recvReply_leads (hs : Sees h paced s r) {fd : ℕ} {rest : List (List UInt8)}
    (hans : r.answered fd = cmd :: rest) :
    ∃ s', Sees h paced s' (r.next commandOf (.deliver fd)) ∧ s'.events = s.events ∧
      LeadTo h s (fun a => ∃ as, a = .recvReply fd as) s' := by
  have hc := hs.client fd
  obtain ⟨calls, hdown, hcalls⟩ := hc.down
  rw [hans] at hcalls
  cases hcalls with
  | @cons _ call _ calls hreply hcalls =>
      have hlen : call.1.head.contentLen.toNat ≤ myMsgContentMaxLen := hreply.short.le
      have hframe : (s.client fd).down = frame h.server call.1 call.2 ++
          framesOf h.server calls := hdown
      have hne := frame_append_ne_nil h.server call.2 hlen (framesOf h.server calls)
      refine ⟨{ s.setClient fd { s.client fd with
          down := framesOf h.server calls
          stdout := (s.client fd).stdout ++ screen h.env cmd } with tasks := s.tasks }, ?_, rfl,
        leadTo_recv h.server (h.client fd) call.2 (framesOf h.server calls)
          (fun got left => some { s.setClient fd { s.client fd with
            down := left
            stdout := (s.client fd).stdout ++ clientHandleMsg got } with tasks := s.tasks }) hlen
          (fun as => Iff.rfl) ?_ ?_⟩
      · simp only [Relay.next, hans]
        refine hs.setClient ⟨hc.stdin, hc.lines, hc.up, ?_, ?_⟩ (.inr ⟨rfl, rfl⟩)
          (fun j hj => ?_) hs.tasks
        · exact ⟨calls, rfl, by simpa only [Function.update_self] using hcalls⟩
        · simp [hc.stdout]
        · simp only [Function.update_of_ne hj, and_self]
      · intro as
        simp only [RemoteExec.step, RemoteExec.recvReply, hframe, if_neg hne]
        rfl
      · rw [clientHandleMsg_delivered hreply]

/-! ## Reports -/

/-- Of each client a report finds at most one message. -/
def RemoteExec.Paced (s : RemoteExec) : ExecAction → Prop
  | .epollWait fds => ∀ fd ∈ fds, AtMostOneMessage (s.client fd).up
  | _ => True

theorem holdsMessage_frame (e : Endian) (tv : Timeval)
    (hlen : msg.head.contentLen.toNat ≤ myMsgContentMaxLen) (rest : List UInt8) :
    HoldsMessage (frame e msg tv ++ rest) ∧
      (frame e msg tv ++ rest).drop (128 + wireContentLen (frame e msg tv ++ rest)) = rest := by
  have hframe := length_frame (e := e) tv hlen
  have hwire := wireContentLen_frame e msg tv rest
  have hall : (frame e msg tv ++ rest).length = 128 + msg.head.contentLen.toNat + rest.length := by
    rw [List.length_append, hframe]
  refine ⟨⟨by omega, by omega⟩, ?_⟩
  rw [hwire, ← hframe, List.drop_left]

/-- A client with at most one message in its buffer has at most one request there. -/
theorem SeesClient.length_sent {fd : ℕ} {c : ExecClient} (hc : SeesClient h r fd c)
    (hone : AtMostOneMessage c.up) : (r.sent fd).length ≤ 1 := by
  obtain ⟨calls, hup, hcalls⟩ := hc.up
  generalize r.sent fd = sent at hcalls
  cases hcalls with
  | nil => exact Nat.zero_le _
  | @cons cmd call cmds calls hasks hcalls =>
      cases hcalls with
      | nil => exact le_rfl
      | @cons cmd' call' cmds calls hasks' hcalls =>
          have htwo : c.up = frame (h.client fd) call.1 call.2 ++
              (frame (h.client fd) call'.1 call'.2 ++ framesOf (h.client fd) calls) := hup
          obtain ⟨hfirst, hdrop⟩ := holdsMessage_frame (h.client fd) call.2 hasks.content.2.1
            (frame (h.client fd) call'.1 call'.2 ++ framesOf (h.client fd) calls)
          rw [htwo] at hone
          have hnot := hone hfirst
          rw [hdrop] at hnot
          exact absurd (holdsMessage_frame (h.client fd) call'.2 hasks'.content.2.1 _).1 hnot

theorem SeesClient.atMostOne {fd : ℕ} {c : ExecClient} (hc : SeesClient h r fd c)
    (hone : (r.sent fd).length ≤ 1) : AtMostOneMessage c.up := by
  obtain ⟨calls, hup, hcalls⟩ := hc.up
  generalize r.sent fd = sent at hcalls hone
  intro hholds
  cases hcalls with
  | nil =>
      have hnil : c.up = [] := hup
      rw [hnil] at hholds
      exact absurd hholds not_holdsMessage_nil
  | @cons cmd call cmds calls hasks hcalls =>
      have hnone : cmds = [] := List.eq_nil_of_length_eq_zero (Nat.le_zero.mp
        (Nat.le_of_succ_le_succ hone))
      subst hnone
      cases hcalls
      have hframe : c.up = frame (h.client fd) call.1 call.2 ++ [] := hup
      rw [hframe, (holdsMessage_frame (h.client fd) call.2 hasks.content.2.1 []).2]
      exact not_holdsMessage_nil

theorem SeesClient.up_ne_nil {fd : ℕ} {c : ExecClient} (hc : SeesClient h r fd c) :
    c.up ≠ [] ↔ r.sent fd ≠ [] := by
  obtain ⟨calls, hup, hcalls⟩ := hc.up
  generalize r.sent fd = sent at hcalls
  cases hcalls with
  | nil =>
      rw [hup]
      exact iff_of_false (not_not_intro rfl) (not_not_intro rfl)
  | @cons cmd call cmds calls hasks hcalls =>
      have hframe : c.up = frame (h.client fd) call.1 call.2 ++
          framesOf (h.client fd) calls := hup
      rw [hframe]
      exact iff_of_true (frame_append_ne_nil _ _ hasks.content.2.1 _) (List.cons_ne_nil _ _)

/-- `epoll_wait` moves no request. -/
theorem epollWait_sees (hs : Sees h paced s r) {fds : List ℕ} {s' : RemoteExec}
    (hstep : s.epollWait fds = some s') (hpaced : paced → s.Paced (.epollWait fds)) :
    Sees h paced s' r ∧ s.events = [] ∧ s'.events = fds ∧ ∃ fd ∈ fds, r.sent fd ≠ [] := by
  unfold RemoteExec.epollWait at hstep
  split_ifs at hstep with hmay
  obtain ⟨hnone, hne, hnodup, -, hready⟩ := hmay
  obtain rfl := Option.some.inj hstep
  obtain ⟨fd, hfd⟩ := List.exists_mem_of_ne_nil fds hne
  refine ⟨⟨fun j => ?_, hs.tasks, hnodup, fun j hj => ?_, fun hp j => ?_⟩, hnone, rfl, fd, hfd,
    (hs.client fd).up_ne_nil.mp (hready fd hfd).2⟩
  · have hc := hs.client j
    exact ⟨hc.stdin, hc.lines, hc.up, hc.down, hc.stdout⟩
  · exact (hs.client j).up_ne_nil.mp (hready j hj).2
  · have hold := hs.attended hp j
    rw [hnone, if_neg List.not_mem_nil] at hold
    by_cases hj : j ∈ fds
    · right
      rw [if_pos hj]
      exact (hs.client j).length_sent (hpaced hp j hj)
    · show ((s.client j).edge && !fds.contains j) = true ∨ _
      rw [if_neg hj]
      simpa [hj] using hold

/-! ## The whole of it -/

/-- The command that runs is one of its client's that has waited longest, as in a pool of one
worker. -/
def RemoteExec.InTurn (s : RemoteExec) : ExecAction → Prop
  | .execCmd i _ _ => ∀ j, j < i → (s.tasks[j]?).map ServerExecCmdArg.fd ≠
      (s.tasks[i]?).map ServerExecCmdArg.fd
  | _ => True

theorem map_fd_of_waits {ws : List (ℕ × List UInt8)} {tasks : List ServerExecCmdArg}
    (hall : List.Forall₂ Waits ws tasks) : tasks.map ServerExecCmdArg.fd = ws.map Prod.fst := by
  induction hall with
  | nil => rfl
  | cons hw _ ih => rw [List.map_cons, List.map_cons, hw.1, ih]

theorem inTurn_execCmd_iff (hs : Sees h paced s r) (i : ℕ) (tv : Timeval) (as : List WriteAnswer) :
    s.InTurn (.execCmd i tv as) ↔ r.InTurn (.answer i) := by
  have hget : ∀ j : ℕ, (s.tasks[j]?).map ServerExecCmdArg.fd = (r.waiting[j]?).map Prod.fst := by
    intro j
    rw [← List.getElem?_map, ← List.getElem?_map, map_fd_of_waits hs.tasks]
  simp only [RemoteExec.InTurn, Relay.InTurn, hget]

variable {lines : ℕ → List (List UInt8)}

/-- What a step comes to, when the actions of its kind lead somewhere. -/
theorem LeadTo.next_eq {kind : ExecAction → Prop} {s' : RemoteExec} (hl : LeadTo h s kind s')
    {a : ExecAction} (hkind : kind a) (ha : (remoteSystem h lines).enabled s a) :
    (remoteSystem h lines).next s a = s' := by
  show (s.step h a).getD s = s'
  rcases hl.only a hkind ha.2 with hnone | hsome
  · have hreturns := ha.1
    simp [hnone] at hreturns
  · rw [hsome, Option.getD_some]

theorem LeadTo.enabled {kind : ExecAction → Prop} {s' : RemoteExec} (hl : LeadTo h s kind s')
    (lines : ℕ → List (List UInt8)) :
    ∃ a, kind a ∧ (remoteSystem h lines).enabled s a := by
  obtain ⟨a, hkind, hbenign, hstep⟩ := hl.can
  exact ⟨a, hkind, by rw [hstep]; rfl, hbenign⟩

/-- Reports that are not all looked at hold `epoll_wait` off. -/
def RemoteExec.rank (s : RemoteExec) : ℕ := if s.events = [] then 1 else 0

theorem RemoteExec.rank_le (s : RemoteExec) : s.rank ≤ 1 := by
  unfold rank
  split_ifs
  · exact le_rfl
  · exact Nat.zero_le 1

/-- **Every step is a move, or a report.** -/
theorem exists_move (henv : h.env.Succeeds) (hs : Sees h paced s r) {a : ExecAction}
    (ha : (remoteSystem h lines).enabled s a) (hp : paced → s.Paced a) :
    (Sees h paced ((remoteSystem h lines).next s a) r ∧
      ((remoteSystem h lines).next s a).rank < s.rank ∧ (∃ fds, a = .epollWait fds) ∧
      ∃ fd, r.sent fd ≠ []) ∨
    ∃ b, r.can b ∧ (s.InTurn a → r.InTurn b) ∧
      (∀ as tv replies, a = .recvRequest as tv replies → ∃ fd, b = .receive fd) ∧
      Sees h paced ((remoteSystem h lines).next s a) (r.next commandOf b) := by
  have hreturns := ha.1
  cases a with
  | mainLoop fd tv as =>
      cases hask : r.asking fd with
      | nil =>
          have hstdin := (hs.client fd).stdin
          rw [hask, List.flatMap_nil] at hstdin
          simp [RemoteExec.step, RemoteExec.mainLoop, hstdin, fgets] at hreturns
      | cons line rest =>
          obtain ⟨s', hs', -, hleads⟩ := mainLoop_leads hs hask tv
          refine .inr ⟨.ask fd, by simp [Relay.can, hask], fun _ => trivial, nofun, ?_⟩
          rwa [hleads.next_eq ⟨as, rfl⟩ ha]
  | epollWait fds =>
      obtain ⟨s', hstep⟩ := Option.isSome_iff_exists.mp hreturns
      obtain ⟨hs', hnone, hevents, fd, hfd, hsent⟩ := epollWait_sees hs hstep hp
      have hsome : s'.events ≠ [] := by
        rw [hevents]
        exact List.ne_nil_of_mem hfd
      have hnext : (remoteSystem h lines).next s (.epollWait fds) = s' := by
        show (s.step h (.epollWait fds)).getD s = s'
        rw [hstep, Option.getD_some]
      left
      rw [hnext]
      refine ⟨hs', ?_, ⟨fds, rfl⟩, fd, hsent⟩
      rw [RemoteExec.rank, RemoteExec.rank, if_pos hnone, if_neg hsome]
      exact Nat.zero_lt_one
  | recvRequest as tv replies =>
      cases hevents : s.events with
      | nil => simp [RemoteExec.step, RemoteExec.recvRequest, hevents] at hreturns
      | cons fd later =>
          obtain ⟨s', hs', -, hleads⟩ := recvRequest_leads henv hs hevents tv ha.2.2
          refine .inr ⟨.receive fd, ?_, fun _ => trivial, fun _ _ _ _ => ⟨fd, rfl⟩, ?_⟩
          · exact hs.reported fd (by rw [hevents]; exact List.mem_cons_self)
          · rwa [hleads.next_eq ⟨as, rfl⟩ ha]
  | execCmd i tv as =>
      cases hw : r.waiting[i]? with
      | none =>
          have hlen : s.tasks.length ≤ i := by
            rw [← hs.tasks.length_eq]
            exact List.getElem?_eq_none_iff.mp hw
          simp [RemoteExec.step, RemoteExec.execCmd, List.getElem?_eq_none hlen] at hreturns
      | some w =>
          obtain ⟨s', hs', -, hleads⟩ := execCmd_leads henv hs hw tv
          have hi : i < r.waiting.length := (List.getElem?_eq_some_iff.mp hw).1
          refine .inr ⟨.answer i, hi, (inTurn_execCmd_iff hs i tv as).mp, nofun, ?_⟩
          rwa [hleads.next_eq ⟨as, rfl⟩ ha]
  | recvReply fd as =>
      cases hans : r.answered fd with
      | nil =>
          obtain ⟨calls, hdown, hcalls⟩ := (hs.client fd).down
          rw [hans] at hcalls
          cases hcalls
          have hempty : (s.client fd).down = [] := hdown
          simp [RemoteExec.step, RemoteExec.recvReply, hempty] at hreturns
      | cons cmd rest =>
          obtain ⟨s', hs', -, hleads⟩ := recvReply_leads hs hans
          refine .inr ⟨.deliver fd, by simp [Relay.can, hans], fun _ => trivial, nofun, ?_⟩
          rwa [hleads.next_eq ⟨as, rfl⟩ ha]

/-- The session refines the relay, in order if the commands of a client run in turn. -/
theorem remote_simulates (henv : h.env.Succeeds)
    (hlines : ∀ fd, ∀ line ∈ lines fd, ExecLine line) (paced turn : Prop) :
    Simulates (remoteSystem h lines) (fun s a => (paced → s.Paced a) ∧ (turn → s.InTurn a))
      (relaySystem commandOf lines) (fun r b => turn → r.InTurn b) (Sees h paced)
      RemoteExec.rank 1 where
  init := by
    rintro s rfl
    exact ⟨_, rfl, start_sees lines hlines⟩
  step s r a hs ha hp := by
    rcases exists_move henv hs ha hp.1 with ⟨hquiet, hrank, -⟩ | ⟨b, hb, hkeeps, -, hnext⟩
    · exact .inl ⟨hquiet, hrank⟩
    · refine .inr ⟨b, hb, fun hturn => hkeeps (hp.2 hturn), hnext, ?_⟩
      exact (RemoteExec.rank_le _).trans (Nat.le_add_left 1 _)

/-- What is left to do where nothing can go on: messages that no edge stands for. -/
structure Stuck (s : RemoteExec) (r : ExecRelay) : Prop where
  asking : ∀ fd, r.asking fd = []
  events : s.events = []
  sent : ∀ fd, r.sent fd ≠ [] → (s.client fd).edge = false
  waiting : r.waiting = []
  answered : ∀ fd, r.answered fd = []

theorem stuck_of_atRest (henv : h.env.Succeeds) (hs : Sees h paced s r)
    (hrest : AtRest (remoteSystem h lines) (fun _ _ => True) s) : Stuck s r := by
  have hstuck : ∀ {kind s'}, ¬ LeadTo h s kind s' := by
    intro kind s' hleads
    obtain ⟨a, -, ha⟩ := hleads.enabled lines
    exact hrest a ha trivial
  have hbenign : WriteLoops.Benign isRetry [] := fun a ha => absurd ha List.not_mem_nil
  have hevents : s.events = [] := by
    by_contra hne
    obtain ⟨fd, later, hevents⟩ := List.exists_cons_of_ne_nil hne
    obtain ⟨s', -, -, hleads⟩ := recvRequest_leads henv hs hevents ⟨0, 0⟩ hbenign
    exact hstuck hleads
  refine ⟨fun fd => ?_, hevents, fun fd hne => ?_, ?_, fun fd => ?_⟩
  · by_contra hne
    obtain ⟨line, rest, hask⟩ := List.exists_cons_of_ne_nil hne
    obtain ⟨s', -, -, hleads⟩ := mainLoop_leads hs hask ⟨0, 0⟩
    exact hstuck hleads
  · by_contra hedge
    rw [Bool.not_eq_false] at hedge
    refine hrest (.epollWait [fd]) ⟨?_, trivial⟩ trivial
    have hup := (hs.client fd).up_ne_nil.mpr hne
    simp [RemoteExec.step, RemoteExec.epollWait, hevents, hedge, hup]
  · by_contra hne
    have hw : r.waiting[0]? = some _ := List.getElem?_eq_getElem (List.length_pos_iff.mpr hne)
    obtain ⟨s', -, -, hleads⟩ := execCmd_leads henv hs hw ⟨0, 0⟩
    exact hstuck hleads
  · by_contra hne
    obtain ⟨cmd, rest, hans⟩ := List.exists_cons_of_ne_nil hne
    obtain ⟨s', -, -, hleads⟩ := recvReply_leads hs hans
    exact hstuck hleads

/-- **Where nothing can go on, everything is done,** if the reports were paced. -/
theorem Stuck.done (hstuck : Stuck s r) (hs : Sees h True s r) : r.Done := by
  refine ⟨hstuck.asking, fun fd => ?_, hstuck.waiting, hstuck.answered⟩
  by_contra hne
  have hpos := List.length_pos_iff.mpr hne
  have hold := hs.attended trivial fd
  rw [hstuck.events, if_neg List.not_mem_nil, hstuck.sent fd hne] at hold
  exact absurd (hold.resolve_left Bool.false_ne_true) (by omega)

theorem Stuck.through (hstuck : Stuck s r) (fd : ℕ) :
    r.through commandOf fd = r.shown fd ++ r.sent fd := by
  simp [Relay.through, Relay.waitingOf, hstuck.asking, hstuck.waiting, hstuck.answered]

/-! ## What the screens show -/

/-- Of the commands of a client some have been answered, none of them twice. -/
theorem Sees.shown (hs : Sees h paced s r) (hreach : Reachable (relaySystem commandOf lines) r)
    (fd : ℕ) : ∃ cmds : List (List UInt8), (s.client fd).stdout = cmds.flatMap (screen h.env) ∧
      cmds.Subperm ((lines fd).filterMap commandOf) := by
  refine ⟨r.shown fd, (hs.client fd).stdout, ?_⟩
  have hpart : (r.shown fd).Sublist (r.through commandOf fd) := by
    simp only [Relay.through, List.append_assoc]
    exact List.sublist_append_left _ _
  exact hpart.subperm.trans (kept hreach fd).subperm

/-- The others are unread where nothing can go on. -/
theorem Stuck.unread (hstuck : Stuck s r) (hs : Sees h paced s r)
    (hreach : Reachable (relaySystem commandOf lines) r) (fd : ℕ) : ∃ cmds left calls,
      (s.client fd).stdout = cmds.flatMap (screen h.env) ∧
        (cmds ++ left).Perm ((lines fd).filterMap commandOf) ∧
        (s.client fd).up = framesOf (h.client fd) calls ∧ List.Forall₂ Asks left calls ∧
        (left ≠ [] → (s.client fd).edge = false) := by
  obtain ⟨calls, hup, hcalls⟩ := (hs.client fd).up
  refine ⟨r.shown fd, r.sent fd, calls, (hs.client fd).stdout, ?_, hup, hcalls, hstuck.sent fd⟩
  rw [← hstuck.through fd]
  exact kept hreach fd

/-- There are none if the reports were paced. -/
theorem Stuck.all_shown (hstuck : Stuck s r) (hs : Sees h True s r)
    (hreach : Reachable (relaySystem commandOf lines) r) (fd : ℕ) :
    ∃ cmds : List (List UInt8), (s.client fd).stdout = cmds.flatMap (screen h.env) ∧
      cmds.Perm ((lines fd).filterMap commandOf) := by
  refine ⟨r.shown fd, (hs.client fd).stdout, ?_⟩
  rw [← (hstuck.done hs).through fd]
  exact kept hreach fd

/-- Commands that run in turn are answered in turn. -/
theorem Sees.shown_inTurn (hs : Sees h paced s r)
    (hreach : Reach (relaySystem commandOf lines) Relay.InTurn r) (fd : ℕ) :
    ∃ cmds : List (List UInt8), (s.client fd).stdout = cmds.flatMap (screen h.env) ∧
      cmds <+: (lines fd).filterMap commandOf := by
  refine ⟨r.shown fd, (hs.client fd).stdout, ?_⟩
  rw [← kept_inTurn hreach fd]
  simp only [Relay.through, List.append_assoc]
  exact List.prefix_append _ _

theorem Stuck.all_inTurn (hstuck : Stuck s r) (hs : Sees h True s r)
    (hreach : Reach (relaySystem commandOf lines) Relay.InTurn r) (fd : ℕ) :
    (s.client fd).stdout = ((lines fd).filterMap commandOf).flatMap (screen h.env) := by
  rw [(hs.client fd).stdout, ← (hstuck.done hs).through fd, kept_inTurn hreach fd]

/-- And nothing can go on where everything is done. -/
theorem atRest_of_done (henv : h.env.Succeeds) (hs : Sees h False s r) (hdone : r.Done) :
    AtRest (remoteSystem h lines) (fun _ _ => True) s := by
  intro a ha _
  rcases exists_move henv hs ha False.elim with ⟨-, -, -, fd, hsent⟩ | ⟨b, hb, -, -⟩
  · exact hsent (hdone.sent fd)
  · cases b with
    | ask fd => exact hb (hdone.asking fd)
    | receive fd => exact hb (hdone.sent fd)
    | answer i =>
        have hi : i < r.waiting.length := hb
        rw [hdone.waiting] at hi
        exact absurd hi (Nat.not_lt_zero i)
    | deliver fd => exact hb (hdone.answered fd)

/-! ## One request after the other -/

theorem LeadTo.reach {kind : ExecAction → Prop} {s' : RemoteExec} (hl : LeadTo h s kind s')
    {P : RemoteExec → ExecAction → Prop} (hr : Reach (remoteSystem h lines) P s)
    (hp : ∀ a, kind a → P s a) : Reach (remoteSystem h lines) P s' := by
  obtain ⟨a, hkind, ha⟩ := hl.enabled lines
  rw [← hl.next_eq hkind ha]
  exact .step hr ha (hp a hkind)

/-- No request is under way. -/
structure Quiet (h : ExecHosts) (s : RemoteExec) (r : ExecRelay) : Prop where
  sees : Sees h True s r
  events : s.events = []
  sent : ∀ fd, r.sent fd = []
  waiting : r.waiting = []
  answered : ∀ fd, r.answered fd = []

/-- The runs in which every report finds one message, and commands run in turn. -/
abbrev Orderly (s : RemoteExec) (a : ExecAction) : Prop := s.Paced a ∧ s.InTurn a

/-- A line is dealt with from the prompt to the screen before anything else is done. -/
theorem Quiet.next_line (henv : h.env.Succeeds) (hq : Quiet h s r)
    (hr : Reach (remoteSystem h lines) Orderly s) {fd : ℕ} {rest : List (List UInt8)}
    (hask : r.asking fd = line :: rest) :
    ∃ s' r', Reach (remoteSystem h lines) Orderly s' ∧ Quiet h s' r' ∧
      r'.asking = Function.update r.asking fd rest := by
  obtain ⟨s₁, hs₁, he₁, hl₁⟩ := mainLoop_leads hq.sees hask ⟨0, 0⟩
  have hr₁ := hl₁.reach hr (by rintro a ⟨as, rfl⟩; exact ⟨trivial, trivial⟩)
  rw [hq.events] at he₁
  simp only [Relay.next, hask, hq.sent, List.nil_append] at hs₁
  cases hcmd : commandOf line with
  | none =>
      rw [hcmd] at hs₁
      refine ⟨s₁, _, hr₁, ⟨hs₁, he₁, fun j => ?_, hq.waiting, hq.answered⟩, rfl⟩
      by_cases hj : j = fd
      · subst hj
        exact Function.update_self ..
      · exact (Function.update_of_ne hj ..).trans (hq.sent j)
  | some cmd =>
      rw [hcmd, Option.toList_some] at hs₁
      -- the report
      have hone := (hs₁.client fd).atMostOne (by simp)
      have hup := (hs₁.client fd).up_ne_nil.mpr (by simp)
      have hedge : (s₁.client fd).edge = true := by
        have hold := hs₁.attended trivial fd
        rw [he₁, if_neg List.not_mem_nil] at hold
        exact hold.resolve_right (by simp)
      have hwait : (s₁.epollWait [fd]).isSome = true := by
        simp [RemoteExec.epollWait, he₁, hedge, hup]
      obtain ⟨s₂, hstep₂⟩ := Option.isSome_iff_exists.mp hwait
      have hpaced : s₁.Paced (.epollWait [fd]) := fun j hj => List.mem_singleton.mp hj ▸ hone
      obtain ⟨hs₂, -, he₂, -⟩ := epollWait_sees hs₁ hstep₂ fun _ => hpaced
      have hr₂ : Reach (remoteSystem h lines) Orderly s₂ := by
        have hnext : (remoteSystem h lines).next s₁ (.epollWait [fd]) = s₂ := by
          show (s₁.step h (.epollWait [fd])).getD s₁ = s₂
          rw [RemoteExec.step, hstep₂, Option.getD_some]
        rw [← hnext]
        exact .step hr₁ ⟨hwait, trivial⟩ ⟨hpaced, trivial⟩
      -- the loop, a worker, and the client's second thread
      obtain ⟨s₃, hs₃, he₃, hl₃⟩ := recvRequest_leads henv hs₂ he₂ ⟨0, 0⟩
        (fun a ha => absurd ha List.not_mem_nil : WriteLoops.Benign isRetry [])
      have hr₃ := hl₃.reach hr₂ (by rintro a ⟨as, rfl⟩; exact ⟨trivial, trivial⟩)
      simp only [Relay.next, Function.update_self, hq.waiting, List.nil_append] at hs₃
      obtain ⟨s₄, hs₄, he₄, hl₄⟩ := execCmd_leads henv hs₃ (i := 0) rfl ⟨0, 0⟩
      have hr₄ := hl₄.reach hr₃ (by
        rintro a ⟨as, rfl⟩
        exact ⟨trivial, fun j hj => absurd hj (Nat.not_lt_zero j)⟩)
      simp only [Relay.next, List.getElem?_cons_zero, hq.answered, List.nil_append] at hs₄
      obtain ⟨s₅, hs₅, he₅, hl₅⟩ := recvReply_leads hs₄ (Function.update_self ..)
      have hr₅ := hl₅.reach hr₄ (by rintro a ⟨as, rfl⟩; exact ⟨trivial, trivial⟩)
      simp only [Relay.next, Function.update_self] at hs₅
      refine ⟨s₅, _, hr₅, ⟨hs₅, by rw [he₅, he₄, he₃], fun j => ?_, rfl, fun j => ?_⟩, rfl⟩
      · by_cases hj : j = fd
        · subst hj
          exact Function.update_self ..
        · simp only [Function.update_of_ne hj, hq.sent]
      · by_cases hj : j = fd
        · subst hj
          exact Function.update_self ..
        · simp only [Function.update_of_ne hj, hq.answered]

theorem Sees.unpaced (hs : Sees h True s r) : Sees h False s r :=
  { hs with attended := False.elim }

/-- So all lines can be dealt with, one after the other. -/
theorem Quiet.exists_end (henv : h.env.Succeeds) (hq : Quiet h s r)
    (hr : Reach (remoteSystem h lines) Orderly s) {fds : Finset ℕ}
    (hfew : ∀ fd, fd ∉ fds → r.asking fd = []) :
    ∃ s', Reach (remoteSystem h lines) Orderly s' ∧
      AtRest (remoteSystem h lines) (fun _ _ => True) s' := by
  induction hn : ∑ fd ∈ fds, (r.asking fd).length generalizing s r with
  | zero =>
      have hasking : ∀ fd, r.asking fd = [] := by
        intro fd
        by_cases hfd : fd ∈ fds
        · exact List.eq_nil_of_length_eq_zero (Finset.sum_eq_zero_iff.mp hn fd hfd)
        · exact hfew fd hfd
      exact ⟨s, hr, atRest_of_done henv hq.sees.unpaced
        ⟨hasking, hq.sent, hq.waiting, hq.answered⟩⟩
  | succ n ih =>
      obtain ⟨fd, hfd, hne⟩ := Finset.exists_ne_zero_of_sum_ne_zero (hn.trans_ne n.succ_ne_zero)
      obtain ⟨line, rest, hask⟩ :=
        List.exists_cons_of_ne_nil (fun hnil => hne (List.length_eq_zero_iff.mpr hnil))
      obtain ⟨s', r', hr', hq', hasking⟩ := hq.next_line henv hr hask
      have hrest : ∀ j, j ≠ fd → r'.asking j = r.asking j := by
        intro j hj
        rw [hasking, Function.update_of_ne hj]
      refine ih hq' hr' (fun j hj => ?_) ?_
      · rw [hrest j fun heq => hj (heq ▸ hfd)]
        exact hfew j hj
      · have hlen : (r'.asking fd).length + 1 = (r.asking fd).length := by
          rw [hasking, Function.update_self, hask, List.length_cons]
        have hsum := Finset.add_sum_erase fds (fun j => (r.asking j).length) hfd
        have hsum' := Finset.add_sum_erase fds (fun j => (r'.asking j).length) hfd
        have hsame : ∑ j ∈ fds.erase fd, (r'.asking j).length =
            ∑ j ∈ fds.erase fd, (r.asking j).length :=
          Finset.sum_congr rfl fun j hj => by rw [hrest j (Finset.ne_of_mem_erase hj)]
        omega

/-- Some clients type some lines. -/
structure Typed (fds : Finset ℕ) (lines : ℕ → List (List UInt8)) : Prop where
  isLine : ∀ fd, ∀ line ∈ lines fd, ExecLine line
  few : ∀ fd, fd ∉ fds → lines fd = []

/-- Two hosts of either byte order, whose users ask for help and for `ls`. -/
def twoHosts : ExecHosts where
  client fd := if fd = 3 then .little else .big
  server := .big
  past _ := 0
  env := greetingEnv

def lsLine : List UInt8 := typedLine [32] lsArg

def twoUsers (fd : ℕ) : List (List UInt8) :=
  if fd = 3 then [helpText, lsLine] else if fd = 4 then [lsLine, lsLine] else []

theorem execLine_twoUsers : ∀ fd, ∀ line ∈ twoUsers fd, ExecLine line := by
  have hhelp : ExecLine helpText := ⟨by decide, by decide, by decide⟩
  have hls : ExecLine lsLine := ⟨by decide, by decide, by decide⟩
  intro fd line hline
  unfold twoUsers at hline
  split_ifs at hline <;> simp only [List.mem_cons, List.not_mem_nil, or_false] at hline
  · rcases hline with rfl | rfl
    · exact hhelp
    · exact hls
  · rcases hline with rfl | rfl <;> exact hls

theorem typed_twoUsers : Typed {3, 4} twoUsers where
  isLine := execLine_twoUsers
  few fd hfd := by
    simp only [Finset.mem_insert, Finset.mem_singleton, not_or] at hfd
    rw [twoUsers, if_neg hfd.1, if_neg hfd.2]

theorem exists_end_two : ∃ s, Reach (remoteSystem twoHosts twoUsers) Orderly s ∧
    AtRest (remoteSystem twoHosts twoUsers) (fun _ _ => True) s := by
  have hquiet : Quiet twoHosts (.start twoUsers) (.start twoUsers) :=
    ⟨start_sees twoUsers execLine_twoUsers, rfl, fun _ => rfl, rfl, fun _ => rfl⟩
  exact hquiet.exists_end greetingEnv_succeeds (.init rfl) typed_twoUsers.few

/-- What holds of a session at any time: of each client's commands some have been answered on
its screen and none twice; it comes to an end after so many steps at most; those that are not
answered then lie unread on the connection, with no report to come; and if each report has
found one message, there are none such. -/
structure AnsweredOnce (h : ExecHosts) (fds : Finset ℕ) (lines : ℕ → List (List UInt8))
    (s : RemoteExec) : Prop where
  shown : ∀ fd, ∃ cmds : List (List UInt8),
    (s.client fd).stdout = cmds.flatMap (screen h.env) ∧
      cmds.Subperm ((lines fd).filterMap commandOf)
  bounded : ∀ as, Legal (remoteSystem h lines) (fun _ _ => True) s as →
    as.length ≤ 8 * ∑ fd ∈ fds, (lines fd).length + 1
  ends : ∃ as, Legal (remoteSystem h lines) (fun _ _ => True) s as ∧
    AtRest (remoteSystem h lines) (fun _ _ => True) (exec (remoteSystem h lines) s as)
  unread : AtRest (remoteSystem h lines) (fun _ _ => True) s → ∀ fd, ∃ cmds left calls,
    (s.client fd).stdout = cmds.flatMap (screen h.env) ∧
      (cmds ++ left).Perm ((lines fd).filterMap commandOf) ∧
      (s.client fd).up = framesOf (h.client fd) calls ∧ List.Forall₂ Asks left calls ∧
      (left ≠ [] → (s.client fd).edge = false)
  complete : Reach (remoteSystem h lines) RemoteExec.Paced s →
    AtRest (remoteSystem h lines) (fun _ _ => True) s → ∀ fd, ∃ cmds : List (List UInt8),
      (s.client fd).stdout = cmds.flatMap (screen h.env) ∧
        cmds.Perm ((lines fd).filterMap commandOf)

/-- **Every command is answered once, on the screen of the client that asked.** -/
theorem remote_exec_once (h : ExecHosts) (henv : h.env.Succeeds) (fds : Finset ℕ)
    (lines : ℕ → List (List UInt8)) (hl : Typed fds lines) (s : RemoteExec)
    (hr : Reachable (remoteSystem h lines) s) : AnsweredOnce h fds lines s := by
  have hany : ∀ (s : RemoteExec) (a : ExecAction), True →
      (False → s.Paced a) ∧ (False → s.InTurn a) := fun _ _ _ => ⟨False.elim, False.elim⟩
  have hsim := remote_simulates (h := h) henv hl.isLine False False
  obtain ⟨r, hreach, hs⟩ := hsim.reach (hr.mono hany)
  have hreach : Reachable (relaySystem commandOf lines) r := hreach.mono fun _ _ _ => trivial
  obtain ⟨hamong, hcost⟩ := cost_le_of_reach hl.few hreach
  have hmeasure : Measure (relaySystem commandOf lines) (fun r b => False → r.InTurn b)
      (Relay.Among fds) (Relay.cost fds) := (relay_measure fds).mono fun _ _ _ => trivial
  have hrank := s.rank_le
  refine ⟨hs.shown hreach, fun as has => ?_, ?_, fun hrest => ?_, fun hpaced hrest => ?_⟩
  · have hlen := hsim.length_le hmeasure hs hamong (has.mono hany)
    omega
  · obtain ⟨as, has, hrest⟩ := hsim.exists_rest hmeasure hs hamong
    exact ⟨as, has.mono fun _ _ _ => trivial, fun a ha _ => hrest a ha (hany _ _ trivial)⟩
  · exact (stuck_of_atRest henv hs hrest).unread hs hreach
  · have hsim := remote_simulates (h := h) henv hl.isLine True False
    obtain ⟨r, hreach, hs⟩ := hsim.reach
      (hpaced.mono fun _ _ hp => ⟨fun _ => hp, False.elim⟩)
    exact (stuck_of_atRest henv hs hrest).all_shown hs (hreach.mono fun _ _ _ => trivial)

theorem remote_exec_once_two : ∃ s, Reach (remoteSystem twoHosts twoUsers) Orderly s ∧
    AtRest (remoteSystem twoHosts twoUsers) (fun _ _ => True) s ∧
    AnsweredOnce twoHosts {3, 4} twoUsers s := by
  obtain ⟨s, hr, hrest⟩ := exists_end_two
  exact ⟨s, hr, hrest, remote_exec_once twoHosts greetingEnv_succeeds {3, 4} twoUsers
    typed_twoUsers s (hr.mono fun _ _ _ => trivial)⟩

/-- **And in the order of typing, if the commands of a client run in turn.** -/
theorem remote_exec_in_order (h : ExecHosts) (henv : h.env.Succeeds)
    (lines : ℕ → List (List UInt8)) (hlines : ∀ fd, ∀ line ∈ lines fd, ExecLine line)
    (s : RemoteExec) (hr : Reach (remoteSystem h lines) RemoteExec.InTurn s) (fd : ℕ) :
    (∃ cmds : List (List UInt8), (s.client fd).stdout = cmds.flatMap (screen h.env) ∧
      cmds <+: (lines fd).filterMap commandOf) ∧
    (Reach (remoteSystem h lines) Orderly s →
      AtRest (remoteSystem h lines) (fun _ _ => True) s →
      (s.client fd).stdout = ((lines fd).filterMap commandOf).flatMap (screen h.env)) := by
  constructor
  · have hsim := remote_simulates (h := h) henv hlines False True
    obtain ⟨r, hreach, hs⟩ := hsim.reach
      (hr.mono fun _ _ hp => ⟨False.elim, fun _ => hp⟩)
    exact hs.shown_inTurn (hreach.mono fun _ _ hp => hp trivial) fd
  · intro horderly hrest
    have hsim := remote_simulates (h := h) henv hlines True True
    obtain ⟨r, hreach, hs⟩ := hsim.reach
      (horderly.mono fun _ _ hp => ⟨fun _ => hp.1, fun _ => hp.2⟩)
    exact (stuck_of_atRest henv hs hrest).all_inTurn hs
      (hreach.mono fun _ _ hp => hp trivial) fd

theorem remote_exec_in_order_two : ∃ s,
    Reach (remoteSystem twoHosts twoUsers) Orderly s ∧
    (s.client 3).stdout = screen greetingEnv lsArg ∧
    (s.client 4).stdout = screen greetingEnv lsArg ++ screen greetingEnv lsArg := by
  obtain ⟨s, hr, hrest⟩ := exists_end_two
  have hturn : Reach (remoteSystem twoHosts twoUsers) RemoteExec.InTurn s :=
    hr.mono fun _ _ hp => hp.2
  have hthree : (twoUsers 3).filterMap commandOf = [lsArg] := by decide
  have hfour : (twoUsers 4).filterMap commandOf = [lsArg, lsArg] := by decide
  have h₃ := (remote_exec_in_order twoHosts greetingEnv_succeeds twoUsers execLine_twoUsers s
    hturn 3).2 hr hrest
  have h₄ := (remote_exec_in_order twoHosts greetingEnv_succeeds twoUsers execLine_twoUsers s
    hturn 4).2 hr hrest
  rw [hthree, List.flatMap_singleton] at h₃
  rw [hfour, List.flatMap_cons, List.flatMap_singleton] at h₄
  exact ⟨s, hr, h₃, h₄⟩

end MyWorkEnv
