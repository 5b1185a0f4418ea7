import MyWorkEnv.MyUtils.Msg.Acceptance
import MyWorkEnv.Server.ServerMsgHandler

/-!
# Requests and their answers

Two questions about `answer`: does every request get one (`answered_once_iff`),
and can a client tell which of its requests an answer belongs to
(`replies_correlated_iff`)? The ids are looked up where a client finds them,
in the bytes on the wire. The handlers are a part of the loop's model in
`ServerProc`: each return is one of its steps (`handled_enabled`).
-/

namespace MyWorkEnv

open FixedWidth Transfer CString

variable {env : HandlerEnv} {fd : ℕ} {msg : MyMsg}

/-! ## One answer to each request -/

/-- All allocations, `TPoolAddTask`, `popen` and `SendMsg` succeed, and commands print
text. -/
structure HandlerEnv.Succeeds (env : HandlerEnv) : Prop where
  newMsgOk : env.newMsgOk = true
  callocOk : env.callocOk = true
  addTask : env.addTask = mySuccess
  sendRet : env.sendRet = mySuccess
  popen : ∀ cmd, ∃ output, env.popen cmd = some output ∧ 0 ∉ output

/-- A command that prints something or has a name, or any other request of two bytes. -/
def Answerable (env : HandlerEnv) (msg : MyMsg) : Prop :=
  (msg.head.type = myMsgTypeExecCmd →
    ∃ output, env.popen (command msg) = some output ∧ Speaks msg output) ∧
  (msg.head.type ≠ myMsgTypeExecCmd → 2 ≤ msg.head.contentLen.toNat)

theorem answer_execCmd (henv : env.callocOk = true ∧ env.newMsgOk = true ∧
      env.addTask = mySuccess) (htype : msg.head.type = myMsgTypeExecCmd) :
    answer env fd msg = (serverMsgExecCmdFn env ⟨fd, msg⟩).sends := by
  simp [answer, serverHandleMsg, htype, serverMsgExecCmd, henv]

theorem answer_default (htype : msg.head.type ≠ myMsgTypeExecCmd) :
    answer env fd msg = (serverDefaultMsgHandler env fd msg).sends := by
  simp [answer, serverHandleMsg, htype, task_serverDefaultMsgHandler]

/-- **Answers.** When nothing fails, a message short enough to be echoed is answered
once, on its own fd, if it is `Answerable` and not at all otherwise. -/
theorem answered_once_iff (env : HandlerEnv) (henv : env.Succeeds) (fd : ℕ) (msg : MyMsg)
    (hlen : msg.head.contentLen.toNat ≤ 1048567) :
    (∃ reply, answer env fd msg = [(fd, reply)]) ↔ Answerable env msg := by
  by_cases htype : msg.head.type = myMsgTypeExecCmd
  · obtain ⟨output, hpopen, hnul⟩ := henv.popen (command msg)
    rw [answer_execCmd ⟨henv.callocOk, henv.newMsgOk, henv.addTask⟩ htype,
      serverMsgExecCmdFn_sends_iff env ⟨fd, msg⟩ hpopen hnul]
    constructor
    · intro hspeaks
      exact ⟨fun _ => ⟨output, hpopen, hspeaks⟩, fun hne => absurd htype hne⟩
    · intro hanswer
      obtain ⟨output', hpopen', hspeaks⟩ := hanswer.1 htype
      rw [hpopen, Option.some.injEq] at hpopen'
      rw [hpopen']
      exact hspeaks
  · rw [answer_default htype]
    rcases serverDefaultMsgHandler_sends env fd msg with
      ⟨-, hechoes, reply, hsends, -⟩ | ⟨hnot, hsends⟩
    · exact iff_of_true ⟨reply, hsends⟩ ⟨fun h => absurd h htype, fun _ => hechoes.1⟩
    · refine iff_of_false ?_ ?_
      · rintro ⟨reply, hreply⟩
        rw [hsends] at hreply
        cases hreply
      · intro hanswer
        exact hnot ⟨henv.newMsgOk, hanswer.2 htype, hlen⟩

/-- Every command prints `"hi"` and a newline. -/
def greetingEnv : HandlerEnv where
  newMsgOk := true
  callocOk := true
  addTask := mySuccess
  sendRet := mySuccess
  popen _ := some (ascii ['h', 'i', '\n'])

theorem greetingEnv_succeeds : greetingEnv.Succeeds where
  newMsgOk := rfl
  callocOk := rfl
  addTask := rfl
  sendRet := rfl
  popen cmd := ⟨_, rfl, by decide⟩

theorem answered_once_iff_hi :
    (∃ reply, answer greetingEnv 5 hiMsg = [(5, reply)]) ↔ Answerable greetingEnv hiMsg :=
  answered_once_iff greetingEnv greetingEnv_succeeds 5 hiMsg (by decide)

/-- A request of type 3 without content. -/
def emptyMsg : MyMsg := { hiMsg with head := { hiMsg.head with contentLen := 0 } }

theorem emptyMsg_fits : emptyMsg.head.contentLen.toNat ≤ myMsgContentMaxLen := Nat.zero_le _

/-- It arrives, and is not answered. -/
theorem empty_request_unanswered :
    greetingEnv.Succeeds ∧
    ∃ as c as' inb' m, recvMsg .little .fresh (some (zeroMsg .little)) as
        ⟨frame .little emptyMsg ⟨1, 0⟩, .closed⟩ = some (c, as', inb') ∧
      c.ret = mySuccess ∧ c.retMsg = some m ∧ m.head.contentLen.toNat ≤ 1048567 ∧
      answer greetingEnv 5 m = [] := by
  have hinited : MyMsgStats.fresh.inited = true := rfl
  obtain ⟨n, c, as', hrecv, hreceived⟩ := recvMsg_delivers .little .little ⟨1, 0⟩ .closed
    (zeroMsg .little) hinited emptyMsg_fits (fairReads_const isRetry 63)
  obtain ⟨m, hm, -, -, -, htype, hlen, -⟩ := hreceived.retMsg
  have hzero : m.head.contentLen.toNat = 0 := by rw [hlen]; rfl
  have hne : m.head.type ≠ myMsgTypeExecCmd := by rw [htype]; decide
  refine ⟨greetingEnv_succeeds, _, c, as', _, m, hrecv, hreceived.ret, hm, by omega, ?_⟩
  rw [answer_default hne]
  rcases serverDefaultMsgHandler_sends greetingEnv 5 m with ⟨-, hechoes, -⟩ | ⟨-, hsends⟩
  · have htwo := hechoes.1
    omega
  · exact hsends

/-! ## Which request an answer belongs to -/

/-- The big-endian ids in header bytes 8..15. -/
def wireSessionId (bs : List UInt8) : UInt32 := .ofNat (load .big (field bs 8 4))
def wireClientId (bs : List UInt8) : UInt32 := .ofNat (load .big (field bs 12 4))

theorem field_append {as : List UInt8} {off len : ℕ} (h : off + len ≤ as.length)
    (bs : List UInt8) : field (as ++ bs) off len = field as off len := by
  rw [field, field, List.drop_append_of_le_length (by omega),
    List.take_append_of_le_length (by rw [List.length_drop]; omega)]

/-- Any host finds the ids of a message in what another one sends of it. -/
theorem wireIds_sendLoops (e : Endian) (past : ℕ → UInt8) (msg : MyMsg) (tv : Timeval) :
    wireSessionId (sendLoops e past msg tv).bytes = msg.head.sessionId ∧
      wireClientId (sendLoops e past msg tv).bytes = msg.head.clientId := by
  have hpieces := field_pieces
    (a := [msg.head.verMagic, flagsByte e 1 msg.head.reserved1])
    (b := store e 2 (htons e msg.head.type).toNat)
    (c := store e 4 (htonl e msg.head.contentLen).toNat)
    (d := store e 4 (htonl e msg.head.sessionId).toNat)
    (f := store e 4 (htonl e msg.head.clientId).toNat)
    (g := msg.head.reserved2.toList) rfl (length_store e 2 _) (length_store e 4 _)
    (length_store e 4 _) (length_store e 4 _) msg.head.reserved2.length_toList
  obtain ⟨-, -, hsession, hclient, -⟩ := hpieces
  have hhead : ∀ h : MyMsgHead, 12 + 4 ≤ (h.toMem e).length ∧ 8 + 4 ≤ (h.toMem e).length := by
    intro h
    rw [MyMsgHead.length_toMem]
    decide
  have hload : ∀ v : UInt32,
      UInt32.ofNat (load .big (store e 4 (htonl e v).toNat)) = v := by
    intro v
    rw [store_htonl, ofNat_load_store32]
  simp only [sendLoops, WriteLoops.bytes, wireSessionId, wireClientId]
  rw [field_append (hhead _).2, field_append (hhead _).1]
  simp only [MyMsgHead.toMem, MyMsgHead.hton]
  exact ⟨by rw [hsession, hload], by rw [hclient, hload]⟩

/-- What goes out in answer carries the ids of the request. -/
def Correlated (e : Endian) (past : ℕ → UInt8) (env : HandlerEnv) (fd : ℕ) (msg : MyMsg) :
    Prop :=
  ∀ send ∈ answer env fd msg, ∀ tv,
    wireSessionId (sendLoops e past send.2 tv).bytes = msg.head.sessionId ∧
      wireClientId (sendLoops e past send.2 tv).bytes = msg.head.clientId

/-- **Correlation.** The answers carry the ids of the request when and only when it is
an `EXEC_CMD`, has no ids, or gets no answer. -/
theorem replies_correlated_iff (e : Endian) (past : ℕ → UInt8) (env : HandlerEnv) (fd : ℕ)
    (msg : MyMsg) :
    Correlated e past env fd msg ↔ msg.head.type = myMsgTypeExecCmd ∨
      (msg.head.sessionId = 0 ∧ msg.head.clientId = 0) ∨
      ¬ (env.newMsgOk = true ∧ Echoes msg) := by
  unfold Correlated
  simp only [wireIds_sendLoops]
  by_cases htype : msg.head.type = myMsgTypeExecCmd
  · refine iff_of_true ?_ (Or.inl htype)
    intro send hsend _
    obtain ⟨hsends, htask⟩ := serverMsgExecCmd_task env fd msg
    rw [answer, serverHandleMsg, if_pos htype, hsends, List.nil_append] at hsend
    cases hk : (serverMsgExecCmd env fd msg).task with
    | none => simp [hk] at hsend
    | some arg =>
        rw [hk, htask arg hk] at hsend
        obtain ⟨-, hto⟩ := serverMsgExecCmdFn_repliesTo env ⟨fd, msg⟩ send hsend
        exact ⟨hto.sessionId, hto.clientId⟩
  · rw [answer_default htype, or_iff_right htype]
    rcases serverDefaultMsgHandler_sends env fd msg with
      ⟨hok, hechoes, reply, hsends, -, hsession, hclient, -⟩ | ⟨hnot, hsends⟩
    · rw [hsends, or_iff_left (not_not_intro ⟨hok, hechoes⟩)]
      constructor
      · intro hall
        have hids := hall (fd, reply) (List.mem_singleton_self _) ⟨0, 0⟩
        rw [hsession, hclient] at hids
        exact ⟨hids.1.symm, hids.2.symm⟩
      · rintro ⟨hs, hc⟩ send hsend -
        rw [List.mem_singleton.mp hsend, hsession, hclient, hs, hc]
        exact ⟨rfl, rfl⟩
    · rw [hsends]
      exact iff_of_true (fun send hsend => absurd hsend List.not_mem_nil) (Or.inr hnot)

/-- Session 1 of client 7 is answered as session 0 of client 0. -/
theorem reply_loses_ids :
    hiMsg.head.sessionId = 1 ∧ hiMsg.head.clientId = 7 ∧
    (∃ reply, answer greetingEnv 5 hiMsg = [(5, reply)] ∧
      ∀ tv, wireSessionId (sendLoops .little (fun _ => 0) reply tv).bytes = 0 ∧
        wireClientId (sendLoops .little (fun _ => 0) reply tv).bytes = 0) ∧
    ¬ Correlated .little (fun _ => 0) greetingEnv 5 hiMsg := by
  have htype : hiMsg.head.type ≠ myMsgTypeExecCmd := by decide
  rcases serverDefaultMsgHandler_sends greetingEnv 5 hiMsg with
    ⟨-, -, reply, hsends, -, hsession, hclient, -⟩ | ⟨hnot, -⟩
  · have hanswer : answer greetingEnv 5 hiMsg = [(5, reply)] := by
      rw [answer_default htype, hsends]
    have hids : ∀ tv, wireSessionId (sendLoops .little (fun _ => 0) reply tv).bytes = 0 ∧
        wireClientId (sendLoops .little (fun _ => 0) reply tv).bytes = 0 := by
      intro tv
      obtain ⟨hs, hc⟩ := wireIds_sendLoops .little (fun _ => 0) reply tv
      exact ⟨hs.trans hsession, hc.trans hclient⟩
    refine ⟨rfl, rfl, ⟨reply, hanswer, hids⟩, ?_⟩
    intro hcorr
    have hwire := hcorr (5, reply) (by rw [hanswer]; simp) ⟨0, 0⟩
    rw [(hids ⟨0, 0⟩).1] at hwire
    exact absurd hwire.1 (by decide)
  · exact absurd ⟨rfl, by decide, by decide⟩ hnot

/-! ## The handlers in the event loop -/

/-- The step of the loop that a return of `ServerHandleMsg` is. -/
def Handled.action (msg : MyMsg) (handled : Handled) (tv : Timeval) : ServerAction :=
  if msg.head.type = myMsgTypeExecCmd then .execCmd handled.task.isSome
  else
    match handled.sends with
    | [] => .noReply
    | (_, reply) :: _ => .reply reply tv

/-- Wherever the loop calls the handler, it may take the step that the handler makes. -/
theorem handled_enabled (senv : ServerEnv) (env : HandlerEnv) {s : Server} {fd c : ℕ}
    {rest : List EpollEvent} (hloop : s.loop = .handleMsg fd c msg rest) (tv : Timeval) :
    s.guard senv ((serverHandleMsg env fd (some msg)).action msg tv) = true := by
  unfold Handled.action
  by_cases htype : msg.head.type = myMsgTypeExecCmd
  · rw [if_pos htype]
    simp [Server.guard, hloop, htype]
  · rw [if_neg htype]
    cases (serverHandleMsg env fd (some msg)).sends with
    | nil => simp [Server.guard, hloop, htype]
    | cons send sends => simp [Server.guard, hloop, htype]

end MyWorkEnv
