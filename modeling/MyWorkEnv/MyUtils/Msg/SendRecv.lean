import MyWorkEnv.Lib.Transfer
import MyWorkEnv.MyUtils.Msg.Layout

/-!
# `SendMsg` and `RecvMsg`

Both functions of `myMsg.c` are three loops, past the head, the content and
the tail, each making one `send` or `recv` at a time until the part is through.
`sendLoops` and `recvLoops` are these loops as `Transfer` programs; `sendMsg`
and `recvMsg` add the tests before them and the statistics after them. The
result of a program carries the caller's `MY_MSG` as it stands when the loop
ends, also when it is cut short.

`SendMsg` reads the content from the memory behind the head, so a `ContentLen`
beyond the content array goes on into the tail and then past the object; the
bytes there are a parameter (`past`). The texts both functions log are not
modelled.
-/

namespace MyWorkEnv

open FixedWidth Transfer

/-- `(int)` of a `uint32_t`. -/
def cInt (v : UInt32) : ℤ := v.toBitVec.toInt

/-- `errno == EWOULDBLOCK || errno == EAGAIN` -/
def isRetry (errno : ℕ) : Bool := errno == eWouldBlock || errno == eAgain

structure MyMsgStats where
  msgSend : UInt32
  msgSendBytes : UInt64
  msgSendFailed : UInt32
  msgRecv : UInt32
  msgRecvBytes : UInt64
  msgRecvFailed : UInt32
  inited : Bool
deriving DecidableEq

/-- `sg_MsgStats` right after `MsgModuleInit`. -/
def MyMsgStats.fresh : MyMsgStats := ⟨0, 0, 0, 0, 0, 0, true⟩

/-- `ret` when a loop is cut short: `-MY_ERR_PEER_CLOSED` or `-errno`. -/
def haltCode : Halt → ℤ
  | .closed => -myErrPeerClosed
  | .error errno => -(errno : ℤ)

/-- A return code with the caller's message as the call left it. -/
structure MsgResult where
  ret : ℤ
  msg : MyMsg

def MyMsgHead.hton (e : Endian) (h : MyMsgHead) : MyMsgHead :=
  { h with
    type := htons e h.type
    contentLen := htonl e h.contentLen
    sessionId := htonl e h.sessionId
    clientId := htonl e h.clientId }

def MyMsgHead.ntoh (e : Endian) (h : MyMsgHead) : MyMsgHead :=
  { h with
    type := ntohs e h.type
    contentLen := ntohl e h.contentLen
    sessionId := ntohl e h.sessionId
    clientId := ntohl e h.clientId }

/-- In network order a head has the same bytes on every host. -/
theorem MyMsgHead.toMem_hton (e e' : Endian) (h : MyMsgHead) :
    (h.hton e).toMem e = (h.hton e').toMem e' := by
  simp only [MyMsgHead.toMem, MyMsgHead.hton, store_htons, store_htonl, flagsByte_eq e e']

@[simp] theorem MyMsgHead.ntoh_hton (e : Endian) (h : MyMsgHead) : (h.hton e).ntoh e = h := by
  simp [MyMsgHead.ntoh, MyMsgHead.hton]

/-! ## `RecvMsg` -/

/-- From the `memset` of `*RetMsg` to the end of the third loop. -/
def recvLoops (e : Endian) : ReadLoops UInt8 MsgResult :=
  .read sizeofMyMsgHead
    (fun got why => ⟨haltCode why, ⟨.ofMem e got, ⟨buffer _ []⟩, .ofMem e []⟩⟩)
    fun headMem =>
  let head := (MyMsgHead.ofMem e headMem).ntoh e
  let recvLen := cInt head.contentLen
  if recvLen > (myMsgContentMaxLen : ℤ) then
    .done ⟨-myEinval, ⟨head, ⟨buffer _ []⟩, .ofMem e []⟩⟩
  else
    -- a negative `recvLen` never enters the loop
    .read recvLen.toNat
      (fun got why => ⟨haltCode why, ⟨head, ⟨buffer _ got⟩, .ofMem e []⟩⟩)
      fun contMem =>
    .read sizeofMyMsgTail
      (fun got why => ⟨haltCode why, ⟨head, ⟨buffer _ contMem⟩, .ofMem e got⟩⟩)
      fun tailMem =>
    let tail := MyMsgTail.ofMem e tailMem
    .done ⟨mySuccess, ⟨head, ⟨buffer _ contMem⟩,
      { tail with timeStamp := myUtilNtohll e tail.timeStamp }⟩⟩

/-- Cut short, `RecvMsg` returns the code for the reason. -/
theorem recvLoops_haltsIn (e : Endian) {W : Halt → Prop} {Q : MsgResult → Prop}
    (h : ∀ why msg, W why → Q ⟨haltCode why, msg⟩) : (recvLoops e).HaltsIn W Q := by
  refine ⟨fun got why hwhy => h why _ hwhy, fun headMem => ?_⟩
  simp only
  split_ifs
  · trivial
  · refine ⟨fun got why hwhy => h why _ hwhy, fun contMem => ?_⟩
    exact ⟨fun got why hwhy => h why _ hwhy, fun tailMem => trivial⟩

/-- The statistics under `CommonReturn`: a closed peer counts as received. -/
def MyMsgStats.countRecv (s : MyMsgStats) (ret : ℤ) (contentLen : UInt32) : MyMsgStats :=
  if ret ≠ mySuccess ∧ ret ≠ -myErrPeerClosed then
    { s with msgRecvFailed := s.msgRecvFailed + 1 }
  else
    { s with
      msgRecv := s.msgRecv + 1
      msgRecvBytes := s.msgRecvBytes + (40 + contentLen.toUInt64 + 88) }

structure RecvCall where
  ret : ℤ
  retMsg : Option MyMsg
  stats : MyMsgStats
  consumed : ℕ

/-- `RecvMsg(Fd, RetMsg)`, with `none` for a `NULL` pointer. The value is
`none` while the call is still in a loop after these answers of the kernel. -/
def recvMsg (e : Endian) (stats : MyMsgStats) (retMsg : Option MyMsg)
    (as : List ReadAnswer) (inb : Inbound UInt8) :
    Option (RecvCall × List ReadAnswer × Inbound UInt8) :=
  if !stats.inited then
    some (⟨mySuccess, retMsg, stats, 0⟩, as, inb)
  else
    match retMsg with
    | none =>
        let stats' := { stats with msgRecvFailed := stats.msgRecvFailed + 1 }
        some (⟨-myEinval, none, stats', 0⟩, as, inb)
    | some _ =>
        match ReadLoops.run isRetry as (recvLoops e) inb with
        | none => none
        | some (out, as', inb') =>
            some (⟨out.ret, some out.msg, stats.countRecv out.ret out.msg.head.contentLen,
              inb.bytes.length - inb'.bytes.length⟩, as', inb')

/-- A call that has returned has run its loops to their end. -/
theorem recvMsg_eq_some {e : Endian} {stats : MyMsgStats} (hinited : stats.inited = true)
    {retMsg : MyMsg} {as as' : List ReadAnswer} {inb inb' : Inbound UInt8} {c : RecvCall}
    (h : recvMsg e stats (some retMsg) as inb = some (c, as', inb')) :
    ∃ out, ReadLoops.run isRetry as (recvLoops e) inb = some (out, as', inb') ∧
      c = ⟨out.ret, some out.msg, stats.countRecv out.ret out.msg.head.contentLen,
        inb.bytes.length - inb'.bytes.length⟩ := by
  cases hrun : ReadLoops.run isRetry as (recvLoops e) inb with
  | none => simp [recvMsg, hinited, hrun] at h
  | some o =>
      obtain ⟨out, rest, left⟩ := o
      simp only [recvMsg, hinited, hrun, Bool.not_true, Bool.false_eq_true, if_false,
        Option.some.injEq, Prod.mk.injEq] at h
      obtain ⟨rfl, rfl, rfl⟩ := h
      exact ⟨out, rfl, rfl⟩

/-- `RecvMsg` called `k` times in a row with the same buffer. -/
def recvMsgs (e : Endian) : ℕ → MyMsgStats → Option MyMsg → List ReadAnswer →
    Inbound UInt8 → Option (List RecvCall)
  | 0, _, _, _, _ => some []
  | k + 1, stats, retMsg, as, inb =>
      match recvMsg e stats retMsg as inb with
      | none => none
      | some (c, as', inb') =>
          match recvMsgs e k c.stats c.retMsg as' inb' with
          | none => none
          | some cs => some (c :: cs)

/-- The first of several calls. -/
theorem recvMsgs_succ {e : Endian} {k : ℕ} {stats : MyMsgStats} {retMsg : Option MyMsg}
    {as : List ReadAnswer} {inb : Inbound UInt8} {got : List RecvCall}
    (h : recvMsgs e (k + 1) stats retMsg as inb = some got) :
    ∃ c as' inb' cs, got = c :: cs ∧ recvMsg e stats retMsg as inb = some (c, as', inb') ∧
      recvMsgs e k c.stats c.retMsg as' inb' = some cs := by
  rw [recvMsgs] at h
  cases hrecv : recvMsg e stats retMsg as inb with
  | none => simp [hrecv] at h
  | some o =>
      obtain ⟨c, as', inb'⟩ := o
      cases hrest : recvMsgs e k c.stats c.retMsg as' inb' with
      | none => simp [hrecv, hrest] at h
      | some cs =>
          simp only [hrecv, hrest, Option.some.injEq] at h
          exact ⟨c, as', inb', cs, h.symm, rfl, hrest⟩

/-! ## `SendMsg` -/

structure Timeval where
  sec : ℕ
  usec : ℕ
deriving DecidableEq

/-- `tv.tv_sec * 1000 + tv.tv_usec / 1000` -/
def Timeval.ms (tv : Timeval) : UInt64 := .ofNat (tv.sec * 1000 + tv.usec / 1000)

/-- The byte `i` places behind the head in memory. -/
def byteAfterHead (e : Endian) (msg : MyMsg) (past : ℕ → UInt8) (i : ℕ) : UInt8 :=
  if h : i < myMsgContentMaxLen then msg.cont.varLenCont[i]
  else
    let j := i - myMsgContentMaxLen
    ((msg.tail.toMem e)[j]?).getD (past (j - sizeofMyMsgTail))

def afterHead (e : Endian) (msg : MyMsg) (past : ℕ → UInt8) (len : ℕ) : List UInt8 :=
  (List.range len).map (byteAfterHead e msg past)

/-- From `Msg->Head.IsMsgEnd = TRUE` to the end of the third loop; `tv` is what
`gettimeofday` reports between the second and the third. -/
def sendLoops (e : Endian) (past : ℕ → UInt8) (msg : MyMsg) (tv : Timeval) :
    WriteLoops UInt8 MsgResult :=
  let head := { msg.head with isMsgEnd := 1 }
  let netHead := head.hton e
  .write (netHead.toMem e) (fun why => ⟨haltCode why, { msg with head := netHead }⟩) <|
  let msg' := { msg with head := netHead.ntoh e }
  let sendLen := cInt msg'.head.contentLen
  .write (afterHead e msg' past sendLen.toNat) (fun why => ⟨haltCode why, msg'⟩) <|
  let tail := { msg'.tail with timeStamp := tv.ms }
  let netTail := { tail with timeStamp := myUtilHtonll e tail.timeStamp }
  .write (netTail.toMem e) (fun why => ⟨haltCode why, { msg' with tail := netTail }⟩) <|
  .done ⟨mySuccess, { msg' with
    tail := { netTail with timeStamp := myUtilNtohll e netTail.timeStamp } }⟩

/-- Cut short, `SendMsg` returns the code for the reason. -/
theorem sendLoops_haltsIn (e : Endian) (past : ℕ → UInt8) (msg : MyMsg) (tv : Timeval)
    {W : Halt → Prop} {Q : MsgResult → Prop} (h : ∀ why msg', W why → Q ⟨haltCode why, msg'⟩) :
    (sendLoops e past msg tv).HaltsIn W Q :=
  ⟨fun why hwhy => h why _ hwhy, fun why hwhy => h why _ hwhy, fun why hwhy => h why _ hwhy,
    trivial⟩

def MyMsgStats.countSend (s : MyMsgStats) (ret : ℤ) (contentLen : UInt32) : MyMsgStats :=
  if ret ≠ mySuccess then
    { s with msgSendFailed := s.msgSendFailed + 1 }
  else
    { s with
      msgSend := s.msgSend + 1
      msgSendBytes := s.msgSendBytes + (40 + contentLen.toUInt64 + 88) }

/-- `chunks` is what each `send` of the call put on the connection. -/
structure SendCall where
  ret : ℤ
  msg : MyMsg
  stats : MyMsgStats
  chunks : List (List UInt8)

/-- `SendMsg(Fd, Msg)` for a `Msg` that is not `NULL`. -/
def sendMsg (e : Endian) (past : ℕ → UInt8) (stats : MyMsgStats) (msg : MyMsg)
    (tv : Timeval) (as : List WriteAnswer) : Option (SendCall × List WriteAnswer) :=
  if !stats.inited then
    some (⟨mySuccess, msg, stats, []⟩, as)
  else
    match WriteLoops.run isRetry as (sendLoops e past msg tv) with
    | none => none
    | some (out, chunks, as') =>
        some (⟨out.ret, out.msg, stats.countSend out.ret out.msg.head.contentLen, chunks⟩, as')

theorem sendMsg_eq_some {e : Endian} {past : ℕ → UInt8} {stats : MyMsgStats}
    (hinited : stats.inited = true) {msg : MyMsg} {tv : Timeval} {as as' : List WriteAnswer}
    {c : SendCall} (h : sendMsg e past stats msg tv as = some (c, as')) :
    ∃ out chunks, WriteLoops.run isRetry as (sendLoops e past msg tv) = some (out, chunks, as') ∧
      c = ⟨out.ret, out.msg, stats.countSend out.ret out.msg.head.contentLen, chunks⟩ := by
  cases hrun : WriteLoops.run isRetry as (sendLoops e past msg tv) with
  | none => simp [sendMsg, hinited, hrun] at h
  | some o =>
      obtain ⟨out, chunks, rest⟩ := o
      simp only [sendMsg, hinited, hrun, Bool.not_true, Bool.false_eq_true, if_false,
        Option.some.injEq, Prod.mk.injEq] at h
      obtain ⟨rfl, rfl⟩ := h
      exact ⟨out, chunks, rfl, rfl⟩

/-- `SendMsg` called on the messages in order, each with its clock reading. -/
def sendMsgs (e : Endian) (past : ℕ → UInt8) : MyMsgStats → List (MyMsg × Timeval) →
    List WriteAnswer → Option (List SendCall)
  | _, [], _ => some []
  | stats, (msg, tv) :: calls, as =>
      match sendMsg e past stats msg tv as with
      | none => none
      | some (c, as') =>
          match sendMsgs e past c.stats calls as' with
          | none => none
          | some cs => some (c :: cs)

theorem sendMsgs_cons {e : Endian} {past : ℕ → UInt8} {stats : MyMsgStats} {msg : MyMsg}
    {tv : Timeval} {calls : List (MyMsg × Timeval)} {as : List WriteAnswer}
    {sent : List SendCall} (h : sendMsgs e past stats ((msg, tv) :: calls) as = some sent) :
    ∃ c as' cs, sent = c :: cs ∧ sendMsg e past stats msg tv as = some (c, as') ∧
      sendMsgs e past c.stats calls as' = some cs := by
  rw [sendMsgs] at h
  cases hsend : sendMsg e past stats msg tv as with
  | none => simp [hsend] at h
  | some o =>
      obtain ⟨c, as'⟩ := o
      cases hrest : sendMsgs e past c.stats calls as' with
      | none => simp [hsend, hrest] at h
      | some cs =>
          simp only [hsend, hrest, Option.some.injEq] at h
          exact ⟨c, as', cs, h.symm, rfl, hrest⟩

/-- The bytes a sequence of calls put on the connection. -/
def wireOf (cs : List SendCall) : List UInt8 := (cs.map fun c => c.chunks.flatten).flatten

end MyWorkEnv
