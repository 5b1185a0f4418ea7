import MyWorkEnv.MyUtils.Msg.Framing

/-!
# Hosts of different byte order

One message goes from a host of byte order `e` to a host of byte order `e'`.
The head converts field by field and its bit-fields lie in the same byte, so
all of it arrives. The 64-bit time stamp does not: `MyUtil_htonll` keeps the
halves where the host has them, and between hosts of different byte order
they come out exchanged (`recovers_iff`).
-/

namespace MyWorkEnv

open FixedWidth Transfer

/-- `RecvMsg` succeeded, with these fields of `msg` in its buffer. -/
structure Recovers (msg : MyMsg) (got : RecvCall) : Prop where
  ret : got.ret = mySuccess
  retMsg : ∃ m, got.retMsg = some m ∧
    m.head.type = msg.head.type ∧ m.head.contentLen = msg.head.contentLen ∧
    m.head.sessionId = msg.head.sessionId ∧ m.head.clientId = msg.head.clientId ∧
    m.head.isMsgEnd = msg.head.isMsgEnd ∧ m.tail.timeStamp = msg.tail.timeStamp

/-- The two ends of a connection: their byte orders, statistics and what the
kernels answer, the receiver's buffer, and what follows the message. -/
structure Link where
  sender : Endian
  receiver : Endian
  past : ℕ → UInt8
  sendStats : MyMsgStats
  recvStats : MyMsgStats
  writes : ℕ → WriteAnswer
  reads : ℕ → ReadAnswer
  retMsg : MyMsg
  later : List UInt8
  fin : Halt

/-- Both modules are initialised, and no call fails. -/
structure Link.ErrorFree (l : Link) : Prop where
  sendInited : l.sendStats.inited = true
  recvInited : l.recvStats.inited = true
  fairWrites : FairWrites isRetry l.writes
  fairReads : FairReads isRetry l.reads

/-- `SendMsg` has returned, and `RecvMsg` on the bytes it wrote. -/
structure Link.Exchange (l : Link) (msg : MyMsg) (tv : Timeval) (sent : SendCall)
    (got : RecvCall) : Prop where
  sends : ∃ n as', sendMsg l.sender l.past l.sendStats msg tv (firstAnswers l.writes n) =
    some (sent, as')
  receives : ∃ n as' inb', recvMsg l.receiver l.recvStats (some l.retMsg)
    (firstAnswers l.reads n) ⟨sent.chunks.flatten ++ l.later, l.fin⟩ = some (got, as', inb')

variable {l : Link} {msg : MyMsg} {tv : Timeval} {sent : SendCall} {got : RecvCall}

/-- Both calls return. -/
theorem Link.ErrorFree.exchange (h : l.ErrorFree) (tv : Timeval)
    (hlen : msg.head.contentLen.toNat ≤ myMsgContentMaxLen) :
    ∃ sent got, l.Exchange msg tv sent got := by
  obtain ⟨ns, hns⟩ := h.fairWrites.exists_grants (frame l.sender msg tv).length
  obtain ⟨sent, as', hsend, -, -, hwire, -, -⟩ := sendMsg_of_grants l.sender l.past tv
    h.sendInited hlen (h.fairWrites.firstAnswers_benign ns) hns
  obtain ⟨nr, hnr⟩ :=
    h.fairReads.exists_grants ((frame l.sender msg tv ++ l.later).length + 1)
  obtain ⟨got, bs', hrecv, -, -, -, -, -⟩ := recvMsg_frame l.sender l.receiver tv l.later l.fin
    l.retMsg h.recvInited hlen (h.fairReads.firstAnswers_benign nr) hnr
  exact ⟨sent, got, ⟨ns, as', hsend⟩, ⟨nr, bs', _, by rw [hwire]; exact hrecv⟩⟩

/-- Whatever the kernel answers, the sender's call comes to the same. -/
theorem Link.Exchange.sent_eq (h : l.Exchange msg tv sent got) (hl : l.ErrorFree)
    (hlen : msg.head.contentLen.toNat ≤ myMsgContentMaxLen) :
    sent.ret = mySuccess ∧ sent.msg = msg.stamped tv ∧
      sent.chunks.flatten = frame l.sender msg tv := by
  obtain ⟨n, as', hsend⟩ := h.sends
  obtain ⟨hret, hmsg, -, hwire, -⟩ :=
    sendMsg_benign hl.sendInited hlen (hl.fairWrites.firstAnswers_benign n) hsend
  exact ⟨hret, hmsg, hwire⟩

/-- And so does the receiver's. -/
theorem Link.Exchange.got_eq (h : l.Exchange msg tv sent got) (hl : l.ErrorFree)
    (hlen : msg.head.contentLen.toNat ≤ myMsgContentMaxLen) :
    got.ret = mySuccess ∧
      got.retMsg = some (delivered msg (betweenHosts l.sender l.receiver tv.ms)) := by
  obtain ⟨-, -, hwire⟩ := h.sent_eq hl hlen
  obtain ⟨n, as', inb', hrecv⟩ := h.receives
  rw [hwire] at hrecv
  obtain ⟨hret, hretMsg, -, -, -⟩ :=
    recvMsg_benign hl.recvInited hlen (hl.fairReads.firstAnswers_benign n) hrecv
  exact ⟨hret, hretMsg⟩

/-- Everything but the time stamp arrives between any two hosts. -/
theorem Link.Exchange.recovers_iff_stamp (h : l.Exchange msg tv sent got)
    (hl : l.ErrorFree) (hlen : msg.head.contentLen.toNat ≤ myMsgContentMaxLen) :
    Recovers (msg.stamped tv) got ↔ betweenHosts l.sender l.receiver tv.ms = tv.ms := by
  obtain ⟨hret, hretMsg⟩ := h.got_eq hl hlen
  constructor
  · rintro ⟨-, m, hm, -, -, -, -, -, hstamp⟩
    rw [hretMsg, Option.some.injEq] at hm
    rw [← hm] at hstamp
    exact hstamp
  · intro hstamp
    exact ⟨hret, _, hretMsg, rfl, rfl, rfl, rfl, rfl, hstamp⟩

/-- **Portability.** Over an error-free connection both calls succeed, and the
receiver recovers the message when and only when the two hosts have the same byte
order or the two halves of the time stamp are equal. -/
theorem recovers_iff (l : Link) (hl : l.ErrorFree) (msg : MyMsg) (tv : Timeval)
    (hlen : msg.head.contentLen.toNat ≤ myMsgContentMaxLen) :
    (∃ sent got, l.Exchange msg tv sent got) ∧
    ∀ sent got, l.Exchange msg tv sent got →
      sent.ret = mySuccess ∧ sent.msg = msg.stamped tv ∧
      (Recovers (msg.stamped tv) got ↔
        l.sender = l.receiver ∨ tv.ms.toNat / 2 ^ 32 = tv.ms.toNat % 2 ^ 32) := by
  refine ⟨hl.exchange tv hlen, ?_⟩
  intro sent got h
  obtain ⟨hret, hmsg, -⟩ := h.sent_eq hl hlen
  refine ⟨hret, hmsg, ?_⟩
  rw [h.recovers_iff_stamp hl hlen, betweenHosts_eq_iff]

/-- A little-endian host writes to a big-endian one. -/
def mixedLink : Link where
  sender := .little
  receiver := .big
  past := fun _ => 0
  sendStats := .fresh
  recvStats := .fresh
  writes := haltingWrites
  reads := haltingReads
  retMsg := hiMsg
  later := []
  fin := .closed

theorem mixedLink_errorFree : mixedLink.ErrorFree where
  sendInited := rfl
  recvInited := rfl
  fairWrites := fairWrites_halting
  fairReads := fairReads_halting

theorem recovers_iff_hi :
    (∃ sent got, mixedLink.Exchange hiMsg ⟨1, 500000⟩ sent got) ∧
    ∀ sent got, mixedLink.Exchange hiMsg ⟨1, 500000⟩ sent got →
      sent.ret = mySuccess ∧ sent.msg = hiMsg.stamped ⟨1, 500000⟩ ∧
      (Recovers (hiMsg.stamped ⟨1, 500000⟩) got ↔ mixedLink.sender = mixedLink.receiver ∨
        (Timeval.ms ⟨1, 500000⟩).toNat / 2 ^ 32 = (Timeval.ms ⟨1, 500000⟩).toNat % 2 ^ 32) :=
  recovers_iff mixedLink mixedLink_errorFree hiMsg ⟨1, 500000⟩ hiMsg_fits

/-- The stamp 1500 arrives as `1500 * 2 ^ 32`. -/
theorem stamp_exchanged :
    ∃ sent got, mixedLink.Exchange hiMsg ⟨1, 500000⟩ sent got ∧
      (∃ m, got.retMsg = some m ∧ m.tail.timeStamp = .ofNat (1500 * 2 ^ 32)) ∧
      ¬ Recovers (hiMsg.stamped ⟨1, 500000⟩) got := by
  obtain ⟨sent, got, h⟩ := mixedLink_errorFree.exchange ⟨1, 500000⟩ hiMsg_fits
  have hstamp : betweenHosts .little .big (Timeval.ms ⟨1, 500000⟩) = .ofNat (1500 * 2 ^ 32) := by
    decide
  refine ⟨sent, got, h, ⟨_, (h.got_eq mixedLink_errorFree hiMsg_fits).2, hstamp⟩, ?_⟩
  rw [h.recovers_iff_stamp mixedLink_errorFree hiMsg_fits]
  decide

end MyWorkEnv
