import MyWorkEnv.Lib.Transition
import MyWorkEnv.MyUtils.Msg.Acceptance

/-!
# The message statistics

`sg_MsgStats` is written in one place of each function, under `CommonReturn`
and a spin lock, so a run of the module is a sequence of finished calls, in
the order in which they get there. Beside the counters stands what they ought
to count: the content length of every call that returned `MY_SUCCESS`. The
counters agree with it as long as no `RecvMsg` finds that the peer has closed
(`stats_exact_iff_run`): it then fails with `-MY_ERR_PEER_CLOSED`, and is
counted as received.
-/

namespace MyWorkEnv

open FixedWidth Transfer Transition

/-- Positive, and not taken for one of the module's own codes. -/
def IsErrno (errno : ℕ) : Prop := 0 < errno ∧ (errno : ℤ) ≠ myErrPeerClosed

/-- A call of the module, with all that the kernel answers to it. -/
inductive MsgCall where
  | sendMsg (past : ℕ → UInt8) (msg : MyMsg) (tv : Timeval) (as : List WriteAnswer)
  | recvMsg (retMsg : Option MyMsg) (as : List ReadAnswer) (inb : Inbound UInt8)

/-- The statistics, and the content lengths of the calls that succeeded. -/
structure MsgCalls where
  stats : MyMsgStats
  sent : List UInt32
  received : List UInt32

/-- `lens` with `len` if the call succeeded. -/
def noteSuccess (ret : ℤ) (len : UInt32) (lens : List UInt32) : List UInt32 :=
  if ret = mySuccess then lens ++ [len] else lens

/-- A call may be made if it returns, after these answers and no others. -/
def MsgCalls.canCall (e : Endian) (s : MsgCalls) : MsgCall → Prop
  | .sendMsg past msg tv as =>
      (∀ errno, WriteAnswer.fail errno ∈ as → IsErrno errno) ∧
        ∃ c as', sendMsg e past s.stats msg tv as = some (c, as')
  | .recvMsg retMsg as inb =>
      (∀ errno, ReadAnswer.fail errno ∈ as → IsErrno errno) ∧
        (∀ errno, inb.fin = .error errno → IsErrno errno) ∧
        ∃ c inb', recvMsg e s.stats retMsg as inb = some (c, [], inb')

def MsgCalls.call (e : Endian) (s : MsgCalls) : MsgCall → MsgCalls
  | .sendMsg past msg tv as =>
      match sendMsg e past s.stats msg tv as with
      | none => s
      | some (c, _) =>
          { s with stats := c.stats, sent := noteSuccess c.ret msg.head.contentLen s.sent }
  | .recvMsg retMsg as inb =>
      match recvMsg e s.stats retMsg as inb with
      | none => s
      | some (c, _, _) =>
          { s with
            stats := c.stats
            received := noteSuccess c.ret (.ofNat (wireContentLen inb.bytes)) s.received }

/-- The module on one host, from `MsgModuleInit` on. -/
def msgModule (e : Endian) : System MsgCalls MsgCall where
  init s := s = ⟨.fresh, [], []⟩
  enabled s a := s.canCall e a
  next s a := s.call e a

/-! ## What the counters should say -/

/-- Head, content and tail of messages with these content lengths. -/
def totalBytes (lens : List UInt32) : ℕ := (lens.map fun len => 128 + len.toNat).sum

/-- A pair of counters shows these messages. -/
structure Shows (count : UInt32) (bytes : UInt64) (lens : List UInt32) : Prop where
  count : count = .ofNat lens.length
  bytes : bytes = .ofNat (totalBytes lens)

structure ExactStats (s : MsgCalls) : Prop where
  sent : Shows s.stats.msgSend s.stats.msgSendBytes s.sent
  received : Shows s.stats.msgRecv s.stats.msgRecvBytes s.received

@[simp] theorem totalBytes_append (lens : List UInt32) (len : UInt32) :
    totalBytes (lens ++ [len]) = totalBytes lens + (128 + len.toNat) := by
  simp [totalBytes]

/-- One more message in the counters. -/
theorem Shows.snoc {count : UInt32} {bytes : UInt64} {lens : List UInt32}
    (h : Shows count bytes lens) (len : UInt32) :
    Shows (count + 1) (bytes + (40 + len.toUInt64 + 88)) (lens ++ [len]) := by
  constructor
  · rw [h.count, List.length_append, UInt32.ofNat_add]
    rfl
  · have hlen : (40 + len.toUInt64 + 88 : UInt64) = .ofNat (128 + len.toNat) := by
      have hlt := len.toNat_lt
      apply UInt64.toNat_inj.mp
      simp only [UInt64.toNat_add, UInt64.toNat_ofNat', UInt32.toNat_toUInt64]
      simp only [UInt64.reduceToNat]
      omega
    rw [h.bytes, totalBytes_append, UInt64.ofNat_add, hlen]

/-- A message counted that was none. -/
theorem Shows.not_succ {count : UInt32} {bytes bytes' : UInt64} {lens : List UInt32}
    (h : Shows count bytes lens) : ¬ Shows (count + 1) bytes' lens := by
  intro h'
  have hsame : (count + 1).toNat = count.toNat := by rw [h'.count, h.count]
  have hlt := count.toNat_lt
  rw [UInt32.toNat_add, UInt32.toNat_one] at hsame
  omega

/-! ## `SendMsg` -/

variable {e : Endian} {stats : MyMsgStats}

theorem countSend_of_ne {ret : ℤ} (h : ret ≠ mySuccess) (len : UInt32) :
    stats.countSend ret len = { stats with msgSendFailed := stats.msgSendFailed + 1 } :=
  if_pos h

theorem countSend_success (len : UInt32) : stats.countSend mySuccess len =
    { stats with
      msgSend := stats.msgSend + 1
      msgSendBytes := stats.msgSendBytes + (40 + len.toUInt64 + 88) } :=
  if_neg fun h => h rfl

theorem haltCode_ne_success {why : Halt} (h : ∀ errno, why = .error errno → IsErrno errno) :
    haltCode why ≠ mySuccess := by
  cases why with
  | closed => decide
  | error errno =>
      have hpos : 0 < errno := (h errno rfl).1
      simp only [haltCode, mySuccess]
      omega

/-- A finished call has counted the message it was given, or a failure. -/
theorem sendMsg_counts (hinited : stats.inited = true) {past : ℕ → UInt8} {msg : MyMsg}
    {tv : Timeval} {as as' : List WriteAnswer} {c : SendCall}
    (ha : ∀ errno, WriteAnswer.fail errno ∈ as → IsErrno errno)
    (h : sendMsg e past stats msg tv as = some (c, as')) :
    (c.ret = mySuccess ∧ c.stats = stats.countSend mySuccess msg.head.contentLen) ∨
      (c.ret ≠ mySuccess ∧
        c.stats = { stats with msgSendFailed := stats.msgSendFailed + 1 }) := by
  obtain ⟨out, chunks, hrun, rfl⟩ := sendMsg_eq_some hinited h
  have hcut : (sendLoops e past msg tv).HaltsIn
      (fun why => ∀ errno, why = .error errno → IsErrno errno)
      (fun r => r.ret ≠ mySuccess) :=
    sendLoops_haltsIn e past msg tv fun why _ hwhy => haltCode_ne_success hwhy
  have hW : ∀ errno, WriteAnswer.fail errno ∈ as →
      ∀ errno', Halt.error errno = .error errno' → IsErrno errno' := by
    intro errno hmem errno' heq
    rw [← Halt.error.inj heq]
    exact ha errno hmem
  rcases WriteLoops.run_final_or hcut (by simp) hW hrun with hfinal | hfailed
  · left
    rw [sendLoops_final] at hfinal
    rw [hfinal]
    exact ⟨rfl, rfl⟩
  · right
    exact ⟨hfailed, countSend_of_ne hfailed _⟩

/-! ## `RecvMsg` -/

/-- The stream ends inside a message. -/
def Truncated (bs : List UInt8) : Prop :=
  bs.length < 40 ∨ Passes bs ∧ bs.length < 128 + contentWanted bs

/-- The peer closes before the call has a whole message. -/
def MsgCall.peerCloses : MsgCall → Prop
  | .recvMsg (some _) as inb =>
      inb.fin = .closed ∧ Truncated inb.bytes ∧ ReadLoops.Benign isRetry as
  | _ => False

theorem countRecv_success (len : UInt32) : stats.countRecv mySuccess len =
    { stats with
      msgRecv := stats.msgRecv + 1
      msgRecvBytes := stats.msgRecvBytes + (40 + len.toUInt64 + 88) } :=
  if_neg fun h => h.1 rfl

theorem countRecv_peerClosed (len : UInt32) : stats.countRecv (-myErrPeerClosed) len =
    { stats with
      msgRecv := stats.msgRecv + 1
      msgRecvBytes := stats.msgRecvBytes + (40 + len.toUInt64 + 88) } :=
  if_neg fun h => h.2 rfl

theorem countRecv_failed {ret : ℤ} (h : ret ≠ mySuccess) (h' : ret ≠ -myErrPeerClosed)
    (len : UInt32) :
    stats.countRecv ret len = { stats with msgRecvFailed := stats.msgRecvFailed + 1 } :=
  if_pos ⟨h, h'⟩

/-- What a `RecvMsg` leaves in its result and its statistics, where `closed` says
that the peer closed and `len` is the length on the wire. -/
inductive RecvCounts (stats : MyMsgStats) (closed : Prop) (len : UInt32) (c : RecvCall) : Prop
  | success (hnot : ¬ closed) (hret : c.ret = mySuccess)
      (hstats : c.stats = stats.countRecv mySuccess len)
  | peerClosed (hclosed : closed) (hret : c.ret = -myErrPeerClosed)
      (hstats : ∃ len', c.stats = stats.countRecv (-myErrPeerClosed) len')
  | failed (hnot : ¬ closed) (hret : c.ret ≠ mySuccess)
      (hstats : c.stats = { stats with msgRecvFailed := stats.msgRecvFailed + 1 })

theorem haltCode_failed {why : Halt} (hwhy : ∃ errno, why = .error errno ∧ IsErrno errno) :
    haltCode why ≠ mySuccess ∧ haltCode why ≠ -myErrPeerClosed := by
  obtain ⟨errno, rfl, hpos, hne⟩ := hwhy
  simp only [haltCode, mySuccess]
  exact ⟨by omega, by omega⟩

theorem not_passes_of_not_truncated {bs : List UInt8} (h40 : 40 ≤ bs.length)
    (hp : ¬ Passes bs) : ¬ Truncated bs := by
  rintro (hlt | ⟨hp', -⟩)
  · omega
  · exact hp hp'

/-- The loops on answers that are all delivered or retried. -/
theorem recvLoops_outcome (e : Endian) (bs : List UInt8) (fin : Halt) :
    (¬ Truncated bs ∧ ((recvLoops e).eval ⟨bs, fin⟩).1.ret = mySuccess ∧
      ((recvLoops e).eval ⟨bs, fin⟩).1.msg.head.contentLen = .ofNat (wireContentLen bs)) ∨
    (¬ Truncated bs ∧ ((recvLoops e).eval ⟨bs, fin⟩).1.ret = -myEinval) ∨
    (Truncated bs ∧ ((recvLoops e).eval ⟨bs, fin⟩).1.ret = haltCode fin) := by
  by_cases h40 : 40 ≤ bs.length
  · by_cases hp : Passes bs
    · obtain ⟨hfull, hshort⟩ := recvLoops_eval_passes (e := e) h40 hp fin
      by_cases hlen : 128 + contentWanted bs ≤ bs.length
      · obtain ⟨hret, hcontent, -⟩ := hfull hlen
        left
        refine ⟨?_, hret, ?_⟩
        · rintro (hlt | ⟨-, hlt⟩)
          · omega
          · omega
        · apply UInt32.toNat_inj.mp
          rw [hcontent, toNat_wireContentLen]
      · right
        right
        exact ⟨Or.inr ⟨hp, by omega⟩, (hshort (by omega)).1⟩
    · right
      left
      have hlens : myMsgContentMaxLen < wireContentLen bs ∧ wireContentLen bs < 2 ^ 31 := by
        rw [Passes, not_or] at hp
        exact ⟨by omega, by omega⟩
      exact ⟨not_passes_of_not_truncated h40 hp,
        (recvLoops_eval_tooLong h40 fin hlens.1 hlens.2).1⟩
  · right
    right
    exact ⟨Or.inl (by omega), (recvLoops_eval_short_head (by omega) fin).1⟩

/-- A finished call has counted the message on the wire, a failure, or the end of
the connection. -/
theorem recvMsg_counts (hinited : stats.inited = true) {retMsg : MyMsg}
    {as : List ReadAnswer} {inb inb' : Inbound UInt8} {c : RecvCall}
    (ha : ∀ errno, ReadAnswer.fail errno ∈ as → IsErrno errno)
    (hfin : ∀ errno, inb.fin = .error errno → IsErrno errno)
    (h : recvMsg e stats (some retMsg) as inb = some (c, [], inb')) :
    RecvCounts stats (MsgCall.recvMsg (some retMsg) as inb).peerCloses
      (.ofNat (wireContentLen inb.bytes)) c := by
  obtain ⟨out, hrun, rfl⟩ := recvMsg_eq_some hinited h
  by_cases hb : ReadLoops.Benign isRetry as
  · have heval := ReadLoops.run_eq_eval hb hrun
    obtain ⟨bs, fin⟩ := inb
    have hout := recvLoops_outcome e bs fin
    rw [heval] at hout
    simp only at hout
    rcases hout with ⟨hnot, hret, hlen⟩ | ⟨hnot, hret⟩ | ⟨htrunc, hret⟩
    · refine .success (fun hc => hnot hc.2.1) hret ?_
      simp only [hret, hlen]
    · have hne : out.ret ≠ mySuccess ∧ out.ret ≠ -myErrPeerClosed := by
        rw [hret]
        decide
      exact .failed (fun hc => hnot hc.2.1) hne.1 (countRecv_failed hne.1 hne.2 _)
    · cases fin with
      | closed => exact .peerClosed ⟨rfl, htrunc, hb⟩ hret ⟨_, by simp only [hret]; rfl⟩
      | error errno =>
          have hne := haltCode_failed ⟨errno, rfl, hfin errno rfl⟩
          rw [← hret] at hne
          refine .failed ?_ hne.1 (countRecv_failed hne.1 hne.2 _)
          rintro ⟨hc, -⟩
          cases hc
  · have hcut : (recvLoops e).HaltsIn (fun why => ∃ errno, why = .error errno ∧ IsErrno errno)
        (fun r => r.ret ≠ mySuccess ∧ r.ret ≠ -myErrPeerClosed) :=
      recvLoops_haltsIn e fun why _ hwhy => haltCode_failed hwhy
    have hne := ReadLoops.run_of_failure hcut
      (fun errno hmem _ => ⟨errno, rfl, ha errno hmem⟩) hb hrun
    exact .failed (fun hc => hb hc.2.2) hne.1 (countRecv_failed hne.1 hne.2 _)

/-! ## Runs -/

variable {s : MsgCalls}

theorem MsgCalls.call_inited {a : MsgCall} (h : s.stats.inited = true) :
    (s.call e a).stats.inited = true := by
  cases a with
  | sendMsg past msg tv as =>
      simp only [MsgCalls.call, sendMsg, h, Bool.not_true, Bool.false_eq_true, if_false]
      cases WriteLoops.run isRetry as (sendLoops e past msg tv) with
      | none => exact h
      | some o => simpa using h
  | recvMsg retMsg as inb =>
      simp only [MsgCalls.call, recvMsg, h, Bool.not_true, Bool.false_eq_true, if_false]
      cases retMsg with
      | none => rfl
      | some retMsg =>
          simp only
          cases ReadLoops.run isRetry as (recvLoops e) inb with
          | none => exact h
          | some o => simpa using h

theorem inited_of_reachable (h : Reachable (msgModule e) s) : s.stats.inited = true := by
  refine h.invariant (I := fun s => s.stats.inited = true) ?_ ?_
  · rintro s rfl
    rfl
  · intro s a hs _ _
    exact s.call_inited hs

theorem ExactStats.call_sendMsg (h : ExactStats s) (hinited : s.stats.inited = true)
    {past : ℕ → UInt8} {msg : MyMsg} {tv : Timeval} {as : List WriteAnswer}
    (ha : s.canCall e (.sendMsg past msg tv as)) :
    ExactStats (s.call e (.sendMsg past msg tv as)) := by
  obtain ⟨herrno, c, as', hcall⟩ := ha
  simp only [MsgCalls.call, hcall]
  rcases sendMsg_counts hinited herrno hcall with ⟨hret, hstats⟩ | ⟨hret, hstats⟩
  · rw [hstats, countSend_success, noteSuccess, if_pos hret]
    exact ⟨h.sent.snoc _, h.received⟩
  · rw [hstats, noteSuccess, if_neg hret]
    exact ⟨h.sent, h.received⟩

theorem ExactStats.call_recvMsg_iff (h : ExactStats s) (hinited : s.stats.inited = true)
    {retMsg : MyMsg} {as : List ReadAnswer} {inb : Inbound UInt8}
    (ha : s.canCall e (.recvMsg (some retMsg) as inb)) :
    ExactStats (s.call e (.recvMsg (some retMsg) as inb)) ↔
      ¬ (MsgCall.recvMsg (some retMsg) as inb).peerCloses := by
  obtain ⟨herrno, hfin, c, inb', hcall⟩ := ha
  simp only [MsgCalls.call, hcall]
  cases recvMsg_counts hinited herrno hfin hcall with
  | success hnot hret hstats =>
      refine iff_of_true ?_ hnot
      rw [hstats, countRecv_success, noteSuccess, if_pos hret]
      exact ⟨h.sent, h.received.snoc _⟩
  | peerClosed hclosed hret hstats =>
      obtain ⟨len', hstats⟩ := hstats
      have hne : c.ret ≠ mySuccess := by rw [hret]; decide
      refine iff_of_false ?_ (not_not_intro hclosed)
      rw [hstats, countRecv_peerClosed, noteSuccess, if_neg hne]
      intro h'
      exact h.received.not_succ h'.received
  | failed hnot hret hstats =>
      refine iff_of_true ?_ hnot
      rw [hstats, noteSuccess, if_neg hret]
      exact ⟨h.sent, h.received⟩

/-- **One call.** Exact statistics stay exact unless the peer closes. -/
theorem exactStats_call_iff (h : ExactStats s) (hinited : s.stats.inited = true) {a : MsgCall}
    (ha : s.canCall e a) : ExactStats (s.call e a) ↔ ¬ a.peerCloses := by
  cases a with
  | sendMsg past msg tv as => exact iff_of_true (h.call_sendMsg hinited ha) fun hc => hc
  | recvMsg retMsg as inb =>
      cases retMsg with
      | some retMsg => exact h.call_recvMsg_iff hinited ha
      | none =>
          refine iff_of_true ?_ fun hc => hc
          -- a `NULL` pointer counts as a failure
          simp only [MsgCalls.call, recvMsg, hinited, Bool.not_true, Bool.false_eq_true, if_false]
          exact ⟨h.sent, h.received⟩

theorem exactStats_fresh : ExactStats ⟨.fresh, [], []⟩ := ⟨⟨rfl, rfl⟩, ⟨rfl, rfl⟩⟩

/-! ## The two ends of a connection -/

/-- What one end has sent is what the other has received. -/
structure SameTotals (sender receiver : MyMsgStats) : Prop where
  count : sender.msgSend = receiver.msgRecv
  bytes : sender.msgSendBytes = receiver.msgRecvBytes

/-- The statistics after a sequence of calls. -/
def statsAfterSends (stats : MyMsgStats) (cs : List SendCall) : MyMsgStats :=
  cs.foldl (fun _ c => c.stats) stats

def statsAfterRecvs (stats : MyMsgStats) (cs : List RecvCall) : MyMsgStats :=
  cs.foldl (fun _ c => c.stats) stats

theorem SameTotals.count_both {stats' : MyMsgStats} (h : SameTotals stats stats')
    (len : UInt32) :
    SameTotals (stats.countSend mySuccess len) (stats'.countRecv mySuccess len) := by
  rw [countSend_success, countRecv_success]
  exact ⟨congrArg (· + 1) h.count, congrArg (· + (40 + len.toUInt64 + 88)) h.bytes⟩

/-- If no call fails, the totals agree, whatever the byte orders. -/
theorem SameTotals.exchange {e' : Endian} {past : ℕ → UInt8} {calls : List (MyMsg × Timeval)}
    (hlen : ∀ call ∈ calls, call.1.head.contentLen.toNat ≤ myMsgContentMaxLen)
    {stats' : MyMsgStats} (h : SameTotals stats stats') (hstats : stats.inited = true)
    (hstats' : stats'.inited = true) {as : List WriteAnswer}
    (ha : WriteLoops.Benign isRetry as) {bs : List ReadAnswer}
    (hb : ReadLoops.Benign isRetry bs) {retMsg : MyMsg} {later : List UInt8} {fin : Halt}
    {sent : List SendCall} (hs : sendMsgs e past stats calls as = some sent)
    {got : List RecvCall}
    (hr : recvMsgs e' calls.length stats' (some retMsg) bs ⟨wireOf sent ++ later, fin⟩ =
      some got) :
    SameTotals (statsAfterSends stats sent) (statsAfterRecvs stats' got) := by
  induction calls generalizing stats stats' as bs retMsg sent got with
  | nil =>
      simp only [sendMsgs, List.length_nil, recvMsgs, Option.some.injEq] at hs hr
      rw [← hs, ← hr]
      exact h
  | cons call calls ih =>
      obtain ⟨msg, tv⟩ := call
      have hmsg : msg.head.contentLen.toNat ≤ myMsgContentMaxLen := hlen (msg, tv) (by simp)
      have hlen' : ∀ call ∈ calls, call.1.head.contentLen.toNat ≤ myMsgContentMaxLen :=
        fun call hc => hlen call (List.mem_cons_of_mem _ hc)
      obtain ⟨c, as', cs, rfl, hsend, hsends⟩ := sendMsgs_cons hs
      obtain ⟨-, -, hcount, hwire, ha'⟩ := sendMsg_benign hstats hmsg ha hsend
      have hsplit : wireOf (c :: cs) ++ later = frame e msg tv ++ (wireOf cs ++ later) := by
        rw [← hwire, ← List.append_assoc]
        rfl
      rw [hsplit, List.length_cons] at hr
      obtain ⟨d, bs', inb', ds, rfl, hrecv, hrecvs⟩ := recvMsgs_succ hr
      obtain ⟨-, hretMsg, hcount', rfl, hb'⟩ := recvMsg_benign hstats' hmsg hb hrecv
      rw [hretMsg] at hrecvs
      have hboth : SameTotals c.stats d.stats := by
        rw [hcount, hcount']
        exact h.count_both _
      exact ih hlen' hboth (by rw [hcount]; simpa using hstats)
        (by rw [hcount']; simpa using hstats') ha' hb' hsends hrecvs

/-- **Statistics.** In every run of the module the counters show what the
successful calls have moved, throughout, when and only when no `RecvMsg` of it finds
its peer gone before a message is complete; and over an error-free connection the
totals of the two ends agree. -/
theorem stats_exact_iff_run (e : Endian) :
    (∀ as : List MsgCall, Legal (msgModule e) (fun _ _ => True) ⟨.fresh, [], []⟩ as →
      (Always (msgModule e) ExactStats ⟨.fresh, [], []⟩ as ↔
        Legal (msgModule e) (fun _ a => ¬ a.peerCloses) ⟨.fresh, [], []⟩ as)) ∧
    ∀ (e' : Endian) (past : ℕ → UInt8) (calls : List (MyMsg × Timeval)) (σs : ℕ → WriteAnswer)
      (σr : ℕ → ReadAnswer) (retMsg : MyMsg) (later : List UInt8) (fin : Halt),
      (∀ call ∈ calls, call.1.head.contentLen.toNat ≤ myMsgContentMaxLen) →
      FairWrites isRetry σs → FairReads isRetry σr →
      ∀ ns sent nr got, sendMsgs e past .fresh calls (firstAnswers σs ns) = some sent →
        recvMsgs e' calls.length .fresh (some retMsg) (firstAnswers σr nr)
          ⟨wireOf sent ++ later, fin⟩ = some got →
        SameTotals (statsAfterSends .fresh sent) (statsAfterRecvs .fresh got) := by
  constructor
  · intro as hl
    refine Legal.always_iff ?_ (.init rfl) exactStats_fresh hl
    intro s a hr hexact ha _
    exact exactStats_call_iff hexact (inited_of_reachable hr) ha
  · intro e' past calls σs σr retMsg later fin hlen hs hr ns sent nr got hsend hrecv
    exact SameTotals.exchange hlen ⟨rfl, rfl⟩ rfl rfl (hs.firstAnswers_benign ns)
      (hr.firstAnswers_benign nr) hsend hrecv

/-- A frame that is received whole, on a connection that the peer then closes. -/
def wholeCall : MsgCall :=
  .recvMsg (some (zeroMsg .little)) [.upTo 4095, .upTo 4095, .upTo 4095] ⟨wholeFrame, .closed⟩

/-- `"hi"`, of which every write takes one byte. -/
def hiCall : MsgCall := .sendMsg (fun _ => 0) hiMsg ⟨1, 500000⟩ (List.replicate 130 (.wrote 1))

theorem hiCall_enabled {s : MsgCalls} (hinited : s.stats.inited = true) :
    s.canCall .little hiCall := by
  have hbenign : WriteLoops.Benign isRetry (List.replicate 130 (.wrote 1)) := by
    intro a ha
    rw [List.eq_of_mem_replicate ha]
    decide
  have hgrants : WriteLoops.grants (List.replicate 130 (.wrote 1)) = 130 := by
    rw [WriteLoops.grants, List.countP_replicate]
    rfl
  have hlen : hiMsg.head.contentLen.toNat = 2 := by decide
  obtain ⟨c, as', hsend, -⟩ := sendMsg_of_grants .little (fun _ => 0) ⟨1, 500000⟩ hinited
    hiMsg_fits hbenign (by rw [hgrants, length_frame _ hiMsg_fits, hlen])
  exact ⟨by simp, c, as', hsend⟩

theorem wholeCall_keeps : ¬ wholeCall.peerCloses := by
  rintro ⟨-, htruncated, -⟩
  have hlen : wireContentLen wholeFrame = 2 := by decide
  have hbytes : wholeFrame.length = 130 := by simp [wholeFrame]
  have hwanted : contentWanted wholeFrame = wireContentLen wholeFrame :=
    contentWanted_of_lt (by omega)
  rcases htruncated with hlt | ⟨-, hlt⟩
  · change wholeFrame.length < 40 at hlt
    omega
  · change wholeFrame.length < 128 + contentWanted wholeFrame at hlt
    omega

/-- The two calls are counted as they should be; and two messages, sent and received with
retries, are as many at both ends. -/
theorem stats_exact_both :
    Always (msgModule .little) ExactStats ⟨.fresh, [], []⟩ [wholeCall, hiCall] ∧
      ∃ ns sent nr got,
        sendMsgs .little (fun _ => 0) .fresh hiCalls (firstAnswers haltingWrites ns) = some sent ∧
        recvMsgs .little hiCalls.length .fresh (some hiMsg) (firstAnswers haltingReads nr)
          ⟨wireOf sent ++ [], .closed⟩ = some got ∧
        SameTotals (statsAfterSends .fresh sent) (statsAfterRecvs .fresh got) := by
  obtain ⟨hruns, hends⟩ := stats_exact_iff_run .little
  have hfresh : MyMsgStats.fresh.inited = true := rfl
  constructor
  · have hwhole : MsgCalls.canCall .little ⟨.fresh, [], []⟩ wholeCall :=
      ⟨by simp, by simp, _, _, rfl⟩
    have hhi : MsgCalls.canCall .little (MsgCalls.call .little ⟨.fresh, [], []⟩ wholeCall) hiCall :=
      hiCall_enabled (MsgCalls.call_inited hfresh)
    exact (hruns [wholeCall, hiCall] ⟨hwhole, trivial, hhi, trivial, trivial⟩).mpr
      ⟨hwhole, wholeCall_keeps, hhi, fun h => h, trivial⟩
  · obtain ⟨ns, hns⟩ := fairWrites_halting.exists_grants (framesOf .little hiCalls).length
    obtain ⟨sent, hsend, -, hwire⟩ := sendMsgs_of_grants .little (fun _ => 0) hiCalls_fit hfresh
      (fairWrites_halting.firstAnswers_benign ns) hns
    obtain ⟨nr, hnr⟩ := fairReads_halting.exists_grants
      ((framesOf .little hiCalls).length + ([] : List UInt8).length + hiCalls.length)
    obtain ⟨got, hrecv, -⟩ := recvMsgs_frames hiMsg hiCalls_fit hfresh
      (fairReads_halting.firstAnswers_benign nr) hnr
    rw [← hwire] at hrecv
    exact ⟨ns, sent, nr, got, hsend, hrecv, hends .little (fun _ => 0) hiCalls haltingWrites
      haltingReads hiMsg [] .closed hiCalls_fit fairWrites_halting fairReads_halting ns sent nr got
      hsend hrecv⟩

/-- `RecvMsg` on a connection that the peer closes without a word. -/
def goneCall : MsgCall := .recvMsg (some (zeroMsg .little)) [.upTo 0] ⟨[], .closed⟩

/-- A message of 128 bytes is counted that never was. -/
theorem stats_count_gone :
    Legal (msgModule .little) (fun _ _ => True) ⟨.fresh, [], []⟩ [goneCall] ∧
    (exec (msgModule .little) ⟨.fresh, [], []⟩ [goneCall]).received = [] ∧
    (exec (msgModule .little) ⟨.fresh, [], []⟩ [goneCall]).stats.msgRecv = 1 ∧
    (exec (msgModule .little) ⟨.fresh, [], []⟩ [goneCall]).stats.msgRecvBytes = 128 ∧
    ¬ Always (msgModule .little) ExactStats ⟨.fresh, [], []⟩ [goneCall] := by
  have hcall : ∃ c inb', recvMsg .little .fresh (some (zeroMsg .little)) [.upTo 0]
      ⟨[], .closed⟩ = some (c, [], inb') := ⟨_, _, rfl⟩
  have hcount : (exec (msgModule .little) ⟨.fresh, [], []⟩ [goneCall]).stats.msgRecv = 1 := rfl
  have hlog : (exec (msgModule .little) ⟨.fresh, [], []⟩ [goneCall]).received = [] := rfl
  refine ⟨⟨⟨by simp, by simp, hcall⟩, trivial, trivial⟩, hlog, hcount, by decide, ?_⟩
  rintro ⟨-, hexact⟩
  have hzero := hexact.received.count
  exact absurd (hcount.symm.trans hzero) (by decide)

end MyWorkEnv
