import MyWorkEnv.MyUtils.Msg.SendRecv

/-!
# Frames on the wire

`frame` is what `SendMsg` puts on a connection when nothing fails, and what
`RecvMsg` makes of a stream is computed once without the kernel's answers
(`recvLoops_frame`, `recvLoops_eval`). Both ends of a connection are then
compared on whole sequences of messages, and the streams `RecvMsg` accepts are
characterised.
-/

namespace MyWorkEnv

open FixedWidth Transfer

/-! ## What `SendMsg` writes -/

theorem cInt_of_lt {v : UInt32} (h : v.toNat < 2 ^ 31) : cInt v = v.toNat := by
  unfold cInt
  rw [BitVec.toInt_eq_toNat_cond]
  simp only [UInt32.toNat_toBitVec]
  rw [if_pos (by omega)]

theorem cInt_of_ge {v : UInt32} (h : 2 ^ 31 ≤ v.toNat) : cInt v < 0 := by
  have hv := v.toNat_lt
  unfold cInt
  rw [BitVec.toInt_eq_toNat_cond]
  simp only [UInt32.toNat_toBitVec]
  rw [if_neg (by omega)]
  omega

theorem afterHead_eq_take (e : Endian) (msg : MyMsg) (past : ℕ → UInt8) {len : ℕ}
    (h : len ≤ myMsgContentMaxLen) :
    afterHead e msg past len = msg.cont.varLenCont.toList.take len := by
  apply List.ext_getElem
  · simp [afterHead, h]
  · intro i h₁ h₂
    have hi : i < myMsgContentMaxLen := by
      simp [afterHead] at h₁
      omega
    simp [afterHead, byteAfterHead, hi]

/-- The bytes of one message: head in network order, content, stamped tail. -/
def frame (e : Endian) (msg : MyMsg) (tv : Timeval) : List UInt8 :=
  (({ msg.head with isMsgEnd := 1 } : MyMsgHead).hton e).toMem e ++
    msg.cont.varLenCont.toList.take msg.head.contentLen.toNat ++
    ({ msg.tail with timeStamp := myUtilHtonll e tv.ms } : MyMsgTail).toMem e

theorem length_frame {e : Endian} {msg : MyMsg} (tv : Timeval)
    (h : msg.head.contentLen.toNat ≤ myMsgContentMaxLen) :
    (frame e msg tv).length = 128 + msg.head.contentLen.toNat := by
  simp only [frame, List.length_append, MyMsgHead.length_toMem, MyMsgTail.length_toMem,
    List.length_take, Vector.length_toList, min_eq_left h]
  show 40 + msg.head.contentLen.toNat + 88 = 128 + msg.head.contentLen.toNat
  omega

theorem sendLoops_bytes (e : Endian) (past : ℕ → UInt8) {msg : MyMsg} (tv : Timeval)
    (h : msg.head.contentLen.toNat ≤ myMsgContentMaxLen) :
    (sendLoops e past msg tv).bytes = frame e msg tv := by
  have hlt : msg.head.contentLen.toNat < 2 ^ 31 := by
    unfold myMsgContentMaxLen at h
    omega
  simp only [sendLoops, WriteLoops.bytes, MyMsgHead.ntoh_hton, cInt_of_lt hlt, Int.toNat_natCast,
    afterHead_eq_take e _ past h, frame, List.append_assoc, List.append_nil]

/-- On success the caller has its message back in host order, stamped. -/
theorem sendLoops_final (e : Endian) (past : ℕ → UInt8) (msg : MyMsg) (tv : Timeval) :
    (sendLoops e past msg tv).final =
      ⟨mySuccess, { msg with
        head := { msg.head with isMsgEnd := 1 }
        tail := { msg.tail with timeStamp := tv.ms } }⟩ := by
  simp [sendLoops, WriteLoops.final]

/-- `*Msg` as `SendMsg` sends it: marked as the end of the message and stamped. -/
def MyMsg.stamped (msg : MyMsg) (tv : Timeval) : MyMsg :=
  { msg with
    head := { msg.head with isMsgEnd := 1 }
    tail := { msg.tail with timeStamp := tv.ms } }

/-- If nothing fails, all calls that return have done the same. -/
theorem sendMsg_benign {e : Endian} {past : ℕ → UInt8} {stats : MyMsgStats} {msg : MyMsg}
    {tv : Timeval} {as as' : List WriteAnswer} {c : SendCall} (hstats : stats.inited = true)
    (hlen : msg.head.contentLen.toNat ≤ myMsgContentMaxLen) (ha : WriteLoops.Benign isRetry as)
    (h : sendMsg e past stats msg tv as = some (c, as')) :
    c.ret = mySuccess ∧ c.msg = msg.stamped tv ∧
      c.stats = stats.countSend mySuccess msg.head.contentLen ∧
      c.chunks.flatten = frame e msg tv ∧ WriteLoops.Benign isRetry as' := by
  obtain ⟨out, chunks, hrun, rfl⟩ := sendMsg_eq_some hstats h
  obtain ⟨hbytes, hout⟩ := WriteLoops.run_benign ha hrun
  have hrest := WriteLoops.run_suffix hrun
  rw [sendLoops_bytes e past tv hlen] at hbytes
  rw [sendLoops_final] at hout
  refine ⟨by rw [hout], by rw [hout]; rfl, by rw [hout], hbytes, ?_⟩
  intro a hmem
  exact ha a (hrest.subset hmem)

/-! ## What `RecvMsg` makes of a frame -/

/-- The message the other end gets. -/
def delivered (msg : MyMsg) (stamp : UInt64) : MyMsg where
  head := { msg.head with isMsgEnd := 1 }
  cont := ⟨buffer _ (msg.cont.varLenCont.toList.take msg.head.contentLen.toNat)⟩
  tail := { msg.tail with timeStamp := stamp }

/-- A frame that a host of byte order `e` has sent, on a host of byte order `e'`. -/
theorem recvLoops_frame (e e' : Endian) {msg : MyMsg} (tv : Timeval)
    (h : msg.head.contentLen.toNat ≤ myMsgContentMaxLen) (rest : List UInt8) (fin : Halt) :
    (recvLoops e').eval ⟨frame e msg tv ++ rest, fin⟩ =
      (⟨mySuccess, delivered msg (betweenHosts e e' tv.ms)⟩, ⟨rest, fin⟩) := by
  have hlt : msg.head.contentLen.toNat < 2 ^ 31 := by
    unfold myMsgContentMaxLen at h
    omega
  have hcont : (msg.cont.varLenCont.toList.take msg.head.contentLen.toNat).length =
      msg.head.contentLen.toNat := by
    simpa using h
  have hfits : ¬ ((msg.head.contentLen.toNat : ℤ) > (myMsgContentMaxLen : ℤ)) := by omega
  unfold recvLoops frame
  rw [List.append_assoc, List.append_assoc,
    ReadLoops.eval_read_append (MyMsgHead.length_toMem e _), MyMsgHead.toMem_hton e e']
  simp only [MyMsgHead.ofMem_toMem, MyMsgHead.ntoh_hton, cInt_of_lt hlt, if_neg hfits,
    Int.toNat_natCast]
  rw [ReadLoops.eval_read_append hcont,
    ReadLoops.eval_read_append (MyMsgTail.length_toMem e _)]
  simp only [ReadLoops.eval, delivered, MyMsgTail.ofMem_toMem_between, myUtilNtohll_between]

/-- If nothing fails, all calls that return have received the same. -/
theorem recvMsg_benign {e e' : Endian} {stats : MyMsgStats} {msg retMsg : MyMsg}
    {tv : Timeval} {as as' : List ReadAnswer} {rest : List UInt8} {fin : Halt}
    {inb' : Inbound UInt8} {c : RecvCall} (hstats : stats.inited = true)
    (hlen : msg.head.contentLen.toNat ≤ myMsgContentMaxLen) (ha : ReadLoops.Benign isRetry as)
    (h : recvMsg e' stats (some retMsg) as ⟨frame e msg tv ++ rest, fin⟩ =
      some (c, as', inb')) :
    c.ret = mySuccess ∧ c.retMsg = some (delivered msg (betweenHosts e e' tv.ms)) ∧
      c.stats = stats.countRecv mySuccess msg.head.contentLen ∧ inb' = ⟨rest, fin⟩ ∧
      ReadLoops.Benign isRetry as' := by
  obtain ⟨out, hrun, rfl⟩ := recvMsg_eq_some hstats h
  have heval := ReadLoops.run_eq_eval ha hrun
  have hleft := ReadLoops.run_suffix hrun
  rw [recvLoops_frame e e' tv hlen, Prod.mk.injEq] at heval
  obtain ⟨rfl, rfl⟩ := heval
  refine ⟨rfl, rfl, rfl, rfl, ?_⟩
  intro errno hmem
  exact ha errno (hleft.subset hmem)

/-- Received from `msg`, stamped `stamp`, after exactly one frame. -/
structure Received (msg : MyMsg) (stamp : UInt64) (c : RecvCall) : Prop where
  ret : c.ret = mySuccess
  consumed : c.consumed = 128 + msg.head.contentLen.toNat
  retMsg : ∃ m, c.retMsg = some m ∧
    m.head.verMagic = msg.head.verMagic ∧ m.head.isMsgEnd = 1 ∧
    m.head.reserved1 = msg.head.reserved1 ∧ m.head.type = msg.head.type ∧
    m.head.contentLen = msg.head.contentLen ∧ m.head.sessionId = msg.head.sessionId ∧
    m.head.clientId = msg.head.clientId ∧ m.head.reserved2 = msg.head.reserved2 ∧
    (∀ (i : ℕ) (hi : i < myMsgContentMaxLen), m.cont.varLenCont[i] =
      if i < msg.head.contentLen.toNat then msg.cont.varLenCont[i] else 0) ∧
    m.tail.reserved = msg.tail.reserved ∧ m.tail.sign = msg.tail.sign ∧
    m.tail.timeStamp = stamp

theorem delivered_content (msg : MyMsg) (stamp : UInt64) {i : ℕ}
    (hi : i < myMsgContentMaxLen) :
    (delivered msg stamp).cont.varLenCont[i] =
      if i < msg.head.contentLen.toNat then msg.cont.varLenCont[i] else 0 := by
  simp only [delivered]
  rw [getElem_buffer]
  by_cases hlen : i < msg.head.contentLen.toNat
  · simp [List.getD_eq_getElem?_getD, hlen, hi]
  · simp [List.getD_eq_getElem?_getD, hlen]

/-! ## Whole sequences of messages -/

@[simp] theorem MyMsgStats.inited_countSend (s : MyMsgStats) (ret : ℤ) (len : UInt32) :
    (s.countSend ret len).inited = s.inited := by
  unfold countSend
  split <;> rfl

@[simp] theorem MyMsgStats.inited_countRecv (s : MyMsgStats) (ret : ℤ) (len : UInt32) :
    (s.countRecv ret len).inited = s.inited := by
  unfold countRecv
  split <;> rfl

/-- The bytes of a sequence of messages sent one after another. -/
def framesOf (e : Endian) (calls : List (MyMsg × Timeval)) : List UInt8 :=
  (calls.map fun call => frame e call.1 call.2).flatten

/-- What a caller of `SendMsg` sees of a call that went well. -/
structure Sent (tv : Timeval) (c : SendCall) : Prop where
  ret : c.ret = mySuccess
  stamp : c.msg.tail.timeStamp = tv.ms

theorem sendMsg_of_grants (e : Endian) (past : ℕ → UInt8) {stats : MyMsgStats} {msg : MyMsg}
    (tv : Timeval) {as : List WriteAnswer} (hstats : stats.inited = true)
    (hlen : msg.head.contentLen.toNat ≤ myMsgContentMaxLen)
    (ha : WriteLoops.Benign isRetry as) (hg : (frame e msg tv).length ≤ WriteLoops.grants as) :
    ∃ c as', sendMsg e past stats msg tv as = some (c, as') ∧ Sent tv c ∧
      c.stats.inited = true ∧ c.chunks.flatten = frame e msg tv ∧
      WriteLoops.Benign isRetry as' ∧
      WriteLoops.grants as ≤ WriteLoops.grants as' + (frame e msg tv).length := by
  have hbytes := sendLoops_bytes e past tv hlen
  rw [← hbytes] at hg
  obtain ⟨out, chunks, as', hrun, hb, hle⟩ := WriteLoops.run_of_grants ha hg
  obtain ⟨hchunks, hout⟩ := WriteLoops.run_benign ha hrun
  rw [hbytes] at hchunks hle
  rw [sendLoops_final] at hout
  refine ⟨_, as', by simp only [sendMsg, hstats, hrun]; rfl, ⟨?_, ?_⟩, ?_, hchunks, hb, hle⟩
  · simp [hout]
  · simp [hout]
  · simpa using hstats

/-- Every call returns, and together they put the frames on the connection. -/
theorem sendMsgs_of_grants (e : Endian) (past : ℕ → UInt8)
    {calls : List (MyMsg × Timeval)} {stats : MyMsgStats} {as : List WriteAnswer}
    (hlen : ∀ call ∈ calls, call.1.head.contentLen.toNat ≤ myMsgContentMaxLen)
    (hstats : stats.inited = true) (ha : WriteLoops.Benign isRetry as)
    (hg : (framesOf e calls).length ≤ WriteLoops.grants as) :
    ∃ sent, sendMsgs e past stats calls as = some sent ∧
      List.Forall₂ (fun call c => Sent call.2 c) calls sent ∧
      wireOf sent = framesOf e calls := by
  induction calls generalizing stats as with
  | nil => exact ⟨[], rfl, .nil, rfl⟩
  | cons call calls ih =>
      obtain ⟨msg, tv⟩ := call
      have hsplit : framesOf e ((msg, tv) :: calls) = frame e msg tv ++ framesOf e calls := rfl
      rw [hsplit, List.length_append] at hg
      have hmsg : msg.head.contentLen.toNat ≤ myMsgContentMaxLen := hlen (msg, tv) (by simp)
      obtain ⟨c, as', hsend, hsent, hinited, hchunks, hb, hle⟩ :=
        sendMsg_of_grants e past tv hstats hmsg ha (by omega)
      obtain ⟨cs, hsends, hsents, hwire⟩ :=
        ih (fun call h => hlen call (List.mem_cons_of_mem _ h)) hinited hb (by omega)
      refine ⟨c :: cs, by simp only [sendMsgs, hsend, hsends], .cons hsent hsents, ?_⟩
      rw [hsplit, ← hwire, ← hchunks]
      rfl

theorem recvLoops_runs (e : Endian) {as : List ReadAnswer} (ha : ReadLoops.Benign isRetry as)
    (inb : Inbound UInt8) (hg : inb.bytes.length < ReadLoops.grants as) :
    ∃ r as' inb', ReadLoops.run isRetry as (recvLoops e) inb = some (r, as', inb') ∧
      ReadLoops.Benign isRetry as' ∧
      ReadLoops.grants as + inb'.bytes.length ≤ ReadLoops.grants as' + inb.bytes.length + 1 :=
  ReadLoops.run_of_grants ha hg

theorem recvMsg_frame (e e' : Endian) {stats : MyMsgStats} {msg : MyMsg} (tv : Timeval)
    {as : List ReadAnswer} (rest : List UInt8) (fin : Halt) (retMsg : MyMsg)
    (hstats : stats.inited = true)
    (hlen : msg.head.contentLen.toNat ≤ myMsgContentMaxLen) (ha : ReadLoops.Benign isRetry as)
    (hg : (frame e msg tv ++ rest).length < ReadLoops.grants as) :
    ∃ c as', recvMsg e' stats (some retMsg) as ⟨frame e msg tv ++ rest, fin⟩ =
        some (c, as', ⟨rest, fin⟩) ∧ Received msg (betweenHosts e e' tv.ms) c ∧
      (∃ m, c.retMsg = some m) ∧ c.stats.inited = true ∧ ReadLoops.Benign isRetry as' ∧
      ReadLoops.grants as ≤ ReadLoops.grants as' + (frame e msg tv).length + 1 := by
  obtain ⟨out, as', inb', hrun, hb, hle⟩ :=
    recvLoops_runs e' ha ⟨frame e msg tv ++ rest, fin⟩ hg
  have heval := ReadLoops.run_eq_eval ha hrun
  rw [recvLoops_frame e e' tv hlen, Prod.mk.injEq] at heval
  obtain ⟨rfl, rfl⟩ := heval
  refine ⟨_, as', by simp only [recvMsg, hstats, hrun]; rfl, ⟨rfl, ?_, ?_⟩,
    ⟨_, rfl⟩, ?_, hb, ?_⟩
  · simp [length_frame tv hlen]
  · refine ⟨_, rfl, rfl, rfl, rfl, rfl, rfl, rfl, rfl, rfl, ?_, rfl, rfl, rfl⟩
    intro i hi
    exact delivered_content msg _ hi
  · simpa using hstats
  · simp only [List.length_append] at hle
    omega

/-- A frame by itself, on a schedule that goes on delivering. -/
theorem recvMsg_delivers (e e' : Endian) {stats : MyMsgStats} {msg : MyMsg} (tv : Timeval)
    (fin : Halt) (retMsg : MyMsg) (hstats : stats.inited = true)
    (hlen : msg.head.contentLen.toNat ≤ myMsgContentMaxLen) {σ : ℕ → ReadAnswer}
    (hσ : FairReads isRetry σ) :
    ∃ n c as', recvMsg e' stats (some retMsg) (firstAnswers σ n) ⟨frame e msg tv, fin⟩ =
      some (c, as', ⟨[], fin⟩) ∧ Received msg (betweenHosts e e' tv.ms) c := by
  obtain ⟨n, hn⟩ := hσ.exists_grants ((frame e msg tv ++ []).length + 1)
  obtain ⟨c, as', hrecv, hreceived, -⟩ := recvMsg_frame e e' tv [] fin retMsg hstats hlen
    (hσ.firstAnswers_benign n) hn
  rw [List.append_nil] at hrecv
  exact ⟨n, c, as', hrecv, hreceived⟩

/-- The k-th call delivers the k-th message, whatever follows on the stream. -/
theorem recvMsgs_frames {e : Endian} {calls : List (MyMsg × Timeval)} {stats : MyMsgStats}
    {as : List ReadAnswer} {later : List UInt8} {fin : Halt} (retMsg : MyMsg)
    (hlen : ∀ call ∈ calls, call.1.head.contentLen.toNat ≤ myMsgContentMaxLen)
    (hstats : stats.inited = true) (ha : ReadLoops.Benign isRetry as)
    (hg : (framesOf e calls).length + later.length + calls.length ≤ ReadLoops.grants as) :
    ∃ got, recvMsgs e calls.length stats (some retMsg) as ⟨framesOf e calls ++ later, fin⟩ =
        some got ∧
      List.Forall₂ (fun call c => Received call.1 call.2.ms c) calls got := by
  induction calls generalizing stats as retMsg with
  | nil => exact ⟨[], rfl, .nil⟩
  | cons call calls ih =>
      obtain ⟨msg, tv⟩ := call
      have hsplit : framesOf e ((msg, tv) :: calls) = frame e msg tv ++ framesOf e calls := rfl
      rw [hsplit, List.length_append, List.length_cons] at hg
      have hmsg : msg.head.contentLen.toNat ≤ myMsgContentMaxLen := hlen (msg, tv) (by simp)
      obtain ⟨c, as', hrecv, hreceived, ⟨m, hm⟩, hinited, hb, hle⟩ :=
        recvMsg_frame e e tv (framesOf e calls ++ later) fin retMsg hstats hmsg ha
          (by simp only [List.length_append]; omega)
      rw [betweenHosts_self] at hreceived
      obtain ⟨cs, hrecvs, hall⟩ :=
        ih m (fun call h => hlen call (List.mem_cons_of_mem _ h)) hinited hb (by omega)
      refine ⟨c :: cs, ?_, .cons hreceived hall⟩
      simp only [List.length_cons, recvMsgs, hsplit, List.append_assoc, hrecv, hm, hrecvs]

/-- **Round trip.** Both ends in the same byte order: whatever the kernel
makes of the `send` and `recv` calls, each message arrives as it was sent. -/
theorem sendMsgs_recvMsgs (e : Endian) (past : ℕ → UInt8) (calls : List (MyMsg × Timeval))
    (hlen : ∀ call ∈ calls, call.1.head.contentLen.toNat ≤ myMsgContentMaxLen)
    {stats stats' : MyMsgStats} (hstats : stats.inited = true)
    (hstats' : stats'.inited = true) {σs : ℕ → WriteAnswer} {σr : ℕ → ReadAnswer}
    (hs : FairWrites isRetry σs) (hr : FairReads isRetry σr) (retMsg : MyMsg)
    (later : List UInt8) (fin : Halt) :
    ∃ ns sent, sendMsgs e past stats calls (firstAnswers σs ns) = some sent ∧
      List.Forall₂ (fun call c => Sent call.2 c) calls sent ∧
      ∃ nr got, recvMsgs e calls.length stats' (some retMsg) (firstAnswers σr nr)
          ⟨wireOf sent ++ later, fin⟩ = some got ∧
        List.Forall₂ (fun call c => Received call.1 call.2.ms c) calls got := by
  obtain ⟨ns, hns⟩ := hs.exists_grants (framesOf e calls).length
  obtain ⟨sent, hsend, hsent, hwire⟩ :=
    sendMsgs_of_grants e past hlen hstats (hs.firstAnswers_benign ns) hns
  obtain ⟨nr, hnr⟩ :=
    hr.exists_grants ((framesOf e calls).length + later.length + calls.length)
  obtain ⟨got, hrecv, hall⟩ :=
    recvMsgs_frames (e := e) retMsg hlen hstats' (hr.firstAnswers_benign nr) hnr
  exact ⟨ns, sent, hsend, hsent, nr, got, by rw [hwire]; exact hrecv, hall⟩

/-- Every other call has to be repeated, the rest move seven bytes at most. -/
def haltingWrites (i : ℕ) : WriteAnswer := if i % 2 = 0 then .fail eAgain else .wrote 7
def haltingReads (i : ℕ) : ReadAnswer := if i % 2 = 0 then .fail eWouldBlock else .upTo 6

theorem fairWrites_halting : FairWrites isRetry haltingWrites where
  benign := by
    intro i
    unfold haltingWrites
    split
    · exact ⟨by simp, by simp [isRetry]⟩
    · exact ⟨by simp, by simp⟩
  recurs := by
    intro i
    refine ⟨2 * i + 1, by omega, ?_⟩
    simp [haltingWrites, Nat.add_mod, WriteLoops.isGrant]

theorem fairReads_halting : FairReads isRetry haltingReads where
  benign := by
    intro i e he
    unfold haltingReads at he
    split at he
    · cases he
      rfl
    · simp at he
  recurs := by
    intro i
    refine ⟨2 * i + 1, by omega, ?_⟩
    simp [haltingReads, Nat.add_mod, ReadLoops.isGrant]

/-- `"hi"` of type 3, as a client with id 7 sends it. -/
def hiMsg : MyMsg where
  head := ⟨myMsgVerMagic, 0, 0, 3, 2, 1, 7, buffer 24 []⟩
  cont := ⟨buffer _ [0x68, 0x69]⟩
  tail := ⟨buffer 16 [], 0, buffer 64 []⟩

theorem hiMsg_fits : hiMsg.head.contentLen.toNat ≤ myMsgContentMaxLen := by decide

def hiCalls : List (MyMsg × Timeval) := [(hiMsg, ⟨1, 500000⟩), (hiMsg, ⟨2, 0⟩)]

theorem hiCalls_fit : ∀ call ∈ hiCalls, call.1.head.contentLen.toNat ≤ myMsgContentMaxLen := by
  intro call h
  simp only [hiCalls, List.mem_cons, List.not_mem_nil, or_false] at h
  rcases h with rfl | rfl <;> exact hiMsg_fits

theorem sendMsgs_recvMsgs_hi :
    ∃ ns sent, sendMsgs .little (fun _ => 0) .fresh hiCalls (firstAnswers haltingWrites ns) =
        some sent ∧
      List.Forall₂ (fun call c => Sent call.2 c) hiCalls sent ∧
      ∃ nr got, recvMsgs .little hiCalls.length .fresh (some hiMsg)
          (firstAnswers haltingReads nr) ⟨wireOf sent ++ [], .closed⟩ = some got ∧
        List.Forall₂ (fun call c => Received call.1 call.2.ms c) hiCalls got :=
  sendMsgs_recvMsgs .little (fun _ => 0) hiCalls hiCalls_fit rfl rfl fairWrites_halting
    fairReads_halting hiMsg [] .closed

end MyWorkEnv
