import MyWorkEnv.MyUtils.Msg.Acceptance
import MyWorkEnv.Server.ReplyRouting

/-!
# Edge-triggered client fds

Client fds are edge triggered, and the loop makes one `RecvMsg` for each
report. A second message that is already in the receive buffer then has no
report to come (`second_message_unread`). As long as every report finds at most
one complete message, none is left behind (`no_message_unread`).

What carries the proof is `Fine`: the buffer starts at a frame boundary as soon
as the call under way is through, and unless an edge is pending, the report or
the call under way takes care of the one complete message there may be.
-/

namespace MyWorkEnv

open FixedWidth Transfer Transition

/-- The bytes begin with a complete message. -/
def HoldsMessage (bs : List UInt8) : Prop :=
  40 ≤ bs.length ∧ 128 + wireContentLen bs ≤ bs.length

instance HoldsMessage.decidable (bs : List UInt8) : Decidable (HoldsMessage bs) :=
  inferInstanceAs (Decidable (_ ∧ _))

def AtMostOneMessage (bs : List UInt8) : Prop :=
  HoldsMessage bs → ¬ HoldsMessage (bs.drop (128 + wireContentLen bs))

instance AtMostOneMessage.decidable (bs : List UInt8) : Decidable (AtMostOneMessage bs) :=
  inferInstanceAs (Decidable (_ → _))

theorem not_holdsMessage_nil : ¬ HoldsMessage [] := by
  rintro ⟨h, -⟩
  simp at h

/-! ## Buffers that lag behind a sequence of frames -/

/-- The messages a client may send. -/
def Sendable (calls : List (MyMsg × Timeval)) : Prop :=
  ∀ call ∈ calls, call.1.head.contentLen.toNat ≤ myMsgContentMaxLen

/-- The bytes are whole frames of sendable messages. -/
def Aligned (e : Endian) (bs : List UInt8) : Prop :=
  ∃ calls, Sendable calls ∧ bs = framesOf e calls

theorem wireContentLen_frame (e : Endian) (msg : MyMsg) (tv : Timeval) (rest : List UInt8) :
    wireContentLen (frame e msg tv ++ rest) = msg.head.contentLen.toNat := by
  have htake : (frame e msg tv ++ rest).take 40 =
      (({ msg.head with isMsgEnd := 1 } : MyMsgHead).hton e).toMem e := by
    simp only [frame, List.append_assoc]
    exact List.take_left' (MyMsgHead.length_toMem e _)
  have hlen : 40 ≤ (frame e msg tv ++ rest).length := by
    simp only [frame, List.length_append, MyMsgHead.length_toMem]
    show 40 ≤ 40 + _ + _ + _
    omega
  have hread := contentLen_ofMem e hlen
  rw [htake, MyMsgHead.ofMem_toMem, MyMsgHead.ntoh_hton] at hread
  rw [← toNat_wireContentLen, ← hread]

theorem wireContentLen_append {bs : List UInt8} (h : 40 ≤ bs.length) (more : List UInt8) :
    wireContentLen (bs ++ more) = wireContentLen bs := by
  unfold wireContentLen field
  rw [List.drop_append_of_le_length (by omega),
    List.take_append_of_le_length (by simp only [List.length_drop]; omega)]

/-- A buffer that is the front of a sequence of frames passes the size test. -/
theorem wireContentLen_le_of_aligned {e : Endian} {bs more : List UInt8}
    (ha : Aligned e (bs ++ more)) (h : 40 ≤ bs.length) :
    wireContentLen bs ≤ myMsgContentMaxLen := by
  obtain ⟨calls, hcalls, hbytes⟩ := ha
  cases calls with
  | nil =>
      have hnil : bs ++ more = [] := hbytes
      rw [List.append_eq_nil_iff] at hnil
      rw [hnil.1] at h
      simp at h
  | cons call calls =>
      have hsplit : bs ++ more = frame e call.1 call.2 ++ framesOf e calls := hbytes
      rw [← wireContentLen_append h more, hsplit, wireContentLen_frame]
      exact hcalls call (by simp)

/-- What a whole `RecvMsg` leaves of such a buffer. -/
theorem recvLoops_rest {e : Endian} {bs more : List UInt8} (ha : Aligned e (bs ++ more)) :
    ((recvLoops e).eval ⟨bs, .closed⟩).2.bytes =
      if HoldsMessage bs then bs.drop (128 + wireContentLen bs) else [] := by
  by_cases h : bs.length < 40
  · have hno : ¬ HoldsMessage bs := fun hm => absurd hm.1 (by omega)
    rw [if_neg hno, (recvLoops_eval_short_head h .closed).2]
  · have h40 : 40 ≤ bs.length := by omega
    have hle := wireContentLen_le_of_aligned ha h40
    have hwanted : contentWanted bs = wireContentLen bs :=
      contentWanted_of_lt (lt_of_le_of_lt hle (by norm_num))
    obtain ⟨hfull, hshort⟩ := recvLoops_eval_passes (e := e) h40 (Or.inl hle) .closed
    rw [hwanted] at hfull hshort
    by_cases hm : HoldsMessage bs
    · rw [if_pos hm, (hfull hm.2).2.2]
    · have hlt : bs.length < 128 + wireContentLen bs := by
        by_contra hge
        exact hm ⟨h40, by omega⟩
      rw [if_neg hm, (hshort hlt).2]

/-- A whole `RecvMsg` keeps to frame boundaries. -/
theorem aligned_recvLoops_rest {e : Endian} {bs : List UInt8} (ha : Aligned e bs) :
    Aligned e ((recvLoops e).eval ⟨bs, .closed⟩).2.bytes := by
  obtain ⟨calls, hcalls, rfl⟩ := ha
  cases calls with
  | nil =>
      refine ⟨[], fun call h => absurd h List.not_mem_nil, ?_⟩
      exact (recvLoops_eval_short_head (by simp [framesOf]) .closed).2
  | cons call calls =>
      have hframe := recvLoops_frame e e call.2 (hcalls call (by simp)) (framesOf e calls) .closed
      have hsplit : framesOf e (call :: calls) = frame e call.1 call.2 ++ framesOf e calls := rfl
      rw [hsplit, hframe]
      exact ⟨calls, fun c hc => hcalls c (List.mem_cons_of_mem _ hc), rfl⟩

/-! ## Where the loop is with a connection -/

inductive Phase where
  | idle (awaited : Bool)
  | reading (prog : ReadLoops UInt8 MsgResult)
  | closing

/-- An `EPOLLIN` report of `c` is still to be looked at. -/
def awaits (fdConn : ℕ → Option ℕ) (rest : List EpollEvent) (c : ℕ) : Bool :=
  rest.any fun ev => ev.epollin && fdConn ev.fd == some c

def phase (fdConn : ℕ → Option ℕ) (c : ℕ) : LoopPc → Phase
  | .epollWait => .idle false
  | .events rest => .idle (awaits fdConn rest c)
  | .recvMsg fd prog rest =>
      if fdConn fd = some c then .reading prog else .idle (awaits fdConn rest c)
  | .handleMsg _ _ _ rest => .idle (awaits fdConn rest c)
  | .sendMsg _ _ _ rest => .idle (awaits fdConn rest c)
  | .closeFd fd rest =>
      if fdConn fd = some c then .closing else .idle (awaits fdConn rest c)

/-- A call in progress is cut short by a failure only. -/
def FailsWhenCut : ReadLoops UInt8 MsgResult → Prop :=
  ReadLoops.HaltsIn (· ≠ .error 0) (·.ret ≠ mySuccess)

/-- The buffer and the bytes to come are in order for this phase, and no
complete message is left without an edge, a report or a call that reads it. -/
def Fine (e : Endian) (ph : Phase) (edge : Bool) (inbox unsent : List UInt8) : Prop :=
  match ph with
  | .idle awaited =>
      Aligned e (inbox ++ unsent) ∧
        (edge = true ∨ (awaited = true ∧ AtMostOneMessage inbox) ∨ ¬ HoldsMessage inbox)
  | .reading prog =>
      prog.settle = prog ∧ FailsWhenCut prog ∧
        Aligned e (prog.eval ⟨inbox ++ unsent, .closed⟩).2.bytes ∧
        (edge = true ∨ ¬ HoldsMessage (prog.eval ⟨inbox, .closed⟩).2.bytes)
  | .closing => True

variable {e : Endian} {ph : Phase} {edge : Bool} {inbox unsent : List UInt8}

/-- Bytes arrive, and with them an edge. -/
theorem Fine.arrive (h : Fine e ph edge inbox unsent) (k : ℕ) :
    Fine e ph true (inbox ++ unsent.take k) (unsent.drop k) := by
  have hsame : inbox ++ unsent.take k ++ unsent.drop k = inbox ++ unsent := by
    rw [List.append_assoc, List.take_append_drop]
  cases ph with
  | idle awaited =>
      refine ⟨?_, Or.inl rfl⟩
      rw [hsame]
      exact h.1
  | reading prog =>
      refine ⟨h.1, h.2.1, ?_, Or.inl rfl⟩
      rw [hsame]
      exact h.2.2.1
  | closing => trivial

theorem Fine.raise (h : Fine e ph edge inbox unsent) : Fine e ph true inbox unsent := by
  simpa using h.arrive 0

/-- A report of at most one message uses the edge up. -/
theorem Fine.report (h : Fine e (.idle false) edge inbox unsent)
    {awaited : Bool} (hone : AtMostOneMessage inbox)
    (hin : awaited = true ∨ inbox = []) : Fine e (.idle awaited) false inbox unsent := by
  refine ⟨h.1, Or.inr ?_⟩
  rcases hin with hin | hin
  · exact Or.inl ⟨hin, hone⟩
  · right
    rw [hin]
    exact not_holdsMessage_nil

theorem Fine.idle (h : Fine e (.idle false) edge inbox unsent) (awaited : Bool) :
    Fine e (.idle awaited) edge inbox unsent := by
  obtain ⟨haligned, hedge | ⟨hno, -⟩ | hnone⟩ := h
  · exact ⟨haligned, Or.inl hedge⟩
  · simp at hno
  · exact ⟨haligned, Or.inr (Or.inr hnone)⟩

theorem failsWhenCut_recvLoops (e : Endian) : FailsWhenCut (recvLoops e) := by
  have hcode : ∀ why : Halt, why ≠ .error 0 → haltCode why ≠ mySuccess := by
    intro why hwhy
    cases why with
    | closed => decide
    | error errno =>
        have hpos : errno ≠ 0 := fun h0 => hwhy (by rw [h0])
        simp only [haltCode, mySuccess]
        omega
  exact recvLoops_haltsIn e fun why _ hwhy => hcode why hwhy

/-- The loop enters `RecvMsg`. -/
theorem Fine.begin {awaited : Bool} (h : Fine e (.idle awaited) edge inbox unsent) :
    Fine e (.reading (recvLoops e)) edge inbox unsent := by
  obtain ⟨haligned, hcover⟩ := h
  refine ⟨rfl, failsWhenCut_recvLoops e, aligned_recvLoops_rest haligned, ?_⟩
  rw [recvLoops_rest haligned]
  rcases hcover with hedge | ⟨-, hone⟩ | hnone
  · exact Or.inl hedge
  · right
    by_cases hm : HoldsMessage inbox
    · rw [if_pos hm]
      exact hone hm
    · rw [if_neg hm]
      exact not_holdsMessage_nil
  · right
    rw [if_neg hnone]
    exact not_holdsMessage_nil

/-- What a `recv` leaves the loop with, on the connection it reads from. -/
def recvPhase : ReadLoops UInt8 MsgResult → Phase
  | .done r => if r.ret = mySuccess then .idle false else .closing
  | prog => .reading prog

/-- The whole message was read, or the fd is closed. -/
theorem fine_done {r : MsgResult} (haligned : Aligned e (inbox ++ unsent))
    (hcover : edge = true ∨ ¬ HoldsMessage inbox) :
    Fine e (recvPhase (.done r)) edge inbox unsent := by
  rw [recvPhase]
  split_ifs
  · refine ⟨haligned, ?_⟩
    rcases hcover with hedge | hnone
    · exact Or.inl hedge
    · exact Or.inr (Or.inr hnone)
  · trivial

/-- A `recv` that delivers. -/
theorem Fine.deliver {prog : ReadLoops UInt8 MsgResult}
    (h : Fine e (.reading prog) edge inbox unsent) (k : ℕ) (fin : Halt) (hne : inbox ≠ []) :
    Fine e (recvPhase (prog.step isRetry (.upTo k) ⟨inbox, fin⟩).1) edge
      (prog.step isRetry (.upTo k) ⟨inbox, fin⟩).2.bytes unsent := by
  obtain ⟨hsettled, hcut, haligned, hcover⟩ := h
  have hall := ReadLoops.eval_step_append isRetry prog k hne unsent fin .closed
  have hhere := ReadLoops.eval_step_append isRetry prog k hne [] fin .closed
  rw [List.append_nil, List.append_nil] at hhere
  rw [← hall] at haligned
  rw [← hhere] at hcover
  have hstep : (prog.step isRetry (.upTo k) ⟨inbox, fin⟩).1.settle =
      (prog.step isRetry (.upTo k) ⟨inbox, fin⟩).1 ∧
      FailsWhenCut (prog.step isRetry (.upTo k) ⟨inbox, fin⟩).1 := by
    cases prog with
    | done r => exact ⟨rfl, trivial⟩
    | read n halt next =>
        simp only [ReadLoops.step]
        rw [if_neg hne]
        exact ⟨ReadLoops.settle_advance _ _ _ _, hcut.advance _⟩
  cases hprog : (prog.step isRetry (.upTo k) ⟨inbox, fin⟩).1 with
  | done r =>
      rw [hprog] at haligned hcover
      exact fine_done haligned hcover
  | read n halt next =>
      rw [hprog] at haligned hcover hstep
      exact ⟨hstep.1, hstep.2, haligned, hcover⟩

/-- A `recv` that does not: it is repeated, or `RecvMsg` fails. -/
theorem Fine.cut {prog : ReadLoops UInt8 MsgResult}
    (h : Fine e (.reading prog) edge inbox unsent) {a : ReadAnswer} {fin : Halt}
    (hfin : fin ≠ .error 0) (ha : ∀ errno, a = .fail errno → isRetry errno = true ∨ errno ≠ 0)
    (hne : ∀ k, a = .upTo k → inbox = []) :
    Fine e (recvPhase (prog.step isRetry a ⟨inbox, fin⟩).1) edge
      (prog.step isRetry a ⟨inbox, fin⟩).2.bytes unsent := by
  cases prog with
  | done r =>
      obtain ⟨-, -, haligned, hcover⟩ := h
      exact fine_done haligned hcover
  | read n halt next =>
      have hcut : ∀ why, why ≠ .error 0 → (halt [] why).ret ≠ mySuccess :=
        fun why hwhy => h.2.1.1 [] why hwhy
      cases a with
      | upTo k =>
          have hempty := hne k rfl
          simp only [ReadLoops.step]
          rw [if_pos hempty]
          simp only [recvPhase, if_neg (hcut fin hfin)]
          trivial
      | fail errno =>
          simp only [ReadLoops.step]
          rcases ha errno rfl with hretry | hpos
          · rw [if_pos hretry]
            exact h
          · split_ifs
            · exact h
            · simp only [recvPhase]
              rw [if_neg (hcut (.error errno) (by simpa using hpos))]
              trivial

theorem Fine.afterRecv {prog : ReadLoops UInt8 MsgResult}
    (h : Fine e (recvPhase prog) edge inbox unsent) {fdConn : ℕ → Option ℕ} {fd c : ℕ}
    (hfd : fdConn fd = some c) (rest : List EpollEvent) :
    Fine e (phase fdConn c (Server.afterRecv fd c rest prog)) edge inbox unsent := by
  cases prog with
  | done r =>
      simp only [recvPhase] at h
      simp only [Server.afterRecv]
      split_ifs at h ⊢ with hret
      · exact h.idle _
      · simp only [phase, if_pos hfd]
        trivial
  | read n halt next =>
      simp only [Server.afterRecv, phase, if_pos hfd]
      exact h

theorem phase_afterRecv_of_ne {fdConn : ℕ → Option ℕ} {fd c c' : ℕ} (rest : List EpollEvent)
    (prog : ReadLoops UInt8 MsgResult) (hfd : fdConn fd ≠ some c) :
    phase fdConn c (Server.afterRecv fd c' rest prog) = .idle (awaits fdConn rest c) := by
  cases prog with
  | done r =>
      simp only [Server.afterRecv]
      split_ifs
      · rfl
      · simp only [phase, if_neg hfd]
  | read n halt next => simp only [Server.afterRecv, phase, if_neg hfd]

theorem phase_afterSend (fdConn : ℕ → Option ℕ) (fd c c' : ℕ) (rest : List EpollEvent)
    (prog : WriteLoops UInt8 MsgResult) :
    phase fdConn c (Server.afterSend fd c' rest prog) = .idle (awaits fdConn rest c) := by
  cases prog <;> rfl

theorem awaits_cons_of_ne {fdConn : ℕ → Option ℕ} {ev : EpollEvent} {c : ℕ}
    (rest : List EpollEvent) (h : fdConn ev.fd ≠ some c) :
    awaits fdConn (ev :: rest) c = awaits fdConn rest c := by
  simp [awaits, h]

theorem awaits_cons_of_out {fdConn : ℕ → Option ℕ} {ev : EpollEvent} {c : ℕ}
    (rest : List EpollEvent) (h : ev.epollin = false) :
    awaits fdConn (ev :: rest) c = awaits fdConn rest c := by
  simp [awaits, h]

/-- A number that is neither `c`'s nor becomes `c`'s. -/
theorem awaits_update {fdConn : ℕ → Option ℕ} {fd c : ℕ} {v : Option ℕ}
    (rest : List EpollEvent) (hv : v ≠ some c) (hfd : fdConn fd ≠ some c) :
    awaits (Function.update fdConn fd v) rest c = awaits fdConn rest c := by
  unfold awaits
  congr 1
  funext ev
  by_cases he : ev.fd = fd
  · have hnew : (v == some c) = false := by simpa using hv
    have hold : (fdConn fd == some c) = false := by simpa using hfd
    rw [he, Function.update_self, hnew, hold]
  · rw [Function.update_of_ne he]

/-! ## The invariant -/

/-- Every connection is in order, accepted or not. -/
structure Attended (env : ServerEnv) (s : Server) : Prop where
  waiting : ∀ c, c ∈ s.backlog ∨ s.connected ≤ c →
    Aligned env.endian (s.inbox c ++ s.unsent c)
  served : ∀ fd c, s.fdConn fd = some c →
    Fine env.endian (phase s.fdConn c s.loop) (s.edge c) (s.inbox c) (s.unsent c)

/-- `epoll_wait` reports no fd whose buffer holds more than one complete message. -/
def ReportsAtMostOne (s : Server) : ServerAction → Prop
  | .poll evs => ∀ ev ∈ evs, ∀ c ∈ s.fdConn ev.fd, AtMostOneMessage (s.inbox c)
  | _ => True

instance ReportsAtMostOne.decidable (s : Server) : ∀ a, Decidable (ReportsAtMostOne s a)
  | .poll evs => inferInstanceAs
      (Decidable (∀ ev ∈ evs, ∀ c ∈ s.fdConn ev.fd, AtMostOneMessage (s.inbox c)))
  | .connect | .arrive _ _ | .hangUp _ _ | .accept _ _ | .acceptFails | .dispatch | .recv _
  | .execCmd _ | .reply _ _ | .noReply | .send _ | .close | .startReply _ _ _
  | .sendReply _ _ | .giveUp _ => .isTrue trivial

variable {env : ServerEnv} {s s' : Server}

theorem Attended.start (env : ServerEnv) (hclients : ∀ c, Sendable (env.clients c)) :
    Attended env (Server.init env) where
  waiting c _ := ⟨env.clients c, hclients c, rfl⟩
  served fd c h := by simp [Server.init] at h

/-- A step that moves no bytes, takes no edge and leaves every connection in
its phase. -/
structure Undisturbed (s s' : Server) : Prop where
  fds : SameFds s s'
  inbox : s'.inbox = s.inbox
  unsent : s'.unsent = s.unsent
  edge : s'.edge = s.edge
  phase : ∀ c, phase s.fdConn c s'.loop = phase s.fdConn c s.loop

theorem Undisturbed.attended (hu : Undisturbed s s') (h : Attended env s) :
    Attended env s' := by
  obtain ⟨⟨hfd, -, hlog, hconn, -⟩, hinbox, hunsent, hedge, hphase⟩ := hu
  constructor
  · rw [hlog, hconn, hinbox, hunsent]
    exact h.waiting
  · rw [hfd, hinbox, hunsent, hedge]
    intro fd c hc
    rw [hphase c]
    exact h.served fd c hc

theorem Attended.arrive (h : Attended env s) (ht : FdTable env s) (c k : ℕ) :
    Attended env (s.next env (.arrive c k)) := by
  constructor
  · intro c' hc'
    have hold := h.waiting c' hc'
    show Aligned env.endian
      (Function.update s.inbox c (s.inbox c ++ (s.unsent c).take (k + 1)) c' ++
        Function.update s.unsent c ((s.unsent c).drop (k + 1)) c')
    by_cases hcc : c' = c
    · subst hcc
      rw [Function.update_self, Function.update_self, List.append_assoc,
        List.take_append_drop]
      exact hold
    · rw [Function.update_of_ne hcc, Function.update_of_ne hcc]
      exact hold
  · intro fd c' hfd
    have hold := h.served fd c' hfd
    show Fine env.endian (phase s.fdConn c' s.loop)
      (Function.update s.edge c (s.registered c) c')
      (Function.update s.inbox c (s.inbox c ++ (s.unsent c).take (k + 1)) c')
      (Function.update s.unsent c ((s.unsent c).drop (k + 1)) c')
    by_cases hcc : c' = c
    · subst hcc
      rw [Function.update_self, Function.update_self, Function.update_self,
        ht.registered fd c' hfd]
      exact hold.arrive (k + 1)
    · rw [Function.update_of_ne hcc, Function.update_of_ne hcc, Function.update_of_ne hcc]
      exact hold

theorem Attended.hangUp (h : Attended env s) (ht : FdTable env s) (c : ℕ) (why : Halt) :
    Attended env (s.next env (.hangUp c why)) := by
  refine ⟨h.waiting, ?_⟩
  intro fd c' hfd
  have hold := h.served fd c' hfd
  show Fine env.endian (phase s.fdConn c' s.loop)
    (Function.update s.edge c (s.registered c) c') (s.inbox c') (s.unsent c')
  by_cases hcc : c' = c
  · subst hcc
    rw [Function.update_self, ht.registered fd c' hfd]
    exact hold.raise
  · rw [Function.update_of_ne hcc]
    exact hold

/-- The edges of the reported fds are used up. -/
theorem Attended.poll (h : Attended env s) (ht : FdTable env s) {evs : List EpollEvent}
    (ha : s.guard env (.poll evs) = true) (hp : ReportsAtMostOne s (.poll evs)) :
    Attended env (s.next env (.poll evs)) := by
  obtain ⟨hloop, hreport, -⟩ := Server.guard_poll ha
  refine ⟨h.waiting, ?_⟩
  intro fd c hfd
  have hidle : Fine env.endian (.idle false) (s.edge c) (s.inbox c) (s.unsent c) := by
    have hold := h.served fd c hfd
    rw [hloop] at hold
    exact hold
  show Fine env.endian (.idle (awaits s.fdConn evs c)) (s.edge c && !s.reported evs c)
    (s.inbox c) (s.unsent c)
  cases hrep : s.reported evs c with
  | false =>
      rw [Bool.not_false, Bool.and_true]
      exact hidle.idle _
  | true =>
      rw [Bool.not_true, Bool.and_false]
      simp only [Server.reported, List.any_eq_true, beq_iff_eq] at hrep
      obtain ⟨ev, hev, hconn⟩ := hrep
      apply hidle.report (hp ev hev c hconn)
      have hmay := hreport ev hev
      have hclient : ev.fd ≠ env.serverFd := by
        intro hfd'
        rw [hfd', ht.listening] at hconn
        simp at hconn
      simp only [Server.mayReport, if_neg hclient, hconn, Bool.and_eq_true, Bool.or_eq_true,
        List.isEmpty_iff] at hmay
      rcases hmay.2 with hin | hempty
      · left
        simp only [awaits, List.any_eq_true, Bool.and_eq_true, beq_iff_eq]
        exact ⟨ev, hev, hin, hconn⟩
      · exact Or.inr hempty

/-- A new fd has an edge pending if there is anything to read. -/
theorem Attended.accept (h : Attended env s) (ht : FdTable env s) {fd : ℕ} {mapped : Bool}
    (ha : s.guard env (.accept fd mapped) = true) :
    Attended env (s.next env (.accept fd mapped)) := by
  obtain ⟨ev, rest, c, later, hloop, hlog, hev, hclosed, -⟩ := Server.guard_accept ha
  have hc : c ∈ s.backlog := by simp [hlog]
  simp only [Server.next, hloop, hlog]
  constructor
  · intro c' hc'
    apply h.waiting c'
    rcases hc' with hc' | hc'
    · exact Or.inl (by simp [hlog, hc'])
    · exact Or.inr hc'
  · intro fd' c' hfd'
    show Fine env.endian (.idle (awaits (Function.update s.fdConn fd (some c)) rest c'))
      (Function.update s.edge c (!(s.inbox c).isEmpty || (s.hungUp c).isSome) c')
      (s.inbox c') (s.unsent c')
    by_cases hcc : c' = c
    · subst hcc
      rw [Function.update_self]
      refine ⟨h.waiting c' (Or.inl hc), ?_⟩
      cases hin : s.inbox c' with
      | nil => exact Or.inr (Or.inr not_holdsMessage_nil)
      | cons b bs => exact Or.inl (by simp)
    · have hne : fd' ≠ fd := by
        rintro rfl
        have hnew : some c = some c' := by simpa using hfd'
        exact hcc (Option.some.inj hnew).symm
      have hold : s.fdConn fd' = some c' := by simpa [Function.update_of_ne hne] using hfd'
      have hfine := h.served fd' c' hold
      rw [hloop] at hfine
      have hlisten : s.fdConn ev.fd ≠ some c' := by
        rw [hev, ht.listening]
        simp
      rw [Function.update_of_ne hcc,
        awaits_update rest (by simpa using Ne.symm hcc) (by rw [hclosed]; simp),
        ← awaits_cons_of_ne rest hlisten]
      exact hfine

/-- The next report is looked at. -/
theorem Attended.dispatch (h : Attended env s) (ha : s.guard env .dispatch = true) :
    Attended env (s.next env .dispatch) := by
  rcases Server.guard_dispatch ha with hloop | ⟨ev, rest, hloop, -⟩
  · have hu : Undisturbed s (s.next env .dispatch) := by
      simp only [Server.next, hloop]
      exact ⟨⟨rfl, rfl, rfl, rfl, rfl⟩, rfl, rfl, rfl, fun c => by rw [hloop]; rfl⟩
    exact hu.attended h
  · cases hin : ev.epollin with
    | true =>
        simp only [Server.next, hloop, hin, if_true]
        refine ⟨h.waiting, ?_⟩
        intro fd c hfd
        have hold := h.served fd c hfd
        rw [hloop] at hold
        show Fine env.endian (phase s.fdConn c (.recvMsg ev.fd (recvLoops env.endian) rest))
          (s.edge c) (s.inbox c) (s.unsent c)
        by_cases hc : s.fdConn ev.fd = some c
        · simp only [phase, if_pos hc]
          exact Fine.begin hold
        · simp only [phase, if_neg hc]
          rw [← awaits_cons_of_ne rest hc]
          exact hold
    | false =>
        have hidle : ∀ c, phase s.fdConn c s.loop = .idle (awaits s.fdConn rest c) := by
          intro c
          rw [hloop, ← awaits_cons_of_out rest hin]
          rfl
        cases herr : ev.errHup with
        | true =>
            simp only [Server.next, hloop, hin, herr, if_true, Bool.false_eq_true, if_false]
            refine ⟨h.waiting, ?_⟩
            intro fd c hfd
            have hold := h.served fd c hfd
            rw [hidle c] at hold
            show Fine env.endian (phase s.fdConn c (.closeFd ev.fd rest))
              (s.edge c) (s.inbox c) (s.unsent c)
            by_cases hc : s.fdConn ev.fd = some c
            · simp only [phase, if_pos hc]
              trivial
            · simp only [phase, if_neg hc]
              exact hold
        | false =>
            have hu : Undisturbed s (s.next env .dispatch) := by
              simp only [Server.next, hloop, hin, herr, Bool.false_eq_true, if_false]
              refine ⟨⟨rfl, rfl, rfl, rfl, rfl⟩, rfl, rfl, rfl, fun c => ?_⟩
              rw [hidle c]
              rfl
            exact hu.attended h

/-- One `recv` of the call under way. -/
theorem Attended.recv (h : Attended env s) (ht : FdTable env s) {a : ReadAnswer}
    (ha : s.guard env (.recv a) = true) : Attended env (s.next env (.recv a)) := by
  obtain ⟨fd, prog, rest, hloop, hread⟩ := Server.guard_recv ha
  cases hconn : s.fdConn fd with
  | none =>
      have hu : Undisturbed s (s.next env (.recv a)) := by
        simp only [Server.next, hloop, hconn]
        refine ⟨⟨rfl, rfl, rfl, rfl, rfl⟩, rfl, rfl, rfl, fun c => ?_⟩
        rw [hloop]
        simp [phase, hconn]
      exact hu.attended h
  | some c =>
      have hfin : (s.hungUp c).getD .closed ≠ .error 0 := by
        cases hhung : s.hungUp c with
        | none => simp
        | some why =>
            rintro hwhy
            rw [Option.getD_some] at hwhy
            exact ht.hungUp c (by rw [hhung, hwhy])
      have hcur : Fine env.endian (.reading prog) (s.edge c) (s.inbox c) (s.unsent c) := by
        have hold := h.served fd c hconn
        rw [hloop] at hold
        simpa only [phase, if_pos hconn] using hold
      have hstep : Fine env.endian (recvPhase (prog.step isRetry a
          ⟨s.inbox c, (s.hungUp c).getD .closed⟩).1) (s.edge c)
          (prog.step isRetry a ⟨s.inbox c, (s.hungUp c).getD .closed⟩).2.bytes
          (s.unsent c) := by
        cases a with
        | upTo k =>
            by_cases hempty : s.inbox c = []
            · exact hcur.cut hfin (fun errno he => by simp at he) (fun _ _ => hempty)
            · exact hcur.deliver k _ hempty
        | fail errno =>
            refine hcur.cut hfin ?_ (fun k hk => by simp at hk)
            rintro _ ⟨rfl⟩
            simp only [Server.mayRead, hconn, Bool.or_eq_true, beq_iff_eq] at hread
            rcases hread with hretry | hhung
            · exact Or.inl hretry
            · right
              rintro rfl
              exact ht.hungUp c hhung
      simp only [Server.next, hloop, hconn, hcur.1]
      refine ⟨?_, ?_⟩
      · intro c' hc'
        have hne : c' ≠ c := by
          rintro rfl
          exact ht.fresh c' hc' fd hconn
        show Aligned env.endian (Function.update s.inbox c _ c' ++ s.unsent c')
        rw [Function.update_of_ne hne]
        exact h.waiting c' hc'
      · intro fd' c' hfd'
        show Fine env.endian (phase s.fdConn c' (Server.afterRecv fd c rest _)) (s.edge c')
          (Function.update s.inbox c _ c') (s.unsent c')
        by_cases hcc : c' = c
        · subst hcc
          rw [Function.update_self]
          exact hstep.afterRecv hconn rest
        · have hother : s.fdConn fd ≠ some c' := by
            rw [hconn]
            simpa using Ne.symm hcc
          have hold := h.served fd' c' hfd'
          rw [hloop] at hold
          simp only [phase, if_neg hother] at hold
          rw [Function.update_of_ne hcc, phase_afterRecv_of_ne rest _ hother]
          exact hold

theorem Attended.close (h : Attended env s) {fd : ℕ} {rest : List EpollEvent}
    (ht : FdTable env s) (hloop : s.loop = .closeFd fd rest) :
    Attended env (s.next env .close) := by
  simp only [Server.next, hloop]
  refine ⟨h.waiting, ?_⟩
  intro fd' c hfd'
  have hne : fd' ≠ fd := by
    rintro rfl
    simp at hfd'
  have hold : s.fdConn fd' = some c := by simpa [Function.update_of_ne hne] using hfd'
  have hother : s.fdConn fd ≠ some c := fun hfd => hne (ht.inj fd' fd c hold hfd)
  have hfine := h.served fd' c hold
  rw [hloop] at hfine
  simp only [phase, if_neg hother] at hfine
  show Fine env.endian (.idle (awaits (Function.update s.fdConn fd none) rest c)) (s.edge c)
    (s.inbox c) (s.unsent c)
  rw [awaits_update rest (by simp) hother]
  exact hfine

/-- The steps of a handler and of the pool tasks. -/
theorem undisturbed_next {a : ServerAction} (ht : FdTable env s) (ha : s.guard env a = true)
    (hk : match a with
      | .acceptFails | .execCmd _ | .reply _ _ | .noReply | .send _ | .startReply _ _ _
      | .sendReply _ _ | .giveUp _ => True
      | _ => False) : Undisturbed s (s.next env a) := by
  cases a with
  | acceptFails =>
      obtain ⟨ev, rest, hloop, hev⟩ := Server.guard_acceptFails ha
      simp only [Server.next, hloop]
      refine ⟨⟨rfl, rfl, rfl, rfl, rfl⟩, rfl, rfl, rfl, fun c => ?_⟩
      have hlisten : s.fdConn ev.fd ≠ some c := by
        rw [hev, ht.listening]
        simp
      rw [hloop]
      show Phase.idle (awaits s.fdConn rest c) = Phase.idle (awaits s.fdConn (ev :: rest) c)
      rw [awaits_cons_of_ne rest hlisten]
  | execCmd queued =>
      obtain ⟨fd, c, msg, rest, hloop, -⟩ := Server.guard_execCmd ha
      simp only [Server.next, hloop]
      exact ⟨⟨rfl, rfl, rfl, rfl, rfl⟩, rfl, rfl, rfl, fun c => by rw [hloop]; rfl⟩
  | reply msg tv =>
      obtain ⟨fd, c, request, rest, hloop⟩ := Server.guard_reply ha
      simp only [Server.next, hloop]
      exact ⟨⟨rfl, rfl, rfl, rfl, rfl⟩, rfl, rfl, rfl, fun c => by rw [hloop]; rfl⟩
  | noReply =>
      obtain ⟨fd, c, request, rest, hloop⟩ := Server.guard_noReply ha
      simp only [Server.next, hloop]
      exact ⟨⟨rfl, rfl, rfl, rfl, rfl⟩, rfl, rfl, rfl, fun c => by rw [hloop]; rfl⟩
  | send a =>
      obtain ⟨fd, c, prog, rest, hloop⟩ := Server.guard_send ha
      simp only [Server.next, hloop]
      refine ⟨⟨rfl, rfl, rfl, rfl, rfl⟩, rfl, rfl, rfl, fun c' => ?_⟩
      rw [hloop]
      exact phase_afterSend s.fdConn fd c' c rest _
  | startReply i msg tv =>
      obtain ⟨k, hk, -⟩ := Server.guard_queued ha
      simp only [Server.next, hk]
      exact ⟨⟨rfl, rfl, rfl, rfl, rfl⟩, rfl, rfl, rfl, fun c => rfl⟩
  | sendReply i a =>
      obtain ⟨fd, msg, c, prog, hk⟩ := Server.guard_sendReply ha
      simp only [Server.next, hk]
      exact ⟨⟨rfl, rfl, rfl, rfl, rfl⟩, rfl, rfl, rfl, fun c => rfl⟩
  | giveUp i =>
      obtain ⟨k, hk, -⟩ := Server.guard_queued ha
      simp only [Server.next, hk]
      exact ⟨⟨rfl, rfl, rfl, rfl, rfl⟩, rfl, rfl, rfl, fun c => rfl⟩
  | _ => exact hk.elim

/-- **One step.** -/
theorem Attended.next {a : ServerAction} (h : Attended env s) (ht : FdTable env s)
    (ha : s.guard env a = true) (hp : ReportsAtMostOne s a) : Attended env (s.next env a) := by
  cases a with
  | connect =>
      refine ⟨?_, h.served⟩
      intro c hc
      apply h.waiting c
      rcases hc with hc | hc
      · rcases List.mem_append.mp hc with hc | hc
        · exact Or.inl hc
        · exact Or.inr (List.mem_singleton.mp hc).ge
      · exact Or.inr (Nat.le_of_succ_le hc)
  | arrive c k => exact h.arrive ht c k
  | hangUp c why => exact h.hangUp ht c why
  | poll evs => exact h.poll ht ha hp
  | accept fd mapped => exact h.accept ht ha
  | dispatch => exact h.dispatch ha
  | recv a => exact h.recv ht ha
  | close =>
      obtain ⟨fd, rest, hloop⟩ := Server.guard_close ha
      exact h.close ht hloop
  | _ => exact (undisturbed_next ht ha trivial).attended h

/-- **No request is left unread.** In every run in which each report finds at
most one complete message: when the loop is about to block, a client without a
pending edge has no complete message in its buffer. -/
theorem no_message_unread (hclients : ∀ c, Sendable (env.clients c))
    (h : Reach (serverSystem env) ReportsAtMostOne s) (hloop : s.loop = .epollWait)
    (fd c : ℕ) (hfd : s.fdConn fd = some c) (hedge : s.edge c = false) :
    ¬ HoldsMessage (s.inbox c) := by
  have hattended : Attended env s := by
    refine h.invariant_of (fun s hs => fdTable_of_reach hs) ?_ ?_
    · rintro s rfl
      exact Attended.start env hclients
    · intro s a ht hs ha hp
      exact hs.next ht ha hp
  obtain ⟨-, hcover⟩ : Fine env.endian (.idle false) (s.edge c) (s.inbox c) (s.unsent c) := by
    have hserved := hattended.served fd c hfd
    rw [hloop] at hserved
    exact hserved
  rcases hcover with hpending | ⟨hawaited, -⟩ | hnone
  · rw [hedge] at hpending
    simp at hpending
  · simp at hawaited
  · exact hnone

theorem sendable_idEnv (c : ℕ) : Sendable (idEnv.clients c) := by
  intro call hcall
  simp only [idEnv] at hcall
  split_ifs at hcall
  · rw [List.mem_singleton.mp hcall]
    decide
  · exact absurd hcall List.not_mem_nil

/-- A client that sends one message. -/
theorem no_message_unread_id :
    ¬ HoldsMessage ((exec (serverSystem idEnv) (Server.init idEnv) requestRun).inbox 0) :=
  no_message_unread sendable_idEnv (Reach.exec (.init rfl) (by decide +kernel)) rfl 5 0 rfl rfl

/-- Client 0 sends the command twice. -/
def twiceEnv : ServerEnv :=
  { idEnv with clients := fun c => if c = 0 then [(idRequest, ⟨0, 0⟩), (idRequest, ⟨0, 0⟩)] else [] }

/-- Both messages are there when fd 5 is reported. -/
def twiceRun : List ServerAction :=
  [.connect, .poll [⟨3, true, false⟩], .accept 5 true, .dispatch,
    .arrive 0 259, .poll [⟨5, true, false⟩], .dispatch, .recv (.upTo 39), .recv (.upTo 1),
    .recv (.upTo 87), .execCmd true, .dispatch]

/-- **Left behind.** The second message is complete, and nobody comes for it. -/
theorem second_message_unread :
    ∃ s, Reachable (serverSystem twiceEnv) s ∧ s.loop = .epollWait ∧
      s.fdConn 5 = some 0 ∧ s.edge 0 = false ∧ HoldsMessage (s.inbox 0) := by
  refine ⟨exec (serverSystem twiceEnv) (Server.init twiceEnv) twiceRun,
    Reach.exec (.init rfl) ?_, rfl, rfl, rfl, ?_⟩
  · decide +kernel
  · decide +kernel

end MyWorkEnv
