import MyWorkEnv.Server.EdgeTriggered

/-!
# In which order requests are handled

Whatever the clients, the kernel and the workers do, the messages the loop hands
to `ServerHandleMsg` on one connection are the first ones its client has sent,
each once and in the order they were sent. Reports, retries, lost edges, closed
and reused fds cost messages at the end of this sequence, never inside it.
-/

namespace MyWorkEnv

open FixedWidth Transfer Transition

/-- A message as the server gets it. -/
def received (call : MyMsg × Timeval) : MyMsg := delivered call.1 call.2.ms

/-! ## One connection -/

/-- The messages of `past` were handled, and those of `todo` are under way. -/
def Streamed (e : Endian) (calls : List (MyMsg × Timeval)) (handled : List MyMsg) (ph : Phase)
    (inbox unsent : List UInt8) : Prop :=
  ∃ past todo, calls = past ++ todo ∧ handled = past.map received ∧
    match ph with
    | .idle _ => inbox ++ unsent = framesOf e todo
    | .reading prog =>
        prog.settle = prog ∧ FailsWhenCut prog ∧
          prog.eval ⟨inbox ++ unsent, .closed⟩ = (recvLoops e).eval ⟨framesOf e todo, .closed⟩
    | .closing => True

variable {e : Endian} {calls : List (MyMsg × Timeval)} {handled : List MyMsg} {ph : Phase}
  {inbox unsent : List UInt8}

theorem Streamed.isPrefix (h : Streamed e calls handled ph inbox unsent) :
    handled <+: calls.map received := by
  obtain ⟨past, todo, rfl, rfl, -⟩ := h
  rw [List.map_append]
  exact List.prefix_append _ _

/-- Bytes on their way. -/
theorem Streamed.move (h : Streamed e calls handled ph inbox unsent) {inbox' unsent' : List UInt8}
    (hsame : inbox' ++ unsent' = inbox ++ unsent) :
    Streamed e calls handled ph inbox' unsent' := by
  obtain ⟨past, todo, hcalls, hhandled, hph⟩ := h
  refine ⟨past, todo, hcalls, hhandled, ?_⟩
  cases ph with
  | idle awaited => exact hsame.trans hph
  | reading prog =>
      obtain ⟨hsettled, hcut, heval⟩ := hph
      exact ⟨hsettled, hcut, by rwa [hsame]⟩
  | closing => trivial

theorem Streamed.idle {awaited : Bool} (h : Streamed e calls handled (.idle awaited) inbox unsent)
    (awaited' : Bool) : Streamed e calls handled (.idle awaited') inbox unsent := h

/-- A call starts at the beginning of a frame. -/
theorem Streamed.begin {awaited : Bool}
    (h : Streamed e calls handled (.idle awaited) inbox unsent) :
    Streamed e calls handled (.reading (recvLoops e)) inbox unsent := by
  obtain ⟨past, todo, hcalls, hhandled, hbytes⟩ := h
  exact ⟨past, todo, hcalls, hhandled, rfl, failsWhenCut_recvLoops e, by rw [hbytes]⟩

theorem Streamed.close (h : Streamed e calls handled ph inbox unsent) {inbox' : List UInt8} :
    Streamed e calls handled .closing inbox' unsent := by
  obtain ⟨past, todo, hcalls, hhandled, -⟩ := h
  exact ⟨past, todo, hcalls, hhandled, trivial⟩

/-- What a `recv` adds to the messages handled. -/
def handledBy (handled : List MyMsg) : ReadLoops UInt8 MsgResult → List MyMsg
  | .done r => if r.ret = mySuccess then handled ++ [r.msg] else handled
  | _ => handled

/-- A call that is through has read the next message. -/
theorem Streamed.done {r : MsgResult} (hclients : Sendable calls)
    (h : Streamed e calls handled (.reading (.done r)) inbox unsent) :
    Streamed e calls (handledBy handled (.done r)) (recvPhase (.done r)) inbox unsent := by
  obtain ⟨past, todo, rfl, rfl, -, -, heval⟩ := h
  cases todo with
  | nil =>
      have hshort : ((recvLoops e).eval ⟨[], .closed⟩).1.ret = haltCode .closed :=
        (recvLoops_eval_short_head (by simp) .closed).1
      have hret : r.ret ≠ mySuccess := by
        have hcode : r.ret = haltCode .closed := (congrArg (·.1.ret) heval).trans hshort
        rw [hcode]
        decide
      simp only [handledBy, recvPhase, if_neg hret]
      exact ⟨past, [], rfl, rfl, trivial⟩
  | cons call todo =>
      have hsplit : framesOf e (call :: todo) = frame e call.1 call.2 ++ framesOf e todo := rfl
      rw [hsplit, recvLoops_frame e e call.2 (hclients call (by simp)) (framesOf e todo) .closed,
        betweenHosts_self] at heval
      obtain ⟨rfl, hrest⟩ := Prod.mk.inj heval
      simp only [handledBy, recvPhase, if_true]
      refine ⟨past ++ [call], todo, by simp, by simp [received], ?_⟩
      exact congrArg Inbound.bytes hrest

/-- A `recv` that delivers. -/
theorem Streamed.deliver {prog : ReadLoops UInt8 MsgResult} (hclients : Sendable calls)
    (h : Streamed e calls handled (.reading prog) inbox unsent) (k : ℕ) (fin : Halt)
    (hne : inbox ≠ []) :
    Streamed e calls (handledBy handled (prog.step isRetry (.upTo k) ⟨inbox, fin⟩).1)
      (recvPhase (prog.step isRetry (.upTo k) ⟨inbox, fin⟩).1)
      (prog.step isRetry (.upTo k) ⟨inbox, fin⟩).2.bytes unsent := by
  obtain ⟨past, todo, hcalls, hhandled, hsettled, hcut, heval⟩ := h
  rw [← ReadLoops.eval_step_append isRetry prog k hne unsent fin .closed] at heval
  have hstep : (prog.step isRetry (.upTo k) ⟨inbox, fin⟩).1.settle =
      (prog.step isRetry (.upTo k) ⟨inbox, fin⟩).1 ∧
      FailsWhenCut (prog.step isRetry (.upTo k) ⟨inbox, fin⟩).1 := by
    cases prog with
    | done r => exact ⟨rfl, trivial⟩
    | read n halt next =>
        simp only [ReadLoops.step]
        rw [if_neg hne]
        exact ⟨ReadLoops.settle_advance _ _ _ _, hcut.advance _⟩
  have hreading : Streamed e calls handled
      (.reading (prog.step isRetry (.upTo k) ⟨inbox, fin⟩).1)
      (prog.step isRetry (.upTo k) ⟨inbox, fin⟩).2.bytes unsent :=
    ⟨past, todo, hcalls, hhandled, hstep.1, hstep.2, heval⟩
  cases hprog : (prog.step isRetry (.upTo k) ⟨inbox, fin⟩).1 with
  | done r =>
      rw [hprog] at hreading
      exact hreading.done hclients
  | read n halt next =>
      rw [hprog] at hreading
      exact hreading

/-- A `recv` that does not: it is repeated, or `RecvMsg` fails. -/
theorem Streamed.cut {prog : ReadLoops UInt8 MsgResult} (hclients : Sendable calls)
    (h : Streamed e calls handled (.reading prog) inbox unsent) {a : ReadAnswer} {fin : Halt}
    (hfin : fin ≠ .error 0) (ha : ∀ errno, a = .fail errno → isRetry errno = true ∨ errno ≠ 0)
    (hne : ∀ k, a = .upTo k → inbox = []) :
    Streamed e calls (handledBy handled (prog.step isRetry a ⟨inbox, fin⟩).1)
      (recvPhase (prog.step isRetry a ⟨inbox, fin⟩).1)
      (prog.step isRetry a ⟨inbox, fin⟩).2.bytes unsent := by
  cases prog with
  | done r => exact h.done hclients
  | read n halt next =>
      have hcut : ∀ why, why ≠ .error 0 → (halt [] why).ret ≠ mySuccess := by
        obtain ⟨_, _, _, _, -, hcut, -⟩ := h
        exact fun why hwhy => hcut.1 [] why hwhy
      cases a with
      | upTo k =>
          have hempty := hne k rfl
          simp only [ReadLoops.step]
          rw [if_pos hempty]
          simp only [handledBy, recvPhase, if_neg (hcut fin hfin)]
          exact h.close
      | fail errno =>
          simp only [ReadLoops.step]
          rcases ha errno rfl with hretry | hpos
          · rw [if_pos hretry]
            exact h
          · split_ifs
            · exact h
            · simp only [handledBy, recvPhase]
              rw [if_neg (hcut (.error errno) (by simpa using hpos)),
                if_neg (hcut (.error errno) (by simpa using hpos))]
              exact h.close

theorem Streamed.afterRecv {prog : ReadLoops UInt8 MsgResult}
    (h : Streamed e calls handled (recvPhase prog) inbox unsent) {fdConn : ℕ → Option ℕ}
    {fd c : ℕ} (hfd : fdConn fd = some c) (rest : List EpollEvent) :
    Streamed e calls handled (phase fdConn c (Server.afterRecv fd c rest prog)) inbox unsent := by
  cases prog with
  | done r =>
      simp only [recvPhase] at h
      simp only [Server.afterRecv]
      split_ifs at h ⊢
      · exact h.idle _
      · simpa only [phase, if_pos hfd] using h
  | read n halt next =>
      simp only [Server.afterRecv, phase, if_pos hfd]
      exact h

/-! ## The server with a record of what it handles -/

/-- `handled` are the messages passed to `ServerHandleMsg` so far, by connection. -/
structure Observed where
  server : Server
  handled : ℕ → List MyMsg

/-- The message that a step hands over, and its connection. -/
def handsOver (s' : Server) : ServerAction → Option (ℕ × MyMsg)
  | .recv _ =>
      match s'.loop with
      | .handleMsg _ c msg _ => some (c, msg)
      | _ => none
  | _ => none

def Observed.next (env : ServerEnv) (o : Observed) (a : ServerAction) : Observed where
  server := o.server.next env a
  handled :=
    match handsOver (o.server.next env a) a with
    | some (c, msg) => Function.update o.handled c (o.handled c ++ [msg])
    | none => o.handled

def observedSystem (env : ServerEnv) : System Observed ServerAction where
  init o := o = ⟨Server.init env, fun _ => []⟩
  enabled o a := o.server.guard env a = true
  next := Observed.next env

instance (env : ServerEnv) (o : Observed) (a : ServerAction) :
    Decidable ((observedSystem env).enabled o a) :=
  inferInstanceAs (Decidable (_ = true))

variable {env : ServerEnv} {o : Observed}

theorem server_of_observed {P : Observed → ServerAction → Prop}
    (hr : Reach (observedSystem env) P o) : Reachable (serverSystem env) o.server := by
  refine Reach.view (J := fun _ => True) Observed.server (fun _ _ => trivial) ?_ ?_ hr
  · rintro o rfl
    rfl
  · intro o a _ ha _
    exact .inr ⟨a, ha, trivial, rfl⟩

/-! ## All connections -/

structure Sequenced (env : ServerEnv) (o : Observed) : Prop where
  waiting : ∀ c, c ∈ o.server.backlog ∨ o.server.connected ≤ c →
    o.handled c = [] ∧ o.server.inbox c ++ o.server.unsent c = framesOf env.endian (env.clients c)
  served : ∀ fd c, o.server.fdConn fd = some c →
    Streamed env.endian (env.clients c) (o.handled c) (phase o.server.fdConn c o.server.loop)
      (o.server.inbox c) (o.server.unsent c)
  handled : ∀ c, o.handled c <+: (env.clients c).map received

theorem Sequenced.start (env : ServerEnv) : Sequenced env ⟨Server.init env, fun _ => []⟩ where
  waiting _ _ := ⟨rfl, rfl⟩
  served fd c h := by simp [Server.init] at h
  handled _ := List.nil_prefix

/-- A step that hands nothing over, moves bytes in order only, and leaves the accepted
connections in their phases. -/
theorem Sequenced.quiet (h : Sequenced env o) {a : ServerAction}
    (hnone : handsOver (o.server.next env a) a = none)
    (hwaiting : ∀ c, c ∈ (o.server.next env a).backlog ∨ (o.server.next env a).connected ≤ c →
      c ∈ o.server.backlog ∨ o.server.connected ≤ c)
    (hbytes : ∀ c, (o.server.next env a).inbox c ++ (o.server.next env a).unsent c =
      o.server.inbox c ++ o.server.unsent c)
    (hserved : ∀ fd c, (o.server.next env a).fdConn fd = some c →
      Streamed env.endian (env.clients c) (o.handled c)
        (phase (o.server.next env a).fdConn c (o.server.next env a).loop)
        (o.server.inbox c) (o.server.unsent c)) :
    Sequenced env (o.next env a) := by
  have hhandled : (o.next env a).handled = o.handled := by simp [Observed.next, hnone]
  constructor
  · intro c hc
    obtain ⟨hnil, hframes⟩ := h.waiting c (hwaiting c hc)
    rw [hhandled]
    exact ⟨hnil, (hbytes c).trans hframes⟩
  · intro fd c hfd
    rw [hhandled]
    exact (hserved fd c hfd).move (hbytes c)
  · rw [hhandled]
    exact h.handled

theorem Undisturbed.sequenced (h : Sequenced env o) {a : ServerAction}
    (hu : Undisturbed o.server (o.server.next env a))
    (hnone : handsOver (o.server.next env a) a = none) : Sequenced env (o.next env a) := by
  obtain ⟨⟨hfd, -, hlog, hconn, -⟩, hinbox, hunsent, -, hphase⟩ := hu
  refine h.quiet hnone ?_ ?_ ?_
  · intro c hc
    rwa [hlog, hconn] at hc
  · intro c
    rw [hinbox, hunsent]
  · intro fd c hc
    rw [hfd] at hc ⊢
    rw [hphase c]
    exact h.served fd c hc

theorem Sequenced.arrive (h : Sequenced env o) (c k : ℕ) :
    Sequenced env (o.next env (.arrive c k)) := by
  refine h.quiet rfl (fun c' hc' => hc') ?_ (fun fd c' hfd => h.served fd c' hfd)
  intro c'
  show Function.update o.server.inbox c (o.server.inbox c ++ (o.server.unsent c).take (k + 1)) c' ++
    Function.update o.server.unsent c ((o.server.unsent c).drop (k + 1)) c' =
      o.server.inbox c' ++ o.server.unsent c'
  by_cases hcc : c' = c
  · rw [hcc, Function.update_self, Function.update_self, List.append_assoc,
      List.take_append_drop]
  · rw [Function.update_of_ne hcc, Function.update_of_ne hcc]

theorem Sequenced.poll (h : Sequenced env o) {evs : List EpollEvent}
    (ha : o.server.guard env (.poll evs) = true) : Sequenced env (o.next env (.poll evs)) := by
  obtain ⟨hloop, -, -⟩ := Server.guard_poll ha
  refine h.quiet rfl (fun c hc => hc) (fun c => rfl) ?_
  intro fd c hfd
  have hold := h.served fd c hfd
  rw [hloop] at hold
  exact hold.idle _

/-- A connection begins with its first frame. -/
theorem Sequenced.accept (h : Sequenced env o) {fd : ℕ} {mapped : Bool}
    (ha : o.server.guard env (.accept fd mapped) = true) :
    Sequenced env (o.next env (.accept fd mapped)) := by
  obtain ⟨ev, rest, c, later, hloop, hlog, hev, hclosed, -⟩ := Server.guard_accept ha
  have hc : c ∈ o.server.backlog := by simp [hlog]
  have hnext : o.server.next env (.accept fd mapped) =
      { o.server with
        backlog := later
        fdConn := Function.update o.server.fdConn fd (some c)
        registered := Function.update o.server.registered c true
        edge := Function.update o.server.edge c
          (!(o.server.inbox c).isEmpty || (o.server.hungUp c).isSome)
        clientMap := if mapped then o.server.clientMap ++ [fd] else o.server.clientMap
        loop := .events rest } := by
    simp only [Server.next, hloop, hlog]
  refine h.quiet rfl ?_ ?_ ?_
  · intro c' hc'
    rw [hnext] at hc'
    exact hc'.imp (fun hmem => by simp [hlog, hmem]) id
  · intro c'
    rw [hnext]
  · intro fd' c' hfd'
    rw [hnext] at hfd' ⊢
    show Streamed env.endian (env.clients c') (o.handled c') (.idle _) _ _
    by_cases hcc : c' = c
    · subst hcc
      obtain ⟨hnil, hframes⟩ := h.waiting c' (.inl hc)
      exact ⟨[], env.clients c', rfl, hnil, hframes⟩
    · have hne : fd' ≠ fd := by
        rintro rfl
        have hnew : some c = some c' := by simpa using hfd'
        exact hcc (Option.some.inj hnew).symm
      have hold := h.served fd' c' (by simpa [Function.update_of_ne hne] using hfd')
      rw [hloop] at hold
      exact hold.idle _

/-- The next report is looked at. -/
theorem Sequenced.dispatch (h : Sequenced env o) (ha : o.server.guard env .dispatch = true) :
    Sequenced env (o.next env .dispatch) := by
  rcases Server.guard_dispatch ha with hloop | ⟨ev, rest, hloop, -⟩
  · refine Undisturbed.sequenced h ?_ rfl
    simp only [Server.next, hloop]
    exact ⟨⟨rfl, rfl, rfl, rfl, rfl⟩, rfl, rfl, rfl, fun c => by rw [hloop]; rfl⟩
  · have hidle : ∀ fd c, o.server.fdConn fd = some c →
        Streamed env.endian (env.clients c) (o.handled c) (.idle false) (o.server.inbox c)
          (o.server.unsent c) := by
      intro fd c hfd
      have hold := h.served fd c hfd
      rw [hloop] at hold
      exact hold.idle _
    have hsame : SameFds o.server (o.server.next env .dispatch) := sameFds_next rfl
    have hbytes : (o.server.next env .dispatch).inbox = o.server.inbox ∧
        (o.server.next env .dispatch).unsent = o.server.unsent := by
      simp only [Server.next, hloop]
      split_ifs <;> exact ⟨rfl, rfl⟩
    refine h.quiet rfl ?_ (fun c => by rw [hbytes.1, hbytes.2]) ?_
    · intro c hc
      rwa [hsame.backlog, hsame.connected] at hc
    · intro fd c hfd
      rw [hsame.fdConn] at hfd ⊢
      have hold := hidle fd c hfd
      simp only [Server.next, hloop]
      split_ifs
      · by_cases hc : o.server.fdConn ev.fd = some c
        · simp only [phase, if_pos hc]
          exact hold.begin
        · simp only [phase, if_neg hc]
          exact hold.idle _
      · by_cases hc : o.server.fdConn ev.fd = some c
        · simp only [phase, if_pos hc]
          exact hold.close
        · simp only [phase, if_neg hc]
          exact hold.idle _
      · exact hold.idle _

theorem Sequenced.close (h : Sequenced env o) (ht : FdTable env o.server)
    (ha : o.server.guard env .close = true) : Sequenced env (o.next env .close) := by
  obtain ⟨fd, rest, hloop⟩ := Server.guard_close ha
  have hnext : o.server.next env .close =
      { o.server with
        fdConn := Function.update o.server.fdConn fd none
        registered := fun c => o.server.registered c && o.server.fdConn fd != some c
        clientMap := o.server.clientMap.erase fd
        loop := .events rest } := by
    simp only [Server.next, hloop]
  refine h.quiet rfl ?_ ?_ ?_
  · intro c hc
    rwa [hnext] at hc
  · intro c
    rw [hnext]
  · intro fd' c hfd'
    rw [hnext] at hfd' ⊢
    have hne : fd' ≠ fd := by
      rintro rfl
      simp at hfd'
    have hold : o.server.fdConn fd' = some c := by simpa [Function.update_of_ne hne] using hfd'
    have hother : o.server.fdConn fd ≠ some c := fun hfd => hne (ht.inj fd' fd c hold hfd)
    have hstream := h.served fd' c hold
    rw [hloop] at hstream
    simp only [phase, if_neg hother] at hstream
    exact hstream.idle _

/-- What is handed over after a `recv` on `c`. -/
theorem handled_recv (env : ServerEnv) (a : ReadAnswer) {fd c : ℕ}
    {prog : ReadLoops UInt8 MsgResult} {rest : List EpollEvent}
    (hloop : o.server.loop = .recvMsg fd prog rest)
    (hconn : o.server.fdConn fd = some c) :
    (o.next env (.recv a)).handled = Function.update o.handled c (handledBy (o.handled c)
      (prog.settle.step isRetry a ⟨o.server.inbox c, (o.server.hungUp c).getD .closed⟩).1) := by
  have hnext : (o.server.next env (.recv a)).loop = Server.afterRecv fd c rest
      (prog.settle.step isRetry a
        ⟨o.server.inbox c, (o.server.hungUp c).getD .closed⟩).1 := by
    simp only [Server.next, hloop, hconn]
  simp only [Observed.next, handsOver, hnext]
  cases (prog.settle.step isRetry a
      ⟨o.server.inbox c, (o.server.hungUp c).getD .closed⟩).1 with
  | done r =>
      simp only [Server.afterRecv, handledBy]
      split_ifs
      · rfl
      · simp
  | read n halt next => simp [Server.afterRecv, handledBy]

/-- One `recv` of the call under way. -/
theorem Sequenced.recv (hclients : ∀ c, Sendable (env.clients c)) (h : Sequenced env o)
    (ht : FdTable env o.server) {a : ReadAnswer} (ha : o.server.guard env (.recv a) = true) :
    Sequenced env (o.next env (.recv a)) := by
  obtain ⟨fd, prog, rest, hloop, hread⟩ := Server.guard_recv ha
  cases hconn : o.server.fdConn fd with
  | none =>
      refine Undisturbed.sequenced h ?_ (by simp [handsOver, Server.next, hloop, hconn])
      simp only [Server.next, hloop, hconn]
      refine ⟨⟨rfl, rfl, rfl, rfl, rfl⟩, rfl, rfl, rfl, fun c => ?_⟩
      rw [hloop]
      simp [phase, hconn]
  | some c =>
      have hfin : (o.server.hungUp c).getD .closed ≠ .error 0 := by
        cases hhung : o.server.hungUp c with
        | none => simp
        | some why =>
            rintro hwhy
            rw [Option.getD_some] at hwhy
            exact ht.hungUp c (by rw [hhung, hwhy])
      have hcur : Streamed env.endian (env.clients c) (o.handled c) (.reading prog)
          (o.server.inbox c) (o.server.unsent c) := by
        have hold := h.served fd c hconn
        rw [hloop] at hold
        simpa only [phase, if_pos hconn] using hold
      have hsettled : prog.settle = prog := by
        obtain ⟨_, _, _, _, hsettled, -⟩ := hcur
        exact hsettled
      have hstep : Streamed env.endian (env.clients c)
          (handledBy (o.handled c) (prog.step isRetry a
            ⟨o.server.inbox c, (o.server.hungUp c).getD .closed⟩).1)
          (recvPhase (prog.step isRetry a
            ⟨o.server.inbox c, (o.server.hungUp c).getD .closed⟩).1)
          (prog.step isRetry a ⟨o.server.inbox c, (o.server.hungUp c).getD .closed⟩).2.bytes
          (o.server.unsent c) := by
        cases a with
        | upTo k =>
            by_cases hempty : o.server.inbox c = []
            · exact hcur.cut (hclients c) hfin (fun errno he => by simp at he) (fun _ _ => hempty)
            · exact hcur.deliver (hclients c) k _ hempty
        | fail errno =>
            refine hcur.cut (hclients c) hfin ?_ (fun k hk => by simp at hk)
            rintro _ ⟨rfl⟩
            simp only [Server.mayRead, hconn, Bool.or_eq_true, beq_iff_eq] at hread
            rcases hread with hretry | hhung
            · exact .inl hretry
            · right
              rintro rfl
              exact ht.hungUp c hhung
      have hhandled := handled_recv env a hloop hconn
      rw [hsettled] at hhandled
      have hserver : (o.next env (.recv a)).server = { o.server with
          inbox := Function.update o.server.inbox c (prog.step isRetry a
            ⟨o.server.inbox c, (o.server.hungUp c).getD .closed⟩).2.bytes
          loop := Server.afterRecv fd c rest (prog.step isRetry a
            ⟨o.server.inbox c, (o.server.hungUp c).getD .closed⟩).1 } := by
        simp only [Observed.next, Server.next, hloop, hconn, hsettled]
      constructor
      · intro c' hc'
        rw [hserver] at hc' ⊢
        rw [hhandled]
        have hne : c' ≠ c := by
          rintro rfl
          exact ht.fresh c' hc' fd hconn
        simpa [Function.update_of_ne hne] using h.waiting c' hc'
      · intro fd' c' hfd'
        rw [hserver] at hfd' ⊢
        rw [hhandled]
        show Streamed env.endian (env.clients c') (Function.update o.handled c _ c')
          (phase o.server.fdConn c' (Server.afterRecv fd c rest _))
          (Function.update o.server.inbox c _ c') (o.server.unsent c')
        by_cases hcc : c' = c
        · subst hcc
          rw [Function.update_self, Function.update_self]
          exact hstep.afterRecv hconn rest
        · have hother : o.server.fdConn fd ≠ some c' := by
            rw [hconn]
            simpa using Ne.symm hcc
          have hold := h.served fd' c' hfd'
          rw [hloop] at hold
          simp only [phase, if_neg hother] at hold
          rw [Function.update_of_ne hcc, Function.update_of_ne hcc,
            phase_afterRecv_of_ne rest _ hother]
          exact hold
      · intro c'
        rw [hhandled]
        by_cases hcc : c' = c
        · rw [hcc, Function.update_self]
          exact hstep.isPrefix
        · rw [Function.update_of_ne hcc]
          exact h.handled c'

theorem Sequenced.next (hclients : ∀ c, Sendable (env.clients c)) (h : Sequenced env o)
    (ht : FdTable env o.server) {a : ServerAction} (ha : o.server.guard env a = true) :
    Sequenced env (o.next env a) := by
  cases a with
  | connect =>
      refine h.quiet rfl ?_ (fun c => rfl) (fun fd c hfd => h.served fd c hfd)
      intro c hc
      rcases hc with hc | hc
      · rcases List.mem_append.mp hc with hc | hc
        · exact .inl hc
        · exact .inr (List.mem_singleton.mp hc).ge
      · exact .inr (Nat.le_of_succ_le hc)
  | arrive c k => exact h.arrive c k
  | hangUp c why =>
      exact h.quiet rfl (fun c hc => hc) (fun c => rfl) (fun fd c hfd => h.served fd c hfd)
  | poll evs => exact h.poll ha
  | accept fd mapped => exact h.accept ha
  | dispatch => exact h.dispatch ha
  | recv a => exact h.recv hclients ht ha
  | close => exact h.close ht ha
  | _ => exact (undisturbed_next ht ha trivial).sequenced h rfl

theorem sequenced_of_reach (hclients : ∀ c, Sendable (env.clients c))
    {P : Observed → ServerAction → Prop} (hr : Reach (observedSystem env) P o) :
    Sequenced env o := by
  refine hr.invariant_of (fun o ho => fdTable_of_reach (server_of_observed ho)) ?_ ?_
  · rintro o rfl
    exact Sequenced.start env
  · intro o a ht h ha _
    exact h.next hclients ht ha

/-! ## The commands handed to the pool -/

/-- The commands left for the pool, with their connections. -/
def Server.requests (s : Server) : List (ℕ × MyMsg) := s.tasks.map fun k => (k.conn, k.msg)

def Server.requestsOn (s : Server) (c : ℕ) : List MyMsg :=
  (s.requests.filter fun r => r.1 == c).map Prod.snd

/-- The message `ServerHandleMsg` has in hand. -/
def LoopPc.inHand (c : ℕ) : LoopPc → List MyMsg
  | .handleMsg _ c' msg _ => if c' = c then [msg] else []
  | _ => []

/-- Every command left for the pool is one of the messages handled. -/
def Requested (o : Observed) : Prop :=
  ∀ c, (o.server.requestsOn c ++ o.server.loop.inHand c).Sublist (o.handled c)

theorem requests_set {s : Server} {i : ℕ} {k k' : ExecCmdTask} (hk : s.tasks[i]? = some k)
    (hconn : k'.conn = k.conn) (hmsg : k'.msg = k.msg) :
    ({ s with tasks := s.tasks.set i k' } : Server).requests = s.requests := by
  show (s.tasks.set i k').map _ = s.tasks.map _
  rw [List.map_set, hconn, hmsg]
  apply List.ext_getElem?
  intro j
  rw [List.getElem?_set]
  split_ifs with hij hlt
  · subst hij
    simp [hk]
  · subst hij
    simpa using hlt
  · rfl

/-- A step that leaves no new command and takes none in hand. -/
theorem Requested.quiet (h : Requested o) {a : ServerAction}
    (hnone : handsOver (o.server.next env a) a = none)
    (hrequests : (o.server.next env a).requests = o.server.requests)
    (hhand : ∀ c, (o.server.next env a).loop.inHand c = o.server.loop.inHand c ∨
      (o.server.next env a).loop.inHand c = []) : Requested (o.next env a) := by
  intro c
  have hhandled : (o.next env a).handled = o.handled := by simp [Observed.next, hnone]
  have hon : (o.next env a).server.requestsOn c = o.server.requestsOn c := by
    simp only [Observed.next, Server.requestsOn, hrequests]
  rw [hhandled, hon]
  rcases hhand c with heq | heq
  · show (_ ++ (o.server.next env a).loop.inHand c).Sublist _
    rw [heq]
    exact h c
  · show (_ ++ (o.server.next env a).loop.inHand c).Sublist _
    rw [heq, List.append_nil]
    exact (List.sublist_append_left _ _).trans (h c)

theorem Requested.execCmd (h : Requested o) {queued : Bool}
    (ha : o.server.guard env (.execCmd queued) = true) :
    Requested (o.next env (.execCmd queued)) := by
  obtain ⟨fd, c', msg, rest, hloop, -⟩ := Server.guard_execCmd ha
  intro c
  have hold := h c
  rw [hloop] at hold
  have hhandled : (o.next env (.execCmd queued)).handled = o.handled := rfl
  have hserver : (o.next env (.execCmd queued)).server = { o.server with
      tasks := if queued then o.server.tasks ++ [⟨fd, msg, c', .queued⟩] else o.server.tasks
      loop := .events rest } := by
    simp only [Observed.next, Server.next, hloop]
  have hnew : (o.next env (.execCmd queued)).server.requestsOn c =
      o.server.requestsOn c ++ if queued = true ∧ c' = c then [msg] else [] := by
    rw [hserver]
    by_cases hc : c' = c <;> cases queued <;>
      simp [Server.requestsOn, Server.requests, hc]
  rw [hhandled, hnew, hserver]
  refine List.Sublist.trans ?_ hold
  simp only [LoopPc.inHand, List.append_nil]
  apply List.Sublist.append_left
  split_ifs with hboth hc
  · exact List.Sublist.refl _
  · exact absurd hboth.2 hc
  · exact List.nil_sublist _
  · exact List.Sublist.refl _

theorem Requested.recv (h : Requested o) {a : ReadAnswer}
    (ha : o.server.guard env (.recv a) = true) : Requested (o.next env (.recv a)) := by
  obtain ⟨fd, prog, rest, hloop, -⟩ := Server.guard_recv ha
  have hrequests : (o.server.next env (.recv a)).requests = o.server.requests := by
    simp only [Server.next, hloop]
    split <;> rfl
  cases hloop' : (o.server.next env (.recv a)).loop with
  | handleMsg fd' c' msg rest' =>
      intro c
      have hold := h c
      rw [hloop] at hold
      have hhandled : (o.next env (.recv a)).handled =
          Function.update o.handled c' (o.handled c' ++ [msg]) := by
        simp [Observed.next, handsOver, hloop']
      have hon : (o.next env (.recv a)).server.requestsOn c = o.server.requestsOn c := by
        simp only [Observed.next, Server.requestsOn, hrequests]
      rw [hhandled, hon]
      show (_ ++ (o.server.next env (.recv a)).loop.inHand c).Sublist _
      rw [hloop']
      simp only [LoopPc.inHand, List.append_nil] at hold ⊢
      by_cases hc : c' = c
      · rw [hc, if_pos rfl, Function.update_self]
        exact hold.append (List.Sublist.refl _)
      · rw [if_neg hc, Function.update_of_ne (Ne.symm hc), List.append_nil]
        exact hold
  | _ =>
      refine h.quiet (by simp [handsOver, hloop']) hrequests fun c => .inr ?_
      rw [hloop']
      rfl

theorem Requested.next (h : Requested o) {a : ServerAction}
    (ha : o.server.guard env a = true) : Requested (o.next env a) := by
  cases a with
  | recv a => exact h.recv ha
  | execCmd queued => exact h.execCmd ha
  | accept fd mapped =>
      obtain ⟨ev, rest, c, later, hloop, hlog, -, -, -⟩ := Server.guard_accept ha
      refine h.quiet rfl ?_ fun c => .inr ?_ <;> simp only [Server.next, hloop, hlog] <;> rfl
  | acceptFails =>
      obtain ⟨ev, rest, hloop, -⟩ := Server.guard_acceptFails ha
      refine h.quiet rfl ?_ fun c => .inr ?_ <;> simp only [Server.next, hloop] <;> rfl
  | dispatch =>
      rcases Server.guard_dispatch ha with hloop | ⟨ev, rest, hloop, -⟩
      · refine h.quiet rfl ?_ fun c => .inr ?_ <;> simp only [Server.next, hloop] <;> rfl
      · refine h.quiet rfl ?_ fun c => .inr ?_ <;> simp only [Server.next, hloop] <;>
          split_ifs <;> rfl
  | reply msg tv =>
      obtain ⟨fd, c, request, rest, hloop⟩ := Server.guard_reply ha
      refine h.quiet rfl ?_ fun c => .inr ?_ <;> simp only [Server.next, hloop] <;> rfl
  | noReply =>
      obtain ⟨fd, c, request, rest, hloop⟩ := Server.guard_noReply ha
      refine h.quiet rfl ?_ fun c => .inr ?_ <;> simp only [Server.next, hloop] <;> rfl
  | send a =>
      obtain ⟨fd, c, prog, rest, hloop⟩ := Server.guard_send ha
      refine h.quiet rfl ?_ fun c => .inr ?_ <;> simp only [Server.next, hloop]
      · rfl
      · cases (prog.settle.step isRetry a).1 <;> rfl
  | close =>
      obtain ⟨fd, rest, hloop⟩ := Server.guard_close ha
      refine h.quiet rfl ?_ fun c => .inr ?_ <;> simp only [Server.next, hloop] <;> rfl
  | startReply i msg tv =>
      obtain ⟨k, hk, -⟩ := Server.guard_queued ha
      refine h.quiet rfl ?_ fun c => .inl ?_ <;> simp only [Server.next, hk]
      exact requests_set hk rfl rfl
  | sendReply i a =>
      obtain ⟨fd, msg, c, prog, hk⟩ := Server.guard_sendReply ha
      refine h.quiet rfl ?_ fun c => .inl ?_ <;> simp only [Server.next, hk]
      exact requests_set hk rfl rfl
  | giveUp i =>
      obtain ⟨k, hk, -⟩ := Server.guard_queued ha
      refine h.quiet rfl ?_ fun c => .inl ?_ <;> simp only [Server.next, hk]
      exact requests_set hk rfl rfl
  | poll evs => exact h.quiet rfl rfl fun c => .inr rfl
  | _ => exact h.quiet rfl rfl fun c => .inl rfl

/-- **Requests are handled in the order they were sent.** In every run, the messages handled on
a connection are the first ones its client has sent, and the commands left for the pool are
some of them, each once and in the same order. -/
theorem requests_in_order (hclients : ∀ c, Sendable (env.clients c))
    {P : Observed → ServerAction → Prop} (hr : Reach (observedSystem env) P o) (c : ℕ) :
    o.handled c <+: (env.clients c).map received ∧
      (o.server.requestsOn c).Sublist (o.handled c) := by
  have hrequested : Requested o := by
    refine hr.invariant ?_ ?_
    · rintro o rfl c
      exact List.Sublist.refl _
    · intro o a h ha _
      exact h.next ha
  exact ⟨(sequenced_of_reach hclients hr).handled c,
    (List.sublist_append_left _ _).trans (hrequested c)⟩
/-- The command of client 0 is left for the pool. -/
def observedRequest : Observed :=
  exec (observedSystem idEnv) ⟨Server.init idEnv, fun _ => []⟩ requestRun

theorem requests_in_order_id :
    observedRequest.handled 0 <+: (idEnv.clients 0).map received ∧
      (observedRequest.server.requestsOn 0).Sublist (observedRequest.handled 0) :=
  requests_in_order (P := fun _ _ => True) sendable_idEnv
    (Reach.exec (.init rfl) (by decide +kernel)) 0

end MyWorkEnv
