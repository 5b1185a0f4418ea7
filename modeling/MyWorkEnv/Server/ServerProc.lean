import MyWorkEnv.Lib.Transition
import MyWorkEnv.MyUtils.Msg.Framing

/-!
# The server's event loop

`_ServerProcFn` of `ServerProc.c` with the pool tasks of `ServerMsgHandler.c`,
over the part of the kernel they talk to: connections with their receive
buffers, the fd table, and the epoll instance. The loop is one thread; a step
is one system call of it, or one of a task, or something a client does.

* The listening fd is level triggered, client fds are `EPOLLIN | EPOLLET`: an
  `edge` is pending from the arrival of bytes, or from `EPOLL_CTL_ADD` if bytes
  were there before, until `epoll_wait` reports the fd.
* `accept` may return any fd number that is not open.
* `_ServerMsgExecCmd` leaves a task with the fd number in it; the task calls
  `SendMsg` whenever a worker comes to it.

Which reply a handler builds is left open, and so is whether allocations,
`TPoolAddTask`, `popen` and `accept` succeed. `ServerProcExit` is not modelled.
-/

namespace MyWorkEnv

open FixedWidth Transfer Transition

abbrev myMsgTypeExecCmd : UInt16 := 10000
abbrev myServerMaxEvents : ℕ := 1024

/-- `struct epoll_event`, with `EPOLLERR | EPOLLHUP` as one flag. -/
structure EpollEvent where
  fd : ℕ
  epollin : Bool
  errHup : Bool
deriving DecidableEq

/-- Where `_ServerProcFn` stands; `rest` are the `waitEvents` still to come.
`conn` is the connection a message was received on, which the code does not
keep. -/
inductive LoopPc where
  | epollWait
  | events (rest : List EpollEvent)
  | recvMsg (fd : ℕ) (prog : ReadLoops UInt8 MsgResult) (rest : List EpollEvent)
  | handleMsg (fd conn : ℕ) (msg : MyMsg) (rest : List EpollEvent)
  | sendMsg (fd conn : ℕ) (prog : WriteLoops UInt8 MsgResult) (rest : List EpollEvent)
  | closeFd (fd : ℕ) (rest : List EpollEvent)

inductive ExecStage where
  | queued
  | sending (prog : WriteLoops UInt8 MsgResult)
  | done

/-- `SERVER_EXEC_CMD_ARG`, and how far `_ServerMsgExecCmdFn` has come with it. -/
structure ExecCmdTask where
  fd : ℕ
  msg : MyMsg
  conn : ℕ
  stage : ExecStage

def ExecCmdTask.live (k : ExecCmdTask) : Bool :=
  match k.stage with
  | .done => false
  | _ => true

/-- What one `send` put on connection `target` in answer to a request from
connection `conn`. -/
structure Reply where
  conn : ℕ
  target : ℕ
  bytes : List UInt8
deriving DecidableEq

/-- The host's byte order, the memory behind a message, what each client sends,
and the number of the listening fd. -/
structure ServerEnv where
  endian : Endian
  past : ℕ → UInt8
  clients : ℕ → List (MyMsg × Timeval)
  serverFd : ℕ

structure Server where
  -- the clients, by connection
  unsent : ℕ → List UInt8
  hungUp : ℕ → Option Halt
  -- the kernel
  connected : ℕ
  backlog : List ℕ
  inbox : ℕ → List UInt8
  fdConn : ℕ → Option ℕ
  registered : ℕ → Bool
  edge : ℕ → Bool
  -- the process
  clientMap : List ℕ
  loop : LoopPc
  tasks : List ExecCmdTask
  replies : List Reply

inductive ServerAction where
  | connect
  | arrive (c k : ℕ)
  | hangUp (c : ℕ) (why : Halt)
  | poll (evs : List EpollEvent)
  | accept (fd : ℕ) (mapped : Bool)
  | acceptFails
  | dispatch
  | recv (a : ReadAnswer)
  | execCmd (queued : Bool)
  | reply (msg : MyMsg) (tv : Timeval)
  | noReply
  | send (a : WriteAnswer)
  | close
  | startReply (i : ℕ) (msg : MyMsg) (tv : Timeval)
  | sendReply (i : ℕ) (a : WriteAnswer)
  | giveUp (i : ℕ)

namespace Server

variable (env : ServerEnv)

def init : Server where
  unsent c := framesOf env.endian (env.clients c)
  hungUp _ := none
  connected := 0
  backlog := []
  inbox _ := []
  fdConn _ := none
  registered _ := false
  edge _ := false
  clientMap := []
  loop := .epollWait
  tasks := []
  replies := []

/-! ## When a step may be taken -/

/-- May `epoll_wait` report this? -/
def mayReport (s : Server) (ev : EpollEvent) : Bool :=
  if ev.fd = env.serverFd then ev.epollin && !s.backlog.isEmpty
  else
    match s.fdConn ev.fd with
    | none => false
    | some c => s.registered c && s.edge c && (ev.epollin || (s.inbox c).isEmpty)

/-- May `recv` on `fd` answer this? -/
def mayRead (s : Server) (fd : ℕ) (a : ReadAnswer) : Bool :=
  match s.fdConn fd with
  | none => a == .fail eBadF
  | some c =>
      match a with
      | .upTo _ => !(s.inbox c).isEmpty || (s.hungUp c).isSome
      | .fail errno => isRetry errno || s.hungUp c == some (.error errno)

/-- May `send` on `fd` answer this? -/
def mayWrite (s : Server) (fd : ℕ) (a : WriteAnswer) : Bool :=
  (s.fdConn fd).isSome || a == .fail eBadF

def guard (s : Server) : ServerAction → Bool
  | .connect => true
  | .arrive c k =>
      decide (c < s.connected) && (s.hungUp c).isNone && decide (k < (s.unsent c).length)
  | .hangUp c why =>
      decide (c < s.connected) && (s.hungUp c).isNone && why != .error 0
  | .poll evs =>
      match s.loop with
      | .epollWait =>
          evs.all (s.mayReport env) && decide (evs.map EpollEvent.fd).Nodup &&
            decide (evs.length ≤ myServerMaxEvents)
      | _ => false
  | .accept fd _ =>
      match s.loop with
      | .events (ev :: _) =>
          ev.fd == env.serverFd && !s.backlog.isEmpty && (s.fdConn fd).isNone &&
            fd != env.serverFd
      | _ => false
  | .acceptFails =>
      match s.loop with
      | .events (ev :: _) => ev.fd == env.serverFd
      | _ => false
  | .dispatch =>
      match s.loop with
      | .events [] => true
      | .events (ev :: _) => ev.fd != env.serverFd
      | _ => false
  | .recv a =>
      match s.loop with
      | .recvMsg fd _ _ => s.mayRead fd a
      | _ => false
  | .execCmd _ =>
      match s.loop with
      | .handleMsg _ _ msg _ => msg.head.type == myMsgTypeExecCmd
      | _ => false
  | .reply _ _ | .noReply =>
      match s.loop with
      | .handleMsg _ _ msg _ => msg.head.type != myMsgTypeExecCmd
      | _ => false
  | .send a =>
      match s.loop with
      | .sendMsg fd _ _ _ => s.mayWrite fd a
      | _ => false
  | .close =>
      match s.loop with
      | .closeFd _ _ => true
      | _ => false
  | .startReply i _ _ | .giveUp i =>
      match s.tasks[i]? with
      | some ⟨_, _, _, .queued⟩ => true
      | _ => false
  | .sendReply i a =>
      match s.tasks[i]? with
      | some ⟨fd, _, _, .sending _⟩ => s.mayWrite fd a
      | _ => false

/-! ## What it does -/

/-- `RecvMsg` goes on, or the loop looks at its return code. -/
def afterRecv (fd c : ℕ) (rest : List EpollEvent) : ReadLoops UInt8 MsgResult → LoopPc
  | .done r => if r.ret = mySuccess then .handleMsg fd c r.msg rest else .closeFd fd rest
  | prog => .recvMsg fd prog rest

def afterSend (fd c : ℕ) (rest : List EpollEvent) : WriteLoops UInt8 MsgResult → LoopPc
  | .done _ => .events rest
  | prog => .sendMsg fd c prog rest

def afterSendReply : WriteLoops UInt8 MsgResult → ExecStage
  | .done _ => .done
  | prog => .sending prog

/-- The replies after a `send` on `fd`, which fails if `fd` is not open. -/
def sent (s : Server) (conn fd : ℕ) (bytes : List UInt8) : List Reply :=
  match s.fdConn fd with
  | none => s.replies
  | some target => s.replies ++ [⟨conn, target, bytes⟩]

/-- The connections whose fd is among the reported ones. -/
def reported (s : Server) (evs : List EpollEvent) (c : ℕ) : Bool :=
  evs.any fun ev => s.fdConn ev.fd == some c

def next (s : Server) : ServerAction → Server
  | .connect => { s with connected := s.connected + 1, backlog := s.backlog ++ [s.connected] }
  | .arrive c k =>
      { s with
        unsent := Function.update s.unsent c ((s.unsent c).drop (k + 1))
        inbox := Function.update s.inbox c (s.inbox c ++ (s.unsent c).take (k + 1))
        edge := Function.update s.edge c (s.registered c) }
  | .hangUp c why =>
      { s with
        hungUp := Function.update s.hungUp c (some why)
        edge := Function.update s.edge c (s.registered c) }
  | .poll evs =>
      { s with
        edge := fun c => s.edge c && !s.reported evs c
        loop := .events evs }
  | .accept fd mapped =>
      match s.loop, s.backlog with
      | .events (_ :: rest), c :: later =>
          { s with
            backlog := later
            fdConn := Function.update s.fdConn fd (some c)
            registered := Function.update s.registered c true
            edge := Function.update s.edge c (!(s.inbox c).isEmpty || (s.hungUp c).isSome)
            clientMap := if mapped then s.clientMap ++ [fd] else s.clientMap
            loop := .events rest }
      | _, _ => s
  | .acceptFails =>
      match s.loop with
      | .events (_ :: rest) => { s with loop := .events rest }
      | _ => s
  | .dispatch =>
      match s.loop with
      | .events [] => { s with loop := .epollWait }
      | .events (ev :: rest) =>
          if ev.epollin then { s with loop := .recvMsg ev.fd (recvLoops env.endian) rest }
          else if ev.errHup then { s with loop := .closeFd ev.fd rest }
          else { s with loop := .events rest }
      | _ => s
  | .recv a =>
      match s.loop with
      | .recvMsg fd prog rest =>
          match s.fdConn fd with
          | none => { s with loop := .closeFd fd rest }
          | some c =>
              let out := prog.settle.step isRetry a ⟨s.inbox c, (s.hungUp c).getD .closed⟩
              { s with
                inbox := Function.update s.inbox c out.2.bytes
                loop := afterRecv fd c rest out.1 }
      | _ => s
  | .execCmd queued =>
      match s.loop with
      | .handleMsg fd c msg rest =>
          { s with
            tasks := if queued then s.tasks ++ [⟨fd, msg, c, .queued⟩] else s.tasks
            loop := .events rest }
      | _ => s
  | .reply msg tv =>
      match s.loop with
      | .handleMsg fd c _ rest =>
          { s with loop := .sendMsg fd c (sendLoops env.endian env.past msg tv) rest }
      | _ => s
  | .noReply =>
      match s.loop with
      | .handleMsg _ _ _ rest => { s with loop := .events rest }
      | _ => s
  | .send a =>
      match s.loop with
      | .sendMsg fd c prog rest =>
          let out := prog.settle.step isRetry a
          { s with replies := s.sent c fd out.2, loop := afterSend fd c rest out.1 }
      | _ => s
  | .close =>
      match s.loop with
      | .closeFd fd rest =>
          { s with
            fdConn := Function.update s.fdConn fd none
            registered := fun c => s.registered c && s.fdConn fd != some c
            clientMap := s.clientMap.erase fd
            loop := .events rest }
      | _ => s
  | .startReply i msg tv =>
      match s.tasks[i]? with
      | some k =>
          { s with
            tasks := s.tasks.set i
              { k with stage := .sending (sendLoops env.endian env.past msg tv) } }
      | none => s
  | .sendReply i a =>
      match s.tasks[i]? with
      | some ⟨fd, msg, c, .sending prog⟩ =>
          let out := prog.settle.step isRetry a
          { s with
            replies := s.sent c fd out.2
            tasks := s.tasks.set i ⟨fd, msg, c, afterSendReply out.1⟩ }
      | _ => s
  | .giveUp i =>
      match s.tasks[i]? with
      | some k => { s with tasks := s.tasks.set i { k with stage := .done } }
      | none => s

/-! ## Where each step starts from -/

variable {env} {s : Server}

theorem guard_poll {evs : List EpollEvent} (h : s.guard env (.poll evs) = true) :
    s.loop = .epollWait ∧ (∀ ev ∈ evs, s.mayReport env ev = true) ∧
      (evs.map EpollEvent.fd).Nodup := by
  cases hloop : s.loop with
  | epollWait =>
      simp only [guard, hloop, Bool.and_eq_true, decide_eq_true_eq, List.all_eq_true] at h
      exact ⟨rfl, h.1.1, h.1.2⟩
  | _ => simp [guard, hloop] at h

theorem guard_accept {fd : ℕ} {mapped : Bool} (h : s.guard env (.accept fd mapped) = true) :
    ∃ ev rest c later, s.loop = .events (ev :: rest) ∧ s.backlog = c :: later ∧
      ev.fd = env.serverFd ∧ s.fdConn fd = none ∧ fd ≠ env.serverFd := by
  cases hloop : s.loop with
  | events evs =>
      cases evs with
      | nil => simp [guard, hloop] at h
      | cons ev rest =>
          cases hlog : s.backlog with
          | nil => simp [guard, hloop, hlog] at h
          | cons c later =>
              simp only [guard, hloop, hlog, Bool.and_eq_true, beq_iff_eq, bne_iff_ne,
                Option.isNone_iff_eq_none] at h
              exact ⟨ev, rest, c, later, rfl, rfl, h.1.1.1, h.1.2, h.2⟩
  | _ => simp [guard, hloop] at h

theorem guard_acceptFails (h : s.guard env .acceptFails = true) :
    ∃ ev rest, s.loop = .events (ev :: rest) ∧ ev.fd = env.serverFd := by
  cases hloop : s.loop with
  | events evs =>
      cases evs with
      | nil => simp [guard, hloop] at h
      | cons ev rest => exact ⟨ev, rest, rfl, by simpa [guard, hloop] using h⟩
  | _ => simp [guard, hloop] at h

theorem guard_dispatch (h : s.guard env .dispatch = true) :
    s.loop = .events [] ∨
      ∃ ev rest, s.loop = .events (ev :: rest) ∧ ev.fd ≠ env.serverFd := by
  cases hloop : s.loop with
  | events evs =>
      cases evs with
      | nil => exact Or.inl rfl
      | cons ev rest => exact Or.inr ⟨ev, rest, rfl, by simpa [guard, hloop] using h⟩
  | _ => simp [guard, hloop] at h

theorem guard_recv {a : ReadAnswer} (h : s.guard env (.recv a) = true) :
    ∃ fd prog rest, s.loop = .recvMsg fd prog rest ∧ s.mayRead fd a = true := by
  cases hloop : s.loop with
  | recvMsg fd prog rest => exact ⟨fd, prog, rest, rfl, by simpa [guard, hloop] using h⟩
  | _ => simp [guard, hloop] at h

theorem guard_execCmd {queued : Bool} (h : s.guard env (.execCmd queued) = true) :
    ∃ fd c msg rest, s.loop = .handleMsg fd c msg rest ∧
      msg.head.type = myMsgTypeExecCmd := by
  cases hloop : s.loop with
  | handleMsg fd c msg rest => exact ⟨fd, c, msg, rest, rfl, by simpa [guard, hloop] using h⟩
  | _ => simp [guard, hloop] at h

theorem guard_reply {msg : MyMsg} {tv : Timeval} (h : s.guard env (.reply msg tv) = true) :
    ∃ fd c request rest, s.loop = .handleMsg fd c request rest := by
  cases hloop : s.loop with
  | handleMsg fd c request rest => exact ⟨fd, c, request, rest, rfl⟩
  | _ => simp [guard, hloop] at h

theorem guard_noReply (h : s.guard env .noReply = true) :
    ∃ fd c request rest, s.loop = .handleMsg fd c request rest := by
  cases hloop : s.loop with
  | handleMsg fd c request rest => exact ⟨fd, c, request, rest, rfl⟩
  | _ => simp [guard, hloop] at h

theorem guard_send {a : WriteAnswer} (h : s.guard env (.send a) = true) :
    ∃ fd c prog rest, s.loop = .sendMsg fd c prog rest := by
  cases hloop : s.loop with
  | sendMsg fd c prog rest => exact ⟨fd, c, prog, rest, rfl⟩
  | _ => simp [guard, hloop] at h

theorem guard_close (h : s.guard env .close = true) :
    ∃ fd rest, s.loop = .closeFd fd rest := by
  cases hloop : s.loop with
  | closeFd fd rest => exact ⟨fd, rest, rfl⟩
  | _ => simp [guard, hloop] at h

theorem guard_queued {i : ℕ}
    (h : (match s.tasks[i]? with | some ⟨_, _, _, .queued⟩ => true | _ => false) = true) :
    ∃ k, s.tasks[i]? = some k ∧ k.live = true := by
  cases hk : s.tasks[i]? with
  | none => simp [hk] at h
  | some k =>
      obtain ⟨fd, msg, c, stage⟩ := k
      cases stage with
      | queued => exact ⟨_, rfl, rfl⟩
      | _ => simp [hk] at h

theorem guard_sendReply {i : ℕ} {a : WriteAnswer} (h : s.guard env (.sendReply i a) = true) :
    ∃ fd msg c prog, s.tasks[i]? = some ⟨fd, msg, c, .sending prog⟩ := by
  cases hk : s.tasks[i]? with
  | none => simp [guard, hk] at h
  | some k =>
      obtain ⟨fd, msg, c, stage⟩ := k
      cases stage with
      | sending prog => exact ⟨fd, msg, c, prog, rfl⟩
      | _ => simp [guard, hk] at h

end Server

/-- The server, its clients and the kernel between them. -/
abbrev serverSystem (env : ServerEnv) : System Server ServerAction where
  init s := s = Server.init env
  enabled s a := s.guard env a = true
  next := Server.next env

/-! ## The fd table -/

/-- Connections have at most one fd, an open fd is registered with epoll, and
what has not been accepted has no fd. -/
structure FdTable (env : ServerEnv) (s : Server) : Prop where
  inj : ∀ fd fd' c, s.fdConn fd = some c → s.fdConn fd' = some c → fd = fd'
  listening : s.fdConn env.serverFd = none
  registered : ∀ fd c, s.fdConn fd = some c → s.registered c = true
  backlog_nodup : s.backlog.Nodup
  backlog_lt : ∀ c ∈ s.backlog, c < s.connected
  fresh : ∀ c, c ∈ s.backlog ∨ s.connected ≤ c → ∀ fd, s.fdConn fd ≠ some c
  hungUp : ∀ c, s.hungUp c ≠ some (.error 0)

variable {env : ServerEnv} {s s' : Server}

theorem FdTable.start (env : ServerEnv) : FdTable env (Server.init env) where
  inj fd fd' c h := by simp [Server.init] at h
  listening := rfl
  registered fd c h := by simp [Server.init] at h
  backlog_nodup := List.nodup_nil
  backlog_lt c h := absurd h List.not_mem_nil
  fresh c _ fd h := by simp [Server.init] at h
  hungUp c h := by simp [Server.init] at h

/-- Two states that agree on connections and fds. -/
structure SameFds (s s' : Server) : Prop where
  fdConn : s'.fdConn = s.fdConn
  registered : s'.registered = s.registered
  backlog : s'.backlog = s.backlog
  connected : s'.connected = s.connected
  hungUp : s'.hungUp = s.hungUp

theorem SameFds.table (h : SameFds s s') (ht : FdTable env s) : FdTable env s' := by
  obtain ⟨hfd, hreg, hlog, hconn, hhung⟩ := h
  constructor
  · rw [hfd]
    exact ht.inj
  · rw [hfd]
    exact ht.listening
  · rw [hfd, hreg]
    exact ht.registered
  · rw [hlog]
    exact ht.backlog_nodup
  · rw [hlog, hconn]
    exact ht.backlog_lt
  · rw [hlog, hconn, hfd]
    exact ht.fresh
  · rw [hhung]
    exact ht.hungUp

/-- The steps that leave connections and fds as they are. -/
def ServerAction.keepsFds : ServerAction → Bool
  | .connect | .hangUp _ _ | .accept _ _ | .close => false
  | _ => true

theorem sameFds_next {a : ServerAction} (hk : a.keepsFds = true) :
    SameFds s (s.next env a) := by
  cases a with
  | connect => simp [ServerAction.keepsFds] at hk
  | hangUp c why => simp [ServerAction.keepsFds] at hk
  | accept fd mapped => simp [ServerAction.keepsFds] at hk
  | close => simp [ServerAction.keepsFds] at hk
  | _ =>
      simp only [Server.next]
      repeat' split
      all_goals exact ⟨rfl, rfl, rfl, rfl, rfl⟩

theorem FdTable.connect (h : FdTable env s) : FdTable env (s.next env .connect) where
  inj := h.inj
  listening := h.listening
  registered := h.registered
  backlog_nodup := by
    show (s.backlog ++ [s.connected]).Nodup
    rw [List.nodup_append]
    refine ⟨h.backlog_nodup, List.nodup_singleton _, ?_⟩
    intro c hc c' hc' hcc
    rw [List.mem_singleton] at hc'
    have hlt := h.backlog_lt c hc
    omega
  backlog_lt c hc := by
    show c < s.connected + 1
    rcases List.mem_append.mp hc with hc | hc
    · have hlt := h.backlog_lt c hc
      omega
    · rw [List.mem_singleton] at hc
      omega
  fresh c hc fd := by
    refine h.fresh c ?_ fd
    rcases hc with hc | hc
    · rcases List.mem_append.mp hc with hc | hc
      · exact Or.inl hc
      · right
        rw [List.mem_singleton] at hc
        omega
    · right
      have hle : s.connected + 1 ≤ c := hc
      omega
  hungUp := h.hungUp

theorem FdTable.accept (h : FdTable env s) {fd : ℕ} {mapped : Bool}
    (ha : s.guard env (.accept fd mapped) = true) :
    FdTable env (s.next env (.accept fd mapped)) := by
  obtain ⟨ev, rest, c, later, hloop, hlog, -, hclosed, hlisten⟩ := Server.guard_accept ha
  have hc : c ∈ s.backlog := by simp [hlog]
  have hnodup := h.backlog_nodup
  rw [hlog, List.nodup_cons] at hnodup
  simp only [Server.next, hloop, hlog]
  constructor
  · intro fd₁ fd₂ c' h₁ h₂
    simp only [Function.update_apply] at h₁ h₂
    split_ifs at h₁ h₂ with e₁ e₂ e₂
    · rw [e₁, e₂]
    · rw [← Option.some.inj h₁] at h₂
      exact absurd h₂ (h.fresh c (Or.inl hc) fd₂)
    · rw [← Option.some.inj h₂] at h₁
      exact absurd h₁ (h.fresh c (Or.inl hc) fd₁)
    · exact h.inj fd₁ fd₂ c' h₁ h₂
  · simp only [Function.update_of_ne (Ne.symm hlisten)]
    exact h.listening
  · intro fd' c' h'
    simp only [Function.update_apply] at h' ⊢
    by_cases hcc : c' = c
    · rw [if_pos hcc]
    · rw [if_neg hcc]
      split_ifs at h'
      · exact absurd (Option.some.inj h').symm hcc
      · exact h.registered fd' c' h'
  · exact hnodup.2
  · intro c' hc'
    exact h.backlog_lt c' (by simp [hlog, hc'])
  · intro c' hc' fd' h'
    simp only [Function.update_apply] at h'
    split_ifs at h' with e'
    · have hcc : c' = c := (Option.some.inj h').symm
      rcases hc' with hc' | hc'
      · exact hnodup.1 (hcc ▸ hc')
      · have hlt := h.backlog_lt c hc
        have hle : s.connected ≤ c' := hc'
        omega
    · refine h.fresh c' ?_ fd' h'
      rcases hc' with hc' | hc'
      · exact Or.inl (by simp [hlog, hc'])
      · exact Or.inr hc'
  · exact h.hungUp

theorem FdTable.close (h : FdTable env s) {fd : ℕ} {rest : List EpollEvent}
    (hloop : s.loop = .closeFd fd rest) : FdTable env (s.next env .close) := by
  have hopen : ∀ fd' c, Function.update s.fdConn fd none fd' = some c →
      fd' ≠ fd ∧ s.fdConn fd' = some c := by
    intro fd' c h'
    simp only [Function.update_apply] at h'
    split_ifs at h' with e'
    exact ⟨e', h'⟩
  simp only [Server.next, hloop]
  constructor
  · intro fd₁ fd₂ c h₁ h₂
    exact h.inj fd₁ fd₂ c (hopen fd₁ c h₁).2 (hopen fd₂ c h₂).2
  · simp only [Function.update_apply]
    split_ifs
    · rfl
    · exact h.listening
  · intro fd' c h'
    obtain ⟨hne, hconn⟩ := hopen fd' c h'
    have hother : s.fdConn fd ≠ some c := fun hfd => hne (h.inj fd' fd c hconn hfd)
    simp [h.registered fd' c hconn, hother]
  · exact h.backlog_nodup
  · exact h.backlog_lt
  · intro c hc fd' h'
    exact h.fresh c hc fd' (hopen fd' c h').2
  · exact h.hungUp

theorem FdTable.hangUp (h : FdTable env s) {c : ℕ} {why : Halt}
    (ha : s.guard env (.hangUp c why) = true) : FdTable env (s.next env (.hangUp c why)) where
  inj := h.inj
  listening := h.listening
  registered := h.registered
  backlog_nodup := h.backlog_nodup
  backlog_lt := h.backlog_lt
  fresh := h.fresh
  hungUp c' := by
    have hwhy : why ≠ .error 0 := by
      simp only [Server.guard, Bool.and_eq_true, bne_iff_ne] at ha
      exact ha.2
    show Function.update s.hungUp c (some why) c' ≠ some (.error 0)
    by_cases hc : c' = c
    · rw [hc, Function.update_self]
      simpa using hwhy
    · rw [Function.update_of_ne hc]
      exact h.hungUp c'

/-- **One step.** -/
theorem FdTable.next {a : ServerAction} (h : FdTable env s) (ha : s.guard env a = true) :
    FdTable env (s.next env a) := by
  by_cases hk : a.keepsFds = true
  · exact (sameFds_next hk).table h
  · cases a with
    | connect => exact h.connect
    | hangUp c why => exact h.hangUp ha
    | accept fd mapped => exact h.accept ha
    | close =>
        obtain ⟨fd, rest, hloop⟩ := Server.guard_close ha
        exact h.close hloop
    | _ => simp [ServerAction.keepsFds] at hk

theorem fdTable_of_reach {P : Server → ServerAction → Prop}
    (h : Reach (serverSystem env) P s) : FdTable env s := by
  refine h.invariant ?_ ?_
  · rintro s rfl
    exact FdTable.start env
  · intro s a hs ha _
    exact hs.next ha

end MyWorkEnv
