import MyWorkEnv.Server.ServerProc

/-!
# Where replies go

A reply of the default handler is sent before the loop closes or accepts
anything, so its fd still is the connection of the request. The reply of an
`EXEC_CMD` task is sent when a worker comes to it, and by then the number may
belong to another connection (`reply_reaches_another`). `Routed` is what keeps
replies at home: no live task holds the number of somebody else's connection.
-/

namespace MyWorkEnv

open FixedWidth Transfer Transition

/-- The fd the loop is about to answer on, with the request's connection. -/
def LoopPc.serving : LoopPc → Option (ℕ × ℕ)
  | .handleMsg fd c _ _ => some (fd, c)
  | .sendMsg fd c _ _ => some (fd, c)
  | _ => none

structure Routed (s : Server) : Prop where
  tasks : ∀ k ∈ s.tasks, k.live = true → s.fdConn k.fd = none ∨ s.fdConn k.fd = some k.conn
  loop : ∀ fd c, s.loop.serving = some (fd, c) → s.fdConn fd = some c
  replies : ∀ r ∈ s.replies, r.target = r.conn

/-- `accept` returns no fd number that a task still to be finished has stored. -/
def NoStoredFd (s : Server) : ServerAction → Prop
  | .accept fd _ => ∀ k ∈ s.tasks, k.live = true → k.fd ≠ fd
  | _ => True

instance NoStoredFd.decidable (s : Server) : ∀ a, Decidable (NoStoredFd s a)
  | .accept fd _ => inferInstanceAs (Decidable (∀ k ∈ s.tasks, k.live = true → k.fd ≠ fd))
  | .connect | .arrive _ _ | .hangUp _ _ | .poll _ | .acceptFails | .dispatch | .recv _
  | .execCmd _ | .reply _ _ | .noReply | .send _ | .close | .startReply _ _ _
  | .sendReply _ _ | .giveUp _ => .isTrue trivial

variable {env : ServerEnv} {s : Server}

theorem Routed.start (env : ServerEnv) : Routed (Server.init env) where
  tasks k hk := absurd hk List.not_mem_nil
  loop fd c h := by simp [Server.init, LoopPc.serving] at h
  replies r hr := absurd hr List.not_mem_nil

/-- A message is handed on with the connection it was read from. -/
theorem serving_afterRecv {fd c fd' c' : ℕ} {rest : List EpollEvent}
    {prog : ReadLoops UInt8 MsgResult}
    (h : (Server.afterRecv fd c rest prog).serving = some (fd', c')) :
    (fd', c') = (fd, c) := by
  cases prog with
  | done r =>
      simp only [Server.afterRecv] at h
      split at h
      · simpa [LoopPc.serving, eq_comm] using h
      · simp [LoopPc.serving] at h
  | read n halt next => simp [Server.afterRecv, LoopPc.serving] at h

theorem serving_afterSend {fd c fd' c' : ℕ} {rest : List EpollEvent}
    {prog : WriteLoops UInt8 MsgResult}
    (h : (Server.afterSend fd c rest prog).serving = some (fd', c')) :
    (fd', c') = (fd, c) := by
  cases prog with
  | done r => simp [Server.afterSend, LoopPc.serving] at h
  | write bs halt next => simpa [Server.afterSend, LoopPc.serving, eq_comm] using h

/-- A `send` on an fd that is closed, or still the request's, misses nobody. -/
theorem Routed.sent (h : Routed s) {conn fd : ℕ} (bytes : List UInt8)
    (hfd : s.fdConn fd = none ∨ s.fdConn fd = some conn) :
    ∀ r ∈ s.sent conn fd bytes, r.target = r.conn := by
  intro r hr
  unfold Server.sent at hr
  rcases hfd with hfd | hfd
  · rw [hfd] at hr
    exact h.replies r hr
  · rw [hfd] at hr
    rcases List.mem_append.mp hr with hr | hr
    · exact h.replies r hr
    · rw [List.mem_singleton.mp hr]

/-- A task is replaced by one with the same fd and connection. -/
theorem Routed.set (h : Routed s) {i : ℕ} {k k' : ExecCmdTask} (hk : s.tasks[i]? = some k)
    (hlive : k.live = true) (hfd : k'.fd = k.fd) (hconn : k'.conn = k.conn) :
    ∀ t ∈ s.tasks.set i k', t.live = true →
      s.fdConn t.fd = none ∨ s.fdConn t.fd = some t.conn := by
  intro t ht htlive
  rcases List.mem_or_eq_of_mem_set ht with ht | rfl
  · exact h.tasks t ht htlive
  · rw [hfd, hconn]
    exact h.tasks k (List.mem_of_getElem? hk) hlive

/-- The number `accept` returns is not one a task answers on. -/
theorem Routed.accept (h : Routed s) {fd : ℕ} {mapped : Bool}
    (ha : s.guard env (.accept fd mapped) = true) (hp : NoStoredFd s (.accept fd mapped)) :
    Routed (s.next env (.accept fd mapped)) := by
  obtain ⟨ev, rest, c, later, hloop, hlog, -, hclosed, -⟩ := Server.guard_accept ha
  simp only [Server.next, hloop, hlog]
  refine ⟨?_, by simp [LoopPc.serving], h.replies⟩
  intro k hk hlive
  show Function.update s.fdConn fd (some c) k.fd = none ∨
    Function.update s.fdConn fd (some c) k.fd = some k.conn
  rw [Function.update_of_ne (hp k hk hlive)]
  exact h.tasks k hk hlive

theorem Routed.recv (h : Routed s) {r : ReadAnswer} (ha : s.guard env (.recv r) = true) :
    Routed (s.next env (.recv r)) := by
  obtain ⟨fd, prog, rest, hloop, -⟩ := Server.guard_recv ha
  cases hconn : s.fdConn fd with
  | none =>
      simp only [Server.next, hloop, hconn]
      exact ⟨h.tasks, by simp [LoopPc.serving], h.replies⟩
  | some c =>
      simp only [Server.next, hloop, hconn]
      refine ⟨h.tasks, ?_, h.replies⟩
      intro fd' c' hserving
      obtain ⟨rfl, rfl⟩ := Prod.mk.inj (serving_afterRecv hserving)
      exact hconn

/-- A new task answers on the fd its request came from. -/
theorem Routed.execCmd (h : Routed s) {queued : Bool}
    (ha : s.guard env (.execCmd queued) = true) : Routed (s.next env (.execCmd queued)) := by
  obtain ⟨fd, c, msg, rest, hloop, -⟩ := Server.guard_execCmd ha
  have hconn : s.fdConn fd = some c := h.loop fd c (by rw [hloop]; rfl)
  simp only [Server.next, hloop]
  refine ⟨?_, by simp [LoopPc.serving], h.replies⟩
  intro k hk hlive
  cases queued with
  | false => exact h.tasks k hk hlive
  | true =>
      rcases List.mem_append.mp hk with hk | hk
      · exact h.tasks k hk hlive
      · rw [List.mem_singleton.mp hk]
        exact Or.inr hconn

theorem Routed.send (h : Routed s) {r : WriteAnswer} (ha : s.guard env (.send r) = true) :
    Routed (s.next env (.send r)) := by
  obtain ⟨fd, c, prog, rest, hloop⟩ := Server.guard_send ha
  have hconn : s.fdConn fd = some c := h.loop fd c (by rw [hloop]; rfl)
  simp only [Server.next, hloop]
  refine ⟨h.tasks, ?_, h.sent _ (Or.inr hconn)⟩
  intro fd' c' hserving
  obtain ⟨rfl, rfl⟩ := Prod.mk.inj (serving_afterSend hserving)
  exact hconn

/-- Behind a `close` the fd leads nowhere. -/
theorem Routed.close (h : Routed s) (ha : s.guard env .close = true) :
    Routed (s.next env .close) := by
  obtain ⟨fd, rest, hloop⟩ := Server.guard_close ha
  simp only [Server.next, hloop]
  refine ⟨?_, by simp [LoopPc.serving], h.replies⟩
  intro k hk hlive
  show Function.update s.fdConn fd none k.fd = none ∨
    Function.update s.fdConn fd none k.fd = some k.conn
  by_cases hfd : k.fd = fd
  · rw [hfd, Function.update_self]
    exact Or.inl rfl
  · rw [Function.update_of_ne hfd]
    exact h.tasks k hk hlive

/-- **One step.** -/
theorem Routed.next {a : ServerAction} (h : Routed s) (ha : s.guard env a = true)
    (hp : NoStoredFd s a) : Routed (s.next env a) := by
  cases a with
  | connect => exact ⟨h.tasks, h.loop, h.replies⟩
  | arrive c k => exact ⟨h.tasks, h.loop, h.replies⟩
  | hangUp c why => exact ⟨h.tasks, h.loop, h.replies⟩
  | poll evs => exact ⟨h.tasks, by simp [Server.next, LoopPc.serving], h.replies⟩
  | accept fd mapped => exact h.accept ha hp
  | acceptFails =>
      obtain ⟨ev, rest, hloop, -⟩ := Server.guard_acceptFails ha
      simp only [Server.next, hloop]
      exact ⟨h.tasks, by simp [LoopPc.serving], h.replies⟩
  | dispatch =>
      rcases Server.guard_dispatch ha with hloop | ⟨ev, rest, hloop, -⟩
      · simp only [Server.next, hloop]
        exact ⟨h.tasks, by simp [LoopPc.serving], h.replies⟩
      · simp only [Server.next, hloop]
        split_ifs
        all_goals exact ⟨h.tasks, by simp [LoopPc.serving], h.replies⟩
  | recv r => exact h.recv ha
  | execCmd queued => exact h.execCmd ha
  | reply msg tv =>
      obtain ⟨fd, c, request, rest, hloop⟩ := Server.guard_reply ha
      simp only [Server.next, hloop]
      refine ⟨h.tasks, ?_, h.replies⟩
      intro fd' c' hserving
      apply h.loop fd' c'
      rw [hloop]
      exact hserving
  | noReply =>
      obtain ⟨fd, c, request, rest, hloop⟩ := Server.guard_noReply ha
      simp only [Server.next, hloop]
      exact ⟨h.tasks, by simp [LoopPc.serving], h.replies⟩
  | send r => exact h.send ha
  | close => exact h.close ha
  | startReply i msg tv =>
      obtain ⟨k, hk, hlive⟩ := Server.guard_queued ha
      simp only [Server.next, hk]
      exact ⟨h.set hk hlive rfl rfl, h.loop, h.replies⟩
  | sendReply i r =>
      obtain ⟨fd, msg, c, prog, hk⟩ := Server.guard_sendReply ha
      simp only [Server.next, hk]
      refine ⟨h.set hk rfl rfl rfl, h.loop, h.sent _ ?_⟩
      exact h.tasks _ (List.mem_of_getElem? hk) rfl
  | giveUp i =>
      obtain ⟨k, hk, hlive⟩ := Server.guard_queued ha
      simp only [Server.next, hk]
      exact ⟨h.set hk hlive rfl rfl, h.loop, h.replies⟩

/-- No byte of a reply is written to another connection than the request's. -/
def RepliesToRequester (s : Server) : Prop :=
  ∀ r ∈ s.replies, r.bytes ≠ [] → r.target = r.conn

/-- **Replies stay with the client.** In every run in which `accept` reuses no
number that a task still has to answer on, a reply reaches its requester or
nobody. -/
theorem reply_to_requester (h : Reach (serverSystem env) NoStoredFd s) :
    RepliesToRequester s := by
  have hrouted : Routed s := by
    refine h.invariant ?_ ?_
    · rintro s rfl
      exact Routed.start env
    · intro s a hs ha hp
      exact hs.next ha hp
  intro r hr _
  exact hrouted.replies r hr

/-- The command `id`, and an answer to it. -/
def idRequest : MyMsg where
  head := ⟨myMsgVerMagic, 0, 0, myMsgTypeExecCmd, 2, 0, 0, buffer 24 []⟩
  cont := ⟨buffer _ [0x69, 0x64]⟩
  tail := ⟨buffer 16 [], 0, buffer 64 []⟩

def idReply : MyMsg where
  head := ⟨myMsgVerMagic, 1, 0, 10001, 2, 0, 0, buffer 24 []⟩
  cont := ⟨buffer _ [0x30, 0x0a]⟩
  tail := ⟨buffer 16 [], 0, buffer 64 []⟩

/-- Client 0 sends the command, the others send nothing. -/
def idEnv : ServerEnv where
  endian := .little
  past _ := 0
  clients c := if c = 0 then [(idRequest, ⟨0, 0⟩)] else []
  serverFd := 3

/-- Client 0 gets fd 5, and its request becomes a task. -/
def requestRun : List ServerAction :=
  [.connect, .poll [⟨3, true, false⟩], .accept 5 true, .dispatch,
    .arrive 0 129, .poll [⟨5, true, false⟩], .dispatch, .recv (.upTo 39), .recv (.upTo 1),
    .recv (.upTo 87), .execCmd true, .dispatch]

/-- Client 0 hangs up, and the loop closes fd 5. -/
def hangUpRun : List ServerAction :=
  [.hangUp 0 .closed, .poll [⟨5, true, false⟩], .dispatch, .recv (.upTo 39), .close, .dispatch]

/-- Client 1 is accepted as `fd`, and then a worker answers client 0. -/
def secondClientRun (fd : ℕ) : List ServerAction :=
  [.connect, .poll [⟨3, true, false⟩], .accept fd true, .dispatch,
    .startReply 0 idReply ⟨0, 0⟩, .sendReply 0 (.wrote 40)]

theorem reply_to_requester_fd6 :
    RepliesToRequester (exec (serverSystem idEnv) (Server.init idEnv)
      (requestRun ++ secondClientRun 6)) :=
  reply_to_requester (Reach.exec (.init rfl) (by decide +kernel))

/-- **Misrouted.** Fd 5 is free again, client 1 gets it, and the answer to
client 0 is written to client 1. -/
theorem reply_reaches_another :
    ∃ s, Reachable (serverSystem idEnv) s ∧ ¬ RepliesToRequester s ∧
      ∃ r ∈ s.replies, r.bytes ≠ [] ∧ r.conn = 0 ∧ r.target = 1 := by
  have hmis : ∃ r ∈ (exec (serverSystem idEnv) (Server.init idEnv)
      (requestRun ++ hangUpRun ++ secondClientRun 5)).replies,
      r.bytes ≠ [] ∧ r.conn = 0 ∧ r.target = 1 := by
    decide
  refine ⟨_, Reach.exec (.init rfl) (by decide +kernel), ?_, hmis⟩
  obtain ⟨r, hr, hbytes, hconn, htarget⟩ := hmis
  intro hall
  have hsame := hall r hr hbytes
  rw [hconn, htarget] at hsame
  exact absurd hsame (by decide)

end MyWorkEnv
