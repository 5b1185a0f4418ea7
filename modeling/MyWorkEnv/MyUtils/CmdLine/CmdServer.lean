import MyWorkEnv.Lib.Transition
import MyWorkEnv.MyUtils.CommonUtil

/-!
# The command server's loop

`_CmdServerWorkerProc` of `myCmdLine.c`, from the end of `_CmdServerInit` to the
end of the thread, against what the kernel may do: what `epoll_wait` reports,
what `accept`, `recv` and the handler return, and what the other threads open
and close. An accepted fd is put into the table `clientFd`, whose length
`clientFdCnt` is never reduced. Fds are closed where an event calls for it, and
those in the table once more at the end. A `recv` that fails takes the process
down: the line that is to be logged then has the `int` `errno` for a `%s`.

Connections are numbered in the order in which they are accepted, which is also
the order of the table.
-/

namespace MyWorkEnv

open Transition

/-- `MY_MAX_CLIENT_NUM_PER_SERVER` -/
abbrev myMaxClientNumPerServer : ℕ := 128

/-- What is open under an fd. -/
inductive FdOwner where
  | server
  | epoll
  | conn (k : ℕ)
  | other
deriving DecidableEq

def FdOwner.isConn : FdOwner → Bool
  | .conn _ => true
  | _ => false

/-- An element of `waitEvents`, and what was open under the fd when it was reported. -/
structure CmdEvent where
  fd : ℤ
  about : FdOwner
  epollIn : Bool
  epollErr : Bool
  epollHup : Bool
deriving DecidableEq

/-- A call of `close`: what it is meant for, and what it closed, if anything. -/
structure CloseCall where
  fd : ℤ
  target : FdOwner
  found : Option FdOwner
deriving DecidableEq

inductive CmdServerPc where
  | whileTest
  | epollWait
  | forEvents (events : List CmdEvent)
  | closeClients (loop : ℕ)
  | closeServerFd
  | closeEpollFd
  | ended
  | crashed
deriving DecidableEq

/-- `exit` is `sg_CmdLineWorker.Exit`. Kept beside the thread's variables are the open fds,
the indices at which `clientFd` was written, the calls of `close`, and what `exit` was when
the loop was left or the process crashed in it. -/
structure CmdServer where
  exit : Bool
  serverFd : ℤ
  epollFd : ℤ
  pc : CmdServerPc
  clientFd : ℕ → ℤ
  clientFdCnt : ℕ
  owner : ℤ → Option FdOwner
  writes : List ℕ
  closes : List CloseCall
  leftWith : Option Bool

inductive CmdServerAction where
  | setExit
  | whileTest
  | epollFails
  | epollTimeout
  | epollEvents (events : List CmdEvent)
  | accept (fd : ℤ)
  | acceptFails
  | handleMsg (ret : ℤ)
  | peerClosed
  | recvFails
  | noInput
  | endFor
  | closeClient
  | closeServerFd
  | closeEpollFd
  | otherOpen (fd : ℤ)
  | otherClose (fd : ℤ)
deriving DecidableEq

namespace CmdServer

/-- The event whose turn it is. -/
def current (s : CmdServer) : Option CmdEvent :=
  match s.pc with
  | .forEvents (e :: _) => some e
  | _ => none

/-- One event for an fd at most, and only for those in the epoll set: the listening one, and
the connections that are open. -/
def reported (s : CmdServer) (events : List CmdEvent) : Bool :=
  decide (events ≠ []) && decide (events.length ≤ 128) &&
    decide (events.map CmdEvent.fd).Nodup &&
    events.all fun e => s.owner e.fd == some e.about && (e.fd == s.serverFd || e.about.isConn)

def guard (s : CmdServer) : CmdServerAction → Bool
  -- the other threads go when the process does
  | .setExit => s.pc != .crashed
  | .whileTest => s.pc == .whileTest
  | .epollFails | .epollTimeout => s.pc == .epollWait
  | .epollEvents events => s.pc == .epollWait && s.reported events
  | .accept fd =>
      s.current.any fun e => e.fd == s.serverFd && s.owner fd == none && decide (0 ≤ fd)
  | .acceptFails => s.current.any fun e => e.fd == s.serverFd
  | .handleMsg _ | .peerClosed | .recvFails =>
      s.current.any fun e => e.fd != s.serverFd && e.epollIn
  | .noInput => s.current.any fun e => e.fd != s.serverFd && !e.epollIn
  | .endFor => s.pc == .forEvents []
  | .closeClient =>
      match s.pc with
      | .closeClients _ => true
      | _ => false
  | .closeServerFd => s.pc == .closeServerFd
  | .closeEpollFd => s.pc == .closeEpollFd
  | .otherOpen fd => s.pc != .crashed && s.owner fd == none && decide (0 ≤ fd)
  | .otherClose fd => s.pc != .crashed && s.owner fd == some .other

/-- `close(fd)`, meant for `target`. -/
def close (s : CmdServer) (target : FdOwner) (fd : ℤ) : CmdServer :=
  { s with
    owner := Function.update s.owner fd none
    closes := s.closes ++ [⟨fd, target, s.owner fd⟩] }

/-- `goto CommonReturn`, or the end of the `while`. -/
def leave (s : CmdServer) : CmdServer :=
  { s with pc := .closeClients 0, leftWith := some s.exit }

/-- `LogErr` with the arguments of `%s` and `%d` exchanged. -/
def crash (s : CmdServer) : CmdServer :=
  { s with pc := .crashed, leftWith := some s.exit }

/-- On to the next event. -/
def nextEvent (s : CmdServer) : CmdServer :=
  match s.pc with
  | .forEvents (_ :: rest) => { s with pc := .forEvents rest }
  | _ => s

def closeEvent (s : CmdServer) : CmdServer :=
  match s.current with
  | some e => (s.close e.about e.fd).nextEvent
  | none => s

def next (s : CmdServer) : CmdServerAction → CmdServer
  | .setExit => { s with exit := true }
  | .whileTest => if s.exit then s.leave else { s with pc := .epollWait }
  | .epollFails => s.leave
  | .epollTimeout => { s with pc := .whileTest }
  | .epollEvents events => { s with pc := .forEvents events }
  | .accept fd =>
      { s with
        clientFd := Function.update s.clientFd s.clientFdCnt fd
        clientFdCnt := s.clientFdCnt + 1
        owner := Function.update s.owner fd (some (.conn s.clientFdCnt))
        writes := s.writes ++ [s.clientFdCnt] }.nextEvent
  | .acceptFails => s.nextEvent
  | .handleMsg ret => if ret ≠ 0 then s.closeEvent else s.nextEvent
  | .peerClosed => s.closeEvent
  | .recvFails => s.crash
  | .noInput =>
      if s.current.any fun e => e.epollErr || e.epollHup then s.closeEvent else s.nextEvent
  | .endFor => { s with pc := .whileTest }
  | .closeClient =>
      match s.pc with
      | .closeClients loop =>
          if loop < s.clientFdCnt then
            { (if 0 < s.clientFd loop then s.close (.conn loop) (s.clientFd loop) else s) with
              pc := .closeClients (loop + 1) }
          else { s with pc := .closeServerFd }
      | _ => s
  | .closeServerFd =>
      { (if 0 < s.serverFd then s.close .server s.serverFd else s) with pc := .closeEpollFd }
  | .closeEpollFd =>
      { (if 0 < s.epollFd then s.close .epoll s.epollFd else s) with pc := .ended }
  | .otherOpen fd => { s with owner := Function.update s.owner fd (some .other) }
  | .otherClose fd => { s with owner := Function.update s.owner fd none }

/-- After `_CmdServerInit` has succeeded; the other threads have what they have open. -/
structure Started (s : CmdServer) : Prop where
  pc : s.pc = .whileTest
  serverFd : 0 < s.serverFd
  epollFd : 0 < s.epollFd
  server : s.owner s.serverFd = some .server
  epoll : s.owner s.epollFd = some .epoll
  others : ∀ fd, fd ≠ s.serverFd → fd ≠ s.epollFd →
    s.owner fd = none ∨ s.owner fd = some .other
  clientFdCnt : s.clientFdCnt = 0
  writes : s.writes = []
  closes : s.closes = []
  leftWith : s.leftWith = none

end CmdServer

open CmdServer

def cmdServerSystem : System CmdServer CmdServerAction where
  init := Started
  enabled s a := s.guard a = true
  next := CmdServer.next

instance (s : CmdServer) (a : CmdServerAction) : Decidable (cmdServerSystem.enabled s a) :=
  inferInstanceAs (Decidable (s.guard a = true))

variable {s : CmdServer} {a : CmdServerAction}

/-! ## What a step changes -/

/-- The event loop is left for `CommonReturn`, with `exit` as it is. -/
def CmdServer.leaves (s : CmdServer) : CmdServerAction → Bool
  | .whileTest => s.exit
  | .epollFails => true
  | _ => false

def CmdServerAction.isAccept : CmdServerAction → Bool
  | .accept _ => true
  | _ => false

namespace CmdServer

@[simp] theorem nextEvent_leftWith (s : CmdServer) : s.nextEvent.leftWith = s.leftWith := by
  unfold nextEvent
  split <;> rfl

@[simp] theorem nextEvent_clientFdCnt (s : CmdServer) :
    s.nextEvent.clientFdCnt = s.clientFdCnt := by
  unfold nextEvent
  split <;> rfl

@[simp] theorem nextEvent_clientFd (s : CmdServer) : s.nextEvent.clientFd = s.clientFd := by
  unfold nextEvent
  split <;> rfl

@[simp] theorem nextEvent_writes (s : CmdServer) : s.nextEvent.writes = s.writes := by
  unfold nextEvent
  split <;> rfl

/-- The table stays as it is. -/
structure Same (s s' : CmdServer) : Prop where
  clientFd : s'.clientFd = s.clientFd
  clientFdCnt : s'.clientFdCnt = s.clientFdCnt
  writes : s'.writes = s.writes

theorem same_closeEvent (s : CmdServer) : Same s s.closeEvent := by
  unfold closeEvent
  cases s.current with
  | none => exact ⟨rfl, rfl, rfl⟩
  | some e => exact ⟨nextEvent_clientFd _, nextEvent_clientFdCnt _, nextEvent_writes _⟩

theorem same_nextEvent (s : CmdServer) : Same s s.nextEvent :=
  ⟨nextEvent_clientFd s, nextEvent_clientFdCnt s, nextEvent_writes s⟩

/-- Only `accept` changes the table. -/
theorem same_next (s : CmdServer) (ha : a.isAccept = false) : Same s (s.next a) := by
  cases a with
  | whileTest =>
      simp only [next]
      split_ifs <;> exact ⟨rfl, rfl, rfl⟩
  | accept fd => cases ha
  | handleMsg ret =>
      simp only [next]
      split_ifs
      · exact s.same_closeEvent
      · exact s.same_nextEvent
  | peerClosed => exact s.same_closeEvent
  | acceptFails => exact s.same_nextEvent
  | noInput =>
      simp only [next]
      split_ifs
      · exact s.same_closeEvent
      · exact s.same_nextEvent
  | closeClient =>
      simp only [next]
      split
      · split_ifs <;> exact ⟨rfl, rfl, rfl⟩
      · exact ⟨rfl, rfl, rfl⟩
  | closeServerFd =>
      simp only [next]
      split_ifs <;> exact ⟨rfl, rfl, rfl⟩
  | closeEpollFd =>
      simp only [next]
      split_ifs <;> exact ⟨rfl, rfl, rfl⟩
  | _ => exact ⟨rfl, rfl, rfl⟩

theorem next_of_leaves (h : s.leaves a = true) : s.next a = s.leave := by
  cases a with
  | whileTest =>
      have hexit : s.exit = true := h
      simp [next, hexit]
  | epollFails => rfl
  | _ => cases h

@[simp] theorem closeEvent_leftWith (s : CmdServer) : s.closeEvent.leftWith = s.leftWith := by
  unfold closeEvent
  cases s.current with
  | none => rfl
  | some e => exact nextEvent_leftWith _

/-- `exit` is noted where the loop is left, and in a crash. -/
theorem next_leftWith (s : CmdServer) (a : CmdServerAction) : (s.next a).leftWith =
    if s.leaves a = true ∨ a = .recvFails then some s.exit else s.leftWith := by
  cases a with
  | whileTest =>
      cases hexit : s.exit <;> simp [next, leaves, leave, hexit]
  | epollFails => rfl
  | recvFails => simp [next, crash]
  | accept fd => simp [next, leaves]
  | acceptFails => simp [next, leaves]
  | handleMsg ret =>
      simp only [next, leaves]
      split_ifs <;> simp_all
  | peerClosed => simp [next, leaves]
  | noInput =>
      simp only [next, leaves]
      split_ifs <;> simp_all
  | closeClient =>
      cases hpc : s.pc with
      | closeClients loop =>
          simp only [next, leaves, hpc]
          split_ifs <;> simp_all [close]
      | _ => simp [next, leaves, hpc]
  | closeServerFd =>
      simp only [next, leaves]
      split_ifs <;> simp_all [close]
  | closeEpollFd =>
      simp only [next, leaves]
      split_ifs <;> simp_all [close]
  | _ => simp [next, leaves]

/-- After a crash there are no steps. -/
theorem not_enabled_of_crashed (h : s.pc = .crashed) (a : CmdServerAction) :
    ¬ cmdServerSystem.enabled s a := by
  have hcurrent : s.current = none := by rw [current, h]
  cases a <;> simp [cmdServerSystem, guard, h, hcurrent]

end CmdServer

/-! ## Leaving the loop -/

/-- The thread is in its loop, or got out of it, in a crash or otherwise, with `exit` set. -/
def CmdServer.LeftByExit (s : CmdServer) : Prop := s.leftWith ≠ some false

/-- `epoll_wait` and `recv` do not fail as long as `exit` is not set. -/
def CmdServer.NoFailure (s : CmdServer) (a : CmdServerAction) : Prop :=
  a = .epollFails ∨ a = .recvFails → s.exit = true

instance (s : CmdServer) (a : CmdServerAction) : Decidable (s.NoFailure a) :=
  inferInstanceAs (Decidable (_ → _))

/-- The table has room for those that are accepted. -/
def CmdServer.TableRoom (s : CmdServer) (a : CmdServerAction) : Prop :=
  a.isAccept = true → s.clientFdCnt < myMaxClientNumPerServer

instance (s : CmdServer) (a : CmdServerAction) : Decidable (s.TableRoom a) :=
  inferInstanceAs (Decidable (_ → _))

theorem leftByExit_next (h : s.LeftByExit) : (s.next a).LeftByExit ↔ s.NoFailure a := by
  rw [LeftByExit, next_leftWith]
  split_ifs with hout
  · -- out of the loop: because of `exit`, or of a failure
    have hexit : some s.exit ≠ some false ↔ s.exit = true := by simp
    rw [hexit, NoFailure]
    constructor
    · exact fun h _ => h
    · intro hsafe
      rcases hout with hleaves | hcrash
      · cases a with
        | whileTest => exact hleaves
        | epollFails => exact hsafe (.inl rfl)
        | _ => cases hleaves
      · exact hsafe (.inr hcrash)
  · refine iff_of_true h ?_
    rintro (rfl | rfl)
    · exact absurd (.inl rfl) hout
    · exact absurd (.inr rfl) hout

/-- Listening on fd `3`, with the epoll instance on `4`, and nothing else open. -/
def idleCmdServer : CmdServer where
  exit := false
  serverFd := 3
  epollFd := 4
  pc := .whileTest
  clientFd := fun _ => 0
  clientFdCnt := 0
  owner := fun fd => if fd = 3 then some .server else if fd = 4 then some .epoll else none
  writes := []
  closes := []
  leftWith := none

theorem idleCmdServer_started : idleCmdServer.Started where
  pc := rfl
  serverFd := by decide
  epollFd := by decide
  server := rfl
  epoll := rfl
  others fd h₁ h₂ := by
    left
    change fd ≠ 3 at h₁
    change fd ≠ 4 at h₂
    simp [idleCmdServer, h₁, h₂]
  clientFdCnt := rfl
  writes := rfl
  closes := rfl
  leftWith := rfl

/-- Somebody connects and gets the fd. -/
def connects (fd : ℤ) : List CmdServerAction :=
  [.whileTest, .epollEvents [⟨3, .server, true, false, false⟩], .accept fd, .endFor]

/-- The `k`-th connection, on this fd, is readable, and what follows. -/
def readable (fd : ℤ) (k : ℕ) (a : CmdServerAction) : List CmdServerAction :=
  [.whileTest, .epollEvents [⟨fd, .conn k, true, false, false⟩], a]

theorem next_clientFdCnt (s : CmdServer) (a : CmdServerAction) :
    (s.next a).clientFdCnt = s.clientFdCnt + a.isAccept.toNat ∧
      (s.next a).writes = s.writes ++ (if a.isAccept then [s.clientFdCnt] else []) := by
  cases haccept : a.isAccept with
  | true =>
      cases a with
      | accept fd => exact ⟨nextEvent_clientFdCnt _, nextEvent_writes _⟩
      | _ => cases haccept
  | false =>
      have hsame := s.same_next haccept
      rw [hsame.clientFdCnt, hsame.writes]
      exact ⟨rfl, (List.append_nil _).symm⟩

/-- The table has one entry for each connection there ever was. -/
theorem exec_writes {s₀ : CmdServer} (hwrites : s₀.writes = List.range s₀.clientFdCnt)
    (as : List CmdServerAction) : (exec cmdServerSystem s₀ as).writes =
      List.range (s₀.clientFdCnt + as.countP CmdServerAction.isAccept) := by
  induction as generalizing s₀ with
  | nil => simpa [exec] using hwrites
  | cons a as ih =>
      obtain ⟨hcnt, hadd⟩ := next_clientFdCnt s₀ a
      have hnext : (s₀.next a).writes = List.range (s₀.next a).clientFdCnt := by
        rw [hadd, hcnt, hwrites]
        cases a.isAccept with
        | false => simp
        | true => simp [List.range_succ]
      refine (ih hnext).trans ?_
      rw [hcnt, List.countP_cons, Nat.add_assoc]
      congr 2
      cases a.isAccept with
      | false => simp
      | true => exact Nat.add_comm 1 _

/-- **All writes to `clientFd` are within the table if and only if at most 128 connections are
accepted in the whole run.** -/
theorem clientFd_in_range_iff {s₀ : CmdServer} (hinit : s₀.Started)
    (as : List CmdServerAction) :
    (∀ i ∈ (exec cmdServerSystem s₀ as).writes, i < myMaxClientNumPerServer) ↔
      as.countP CmdServerAction.isAccept ≤ myMaxClientNumPerServer := by
  have hwrites : s₀.writes = List.range s₀.clientFdCnt := by
    rw [hinit.writes, hinit.clientFdCnt]
    rfl
  rw [exec_writes hwrites, hinit.clientFdCnt, Nat.zero_add]
  simp only [List.mem_range]
  constructor
  · intro h
    by_contra hlt
    exact absurd (h _ (Nat.lt_of_not_le hlt)) (lt_irrefl _)
  · intro hle i hi
    omega

/-- Two clients, one after the other on the same fd. -/
theorem clientFd_in_range_iff_run : ∃ s, Reachable cmdServerSystem s ∧ s.writes = [0, 1] ∧
    ∀ i ∈ s.writes, i < myMaxClientNumPerServer := by
  refine ⟨exec cmdServerSystem idleCmdServer
    (connects 5 ++ readable 5 0 .peerClosed ++ .endFor :: connects 5),
    Reach.exec (.init idleCmdServer_started) (by decide), by decide, ?_⟩
  exact (clientFd_in_range_iff idleCmdServer_started _).mpr (by decide)

/-! One client after the other: there is never more than one connection. -/

namespace CmdServer

/-- The connection is open, under the fd in the table. -/
def live (s : CmdServer) (k : ℕ) : Prop := s.owner (s.clientFd k) = some (.conn k)

instance (s : CmdServer) (k : ℕ) : Decidable (s.live k) :=
  inferInstanceAs (Decidable (_ = _))

def openCount (s : CmdServer) : ℕ := (List.range s.clientFdCnt).countP fun k => s.live k

theorem openCount_le_one {fd : ℤ} (h : ∀ k < s.clientFdCnt, s.clientFd k = fd) :
    s.openCount ≤ 1 := by
  by_cases hlive : ∃ k, s.owner fd = some (.conn k)
  · obtain ⟨k, hk⟩ := hlive
    have hle : s.openCount ≤ (List.range s.clientFdCnt).count k := by
      apply List.countP_mono_left
      intro j hj hlive
      have hfd := h j (List.mem_range.mp hj)
      simp only [live, hfd, hk, Option.some.injEq, FdOwner.conn.injEq, decide_eq_true_eq] at hlive
      simp [hlive]
    exact hle.trans (List.nodup_iff_count_le_one.mp List.nodup_range k)
  · have hzero : s.openCount = 0 := by
      rw [openCount, List.countP_eq_zero]
      intro j hj hopen
      have hfd := h j (List.mem_range.mp hj)
      simp only [live, hfd, decide_eq_true_eq] at hopen
      exact hlive ⟨j, hopen⟩
    omega

end CmdServer

/-- `accept` always gives the same fd. -/
def AcceptsOnly (fd : ℤ) (_ : CmdServer) : CmdServerAction → Prop
  | .accept fd' => fd' = fd
  | _ => True

instance (fd : ℤ) (s : CmdServer) : ∀ a, Decidable (AcceptsOnly fd s a)
  | .accept fd' => inferInstanceAs (Decidable (fd' = fd))
  | .setExit | .whileTest | .epollFails | .epollTimeout | .epollEvents _ | .acceptFails
  | .handleMsg _ | .peerClosed | .recvFails | .noInput | .endFor | .closeClient | .closeServerFd
  | .closeEpollFd | .otherOpen _ | .otherClose _ => .isTrue trivial

theorem next_clientFd (s : CmdServer) (a : CmdServerAction) : (s.next a).clientFd =
    match a with
    | .accept fd => Function.update s.clientFd s.clientFdCnt fd
    | _ => s.clientFd := by
  cases haccept : a.isAccept with
  | true =>
      cases a with
      | accept fd => exact nextEvent_clientFd _
      | _ => cases haccept
  | false =>
      have hsame := (s.same_next haccept).clientFd
      cases a with
      | accept fd => cases haccept
      | _ => exact hsame

theorem openCount_of_reach {fd : ℤ} (h : Reach cmdServerSystem (AcceptsOnly fd) s) :
    s.openCount ≤ 1 := by
  apply openCount_le_one
  refine h.invariant (I := fun s => ∀ k < s.clientFdCnt, s.clientFd k = fd) ?_ ?_
  · intro s hinit k hk
    rw [hinit.clientFdCnt] at hk
    exact absurd hk (Nat.not_lt_zero k)
  · intro s a h _ honly k hk
    change k < (s.next a).clientFdCnt at hk
    change (s.next a).clientFd k = fd
    rw [(next_clientFdCnt s a).1] at hk
    rw [next_clientFd]
    cases a with
    | accept fd' =>
        obtain rfl : fd' = fd := honly
        rcases Nat.lt_succ_iff_lt_or_eq.mp hk with hlt | rfl
        · simp only [Function.update_of_ne hlt.ne]
          exact h k hlt
        · simp
    | _ => exact h k hk

/-- A client connects and closes the connection. -/
def visit (k : ℕ) : List CmdServerAction :=
  connects 5 ++ readable 5 k .peerClosed ++ [.endFor]

/-- The server waits, and fd `5` is free. -/
structure Waiting (k : ℕ) (s : CmdServer) : Prop where
  pc : s.pc = .whileTest
  exit : s.exit = false
  serverFd : s.serverFd = 3
  server : s.owner 3 = some .server
  free : s.owner 5 = none
  clientFdCnt : s.clientFdCnt = k

theorem Waiting.visit {k : ℕ} (h : Waiting k s) :
    Legal cmdServerSystem (AcceptsOnly 5) s (visit k) ∧
      Waiting (k + 1) (exec cmdServerSystem s (MyWorkEnv.visit k)) := by
  obtain ⟨hpc, hexit, hfd, hserver, hfree, hcnt⟩ := h
  constructor
  · simp [MyWorkEnv.visit, connects, readable, Legal, cmdServerSystem, AcceptsOnly,
      CmdServer.guard, next, reported, current, nextEvent, closeEvent, close, FdOwner.isConn, *]
  · constructor <;> simp [MyWorkEnv.visit, connects, readable, exec, cmdServerSystem, next,
      current, nextEvent, closeEvent, close, *]

/-- One visit after the other. -/
def visits (n : ℕ) : List CmdServerAction := (List.range n).flatMap visit

theorem legal_visits (n : ℕ) : Legal cmdServerSystem (AcceptsOnly 5) idleCmdServer (visits n) ∧
    Waiting n (exec cmdServerSystem idleCmdServer (visits n)) := by
  induction n with
  | zero => exact ⟨trivial, rfl, rfl, rfl, rfl, rfl, rfl⟩
  | succ n ih =>
      obtain ⟨hlegal, hwaiting⟩ := ih
      have hvisit := hwaiting.visit
      have hsplit : visits (n + 1) = visits n ++ visit n := by
        simp [visits, List.range_succ]
      rw [hsplit, exec_append]
      exact ⟨hlegal.append hvisit.1, hvisit.2⟩

/-- After 129 such visits, of one connection at a time, an entry was written behind the table. -/
theorem clientFd_out_of_range : ∃ as,
    Legal cmdServerSystem (fun _ _ => True) idleCmdServer as ∧
      Always cmdServerSystem (fun s => s.openCount ≤ 128) idleCmdServer as ∧
      ∃ i ∈ (exec cmdServerSystem idleCmdServer as).writes, ¬ i < myMaxClientNumPerServer := by
  obtain ⟨hlegal, hwaiting⟩ := legal_visits 129
  refine ⟨visits 129, hlegal.mono fun _ _ _ => trivial, ?_, 128, ?_, by decide⟩
  · refine Legal.always ?_ (.init idleCmdServer_started) hlegal
    intro s hs
    exact (openCount_of_reach hs).trans (by decide)
  · have hcount : (visits 129).countP CmdServerAction.isAccept = 129 := by decide +kernel
    rw [exec_writes rfl, hcount]
    decide

end MyWorkEnv
