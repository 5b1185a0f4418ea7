import MyWorkEnv.MyUtils.Health.Health
import MyWorkEnv.MyUtils.Timer.Timer

/-!
# Starting and stopping the thread

The caller of `Init` and `Exit` and the threads that `Init` creates, step by
step, for the Timer and the Health module at once. `IsRunning` is all that the
two sides tell each other: a thread sets it when it is about to dispatch events
and clears it when it ends, `Init` polls it for a time and then returns in any
case, and `Exit` does nothing while it is not set.

A run in which `Init` never gives up polling has one thread at most, and an
`Exit` that stops it (`startup_delay`). When `Init` does give up, it reports
success all the same: the next `Init` creates a second thread, and an `Exit`
leaves the thread and the memory id as they are.
-/

namespace MyWorkEnv

open EventWorker MemLedger MyMemWorker Transition

inductive EventModule where
  | timer
  | health
deriving DecidableEq

/-- Where a thread stands. `added` has its nodes in the list and is about to set `IsRunning`;
`leaving` is about to clear it. -/
inductive ThreadPc where
  | entered
  | added
  | dispatching
  | leaving
  | ended
deriving DecidableEq

/-- The caller: in no call, in the loop of `Init`, or in `pthread_join`. -/
inductive MainPc where
  | idle
  | waiting (waitTimeUs : ℤ)
  | joining
deriving DecidableEq

/-- `created` threads were created, `eventBase` is the one whose base `EventBase` points to, and
`loopExit` tells the bases that were asked to leave. `id` is what the last `Init` registered,
and `exited` is set since an `Exit` that no `Init` follows. -/
structure Startup where
  worker : EventWorker
  ledger : MemLedger
  thread : ℕ → ThreadPc
  created : ℕ
  eventBase : Option ℕ
  loopExit : ℕ → Bool
  main : MainPc
  id : ℤ
  exited : Bool

/-- `event_base_new` of a thread may fail: then `base` is `false`. -/
inductive StartupAction where
  | init
  | poll
  | own (k : ℕ) (base : Bool) (addrs : List (ℕ × ℕ))
  | run (k : ℕ)
  | returned (k : ℕ)
  | leave (k : ℕ)
  | exit (rounds : ℕ)
  | join

namespace EventModule

def name : EventModule → List UInt8
  | timer => timerName
  | health => healthName

variable (sizeofEvent : Fin (2 ^ 31))

/-- What the thread does before it sets `IsRunning`. -/
def own (m : EventModule) (addrs : List (ℕ × ℕ)) (w : EventWorker) (s : MemLedger) :
    Bool × EventWorker × MemLedger :=
  match m with
  | timer => addOwn Lock.use sizeofMyTimerEventNode sizeofEvent addrs { w with eventListLen := 0 } s
  | health => addOwn id sizeofMyHealthMonitorListNode sizeofEvent addrs w s

/-- All of the thread up to `event_base_dispatch`, or to its end. -/
def thread (m : EventModule) (addrs : List (ℕ × ℕ)) (w : EventWorker) (s : MemLedger) :
    EventWorker × MemLedger :=
  let r := m.own sizeofEvent addrs w s
  ({ r.2.1 with isRunning := r.1 }, r.2.2)

/-- One node, and in the Health module one more for each module that has an interval. -/
def ownCount : EventModule → ℕ → Bool
  | timer, n => n == 1
  | health, n => decide (1 ≤ n) && decide (n ≤ MyModulesEnum.all.length + 1)

end EventModule

/-- `waitTimeUs` -/
def startupWaitTimeUs : ℤ := 10000

/-- `sleepIntervalUs` -/
def startupSleepIntervalUs : ℤ := 10

namespace Startup

variable (m : EventModule) (sizeofEvent : Fin (2 ^ 31))

def goto (s : Startup) (k : ℕ) (pc : ThreadPc) : Startup :=
  { s with thread := Function.update s.thread k pc }

/-- `Init` up to its waiting loop. -/
def init (s : Startup) : Startup :=
  if s.worker.isRunning then { s with exited := false }
  else
    let r := s.worker.create s.ledger m.name 0
    if r.1 ≠ mySuccess then { s with worker := r.2.1, ledger := r.2.2, exited := false }
    else
      { s with
        worker := r.2.1
        ledger := r.2.2
        thread := Function.update s.thread s.created .entered
        created := s.created + 1
        main := .waiting startupWaitTimeUs
        id := r.2.1.memId
        exited := false }

/-- The test of the loop, and its body. -/
def poll (s : Startup) : Startup :=
  match s.main with
  | .waiting waitTimeUs =>
      if !s.worker.isRunning && decide (0 ≤ waitTimeUs) then
        { s with main := .waiting (waitTimeUs - startupSleepIntervalUs) }
      else { s with main := .idle }
  | _ => s

def own (s : Startup) (k : ℕ) (base : Bool) (addrs : List (ℕ × ℕ)) : Startup :=
  if base then
    let r := m.own sizeofEvent addrs s.worker s.ledger
    { s with
      worker := r.2.1
      ledger := r.2.2
      thread := Function.update s.thread k (if r.1 then .added else .leaving)
      eventBase := some k }
  else { s.goto k .leaving with eventBase := none }

def run (s : Startup) (k : ℕ) : Startup :=
  { s.goto k .dispatching with worker := { s.worker with isRunning := true } }

def leave (s : Startup) (k : ℕ) : Startup :=
  { s.goto k .ended with worker := { s.worker with isRunning := false }, eventBase := none }

/-- `Exit` up to `pthread_join`. -/
def exit (s : Startup) (rounds : ℕ) : Startup :=
  if s.worker.isRunning then
    match s.worker.freeList s.ledger rounds with
    | none => s
    | some r =>
        { s with
          worker := r.1
          ledger := r.2
          loopExit := s.eventBase.elim s.loopExit fun k => Function.update s.loopExit k true
          main := .joining }
  else { s with exited := true }

/-- The rest of `Exit`. -/
def join (s : Startup) : Startup :=
  let r := s.worker.exitJoined s.ledger
  { s with worker := r.2.1, ledger := r.2.2, main := .idle, exited := true }

def next (s : Startup) : StartupAction → Startup
  | .init => s.init m
  | .poll => s.poll
  | .own k base addrs => s.own m sizeofEvent k base addrs
  | .run k => s.run k
  | .returned k => s.goto k .leaving
  | .leave k => s.leave k
  | .exit rounds => s.exit rounds
  | .join => s.join

/-- Each `Init` succeeds, and `pthread_join` waits for the thread that was created last. -/
def Enabled (s : Startup) : StartupAction → Prop
  | .init => s.main = .idle ∧
      (s.worker.isRunning = true ∨ (s.worker.create s.ledger m.name 0).1 = mySuccess)
  | .poll => s.main ≠ .idle ∧ s.main ≠ .joining
  | .own k _ addrs => k < s.created ∧ s.thread k = .entered ∧ m.ownCount addrs.length = true ∧
      Fresh s.ledger addrs
  | .run k => k < s.created ∧ s.thread k = .added
  | .returned k => k < s.created ∧ s.thread k = .dispatching ∧ s.loopExit k = true
  | .leave k => k < s.created ∧ s.thread k = .leaving
  | .exit rounds => s.main = .idle ∧
      (s.worker.isRunning = true → (s.worker.freeList s.ledger rounds).isSome = true)
  | .join => s.main = .joining ∧ 0 < s.created ∧ s.thread (s.created - 1) = .ended

instance Enabled.decidable (s : Startup) : ∀ a, Decidable (s.Enabled m a)
  | .init => inferInstanceAs (Decidable (_ ∧ (_ ∨ _)))
  | .poll => inferInstanceAs (Decidable (¬ _ ∧ ¬ _))
  | .own _ _ _ => inferInstanceAs (Decidable (_ ∧ _ ∧ _ ∧ _))
  | .run _ => inferInstanceAs (Decidable (_ ∧ _))
  | .returned _ => inferInstanceAs (Decidable (_ ∧ _ ∧ _))
  | .leave _ => inferInstanceAs (Decidable (_ ∧ _))
  | .exit _ => inferInstanceAs (Decidable (_ ∧ (_ → _)))
  | .join => inferInstanceAs (Decidable (_ ∧ _ ∧ _))

/-- `Init` leaves its loop because the time is up. -/
def givesUp (s : Startup) : Bool :=
  match s.main with
  | .waiting waitTimeUs => !s.worker.isRunning && decide (waitTimeUs < 0)
  | _ => false

def InTime (s : Startup) : StartupAction → Prop
  | .poll => s.givesUp = false
  | _ => True

instance InTime.decidable (s : Startup) : ∀ a, Decidable (s.InTime a)
  | .poll => inferInstanceAs (Decidable (_ = false))
  | .init | .own _ _ _ | .run _ | .returned _ | .leave _ | .exit _ | .join => .isTrue trivial

def Alive (s : Startup) (k : ℕ) : Prop := k < s.created ∧ s.thread k ≠ .ended

end Startup

/-- Before the first `Init`, the memory module in any state. -/
def startupSystem (m : EventModule) (sizeofEvent : Fin (2 ^ 31)) :
    System Startup StartupAction where
  init s := ∃ L ledger, Reachable memLedgerSystem ledger ∧
    s = ⟨.start L, ledger, fun _ => .ended, 0, none, fun _ => false, .idle,
      myMemModuleInvalidId, false⟩
  enabled := Startup.Enabled m
  next := Startup.next m sizeofEvent

instance (m : EventModule) (sizeofEvent : Fin (2 ^ 31)) (s : Startup) (a : StartupAction) :
    Decidable ((startupSystem m sizeofEvent).enabled s a) :=
  inferInstanceAs (Decidable (s.Enabled m a))

/-! ## One thread -/

namespace EventModule

variable {w : EventWorker} {s : MemLedger} {i : Fin myMemModuleMaxNum}
  {others : List LiveBlock} {addrs : List (ℕ × ℕ)}

theorem sizeofMyHealthMonitorListNode_le : sizeofMyHealthMonitorListNode ≤ 0x7fffffff := by
  decide

theorem own_keeps (m : EventModule) (sizeofEvent : Fin (2 ^ 31)) (h : w.Keeps s i [] others) (hlock : w.lock.inited = true)
    (hfresh : Fresh s addrs) :
    ∃ w' s', m.own sizeofEvent addrs w s = (true, w', s') ∧
      w'.Keeps s' i (addrs.map fun p => p.1 + sizeofMemPrefix) others ∧
      w'.isRunning = w.isRunning ∧ w'.lock = w.lock ∧
      s'.mem.worker.inited = s.mem.worker.inited := by
  have hevent := Timer.sizeofEvent_le sizeofEvent
  cases m with
  | timer =>
      have hzero : Keeps { w with eventListLen := 0 } s i [] others := ⟨h.memId, h.ring, h.owns⟩
      obtain ⟨w', s', heq, hkeeps, -, hrunning, hlock', -, hinited⟩ :=
        hzero.addOwn Timer.sizeofMyTimerEventNode_le hevent (Lock.use_of_inited hlock) hfresh
      exact ⟨w', s', heq, hkeeps, hrunning, hlock', hinited⟩
  | health =>
      have hhold : (id : Lock → Lock) w.lock = w.lock := rfl
      obtain ⟨w', s', heq, hkeeps, -, hrunning, hlock', -, hinited⟩ :=
        h.addOwn sizeofMyHealthMonitorListNode_le hevent hhold hfresh
      exact ⟨w', s', heq, hkeeps, hrunning, hlock', hinited⟩

end EventModule

namespace Startup

variable {m : EventModule} {sizeofEvent : Fin (2 ^ 31)} {s : Startup} {k : ℕ}
  {i : Fin myMemModuleMaxNum}

/-- No thread, and no memory id. -/
structure Down (s : Startup) : Prop where
  main : s.main = .idle
  isRunning : s.worker.isRunning = false
  memId : s.worker.memId = myMemModuleInvalidId
  accounts : s.ledger.Accounts
  inited : s.ledger.mem.worker.inited = true
  ended : ∀ j < s.created, s.thread j = .ended
  later : ∀ j, s.created ≤ j → s.loopExit j = false
  unregistered : s.ledger.mem.worker.registeredSlot s.id = none

/-- Thread `k` is the last that was created, and those before it have ended. -/
structure Attended (s : Startup) (k : ℕ) (i : Fin myMemModuleMaxNum) : Prop where
  created : s.created = k + 1
  ended : ∀ j < k, s.thread j = .ended
  later : ∀ j, s.created ≤ j → s.loopExit j = false
  id : s.id = (i : ℕ)
  inited : s.ledger.mem.worker.inited = true
  exited : s.exited = false

/-- While `Init` waits for thread `k`. A thread that does not get to run leaves by itself. -/
structure Starting (s : Startup) (k : ℕ) (i : Fin myMemModuleMaxNum) : Prop where
  attended : s.Attended k i
  main : ∃ waitTimeUs, s.main = .waiting waitTimeUs
  entered : s.thread k = .entered → ∃ others, s.worker.Keeps s.ledger i [] others
  keeps : s.thread k = .added ∨ s.thread k = .dispatching →
    ∃ nodes others, s.worker.Keeps s.ledger i nodes others
  isRunning : s.worker.isRunning = true ↔ s.thread k = .dispatching
  eventBase : s.thread k = .added ∨ s.thread k = .dispatching → s.eventBase = some k
  lock : s.worker.lock.inited = true
  loopExit : s.loopExit k = false

/-- Thread `k` dispatches, and the caller is in no call. -/
structure Up (s : Startup) (k : ℕ) (i : Fin myMemModuleMaxNum) : Prop where
  attended : s.Attended k i
  main : s.main = .idle
  thread : s.thread k = .dispatching
  keeps : ∃ nodes others, s.worker.Keeps s.ledger i nodes others
  isRunning : s.worker.isRunning = true
  eventBase : s.eventBase = some k
  loopExit : s.loopExit k = false

/-- `Exit` waits for thread `k` to end. -/
structure Stopping (s : Startup) (k : ℕ) (i : Fin myMemModuleMaxNum) : Prop where
  attended : s.Attended k i
  main : s.main = .joining
  thread : s.thread k ≠ .entered ∧ s.thread k ≠ .added
  memId : s.worker.memId = (i : ℕ)
  owns : ∃ others, s.ledger.Owns i [] others
  isRunning : s.thread k = .ended → s.worker.isRunning = false

def Sound (s : Startup) : Prop :=
  s.Down ∨ ∃ k i, s.Starting k i ∨ s.Up k i ∨ s.Stopping k i

theorem Attended.eq_of_alive (h : s.Attended k i) {j : ℕ} (hj : s.Alive j) : j = k := by
  obtain ⟨hlt, hne⟩ := hj
  rw [h.created] at hlt
  by_contra hjk
  exact hne (h.ended j (by omega))

theorem Attended.goto (h : s.Attended k i) (pc : ThreadPc) : (s.goto k pc).Attended k i := by
  refine ⟨h.created, fun j hj => ?_, h.later, h.id, h.inited, h.exited⟩
  show Function.update s.thread k pc j = .ended
  rw [Function.update_of_ne (Nat.ne_of_lt hj)]
  exact h.ended j hj

@[simp] theorem goto_self (pc : ThreadPc) : (s.goto k pc).thread k = pc := by
  simp [Startup.goto]

/-! ## The steps of the caller -/

theorem Down.heldSlot (h : s.Down) :
    s.ledger.mem.worker.heldSlot s.worker.memId = none := by
  rw [h.memId]
  exact heldSlot_invalidId

/-- An `Init` that may be called gets its id. -/
theorem Down.create (h : s.Down) (ha : s.Enabled m .init) :
    ∃ (i : Fin myMemModuleMaxNum) (w' : EventWorker) (s' : MemLedger),
      s.worker.create s.ledger m.name 0 = (0, w', s') ∧ w'.Keeps s' i [] s.ledger.live ∧
      w'.isRunning = s.worker.isRunning ∧ w'.lock = s.worker.lock.init ∧
      s'.mem.heap = s.ledger.mem.heap ∧
      s'.mem.worker.inited = s.ledger.mem.worker.inited := by
  have hret : (s.worker.create s.ledger m.name 0).1 = mySuccess := by
    rcases ha.2 with hrunning | hret
    · rw [h.isRunning] at hrunning
      cases hrunning
    · exact hret
  rcases create_cases h.accounts h.heldSlot m.name 0 with
    ⟨r, hr, hcreate⟩ | ⟨i, w', s', hcreate, hkeeps, -, hrunning, hlock, hheap, hinited, -⟩
  · rw [hcreate] at hret
    exact absurd hret hr
  · exact ⟨i, w', s', hcreate, hkeeps, hrunning, hlock, hheap, hinited⟩

/-- `Init` registers an id and creates a thread. -/
theorem Down.init (h : s.Down) (ha : s.Enabled m .init) :
    ∃ k i, (s.init m).Starting k i := by
  obtain ⟨i, w', s', hcreate, hkeeps, hrunning, hlock, -, hinited⟩ := h.create ha
  have hnext : s.init m =
      { s with
        worker := w'
        ledger := s'
        thread := Function.update s.thread s.created .entered
        created := s.created + 1
        main := .waiting startupWaitTimeUs
        id := w'.memId
        exited := false } := by
    rw [Startup.init, h.isRunning, hcreate]
    rfl
  rw [hnext]
  refine ⟨s.created, i, ⟨rfl, fun j hj => ?_, fun j hj => h.later j (Nat.le_of_succ_le hj),
    hkeeps.memId, hinited.trans h.inited, rfl⟩, ⟨_, rfl⟩, fun _ => ⟨_, hkeeps⟩, ?_, ?_, ?_, ?_,
    h.later _ (le_refl _)⟩
  · show Function.update s.thread s.created .entered j = .ended
    rw [Function.update_of_ne (Nat.ne_of_lt hj)]
    exact h.ended j hj
  · simp
  · simp [hrunning, h.isRunning]
  · simp
  · show w'.lock.inited = true
    rw [hlock]
    rfl

theorem Up.init (h : s.Up k i) : (s.init m).Up k i := by
  have hnext : s.init m = { s with exited := false } := by
    rw [Startup.init, h.isRunning]
    rfl
  rw [hnext]
  exact ⟨⟨h.attended.created, h.attended.ended, h.attended.later, h.attended.id,
    h.attended.inited, rfl⟩, h.main,
    h.thread, h.keeps, h.isRunning, h.eventBase, h.loopExit⟩

/-- A poll that does not give up goes on waiting, or finds the thread dispatching. -/
theorem Starting.poll (h : s.Starting k i) (hp : s.givesUp = false) :
    s.poll.Starting k i ∨ s.poll.Up k i := by
  obtain ⟨waitTimeUs, hmain⟩ := h.main
  cases hrunning : s.worker.isRunning with
  | true =>
      have hnext : s.poll = { s with main := .idle } := by
        simp [Startup.poll, hmain, hrunning]
      have hthread := h.isRunning.mp hrunning
      rw [hnext]
      exact .inr ⟨⟨h.attended.created, h.attended.ended, h.attended.later, h.attended.id,
        h.attended.inited, h.attended.exited⟩, rfl, hthread, h.keeps (.inr hthread), hrunning,
        h.eventBase (.inr hthread), h.loopExit⟩
  | false =>
      have hle : 0 ≤ waitTimeUs := by
        simpa [Startup.givesUp, hmain, hrunning] using hp
      have hnext : s.poll =
          { s with main := .waiting (waitTimeUs - startupSleepIntervalUs) } := by
        simp [Startup.poll, hmain, hrunning, hle]
      rw [hnext]
      exact .inl ⟨⟨h.attended.created, h.attended.ended, h.attended.later, h.attended.id,
        h.attended.inited, h.attended.exited⟩, ⟨_, rfl⟩, h.entered, h.keeps, h.isRunning, h.eventBase, h.lock,
        h.loopExit⟩

/-- `Exit` finds the one thread that runs. -/
theorem Up.exit (h : s.Up k i) {rounds : ℕ} (ha : s.Enabled m (.exit rounds)) :
    (s.exit rounds).Stopping k i := by
  obtain ⟨r, hr⟩ := Option.isSome_iff_exists.mp (ha.2 h.isRunning)
  obtain ⟨nodes, others, hkeeps⟩ := h.keeps
  obtain ⟨L, s', rfl, -, howns, -, hinited⟩ := hkeeps.of_freeList hr
  have hnext : s.exit rounds =
      { s with
        worker := { s.worker with links := L, eventListLen := 0, lock := s.worker.lock.use }
        ledger := s'
        loopExit := Function.update s.loopExit k true
        main := .joining } := by
    simp [Startup.exit, h.isRunning, hr, h.eventBase]
  rw [hnext]
  have hlater : ∀ j, s.created ≤ j → Function.update s.loopExit k true j = false := by
    intro j hj
    rw [h.attended.created] at hj
    rw [Function.update_of_ne (by omega)]
    apply h.attended.later
    rw [h.attended.created]
    exact hj
  refine ⟨⟨h.attended.created, h.attended.ended, hlater, h.attended.id,
    hinited.trans h.attended.inited, h.attended.exited⟩, rfl, ?_, hkeeps.memId, ⟨_, howns⟩, ?_⟩
  · simp [h.thread]
  · simp [h.thread]

theorem Down.exit (h : s.Down) (rounds : ℕ) : (s.exit rounds).Down := by
  have hnext : s.exit rounds = { s with exited := true } := by
    rw [Startup.exit, h.isRunning]
    rfl
  rw [hnext]
  exact ⟨h.main, h.isRunning, h.memId, h.accounts, h.inited, h.ended, h.later, h.unregistered⟩

/-- When the thread has ended, the id goes. -/
theorem Stopping.join (h : s.Stopping k i) (ha : s.Enabled m .join) : s.join.Down := by
  have hended : s.thread k = .ended := by
    have hlast := ha.2.2
    rw [h.attended.created] at hlast
    exact hlast
  obtain ⟨others, howns⟩ := h.owns
  obtain ⟨hid, hworker⟩ := howns.unRegister h.attended.inited
  have hnext : s.join =
      { s with
        worker :=
          { s.worker with lock := s.worker.lock.destroy, memId := myMemModuleInvalidId }
        ledger := (s.ledger.unRegister (i : ℕ)).2.1
        main := .idle
        exited := true } := by
    simp [Startup.join, exitJoined, h.memId, hid]
  rw [hnext]
  refine ⟨rfl, h.isRunning hended, rfl, howns.accounts.unRegister _, ?_, ?_, h.attended.later, ?_⟩
  · exact (memUnRegister_inited _ _).trans h.attended.inited
  · intro j hj
    by_cases hjk : j = k
    · rw [hjk]
      exact hended
    · have hlt : j < k + 1 := by
        rw [← h.attended.created]
        exact hj
      exact h.attended.ended j (by omega)
  · show (s.ledger.unRegister (i : ℕ)).2.1.mem.worker.registeredSlot s.id = none
    rw [hworker, h.attended.id, Option.eq_none_iff_forall_ne_some]
    intro j hj
    obtain ⟨hij, hreg⟩ := registeredSlot_eq_some.mp hj
    obtain rfl : i = j := Fin.ext (Nat.cast_inj.mp hij)
    rw [setNode_self] at hreg
    cases hreg

/-! ## The steps of the thread -/

theorem Starting.own (h : s.Starting k i) (hthread : s.thread k = .entered) (base : Bool)
    {addrs : List (ℕ × ℕ)} (hfresh : Fresh s.ledger addrs) :
    (s.own m sizeofEvent k base addrs).Starting k i := by
  have hrunning : s.worker.isRunning = false := by
    rw [Bool.eq_false_iff, ne_eq, h.isRunning, hthread]
    simp
  cases base with
  | false =>
      have hgoto := h.attended.goto .leaving
      have hnext : s.own m sizeofEvent k false addrs =
          { s.goto k .leaving with eventBase := none } := rfl
      rw [hnext]
      refine ⟨⟨hgoto.created, hgoto.ended, hgoto.later, hgoto.id, hgoto.inited, hgoto.exited⟩,
        h.main, ?_, ?_, ?_, ?_, h.lock, h.loopExit⟩
      all_goals simp [Startup.goto, hrunning]
  | true =>
      obtain ⟨others, hkeeps⟩ := h.entered hthread
      obtain ⟨w', s', hown, hkeeps', hrunning', hlock, hinited⟩ :=
        EventModule.own_keeps m sizeofEvent hkeeps h.lock hfresh
      have hgoto := h.attended.goto .added
      have hnext : s.own m sizeofEvent k true addrs =
          { s.goto k .added with worker := w', ledger := s', eventBase := some k } := by
        simp [Startup.own, Startup.goto, hown]
      rw [hnext]
      refine ⟨⟨hgoto.created, hgoto.ended, hgoto.later, hgoto.id, hinited.trans hgoto.inited,
        hgoto.exited⟩, h.main, ?_, fun _ => ⟨_, _, hkeeps'⟩, ?_, fun _ => rfl, ?_, h.loopExit⟩
      · simp [Startup.goto]
      · simp [Startup.goto, hrunning', hrunning]
      · show w'.lock.inited = true
        rw [hlock]
        exact h.lock

theorem Starting.run (h : s.Starting k i) (hthread : s.thread k = .added) :
    (s.run k).Starting k i := by
  have hgoto := h.attended.goto .dispatching
  obtain ⟨nodes, others, hkeeps⟩ := h.keeps (.inl hthread)
  refine ⟨⟨hgoto.created, hgoto.ended, hgoto.later, hgoto.id, hgoto.inited, hgoto.exited⟩,
    h.main, ?_, fun _ => ⟨nodes, others, hkeeps.memId, hkeeps.ring, hkeeps.owns⟩, ?_,
    fun _ => h.eventBase (.inl hthread), h.lock, h.loopExit⟩
  · simp [Startup.run, Startup.goto]
  · simp [Startup.run, Startup.goto]

/-- A thread that could not get its nodes. -/
theorem Starting.leave (h : s.Starting k i) : (s.leave k).Starting k i := by
  have hgoto := h.attended.goto .ended
  refine ⟨⟨hgoto.created, hgoto.ended, hgoto.later, hgoto.id, hgoto.inited, hgoto.exited⟩,
    h.main, ?_, ?_, ?_, ?_, h.lock, h.loopExit⟩
  all_goals simp [Startup.leave, Startup.goto]

theorem Stopping.returned (h : s.Stopping k i) : (s.goto k .leaving).Stopping k i := by
  refine ⟨h.attended.goto _, h.main, ?_, h.memId, h.owns, ?_⟩
  all_goals simp

theorem Stopping.leave (h : s.Stopping k i) : (s.leave k).Stopping k i := by
  have hgoto := h.attended.goto .ended
  refine ⟨⟨hgoto.created, hgoto.ended, hgoto.later, hgoto.id, hgoto.inited, hgoto.exited⟩,
    h.main, ?_, h.memId, h.owns, fun _ => rfl⟩
  simp [Startup.leave, Startup.goto]

/-! ## Every run in time -/

/-- The thread that a step is of, and where it stands. -/
def actor : StartupAction → Option (ℕ × ThreadPc)
  | .own k _ _ => some (k, .entered)
  | .run k => some (k, .added)
  | .returned k => some (k, .dispatching)
  | .leave k => some (k, .leaving)
  | _ => none

theorem alive_of_actor {a : StartupAction} {j : ℕ} {pc : ThreadPc} (ha : s.Enabled m a)
    (hactor : actor a = some (j, pc)) : j < s.created ∧ s.thread j = pc ∧ pc ≠ .ended := by
  cases a with
  | own k base addrs =>
      cases hactor
      exact ⟨ha.1, ha.2.1, by simp⟩
  | run k =>
      cases hactor
      exact ⟨ha.1, ha.2, by simp⟩
  | returned k =>
      cases hactor
      exact ⟨ha.1, ha.2.1, by simp⟩
  | leave k =>
      cases hactor
      exact ⟨ha.1, ha.2, by simp⟩
  | init | poll | exit _ | join => cases hactor

theorem Attended.actor_eq (h : s.Attended k i) {a : StartupAction} {j : ℕ} {pc : ThreadPc}
    (ha : s.Enabled m a) (hactor : actor a = some (j, pc)) : j = k ∧ s.thread k = pc := by
  obtain ⟨hlt, hpc, hne⟩ := alive_of_actor ha hactor
  obtain rfl : j = k := h.eq_of_alive ⟨hlt, by rw [hpc]; exact hne⟩
  exact ⟨rfl, hpc⟩

theorem Down.next (h : s.Down) {a : StartupAction} (ha : s.Enabled m a) :
    (s.next m sizeofEvent a).Sound := by
  have hnone : ∀ j pc, actor a ≠ some (j, pc) := by
    intro j pc hactor
    obtain ⟨hlt, hpc, hne⟩ := alive_of_actor ha hactor
    exact hne (hpc.symm.trans (h.ended j hlt))
  cases a with
  | init =>
      obtain ⟨k, i, hstart⟩ := h.init ha
      exact .inr ⟨k, i, .inl hstart⟩
  | exit rounds => exact .inl (h.exit rounds)
  | poll => exact absurd h.main ha.1
  | join =>
      have hmain := ha.1
      rw [h.main] at hmain
      cases hmain
  | own _ _ _ | run _ | returned _ | leave _ => exact absurd rfl (hnone _ _)

theorem Starting.next (h : s.Starting k i) {a : StartupAction} (ha : s.Enabled m a)
    (hp : s.InTime a) : (s.next m sizeofEvent a).Sound := by
  obtain ⟨waitTimeUs, hmain⟩ := h.main
  cases a with
  | poll =>
      rcases h.poll hp with hwaits | hup
      · exact .inr ⟨k, i, .inl hwaits⟩
      · exact .inr ⟨k, i, .inr (.inl hup)⟩
  | own j base addrs =>
      obtain ⟨rfl, hthread⟩ := h.attended.actor_eq ha rfl
      exact .inr ⟨_, i, .inl (h.own hthread base ha.2.2.2)⟩
  | run j =>
      obtain ⟨rfl, hthread⟩ := h.attended.actor_eq ha rfl
      exact .inr ⟨_, i, .inl (h.run hthread)⟩
  | returned j =>
      obtain ⟨rfl, -⟩ := h.attended.actor_eq ha rfl
      have hloop := ha.2.2
      rw [h.loopExit] at hloop
      cases hloop
  | leave j =>
      obtain ⟨rfl, -⟩ := h.attended.actor_eq ha rfl
      exact .inr ⟨_, i, .inl h.leave⟩
  | init | exit _ | join =>
      have hidle := ha.1
      rw [hmain] at hidle
      cases hidle

theorem Up.next (h : s.Up k i) {a : StartupAction} (ha : s.Enabled m a) :
    (s.next m sizeofEvent a).Sound := by
  cases a with
  | init => exact .inr ⟨k, i, .inr (.inl h.init)⟩
  | exit rounds => exact .inr ⟨k, i, .inr (.inr (h.exit ha))⟩
  | poll => exact absurd h.main ha.1
  | join =>
      have hmain := ha.1
      rw [h.main] at hmain
      cases hmain
  | returned j =>
      obtain ⟨rfl, -⟩ := h.attended.actor_eq ha rfl
      have hloop := ha.2.2
      rw [h.loopExit] at hloop
      cases hloop
  | own _ _ _ | run _ | leave _ =>
      obtain ⟨rfl, hthread⟩ := h.attended.actor_eq ha rfl
      rw [h.thread] at hthread
      cases hthread

theorem Stopping.next (h : s.Stopping k i) {a : StartupAction} (ha : s.Enabled m a) :
    (s.next m sizeofEvent a).Sound := by
  cases a with
  | join => exact .inl (h.join ha)
  | poll => exact absurd h.main ha.2
  | returned j =>
      obtain ⟨rfl, -⟩ := h.attended.actor_eq ha rfl
      exact .inr ⟨_, i, .inr (.inr h.returned)⟩
  | leave j =>
      obtain ⟨rfl, -⟩ := h.attended.actor_eq ha rfl
      exact .inr ⟨_, i, .inr (.inr h.leave)⟩
  | own j base addrs =>
      obtain ⟨rfl, hthread⟩ := h.attended.actor_eq ha rfl
      exact absurd hthread h.thread.1
  | run j =>
      obtain ⟨rfl, hthread⟩ := h.attended.actor_eq ha rfl
      exact absurd hthread h.thread.2
  | init | exit _ =>
      have hidle := ha.1
      rw [h.main] at hidle
      cases hidle

theorem sound_of_reach (h : Reach (startupSystem m sizeofEvent) InTime s) : s.Sound := by
  apply h.invariant (I := Sound)
  · rintro s ⟨L, ledger, hledger, rfl⟩
    obtain ⟨hinited, haccounts⟩ := accounts_of_reach hledger
    refine .inl ⟨rfl, rfl, rfl, haccounts, hinited, fun _ _ => rfl, fun _ _ => rfl, ?_⟩
    rw [Option.eq_none_iff_forall_ne_some]
    intro i hi
    have hid := (registeredSlot_eq_some.mp hi).1
    simp only [myMemModuleInvalidId] at hid
    omega
  · intro s a hs ha hp
    rcases hs with h | ⟨k, i, h | h | h⟩
    · exact h.next ha
    · exact h.next ha hp
    · exact h.next ha
    · exact h.next ha

/-- **In a run in which `Init` never gives up waiting, one thread is alive at most; and after
an `Exit` that returned there is none, and the memory id that `Init` registered is gone.** -/
theorem startup_delay (h : Reach (startupSystem m sizeofEvent) InTime s) :
    (∀ j k, s.Alive j → s.Alive k → j = k) ∧
      (s.exited = true → (∀ k, ¬ s.Alive k) ∧ s.worker.memId = myMemModuleInvalidId ∧
        s.ledger.mem.worker.registeredSlot s.id = none) := by
  have hone : ∀ {k i}, s.Attended k i → (∀ j k, s.Alive j → s.Alive k → j = k) ∧
      (s.exited = true → (∀ k, ¬ s.Alive k) ∧ s.worker.memId = myMemModuleInvalidId ∧
        s.ledger.mem.worker.registeredSlot s.id = none) := by
    intro k i hk
    refine ⟨fun j j' hj hj' => (hk.eq_of_alive hj).trans (hk.eq_of_alive hj').symm, ?_⟩
    intro hexited
    rw [hk.exited] at hexited
    cases hexited
  rcases sound_of_reach h with h | ⟨k, i, h | h | h⟩
  · have hnone : ∀ k, ¬ s.Alive k := fun k hk => hk.2 (h.ended k hk.1)
    exact ⟨fun j _ hj => absurd hj (hnone j), fun _ => ⟨hnone, h.memId, h.unregistered⟩⟩
  · exact hone h.attended
  · exact hone h.attended
  · exact hone h.attended

end Startup

/-! ## A prompt thread -/

theorem timerModuleEntry_eq (sizeofEvent : Fin (2 ^ 31)) (addr : ℕ × ℕ) :
    timerModuleEntry sizeofEvent addr = EventModule.timer.thread sizeofEvent [addr] := rfl

theorem healthModuleEntry_eq (sizeofEvent : Fin (2 ^ 31)) (interval : MyModulesEnum → ℤ)
    (addr : Option MyModulesEnum → ℕ × ℕ) : healthModuleEntry sizeofEvent interval addr =
      EventModule.health.thread sizeofEvent (healthOwn interval addr) := rfl

/-- If the thread sets `IsRunning` before `Init` first looks, the steps come to `moduleInit`. -/
theorem exec_promptThread {m : EventModule} {s : Startup} (h : s.Down) (ha : s.Enabled m .init)
    (sizeofEvent : Fin (2 ^ 31)) {addrs : List (ℕ × ℕ)} (hfresh : Fresh s.ledger addrs) :
    ∃ worker ledger,
      s.worker.moduleInit s.ledger m.name 0 (m.thread sizeofEvent addrs) =
        (mySuccess, worker, ledger) ∧
      exec (startupSystem m sizeofEvent) s
          [.init, .own s.created true addrs, .run s.created, .poll] =
        { s.init m with
          worker := worker
          ledger := ledger
          thread := Function.update s.thread s.created .dispatching
          eventBase := some s.created
          main := .idle } := by
  obtain ⟨i, w', s', hcreate, hkeeps, hrunning, hlock, hheap, -⟩ := h.create ha
  have hlock' : w'.lock.inited = true := by
    rw [hlock]
    rfl
  have hfresh' : Fresh s' addrs := by
    refine ⟨hfresh.1, ?_⟩
    rw [hheap]
    exact hfresh.2
  obtain ⟨w₂, s₂, hown, -, -, -, -⟩ :=
    EventModule.own_keeps m sizeofEvent hkeeps hlock' hfresh'
  have hsuccess : (0 : ℤ) = mySuccess := rfl
  refine ⟨{ w₂ with isRunning := true }, s₂, ?_, ?_⟩
  · simp [EventWorker.moduleInit, h.isRunning, hcreate, ← hsuccess, EventModule.thread, hown]
  · simp [exec, startupSystem, Startup.next, Startup.init, h.isRunning, hcreate, ← hsuccess,
      Startup.own, hown, Startup.run, Startup.goto, Startup.poll]

/-! ## Concrete runs -/

/-- Before the first `Init`, with no other memory in use. -/
def beforeStartup : Startup :=
  ⟨.start ⟨fun a => a, fun a => a⟩, freshLedger, fun _ => .ended, 0, none, fun _ => false, .idle,
    myMemModuleInvalidId, false⟩

theorem beforeStartup_init (m : EventModule) : (startupSystem m 128).init beforeStartup :=
  ⟨_, _, .init ⟨_, rfl, rfl, rfl, rfl⟩, rfl⟩

/-- `Init` with a prompt thread, and `Exit`. -/
def promptStartup : List StartupAction :=
  [.init, .own 0 true [(512, 768)], .run 0, .poll, .exit 2, .returned 0, .leave 0, .join]

theorem startup_delay_run :
    ∃ s : Startup, s.created = 1 ∧ (∀ k, ¬ s.Alive k) ∧
      s.worker.memId = myMemModuleInvalidId ∧
      s.ledger.mem.worker.registeredSlot 1 = none := by
  have hreach : Reach (startupSystem .timer 128) Startup.InTime
      (exec (startupSystem .timer 128) beforeStartup promptStartup) :=
    Reach.exec (.init (beforeStartup_init .timer)) (by decide)
  have hexited : (exec (startupSystem .timer 128) beforeStartup promptStartup).exited = true := by
    decide
  have hid : (exec (startupSystem .timer 128) beforeStartup promptStartup).id = 1 := by
    decide
  obtain ⟨hended, hmemId, hslot⟩ := (Startup.startup_delay hreach).2 hexited
  rw [hid] at hslot
  exact ⟨_, by decide, hended, hmemId, hslot⟩

theorem reach_poll {m : EventModule} {s : Startup} {waitTimeUs : ℤ}
    (h : Reachable (startupSystem m 128) s) (hmain : s.main = .waiting waitTimeUs) :
    Reachable (startupSystem m 128) s.poll := by
  have hpoll : (startupSystem m 128).enabled s .poll := by
    show s.main ≠ .idle ∧ s.main ≠ .joining
    simp [hmain]
  exact h.step hpoll trivial

/-- While the thread does not get to run, `Init` polls until its time is up. -/
theorem reach_polls {m : EventModule} {s : Startup} {waitTimeUs : ℤ} (n : ℕ)
    (hrunning : s.worker.isRunning = false)
    (hn : startupSleepIntervalUs * n ≤ waitTimeUs + startupSleepIntervalUs)
    (h : Reachable (startupSystem m 128) { s with main := .waiting waitTimeUs }) :
    Reachable (startupSystem m 128)
      { s with main := .waiting (waitTimeUs - startupSleepIntervalUs * n) } := by
  induction n with
  | zero => simpa using h
  | succ n ih =>
      simp only [startupSleepIntervalUs] at hn ih ⊢
      have hle : 10 * (n : ℤ) ≤ waitTimeUs := by omega
      have hpoll := reach_poll (ih (by omega)) rfl
      have hnext : Startup.poll { s with main := .waiting (waitTimeUs - 10 * n) } =
          { s with main := .waiting (waitTimeUs - 10 * (n + 1 : ℕ)) } := by
        have htime : waitTimeUs - 10 * n - 10 = waitTimeUs - 10 * (n + 1 : ℕ) := by omega
        rw [← htime]
        simp [Startup.poll, hrunning, hle, startupSleepIntervalUs]
      rw [hnext] at hpoll
      exact hpoll

/-- The first `Init` has given up and returned, before its thread got to run. -/
def gaveUp (m : EventModule) : Startup := { beforeStartup.init m with main := .idle }

theorem gaveUp_reachable (m : EventModule) : Reachable (startupSystem m 128) (gaveUp m) := by
  have hbefore : Reachable (startupSystem m 128) beforeStartup := .init (beforeStartup_init m)
  have hinit : Reachable (startupSystem m 128) (beforeStartup.init m) := by
    refine hbefore.step (a := .init) ?_ trivial
    cases m <;> decide
  have hrunning : (beforeStartup.init m).worker.isRunning = false := by
    cases m <;> decide
  have hmain : beforeStartup.init m =
      { beforeStartup.init m with main := .waiting startupWaitTimeUs } := by
    cases m <;> rfl
  rw [hmain] at hinit
  have hpolls := reach_polls 1001 hrunning (by decide) hinit
  have hlast := reach_poll hpolls rfl
  have hnext : Startup.poll { beforeStartup.init m with
      main := .waiting (startupWaitTimeUs - startupSleepIntervalUs * (1001 : ℕ)) } = gaveUp m := by
    have htime : ¬ 0 ≤ startupWaitTimeUs - startupSleepIntervalUs * (1001 : ℕ) := by decide
    simp only [Startup.poll, hrunning, htime, gaveUp]
    rfl
  rw [hnext] at hlast
  exact hlast

/-- Called again, `Init` creates a second thread; and `Exit` leaves both the thread and the
memory id. -/
theorem second_thread :
    (∃ s : Startup, Reachable (startupSystem .timer 128) s ∧ s.Alive 0 ∧ s.Alive 1) ∧
    (∃ s : Startup, Reachable (startupSystem .health 128) s ∧ s.Alive 0 ∧ s.Alive 1) ∧
    (∃ s : Startup, Reachable (startupSystem .timer 128) s ∧ s.exited = true ∧ s.Alive 0 ∧
      s.worker.memId = 1 ∧ s.ledger.mem.worker.registeredSlot s.id = some 1) := by
  have hagain : ∀ m, ∃ s : Startup, Reachable (startupSystem m 128) s ∧ s.Alive 0 ∧
      s.Alive 1 := by
    intro m
    have hinit : Reachable (startupSystem m 128) ((gaveUp m).init m) := by
      refine (gaveUp_reachable m).step (a := .init) ?_ trivial
      cases m <;> decide
    refine ⟨_, hinit, ?_, ?_⟩
    · cases m <;> exact ⟨by decide, by decide⟩
    · cases m <;> exact ⟨by decide, by decide⟩
  refine ⟨hagain .timer, hagain .health, ?_⟩
  have hexit : Reachable (startupSystem .timer 128) ((gaveUp .timer).exit 1) := by
    refine (gaveUp_reachable .timer).step (a := .exit 1) ?_ trivial
    decide
  exact ⟨_, hexit, by decide, ⟨by decide, by decide⟩, by decide,
    by decide⟩

end MyWorkEnv
